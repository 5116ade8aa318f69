namespace SourceAtlas

structure Notice where
  subject : String
  text : String
  deriving DecidableEq, Repr

def Notice.line (n : Notice) : String := n.subject ++ " | " ++ n.text

end SourceAtlas
