namespace SourceAtlas.Run

inductive Stage where
  | initializing
  | materializing
  | buildingTree
  | extractingGraph
  | extractingComponents
  | assembling
  | persisted
  | failed (reason : String)
  deriving DecidableEq, Repr

def Stage.text : Stage → String
  | .initializing => "initializing"
  | .materializing => "materializing"
  | .buildingTree => "building file tree"
  | .extractingGraph => "extracting dependency graph"
  | .extractingComponents => "extracting components"
  | .assembling => "assembling result"
  | .persisted => "persisted"
  | .failed reason => "failed: " ++ reason

end SourceAtlas.Run
