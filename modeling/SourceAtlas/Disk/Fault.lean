namespace SourceAtlas.Disk

inductive Fault where
  | notFound
  | denied
  | exists
  | notFolder
  | isFolder
  | nameTooLong
  | notEmpty
  | tooManyLinks
  | nulInName
  | notText
  | notProgram
  deriving DecidableEq, Repr

def Fault.message : Fault → String
  | .notFound => "No such file or directory (os error 2)"
  | .denied => "Permission denied (os error 13)"
  | .exists => "File exists (os error 17)"
  | .notFolder => "Not a directory (os error 20)"
  | .isFolder => "Is a directory (os error 21)"
  | .nameTooLong => "File name too long (os error 36)"
  | .notEmpty => "Directory not empty (os error 39)"
  | .tooManyLinks => "Too many levels of symbolic links (os error 40)"
  | .nulInName => "file name contained an unexpected NUL byte"
  | .notText => "stream did not contain valid UTF-8"
  | .notProgram => "Exec format error (os error 8)"

end SourceAtlas.Disk
