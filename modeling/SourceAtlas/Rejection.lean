namespace SourceAtlas

def maxProjectIdBytes : Nat := 64

inductive Rejection where
  | emptyProjectId
  | longProjectId (id : String)
  | malformedProjectId (id : String)
  | emptyRepositoryUrl
  | unsupportedRepositoryUrl (url : String)
  | zeroSetting (name : String)
  | emptyPath (name : String)
  deriving DecidableEq, Repr

def Rejection.message : Rejection → String
  | .emptyProjectId => "Project ID is required"
  | .longProjectId id =>
      s!"Project ID is longer than {maxProjectIdBytes} characters: '" ++ id ++ "'"
  | .malformedProjectId id =>
      "Project ID may only contain letters, digits, '-' and '_': '" ++ id ++ "'"
  | .emptyRepositoryUrl => "Git URL is required"
  | .unsupportedRepositoryUrl url => "Unsupported git URL: '" ++ url ++ "'"
  | .zeroSetting name => "Setting '" ++ name ++ "' must be greater than zero"
  | .emptyPath name => "Setting '" ++ name ++ "' cannot be empty"

end SourceAtlas
