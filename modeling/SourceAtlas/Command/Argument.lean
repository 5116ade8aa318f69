import SourceAtlas.Disk.Locate
import SourceAtlas.Failure
import SourceAtlas.Project.Id
import SourceAtlas.Repository.Url

namespace SourceAtlas.Command

inductive ArgumentFault where
  -- Nothing was given, under this name or another that would do.
  | missing (argument : String) (alternatives : List String)
  | invalid (argument value reason : String)
  deriving DecidableEq, Repr

namespace ArgumentFault

def message : ArgumentFault → String
  | .missing argument [] => argument ++ " is required"
  | .missing argument alternatives =>
      "Either " ++ ", ".intercalate alternatives ++ " or " ++ argument ++ " must be provided"
  | .invalid argument value reason =>
      "Invalid value '" ++ value ++ "' for " ++ argument ++ ": " ++ reason

def failure (f : ArgumentFault) : Failure := .invalidInput f.message

end ArgumentFault

abbrev Check := Except Failure Unit

def refuse (f : ArgumentFault) : Check := .error f.failure

def accept (argument value : String) : Except Rejection Unit → Check
  | .ok _ => .ok ()
  | .error r => refuse (.invalid argument value r.message)

def checkProjectId (id : String) : Check := accept "--project-id" id (Project.checkId id)

def checkRepositoryUrl (url : String) : Check :=
  accept "repository URL" url (Repository.checkUrl url)

def isArchiveName (p : Path) : Bool :=
  match p.extension with
  | some e => e.toList.map Char.toLower == "zip".toList
  | none => false

def checkArchive (d : Disk) (p : Path) : Check :=
  if !isArchiveName p then refuse (.invalid "zip" p.text "only .zip archives are accepted")
  else if d.isFile p then .ok ()
  else .error (.archiveMissing p)

def checkRequest (words : List String) : Check :=
  if words.all (fun w => (Text.trim w.toList).isEmpty) then refuse (.missing "feature request" [])
  else .ok ()

def checkMaxAge (hours : Option Nat) : Check :=
  if hours = some 0 then refuse (.invalid "--max-age-hours" "0" "age must be at least one hour")
  else .ok ()

end SourceAtlas.Command
