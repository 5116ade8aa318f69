import SourceAtlas.Path.Basic
import SourceAtlas.Repository.CloneFailure
import SourceAtlas.Text.Quoted

namespace SourceAtlas

/-- A message and the messages it was added to, outermost first. -/
structure Diagnostic where
  text : String
  causes : List String
  deriving DecidableEq, Repr

namespace Diagnostic

def ofText (s : String) : Diagnostic := ⟨s, []⟩

def within (outer : String) (d : Diagnostic) : Diagnostic := ⟨outer, d.text :: d.causes⟩

def chain (d : Diagnostic) : String := ": ".intercalate (d.text :: d.causes)

end Diagnostic

inductive Failure where
  | archiveMissing (path : Path)
  | projectMissing (id : String)
  | analysisMissing (id : String)
  | invalidArchive (reason : String)
  | limitExceeded (reason : String)
  | resourceExhausted (reason : String)
  | cloneFailed (failure : Repository.CloneFailure) (details : String)
  | timedOut (seconds : Nat)
  | invalidInput (reason : String)
  | accessDenied (path : String)
  | alreadyRunning (id : String)
  | internal (d : Diagnostic)
  deriving DecidableEq, Repr

structure Payload where
  error : String
  details : Option String
  deriving DecidableEq, Repr

namespace Failure

def message : Failure → String
  | .archiveMissing path => "ZIP file not found: " ++ path.text
  | .projectMissing id =>
      "Project directory does not exist for '" ++ id ++ "' and no ZIP file was provided"
  | .analysisMissing id => "No analysis stored for project '" ++ id ++ "'"
  | .invalidArchive reason => "Invalid ZIP file: " ++ reason
  | .limitExceeded reason => reason
  | .resourceExhausted reason => reason
  | .cloneFailed failure _ => failure.message
  | .timedOut seconds => "Analysis timed out after " ++ toString seconds ++ " seconds"
  | .invalidInput reason => reason
  | .accessDenied path => "Access denied: " ++ path
  | .alreadyRunning id => "An analysis for project '" ++ id ++ "' is already running"
  | .internal d => d.text

def status : Failure → Nat
  | .invalidArchive _ | .invalidInput _ => 400
  | .accessDenied _ => 403
  | .archiveMissing _ | .projectMissing _ | .analysisMissing _ => 404
  | .alreadyRunning _ => 409
  | .limitExceeded _ => 413
  | .internal _ => 500
  | .cloneFailed .. => 502
  | .timedOut _ => 504
  | .resourceExhausted _ => 507

def isClient (f : Failure) : Bool := 400 ≤ f.status && f.status < 500

def needsUpload : Failure → Bool
  | .archiveMissing _ | .projectMissing _ => true
  | _ => false

def payload (f : Failure) : Payload :=
  match f with
  | .archiveMissing _ | .projectMissing _ =>
      ⟨"Project files not found. Please upload the project again.", some f.message⟩
  | .cloneFailed failure details => ⟨failure.message, some (failure.kind ++ ": " ++ details)⟩
  | .internal d => ⟨"Analysis failed", some d.text⟩
  | _ => ⟨f.message, none⟩

def tag : Failure → String
  | .archiveMissing _ => "NotFound"
  | .projectMissing _ => "ProjectNotFound"
  | .analysisMissing _ => "AnalysisMissing"
  | .invalidArchive _ => "InvalidArchive"
  | .limitExceeded _ => "LimitExceeded"
  | .resourceExhausted _ => "ResourceExhausted"
  | .cloneFailed .. => "CloneFailed"
  | .timedOut _ => "Timeout"
  | .invalidInput _ => "InvalidInput"
  | .accessDenied _ => "AccessDenied"
  | .alreadyRunning _ => "AlreadyRunning"
  | .internal _ => "Internal"

def cloneLabel : Repository.CloneFailure → String
  | .unresolvedHost => "NetworkError"
  | .timedOut => "Timeout"
  | .notFound => "NotFound"
  | .authFailed => "AuthFailed"
  | .connectionReset => "ConnectionReset"
  | .unknown text => "Unknown(" ++ Text.quoted text ++ ")"

def logDetail (f : Failure) : String :=
  let quotedIn (s : String) := f.tag ++ "(" ++ Text.quoted s ++ ")"
  match f with
  | .archiveMissing path => quotedIn path.text
  | .projectMissing s | .analysisMissing s | .invalidArchive s | .limitExceeded s
  | .resourceExhausted s | .invalidInput s | .accessDenied s | .alreadyRunning s => quotedIn s
  | .timedOut seconds => f.tag ++ "(" ++ toString seconds ++ ")"
  | .cloneFailed failure details =>
      f.tag ++ " \x7b failure: " ++ cloneLabel failure ++ ", details: " ++ Text.quoted details ++
        " \x7d"
  | .internal d => quotedIn d.chain

end Failure

inductive CommandFailure where
  | run (f : Failure)
  | plain (d : Diagnostic)
  deriving DecidableEq, Repr

namespace CommandFailure

def payload : CommandFailure → Payload
  | .run f => f.payload
  | .plain d => ⟨d.text, none⟩

def exitCode : CommandFailure → Nat
  | .run f => if f.isClient then 2 else 1
  | .plain _ => 1

end CommandFailure

end SourceAtlas
