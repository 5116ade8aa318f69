import SourceAtlas.Text.Blank
import SourceAtlas.Text.Case
import SourceAtlas.Text.Search

namespace SourceAtlas.Repository

inductive CloneFailure where
  | unresolvedHost
  | timedOut
  | notFound
  | authFailed
  | connectionReset
  | unknown (text : String)
  deriving DecidableEq, Repr

namespace CloneFailure

def message : CloneFailure → String
  | .unresolvedHost =>
      "Network error: Unable to resolve host. Please check your internet connection and try again."
  | .timedOut =>
      "Clone operation timed out. The repository may be too large. Please try uploading as a ZIP file instead."
  | .notFound =>
      "Repository not found. Please verify the URL and ensure the repository is public."
  | .authFailed => "Authentication failed. Private repositories require a valid access token."
  | .connectionReset =>
      "Network connection failed after multiple attempts. Please check your internet connection and try again."
  | .unknown text => "Failed to clone repository: " ++ text

def kind : CloneFailure → String
  | .unresolvedHost => "NETWORK_ERROR"
  | .timedOut => "TIMEOUT"
  | .notFound => "NOT_FOUND"
  | .authFailed => "AUTH_FAILED"
  | .connectionReset => "CONNECTION_FAILED"
  | .unknown _ => "UNKNOWN"

def isTransient : CloneFailure → Bool
  | .notFound | .authFailed => false
  | _ => true

/-- Phrases looked for in the lower-cased diagnostics, and phrases looked for as they stand. The
first row with a phrase that occurs decides. -/
def signs : List (CloneFailure × List String × List String) :=
  [(.unresolvedHost, ["could not resolve host", "unable to resolve host"], []),
   (.timedOut, ["timeout", "timed out"], []),
   (.notFound, ["repository not found"], ["404"]),
   (.authFailed, ["authentication failed"], ["403"]),
   (.connectionReset, ["connection was reset", "recv failure", "connection reset"], [])]

def shows (lowered plain : List Char) (row : CloneFailure × List String × List String) : Bool :=
  row.2.1.any (fun p => Text.contains p.toList lowered) ||
    row.2.2.any (fun p => Text.contains p.toList plain)

def classify (diagnostics : String) : CloneFailure :=
  let plain := diagnostics.toList
  match signs.find? (shows (Text.lower plain) plain) with
  | some row => row.1
  | none => .unknown (String.ofList (Text.trim plain))

end CloneFailure

end SourceAtlas.Repository
