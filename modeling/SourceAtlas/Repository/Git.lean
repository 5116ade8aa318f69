import SourceAtlas.Repository.Transport
import SourceAtlas.Shell.Eval
import SourceAtlas.Task

namespace SourceAtlas.Repository

def cloneOptions : List String :=
  ["--depth", "1", "-c", "http.version=HTTP/1.1", "-c", "http.postBuffer=524288000", "-c",
   "http.lowSpeedLimit=1000", "-c", "http.lowSpeedTime=60"]

def cloneArguments (r : Request) : List String :=
  "clone" :: cloneOptions ++ ["--", r.url, r.target.text]

def withoutPrompt (env : Settings.Environment) : Settings.Environment :=
  ("GIT_TERMINAL_PROMPT", "0") :: env

def diagnosticsText (b : ByteArray) : String := String.ofList (Text.trim (Text.lossy b).toList)

def systemGit (env : Settings.Environment) : Transport Unit := fun r d _ =>
  match Shell.runNamed d (withoutPrompt env) "git" (cloneArguments r) r.timeout with
  | .error fault => (.error (.because "Failed to execute git clone command" fault), d, ())
  | .ok o =>
      match o.ending with
      | .status 0 => (.ok (), o.disk, ())
      | .overdue =>
          (.error (.ofText ("clone attempt timed out after " ++ toString r.timeout ++ " seconds")),
            o.disk, ())
      | _ => (.error (.ofText (diagnosticsText o.diagnostics)), o.disk, ())

end SourceAtlas.Repository
