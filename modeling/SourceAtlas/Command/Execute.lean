import SourceAtlas.Analysis.Context
import SourceAtlas.Command.Argument
import SourceAtlas.Command.Line
import SourceAtlas.Json.Writer
import SourceAtlas.Repository.Git
import SourceAtlas.Retention
import SourceAtlas.Run.Analyze
import SourceAtlas.Settings.File

namespace SourceAtlas.Command

structure State where
  disk : Disk
  leases : Leases
  -- results
  output : String
  -- lines about what went on
  remarks : List String

abbrev Action := ExceptT CommandFailure (StateM State)

structure Setting where
  settings : Settings
  environment : Settings.Environment
  -- an id for a project that was given none
  freshId : String

def account : String := "command"

namespace Action

variable {α : Type}

def say (text : String) : Action Unit :=
  modify fun s => { s with output := s.output ++ text ++ "\n" }

def remark (line : String) : Action Unit :=
  modify fun s => { s with remarks := s.remarks ++ [line] }

def ofCheck : Except Failure α → Action α
  | .ok a => return a
  | .error f => throw (.run f)

def ofWork (w : Work Diagnostic α) : Action α := do
  let s ← get
  match w.run s.disk with
  | (.ok a, d) => set { s with disk := d }; return a
  | (.error e, d) => set { s with disk := d }; throw (.plain e)

def ofJob (c : Setting) (job : Run.Analyzer Unit → Run.Job Unit α) : Action α := do
  let s ← get
  let a : Run.Analyzer Unit :=
    { settings := c.settings, holder := account
      transport := Repository.systemGit c.environment }
  let (r, w) := (job a).run (.ofDisk s.disk s.leases ())
  set { s with
    disk := w.disk, leases := w.leases, remarks := s.remarks ++ w.notices.map Notice.line }
  match r with
  | .ok a => return a
  | .error f => throw (.run f)

end Action

open SourceAtlas.Command.Action

def validate (c : Setting) (archive : Path) : Action Unit := do
  ofCheck (checkArchive (← get).disk archive)
  let r ← ofCheck (Archive.inspect (← get).disk archive c.settings.limits)
  say (toString r.fileCount)
  remark (archive.text ++ " is valid: " ++ toString r.fileCount ++ " files, " ++
    toString r.unpackedBytes ++ " bytes uncompressed")

def clone (c : Setting) (url : String) (id token : Option String) : Action Unit := do
  ofCheck (checkRepositoryUrl url)
  if let some id := id then ofCheck (checkProjectId id)
  let id := id.getD c.freshId
  let target ← ofJob c fun a => a.clone id url token
  remark ("Cloned into " ++ target.text)
  say id

def archiveFor (d : Disk) (s : Settings) (id : String) (given : Option Path) : Option Path :=
  given.or (if d.isFile (s.uploadPath id) then some (s.uploadPath id) else none)

def publishAt (p : Path) (text : String) : Work Diagnostic Unit := do
  match (Store.publish p text.toUTF8).run (← get) with
  | (.ok _, d) => set d
  | (.error e, d) => set d; throw (e.within ("Failed to write " ++ p.text))

def analyze (c : Setting) (id : String) (archive output : Option Path) : Action Unit := do
  ofCheck (checkProjectId id)
  if let some p := archive then ofCheck (checkArchive (← get).disk p)
  let zip := archiveFor (← get).disk c.settings id archive
  let result ← ofJob c fun a => a.analyze id zip
  let json := result.toJson.indentedText
  match output with
  | none => say json
  | some p =>
      ofWork (publishAt p json)
      remark ("Analysis of " ++ id ++ " written to " ++ p.text ++ " (" ++
        toString result.dependencies.length ++ " files with dependencies, " ++
        toString result.components.length ++ " components)")

def context (c : Setting) (id : String) (request : List String) (json : Bool) : Action Unit := do
  ofCheck (checkProjectId id)
  ofCheck (checkRequest request)
  let d := (← get).disk
  let s := c.settings
  let analysis ← ofCheck (Store.load d s id)
  let (context, warnings) := FeatureContext.build d (s.projectDir id) (" ".intercalate request)
    analysis s.limits.maxContextFiles
  for w in warnings do remark (Notice.line ⟨analysis.projectId, w⟩)
  if json then say context.toJson.indentedText
  else modify fun t =>
    { t with output := t.output ++ context.digest s.limits.contextSnippetChars }

def sweepFolder (c : Setting) (maxAge : Nat) (dir : Path) : Action Nat := do
  let s ← get
  match Retention.sweep s.disk dir maxAge account c.settings.projectsDir s.leases with
  | .error e => throw (.plain e)
  | .ok r =>
      set { s with disk := r.disk, remarks := s.remarks ++ r.notices.map Notice.line }
      return r.removed.length

def cleanup (c : Setting) (hours : Option Nat) : Action Unit := do
  ofCheck (checkMaxAge hours)
  let s := { c.settings with maxAgeHours := hours.getD c.settings.maxAgeHours }
  let inProjects ← sweepFolder c s.maxAgeSeconds s.projectsDir
  let inUploads ← sweepFolder c s.maxAgeSeconds s.uploadsDir
  let removed := inProjects + inUploads
  say (if removed = 0 then "Nothing to clean up"
    else "Removed " ++ toString removed ++ " expired entries")

def execute (c : Setting) : Order → Action Unit
  | .validate archive => validate c archive
  | .clone url id token => clone c url id token
  | .analyze id archive output => analyze c id archive output
  | .context id request json => context c id request json
  | .cleanup hours => cleanup c hours

def invoke (env : Settings.Environment) (freshId : String) (i : Invocation) : Action Unit := do
  match Settings.loadOrDefault (← get).disk (Path.ofText i.config) with
  | .error e => throw (.plain e)
  | .ok s => execute ⟨s.withEnvironment env, env, freshId⟩ i.order

structure Result where
  disk : Disk
  status : Nat
  output : String
  remarks : List String

def versionText : String := "codesight 0.3.0\n"

def usageText : String :=
  "Analyze the structure, dependencies and components of a web project\n\n" ++
    "Usage: codesight [OPTIONS] <COMMAND>\n\nCommands:\n" ++
    "  validate <ZIP>\n  clone <URL> [--project-id <ID>] [--token <TOKEN>]\n" ++
    "  analyze --project-id <ID> [--zip <ZIP>] [--output <FILE>]\n" ++
    "  context --project-id <ID> [--json] <REQUEST>...\n" ++
    "  cleanup [--max-age-hours <HOURS>]\n\nOptions:\n" ++
    "  -c, --config <FILE>\n  -h, --help\n  -V, --version\n"

def payloadJson (p : Payload) : Json.Value :=
  .object (("error", .text p.error) ::
    match p.details with | some t => [("details", .text t)] | none => [])

def misuseStatus : Nat := 2

def run (d : Disk) (leases : Leases) (env : Settings.Environment) (freshId : String)
    (words : List String) : Result :=
  match Invocation.ofWords env words with
  | .error .help => ⟨d, 0, usageText, []⟩
  | .error .version => ⟨d, 0, versionText, []⟩
  | .error .misused => ⟨d, misuseStatus, "", ["error: see codesight --help"]⟩
  | .ok i =>
      let (r, s) := (invoke env freshId i).run ⟨d, leases, "", []⟩
      match r with
      | .ok _ => ⟨s.disk, 0, s.output, s.remarks⟩
      | .error f =>
          ⟨s.disk, f.exitCode, s.output, s.remarks ++ [(payloadJson f.payload).compactText]⟩

end SourceAtlas.Command
