import SourceAtlas.Path.Basic
import SourceAtlas.Rejection

namespace SourceAtlas

structure Limits where
  maxArchiveBytes : Nat := 50 * 1024 * 1024
  maxArchiveFiles : Nat := 5000
  maxUncompressedBytes : Nat := 500 * 1024 * 1024
  archiveValidationTimeout : Nat := 10
  maxTreeDepth : Nat := 10
  maxDirEntries : Nat := 50
  maxSourceFiles : Nat := 5000
  maxParseBytes : Nat := 1024 * 1024
  analysisTimeout : Nat := 60
  maxContextFiles : Nat := 5
  contextSnippetChars : Nat := 1200
  deriving DecidableEq, Repr, Inhabited

structure CloneSettings where
  attemptTimeout : Nat := 60
  maxAttempts : Nat := 3
  backoffBase : Nat := 2
  deriving DecidableEq, Repr, Inhabited

structure Settings where
  projectsDir : Path := Path.ofText "projects"
  uploadsDir : Path := Path.ofText "uploads"
  errorLog : Path := Path.ofText "DEBUG_ERROR.txt"
  limits : Limits := {}
  clone : CloneSettings := {}
  maxAgeHours : Nat := 24
  deriving DecidableEq, Repr, Inhabited

namespace Settings

def analysisSuffix : String := "_analysis.json"

def lockSuffix : String := ".lock"

def archiveSuffix : String := ".zip"

def projectDir (s : Settings) (id : String) : Path := s.projectsDir.join (Path.ofText id)

def analysisPath (s : Settings) (id : String) : Path :=
  s.projectsDir.join (Path.ofText (id ++ analysisSuffix))

def uploadPath (s : Settings) (id : String) : Path :=
  s.uploadsDir.join (Path.ofText (id ++ archiveSuffix))

def wordMax : Nat := 18446744073709551615

def maxAgeSeconds (s : Settings) : Nat := min (s.maxAgeHours * 3600) wordMax

def withBase (s : Settings) (base : Path) : Settings :=
  let rebase (p : Path) := if p.isAbsolute then p else base.join p
  { s with
    projectsDir := rebase s.projectsDir
    uploadsDir := rebase s.uploadsDir
    errorLog := rebase s.errorLog }

abbrev Environment := List (String × String)

def override (env : Environment) (name : String) (p : Path) : Path :=
  match env.lookup name with
  | some v => if v.isEmpty then p else Path.ofText v
  | none => p

def withEnvironment (s : Settings) (env : Environment) : Settings :=
  { s with
    projectsDir := override env "CODESIGHT_PROJECTS_DIR" s.projectsDir
    uploadsDir := override env "CODESIGHT_UPLOADS_DIR" s.uploadsDir
    errorLog := override env "CODESIGHT_ERROR_LOG" s.errorLog }

def namedPaths (s : Settings) : List (String × Path) :=
  [("projects_dir", s.projectsDir), ("uploads_dir", s.uploadsDir), ("error_log", s.errorLog)]

def positiveNumbers (s : Settings) : List (String × Nat) :=
  [("limits.max_archive_bytes", s.limits.maxArchiveBytes),
   ("limits.max_archive_files", s.limits.maxArchiveFiles),
   ("limits.max_uncompressed_bytes", s.limits.maxUncompressedBytes),
   ("limits.archive_validation_timeout_secs", s.limits.archiveValidationTimeout),
   ("limits.max_dir_entries", s.limits.maxDirEntries),
   ("limits.max_source_files", s.limits.maxSourceFiles),
   ("limits.max_parse_bytes", s.limits.maxParseBytes),
   ("limits.analysis_timeout_secs", s.limits.analysisTimeout),
   ("limits.max_context_files", s.limits.maxContextFiles),
   ("clone.attempt_timeout_secs", s.clone.attemptTimeout),
   ("clone.max_attempts", s.clone.maxAttempts),
   ("retention.max_age_hours", s.maxAgeHours)]

def rejections (s : Settings) : List Rejection :=
  (s.namedPaths.filter (·.2.isEmpty)).map (fun e => .emptyPath e.1) ++
    (s.positiveNumbers.filter (·.2 == 0)).map (fun e => .zeroSetting e.1)

def rejectionText (rs : List Rejection) : String :=
  "Validation errors: " ++ "; ".intercalate (rs.map Rejection.message)

end Settings

end SourceAtlas
