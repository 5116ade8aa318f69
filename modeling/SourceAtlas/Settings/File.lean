import SourceAtlas.Disk.Edit
import SourceAtlas.Failure
import SourceAtlas.Settings.Basic
import SourceAtlas.Yaml.Node
import SourceAtlas.Yaml.Writer

namespace SourceAtlas.Settings

open Yaml (Node Document)

abbrev Update (α : Type) := Document → Node → α → Option α

def textOf (doc : Document) (n : Node) : Option String :=
  match doc.resolve n with
  | .scalar s _ _ => some (String.ofList s)
  | _ => none

def integerTag : List Char := "tag:yaml.org,2002:int".toList

def numberOf (limit : Nat) (doc : Document) (n : Node) : Option Nat :=
  match doc.resolve n with
  | .scalar s style tag =>
      if style == .plain || (style == .literal && tag == some integerTag) then
        (Yaml.natural? s).bind fun k => if k ≤ limit then some k else none
      else none
  | _ => none

/-- The pairs of a mapping; an empty plain scalar is a mapping without any. -/
def pairsOf (doc : Document) (n : Node) : Option (List (Node × Node)) :=
  match doc.resolve n with
  | .mapping ps => some ps
  | .scalar [] .plain _ => some []
  | _ => none

def number {α : Type} (limit : Nat) (set : Nat → α → α) : Update α :=
  fun doc n a => (numberOf limit doc n).map (set · a)

def path {α : Type} (set : Path → α → α) : Update α :=
  fun doc n a => (textOf doc n).map (fun t => set (Path.ofText t) a)

/-- Applies the pairs in order. A known key may come once, unknown ones are passed over. -/
def applyPairs {α : Type} (fields : List (String × Update α)) (doc : Document) :
    List String → List (Node × Node) → α → Option α
  | _, [], a => some a
  | seen, (k, v) :: r, a => do
      let key ← textOf doc k
      match fields.lookup key with
      | none => applyPairs fields doc seen r a
      | some f =>
          if seen.contains key then none
          else applyPairs fields doc (key :: seen) r (← f doc v a)

def nested {α β : Type} (fields : List (String × Update β)) (init : β) (set : β → α → α) :
    Update α :=
  fun doc n a => do
    let b ← applyPairs fields doc [] (← pairsOf doc n) init
    return set b a

def shortWordMax : Nat := 4294967295

def limitFields : List (String × Update Limits) :=
  [("max_archive_bytes", number wordMax fun n l => { l with maxArchiveBytes := n }),
   ("max_archive_files", number wordMax fun n l => { l with maxArchiveFiles := n }),
   ("max_uncompressed_bytes", number wordMax fun n l => { l with maxUncompressedBytes := n }),
   ("archive_validation_timeout_secs",
     number wordMax fun n l => { l with archiveValidationTimeout := n }),
   ("max_tree_depth", number wordMax fun n l => { l with maxTreeDepth := n }),
   ("max_dir_entries", number wordMax fun n l => { l with maxDirEntries := n }),
   ("max_source_files", number wordMax fun n l => { l with maxSourceFiles := n }),
   ("max_parse_bytes", number wordMax fun n l => { l with maxParseBytes := n }),
   ("analysis_timeout_secs", number wordMax fun n l => { l with analysisTimeout := n }),
   ("max_context_files", number wordMax fun n l => { l with maxContextFiles := n }),
   ("context_snippet_chars", number wordMax fun n l => { l with contextSnippetChars := n })]

def cloneFields : List (String × Update CloneSettings) :=
  [("attempt_timeout_secs", number wordMax fun n c => { c with attemptTimeout := n }),
   ("max_attempts", number shortWordMax fun n c => { c with maxAttempts := n }),
   ("backoff_base_secs", number wordMax fun n c => { c with backoffBase := n })]

def retentionFields : List (String × Update Nat) :=
  [("max_age_hours", number wordMax fun n _ => n)]

def fields : List (String × Update Settings) :=
  [("projects_dir", path fun p s => { s with projectsDir := p }),
   ("uploads_dir", path fun p s => { s with uploadsDir := p }),
   ("error_log", path fun p s => { s with errorLog := p }),
   ("limits", nested limitFields {} fun l s => { s with limits := l }),
   ("clone", nested cloneFields {} fun c s => { s with clone := c }),
   ("retention",
     nested retentionFields (Settings.maxAgeHours {}) fun n s => { s with maxAgeHours := n })]

def ofText? (s : String) : Option Settings := do
  let doc ← Document.ofText? s.toList
  match doc.root with
  | none => some {}
  | some root => applyPairs fields doc [] (← pairsOf doc root) {}

open Yaml (Leaf) in
def limitEntries (l : Limits) : List (String × Leaf) :=
  [("max_archive_bytes", .number l.maxArchiveBytes),
   ("max_archive_files", .number l.maxArchiveFiles),
   ("max_uncompressed_bytes", .number l.maxUncompressedBytes),
   ("archive_validation_timeout_secs", .number l.archiveValidationTimeout),
   ("max_tree_depth", .number l.maxTreeDepth),
   ("max_dir_entries", .number l.maxDirEntries),
   ("max_source_files", .number l.maxSourceFiles),
   ("max_parse_bytes", .number l.maxParseBytes),
   ("analysis_timeout_secs", .number l.analysisTimeout),
   ("max_context_files", .number l.maxContextFiles),
   ("context_snippet_chars", .number l.contextSnippetChars)]

open Yaml (Leaf) in
def cloneEntries (c : CloneSettings) : List (String × Leaf) :=
  [("attempt_timeout_secs", .number c.attemptTimeout),
   ("max_attempts", .number c.maxAttempts),
   ("backoff_base_secs", .number c.backoffBase)]

def toYaml (s : Settings) : List Char :=
  "---\n".toList ++
    s.namedPaths.flatMap (fun e => Yaml.writeEntry 0 (e.1, .text e.2.text.toList)) ++
    Yaml.writeSection "limits" (limitEntries s.limits) ++
    Yaml.writeSection "clone" (cloneEntries s.clone) ++
    Yaml.writeSection "retention" [("max_age_hours", .number s.maxAgeHours)]

def load (d : Disk) (p : Path) : Except Diagnostic Settings :=
  match d.readText p with
  | .error e => .error ⟨"Failed to read settings file " ++ p.text, [e.message]⟩
  | .ok content =>
      match ofText? content with
      | none => .error (.ofText ("Failed to parse settings file " ++ p.text))
      | some s =>
          match s.rejections with
          | [] => .ok s
          | rs => .error (.ofText (rejectionText rs))

def loadOrDefault (d : Disk) (p : Path) : Except Diagnostic Settings :=
  if d.exists? p then load d p else .ok {}

def save (s : Settings) (p : Path) : Disk.Edit Unit :=
  Disk.writeText p (String.ofList s.toYaml)

end SourceAtlas.Settings
