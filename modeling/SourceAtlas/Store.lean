import SourceAtlas.Analysis.Result
import SourceAtlas.Settings.Basic
import SourceAtlas.Task
import SourceAtlas.Text.Search

namespace SourceAtlas.Store

def here : Path := Path.ofText "."

def folderOf (p : Path) : Path :=
  match p.parent with
  | some q => if q.isEmpty then here else q
  | none => here

/-- Writes a file that is either there as a whole or, after a failure, not at all. -/
def publish (p : Path) (b : ByteArray) : Work Diagnostic Unit := do
  let folder := folderOf p
  Work.edit (.because ("Failed to create directory " ++ folder.text)) (Disk.makeFolders folder)
  Work.edit (.because ("Failed to write " ++ p.text)) (Disk.replaceBytes p b)

def save (s : Settings) (a : Analysis) : Work Diagnostic Path := do
  let p := s.analysisPath a.projectId
  publish p a.toJson.indentedText.toUTF8
  return p

def load (d : Disk) (s : Settings) (id : String) : Except Failure Analysis :=
  let p := s.analysisPath id
  match d.readBytes p with
  | .error .notFound => .error (.analysisMissing id)
  | .error fault => .error (.internal (.because ("Failed to read " ++ p.text) fault))
  | .ok b =>
      match Analysis.ofBytes? b with
      | some a => .ok a
      | none => .error (.internal (.ofText ("Corrupt analysis file " ++ p.text)))

/-- Line breaks are written out, so that an entry takes one line. -/
def escapeBreaks (s : List Char) : List Char :=
  s.flatMap fun c => if c = '\r' then ['\\', 'r'] else if c = '\n' then ['\\', 'n'] else [c]

theorem not_mem_escapeBreaks (s : List Char) : '\n' ∉ escapeBreaks s ∧ '\r' ∉ escapeBreaks s := by
  induction s with
  | nil => simp [escapeBreaks]
  | cons c r ih =>
      simp only [escapeBreaks, List.flatMap_cons, List.mem_append, not_or] at ih ⊢
      refine ⟨⟨?_, ih.1⟩, ?_, ih.2⟩ <;> split <;> (try split) <;> simp_all [eq_comm]

def logEntry (t : Timestamp) (operation id detail : String) : String :=
  "[" ++ t.text "+00:00" ++ "] " ++ operation ++ " error for " ++ id ++ ": " ++
    String.ofList (escapeBreaks detail.toList) ++ "\n"

def appendLog (log : Path) (operation id detail : String) : Work Diagnostic Unit := do
  if let some folder := log.parent then
    if !folder.isEmpty then
      Work.edit .ofFault (Disk.makeFolders folder)
  let t := Timestamp.ofNanos (← get).now
  Work.edit (.because ("Failed to open error log " ++ log.text))
    (Disk.appendBytes log (logEntry t operation id detail).toUTF8)

def recordFailure (s : Settings) (operation id : String) (f : Failure) : Work Diagnostic Unit :=
  appendLog s.errorLog operation id f.logDetail

end SourceAtlas.Store
