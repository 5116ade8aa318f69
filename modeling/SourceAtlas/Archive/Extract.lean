import SourceAtlas.Archive.Inspect
import SourceAtlas.Task

namespace SourceAtlas.Archive

structure Tally where
  filesWritten : Nat := 0
  entriesSkipped : Nat := 0
  bytesWritten : Nat := 0
  deriving DecidableEq, Repr

def dependencyFolder : Name := "node_modules"

/-- How many names deep a path leads after each step; `none` once it leaves its start. -/
def depthAfter : List Step → Nat → Option Nat
  | [], n => some n
  | .root :: _, _ => none
  | .up :: _, 0 => none
  | .up :: r, n + 1 => depthAfter r n
  | .here :: r, n => depthAfter r n
  | .name _ :: r, n => depthAfter r (n + 1)

theorem depthAfter_of_names (ns : List Name) (n : Nat) :
    depthAfter (ns.map .name) n = some (n + ns.length) := by
  induction ns generalizing n with
  | nil => rfl
  | cons a r ih => simp only [List.map_cons, depthAfter, ih, List.length_cons]; congr 1; omega

def Entry.enclosedPath (e : Entry) : Option Path :=
  let p := Path.ofText e.name
  if e.name.toList.contains '\x00' then none
  else (depthAfter p.steps 0).map fun _ => p

def isInDependencies (p : Path) : Bool := p.steps.contains (.name dependencyFolder)

/-- Where an entry is to be written; none for one that is left out. -/
def Entry.destination (e : Entry) (target : Path) : Option Path :=
  match e.enclosedPath with
  | none => none
  | some p => if e.isLink || isInDependencies p then none else some (target.join p)

def writeEntry (archive out : Path) (maxBytes : Nat) (c : Content) (t : Tally) : Task Tally := do
  if let some folder := out.parent then
    Work.edit (blame archive) (Disk.makeFolders folder)
  let c := c.take (maxBytes - t.bytesWritten + 1)
  Work.edit (blame archive) (Disk.writeBytes out c.bytes)
  if !c.sound then throw (unreadable archive "Invalid checksum")
  let written := t.bytesWritten + c.bytes.size
  if maxBytes < written then
    throw (.resourceExhausted ("ZIP expands beyond the allowed " ++ toString maxBytes ++ " bytes"))
  return { t with filesWritten := t.filesWritten + 1, bytesWritten := written }

def extractEntry (archive target : Path) (maxBytes : Nat) (b : ByteArray) (t : Tally) (e : Entry) :
    Task Tally := do
  let c ← Work.ofExcept (orFailure archive (contentOf b e))
  match e.destination target with
  | none => return { t with entriesSkipped := t.entriesSkipped + 1 }
  | some out =>
      if e.isFolder then
        Work.edit (blame archive) (Disk.makeFolders out)
        return t
      else writeEntry archive out maxBytes c t

def removeDependencies (root : Path) : Disk.Edit Bool := do
  let p := root.child dependencyFolder
  if (← get).isFolder p then
    Disk.removeTree p
    return true
  else return false

def extract (archive target : Path) (maxBytes : Nat) : Task Tally := do
  if !(← get).exists? archive then throw (.archiveMissing archive)
  Work.edit (blame archive) (Disk.makeFolders target)
  let b ← Work.query (blame archive) (·.readBytes archive)
  let es ← Work.ofExcept (orFailure archive (entries b))
  let t ← es.foldlM (extractEntry archive target maxBytes b) {}
  discard (Work.edit (blame archive) (removeDependencies target))
  return t

end SourceAtlas.Archive
