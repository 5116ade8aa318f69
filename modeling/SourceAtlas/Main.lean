import SourceAtlas.Command.Execute
import Std.Time

namespace SourceAtlas.Console

def momentOf (seconds : Int) (nanos : Nat) : Disk.Moment := seconds * 1000000000 + nanos

def placeOf (path : String) : Place := (Path.ofText path).segments.filter (· ≠ "")

def withAncestors (place : Place) (d : Disk) : Disk :=
  (List.range place.length).foldl
    (fun d k =>
      let above := place.take (k + 1)
      if (d.get? above).isSome then d else d.set above ⟨.folder, 0⟩) d

partial def readInto (path : String) (d : Disk) : IO Disk := do
  let here ← IO.currentDir
  let file := here / path
  try
    let info ← file.symlinkMetadata
    let changed := momentOf info.modified.sec info.modified.nsec.toNat
    let place := placeOf path
    match info.type with
    | .dir =>
        let mut d := if place.isEmpty then d else d.set place ⟨.folder, changed⟩
        for entry in ← file.readDir do
          d ← readInto entry.path.toString d
        return d
    | .file =>
        let bytes ← IO.FS.readBinFile file
        let d := d.newFile place bytes true
        return d.set place ⟨.file (d.nextId - 1) bytes true, changed⟩
    | .symlink =>
        let target := (← IO.FS.realPath file).toString
        let d := d.set place ⟨.link (Path.ofText target), changed⟩
        if (d.get? (placeOf target)).isSome then return d else
          readInto target (withAncestors (placeOf target).dropLast d)
    | _ => return d
  catch _ => return d

def foreignLeases (d : Disk) : IO Leases := do
  let mut held := []
  for (place, r) in d.records do
    match r.entry, (place.getLast?.getD "").endsWith Settings.lockSuffix with
    | .file i _ _, true =>
        try
          let handle ← IO.FS.Handle.mk (Disk.pathOf place).text .readWrite
          if ← handle.tryLock then handle.unlock
          else held := ⟨"another process", (Disk.pathOf place).text, i⟩ :: held
        catch _ => pure ()
    | _, _ => pure ()
  return held

def writePlace (before : Disk) (place : Place) (r : Disk.Record) : IO Unit := do
  let path := (Disk.pathOf place).text
  match r.entry, before.get? place with
  | .folder, none => IO.FS.createDirAll path
  | .file i b _, some ⟨.file j _ _, t⟩ =>
      if i ≠ j || r.changed ≠ t then IO.FS.writeBinFile path b
  | .file _ b _, _ => IO.FS.writeBinFile path b
  | _, _ => pure ()

def erasePlace (after : Disk) (place : Place) (r : Disk.Record) : IO Unit := do
  if (after.get? place).isNone && (after.get? place.dropLast).isSome then
    let path := (Disk.pathOf place).text
    match r.entry with
    | .folder => IO.FS.removeDirAll path
    | _ => IO.FS.removeFile path

def writeBack (before after : Disk) : IO Unit := do
  for (place, r) in before.records do erasePlace after place r
  let shallowFirst := after.records.mergeSort fun a b => a.1.length ≤ b.1.length
  for (place, r) in shallowFirst do writePlace before place r

def environmentNames : List String :=
  ["CODESIGHT_PROJECTS_DIR", "CODESIGHT_UPLOADS_DIR", "CODESIGHT_ERROR_LOG", "GITHUB_TOKEN", "PATH"]

def environment : IO Settings.Environment := do
  let mut env := []
  for name in environmentNames do
    if let some v ← IO.getEnv name then env := (name, v) :: env
  return env

def freshId : IO String := do
  let mut groups := []
  for width in [8, 4, 4, 4, 12] do
    let mut digits := []
    for _ in List.range width do
      digits := Json.hexDigit (← IO.rand 0 15) :: digits
    groups := String.ofList digits :: groups
  return "-".intercalate groups

def picture (words : List String) (env : Settings.Environment) : IO Disk := do
  let here := (← IO.currentDir).toString
  let named := (words ++ (env.filter (·.1 ≠ "PATH")).map (·.2)).filter (·.startsWith "/")
  let mut d := { Disk.blank with base := placeOf here }
  for path in here :: named do
    d ← readInto path (withAncestors (placeOf path).dropLast d)
  let t ← Std.Time.Timestamp.now
  return { d with now := t.toNanosecondsSinceUnixEpoch.val }

def run (words : List String) : IO UInt32 := do
  let env ← environment
  let before ← picture words env
  let leases ← foreignLeases before
  let r := Command.run before leases env (← freshId) words
  writeBack before r.disk
  for line in r.remarks do IO.eprintln line
  IO.print r.output
  return r.status.toUInt32

end SourceAtlas.Console

def main (words : List String) : IO UInt32 := SourceAtlas.Console.run words
