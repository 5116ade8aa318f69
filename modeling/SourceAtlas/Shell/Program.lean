import SourceAtlas.Disk.Locate
import SourceAtlas.Text.Blank
import SourceAtlas.Text.Lossy

namespace SourceAtlas.Shell

def usualSearch : String := "/bin:/usr/bin"

def canRun (d : Disk) (p : Path) : Except Disk.Fault Unit := do
  match (← d.stat p).2.entry with
  | .file _ _ true => .ok ()
  | _ => .error .denied

def findIn (d : Disk) (name : String) : List String → (denied : Bool) → Except Disk.Fault Path
  | [], denied => .error (if denied then .denied else .notFound)
  | folder :: rest, denied =>
      let p := if folder.isEmpty then Path.ofText name else (Path.ofText folder).child name
      match canRun d p with
      | .ok _ => .ok p
      | .error .denied => findIn d name rest true
      | .error _ => findIn d name rest denied

def findProgram (d : Disk) (search name : String) : Except Disk.Fault Path :=
  if name.toList.contains '/' then (canRun d (Path.ofText name)).map fun _ => Path.ofText name
  else findIn d name (search.splitOn ":") false

inductive Form where
  | script (text : List Char)
  | utility (name : String) (leading : List String)
  deriving Repr

def systemFolders : List Place := [["bin"], ["usr", "bin"]]

def shellNames : List String := ["sh", "dash", "bash"]

def systemName? (d : Disk) (p : Path) : Option String :=
  match d.canonical p with
  | .ok place => if systemFolders.contains place.dropLast then place.getLast? else none
  | .error _ => none

def interpreterLine? (s : List Char) : Option (List String) :=
  match s with
  | '#' :: '!' :: r =>
      let line := Text.trim (r.takeWhile (· != '\n'))
      let first := line.takeWhile fun c => !Text.isBlank c
      let second := Text.trim (line.drop first.length)
      some (String.ofList first :: if second.isEmpty then [] else [String.ofList second])
  | _ => none

def formOf (d : Disk) (p : Path) : Except Disk.Fault Form := do
  match systemName? d p with
  | some name => .ok (.utility name [])
  | none =>
      let text := (Text.lossy (← d.readBytes p)).toList
      match interpreterLine? text with
      | none => .error .notProgram
      | some words =>
          let interpreter := Path.ofText (words.headD "")
          canRun d interpreter
          match systemName? d interpreter, words.drop 1 with
          | some "env", [name] =>
              if shellNames.contains name then .ok (.script text)
              else .ok (.utility name [p.text])
          | some name, options =>
              if shellNames.contains name then .ok (.script text)
              else .ok (.utility name (options ++ [p.text]))
          | none, _ => .error .notProgram

end SourceAtlas.Shell
