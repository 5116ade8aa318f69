import SourceAtlas.Disk.Basic

namespace SourceAtlas.Disk

/-- Where a path leads; no record if only the last name is missing. `slash` tells of such a name
that a slash comes after it. -/
structure Spot where
  place : Place
  record : Option Record
  slash : Bool
  deriving Inhabited

def maxLinks : Nat := 40

def maxNameBytes : Nat := 255

/-- Follows names from a folder up to a link, where `turn` takes over. A link in last position is
followed only if `deep` is set or something, if only a slash, comes after it. -/
def walk (d : Disk) (deep : Bool) (turn : Place → List Name → Except Fault Spot) (at_ : Place) :
    List Name → Except Fault Spot
  | [] => .ok ⟨at_, d.get? at_, false⟩
  | n :: rest =>
      if n = "" ∨ n = "." then walk d deep turn at_ rest
      else if n = ".." then walk d deep turn at_.dropLast rest
      else if maxNameBytes < n.utf8ByteSize then .error .nameTooLong
      else
        let here := at_ ++ [n]
        match d.get? here with
        | none =>
            if rest.all (· == "") then .ok ⟨here, none, !rest.isEmpty⟩ else .error .notFound
        | some ⟨.folder, _⟩ => walk d deep turn here rest
        | some ⟨.file i b x, t⟩ =>
            if rest.isEmpty then .ok ⟨here, some ⟨.file i b x, t⟩, false⟩ else .error .notFolder
        | some ⟨.link target, t⟩ =>
            if rest.isEmpty && !deep then .ok ⟨here, some ⟨.link target, t⟩, false⟩
            else turn (if target.isAbsolute then [] else at_) (target.segments ++ rest)

def follow (d : Disk) (deep : Bool) : (links : Nat) → Place → List Name → Except Fault Spot
  | 0 => walk d deep fun _ _ => .error .tooManyLinks
  | k + 1 => walk d deep (follow d deep k)

def start (d : Disk) (p : Path) : Place := if p.isAbsolute then [] else d.base

/-- A relative path leads nowhere once the folder it starts from is gone. -/
def locate (d : Disk) (deep : Bool) (p : Path) : Except Fault Spot :=
  if p.isEmpty then .error .notFound
  else if p.segments.any (fun n => n.toList.contains '\x00') then .error .nulInName
  else match d.get? (d.start p) with
    | some ⟨.folder, _⟩ => d.follow deep maxLinks (d.start p) p.segments
    | _ => .error .notFound

def stat (d : Disk) (p : Path) : Except Fault (Place × Record) := do
  let spot ← d.locate true p
  match spot.record with
  | some r => .ok (spot.place, r)
  | none => .error .notFound

def linkStat (d : Disk) (p : Path) : Except Fault (Place × Record) := do
  let spot ← d.locate false p
  match spot.record with
  | some r => .ok (spot.place, r)
  | none => .error .notFound

def Record.isFolder (r : Record) : Bool := match r.entry with | .folder => true | _ => false

def Record.isFile (r : Record) : Bool := match r.entry with | .file .. => true | _ => false

def Record.isLink (r : Record) : Bool := match r.entry with | .link _ => true | _ => false

def Record.size (r : Record) : Nat := match r.entry with | .file _ b _ => b.size | _ => 0

def exists? (d : Disk) (p : Path) : Bool := (d.stat p).toOption.isSome

def isFile (d : Disk) (p : Path) : Bool :=
  match d.stat p with | .ok (_, r) => r.isFile | .error _ => false

def isFolder (d : Disk) (p : Path) : Bool :=
  match d.stat p with | .ok (_, r) => r.isFolder | .error _ => false

def canonical (d : Disk) (p : Path) : Except Fault Place := (d.stat p).map (·.1)

def pathOf (p : Place) : Path := Path.ofRootNames p

def readBytes (d : Disk) (p : Path) : Except Fault ByteArray := do
  match (← d.stat p).2.entry with
  | .file _ b _ => .ok b
  | _ => .error .isFolder

def textOf (b : ByteArray) : Except Fault String :=
  match String.fromUTF8? b with
  | some s => .ok s
  | none => .error .notText

def readText (d : Disk) (p : Path) : Except Fault String := d.readBytes p >>= textOf

def list (d : Disk) (p : Path) : Except Fault (List (Name × Record)) := do
  let (place, r) ← d.stat p
  if r.isFolder then .ok (d.children place) else .error .notFolder

end SourceAtlas.Disk
