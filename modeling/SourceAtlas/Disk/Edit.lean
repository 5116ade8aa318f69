import SourceAtlas.Disk.Locate

namespace SourceAtlas.Disk

abbrev Edit := ExceptT Fault (StateM Disk)

def query {α : Type} (f : Disk → Except Fault α) : Edit α := do
  match f (← get) with
  | .ok a => pure a
  | .error e => throw e

def touch (d : Disk) (p : Place) : Disk :=
  match d.get? p with
  | some r => if p.isEmpty then d else d.set p { r with changed := d.now }
  | none => d

def put (d : Disk) (p : Place) (e : Entry) : Disk :=
  (d.set p ⟨e, d.now⟩).touch p.dropLast

def drop (d : Disk) (p : Place) : Disk := (d.erase p).touch p.dropLast

def newFile (d : Disk) (p : Place) (b : ByteArray) (runnable : Bool) : Disk :=
  { d.put p (.file d.nextId b runnable) with nextId := d.nextId + 1 }

def makeFolder (p : Path) : Edit Unit := do
  let spot ← query (·.locate false p)
  match spot.record with
  | some _ => throw .exists
  | none => modify (·.put spot.place .folder)

/-- Makes one folder; `missing` says what to do when the folder around it is not there. -/
def makeOr (p : Path) (missing : Edit Unit) : Edit Unit := do
  let d ← get
  match (makeFolder p).run d with
  | (.ok _, d') => modify fun _ => d'
  | (.error .notFound, _) => missing
  | (.error e, _) => if d.isFolder p then pure () else throw e

def makeFolders (p : Path) : Edit Unit :=
  if p.isEmpty then pure () else go p.segments.length p
where
  go : Nat → Path → Edit Unit
    | 0, p => makeOr p (throw .notFound)
    | k + 1, p => makeOr p do
        match p.parent with
        | some q => if q.isEmpty then pure () else go k q
        | none => throw .notFound
        makeOr p (throw .notFound)

/-- Changes what a file holds; `none` leaves it as it is. Of a file with two names only the one would
change, so a disk has each file under one name. -/
def refill (d : Disk) (p : Place) (id : Nat) (runnable : Bool) : Option ByteArray → Disk
  | some b => d.set p ⟨.file id b runnable, d.now⟩
  | none => d

/-- Opens a file and changes what it holds. A missing file is made, and is empty at first. Answers the
id, which an existing file keeps. -/
def openWith (change : ByteArray → Option ByteArray) (p : Path) : Edit Nat := do
  let spot ← query (·.locate true p)
  match spot.record with
  | some ⟨.file i old x, _⟩ =>
      modify (·.refill spot.place i x (change old))
      return i
  | some _ => throw .isFolder
  | none =>
      if spot.slash then throw .isFolder
      else
        let i := (← get).nextId
        modify (·.newFile spot.place ((change .empty).getD .empty) false)
        return i

def writeBytes (p : Path) (b : ByteArray) : Edit Unit := discard (openWith (fun _ => some b) p)

def writeText (p : Path) (s : String) : Edit Unit := writeBytes p s.toUTF8

def appendBytes (p : Path) (b : ByteArray) : Edit Unit :=
  discard (openWith (fun old => some (old ++ b)) p)

def openFile (p : Path) : Edit Nat := openWith (fun _ => none) p

/-- Puts a finished file in the place of whatever is there; a link there is replaced, not
followed. -/
def replaceBytes (p : Path) (b : ByteArray) : Edit Unit := do
  let spot ← query (·.locate false p)
  match spot.record with
  | some ⟨.folder, _⟩ => throw .isFolder
  | some _ => modify fun d => d.newFile spot.place b false
  | none =>
      if spot.slash then throw .notFolder
      else modify (·.newFile spot.place b false)

/-- Takes away what a path leads to, with all that is in it; of a link only the link. -/
def removeUnless (isRefused : Record → Bool) (fault : Fault) (p : Path) : Edit Unit := do
  let (place, r) ← query (·.linkStat p)
  if isRefused r then throw fault else modify (·.drop place)

def removeFile (p : Path) : Edit Unit := removeUnless Record.isFolder .isFolder p

def removeTree (p : Path) : Edit Unit := removeUnless Record.isFile .notFolder p

def emptyFolder (p : Path) : Edit Unit := do
  if (← get).exists? p then
    let place ← query (·.canonical p)
    let inside ← query (·.list p)
    inside.forM fun x => modify (·.drop (place ++ [x.1]))
  else makeFolders p

end SourceAtlas.Disk
