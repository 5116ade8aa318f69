import SourceAtlas.Archive.Bytes
import SourceAtlas.Archive.Checksum
import SourceAtlas.Archive.OldCharacters
import SourceAtlas.Text.Lossy

namespace SourceAtlas.Archive

/-- Why an archive cannot be read. `cutOff` means that bytes are missing. -/
inductive ReadFault where
  | cutOff
  | invalid (reason : String)
  | unsupported (reason : String)
  | passwordRequired
  | passwordWrong
  deriving DecidableEq, Repr

abbrev Read (α : Type) := Except ReadFault α

def word (b : ByteArray) (i n : Nat) : Read Nat :=
  match word? b i n with
  | some v => .ok v
  | none => .error .cutOff

inductive Method where
  | stored
  | deflated
  | unknown (code : Nat)
  deriving DecidableEq, Repr

def Method.ofCode (n : Nat) : Method :=
  if n = 0 then .stored else if n = 8 then .deflated else .unknown n

def sealedMethod : Method := .unknown 99

structure Entry where
  name : String
  rawName : ByteArray
  system : Nat
  locked : Bool
  method : Method
  checksum : Nat
  packedSize : Nat
  size : Nat
  attributes : Nat
  headerStart : Nat
  -- has a note on strong encryption
  isSealed : Bool

namespace Entry

def isFolder (e : Entry) : Bool :=
  match e.name.toList.getLast? with
  | some c => c == '/' || c == '\\'
  | none => false

def unixSystem : Nat := 3

/-- Only archives made on Unix tell that an entry is a link. -/
def isLink (e : Entry) : Bool :=
  e.attributes ≠ 0 && e.system = unixSystem && e.attributes / 65536 / 4096 = 10

end Entry

def wordMax32 : Nat := 4294967295

structure Note where
  bytes : ByteArray
  pos : Nat
  entry : Entry

def Note.take (t : Note) (n : Nat) : Read (Nat × Note) := do
  return (← word t.bytes t.pos n, { t with pos := t.pos + n })

def Note.skip (t : Note) (n : Nat) : Read Note :=
  if t.pos + n ≤ t.bytes.size then .ok { t with pos := t.pos + n } else .error .cutOff

def longNumber (all : Bool) (short : Nat) (t : Note) : Read (Nat × Note × Nat) := do
  if all || short = wordMax32 then
    let (v, t) ← t.take 8
    return (v, t, 8)
  else return (short, t, 0)

def longSizes (length : Nat) (t : Note) : Read Note := do
  let all := 24 ≤ length
  let (size, t, a) ← longNumber all t.entry.size t
  let (packed, t, b) ← longNumber all t.entry.packedSize t
  let (start, t, c) ← longNumber all t.entry.headerStart t
  if length < a + b + c then throw (.invalid "ZIP64 extra-data field is the wrong length")
  let t := { t with entry := { t.entry with size := size, packedSize := packed, headerStart := start } }
  t.skip (length - (a + b + c))

def fileTimes (length : Nat) (t : Note) : Read Note := do
  if length ≠ 32 then throw (.unsupported "NTFS extra field has an unsupported length")
  let t ← t.skip 4
  let (tag, t) ← t.take 2
  if tag ≠ 1 then throw (.unsupported "NTFS extra field has an unsupported attribute tag")
  let (size, t) ← t.take 2
  if size ≠ 24 then throw (.unsupported "NTFS extra field has an unsupported attribute size")
  t.skip 24

def sealNote (length : Nat) (t : Note) : Read Note := do
  if length ≠ 7 then throw (.unsupported "AES extra data field has an unsupported length")
  let (version, t) ← t.take 2
  let (vendor, t) ← t.take 2
  let (strength, t) ← t.take 1
  let (method, t) ← t.take 2
  if vendor ≠ 0x4541 then throw (.invalid "Invalid AES vendor")
  if version ≠ 1 && version ≠ 2 then throw (.invalid "Invalid AES vendor version")
  if strength = 0 || 3 < strength then throw (.invalid "Invalid AES encryption strength")
  return { t with entry := { t.entry with method := .ofCode method, isSealed := true } }

def unixTimes (length : Nat) (t : Note) : Read Note := do
  let (flags, t) ← t.take 1
  let given := (List.range 8).countP fun k => flags.testBit k
  if length ≠ 5 ∧ length ≠ 1 + 4 * given then
    throw (.unsupported "flags and len don't match in extended timestamp field")
  let times := (if flags % 2 = 1 ∨ length = 5 then 1 else 0) +
    (if flags / 2 % 2 = 1 ∧ 5 < length then 1 else 0) +
    (if flags / 4 % 2 = 1 ∧ 5 < length then 1 else 0)
  t.skip (4 * times)

def unicodeNote (length : Nat) (field : ByteArray) (t : Note) : Read (ByteArray × Note) := do
  let t ← t.skip 1
  let (sum, t) ← t.take 4
  if length < 5 then throw (.invalid "Unicode extra field is too small")
  let text := t.bytes.extract t.pos (t.pos + (length - 5))
  let t ← t.skip (length - 5)
  if checksum field ≠ sum then throw (.invalid "CRC32 checksum failed on Unicode extra field")
  return (text, t)

def utf8Name (raw : ByteArray) : Read String :=
  match String.fromUTF8? raw with
  | some s => .ok s
  | none => .error (.invalid "Invalid UTF-8")

def readNote (comment : ByteArray) (t : Note) : Read Note := do
  let (kind, t) ← t.take 2
  let (length, t) ← t.take 2
  if kind = 0x0001 then longSizes length t
  else if kind = 0x000a then fileTimes length t
  else if kind = 0x9901 then sealNote length t
  else if kind = 0x5455 then unixTimes length t
  else if kind = 0x6375 then
    let (text, t) ← unicodeNote length comment t
    let _ ← utf8Name text
    return t
  else if kind = 0x7075 then
    let (raw, t) ← unicodeNote length t.entry.rawName t
    return { t with entry := { t.entry with name := ← utf8Name raw, rawName := raw } }
  else t.skip length

def readNotes (comment : ByteArray) : (fuel : Nat) → Note → Read Entry
  | 0, t => .ok t.entry
  | n + 1, t =>
      if t.bytes.size ≤ t.pos then .ok t.entry
      else match readNote comment t with
        | .ok u => readNotes comment n u
        | .error .cutOff => .ok t.entry
        | .error e => .error e

def entryMark : Nat := 0x02014b50

def localMark : Nat := 0x04034b50

def endMark : Nat := 0x06054b50

def longEndMark : Nat := 0x06064b50

def locatorMark : Nat := 0x07064b50

def entrySize : Nat := 46

def readEntry (b : ByteArray) (shift i : Nat) : Read (Entry × Nat) := do
  if b.size < i + entrySize then throw .cutOff
  let v (k n : Nat) := wordAt b (i + k) n
  if v 0 4 ≠ entryMark then throw (.invalid "Invalid Central Directory header")
  let nameStop := i + entrySize + v 28 2
  let noteStop := nameStop + v 30 2
  let stop := noteStop + v 32 2
  if b.size < stop then throw .cutOff
  let raw := b.extract (i + entrySize) nameStop
  let flags := v 8 2
  let entry : Entry :=
    { name := if flags.testBit 11 then Text.lossy raw else oldText raw
      rawName := raw
      system := v 4 2 / 256
      locked := flags % 2 = 1
      method := .ofCode (v 10 2)
      checksum := v 16 4
      packedSize := v 20 4
      size := v 24 4
      attributes := v 38 4
      headerStart := v 42 4
      isSealed := false }
  let notes := b.extract nameStop noteStop
  let entry ← readNotes (b.extract noteStop stop) (notes.size + 1) ⟨notes, 0, entry⟩
  if entry.method = sealedMethod && !entry.isSealed then
    throw (.invalid "AES encryption without AES extra data field")
  return ({ entry with headerStart := entry.headerStart + shift }, stop)

structure Summary where
  shift : Nat
  directoryStart : Nat
  count : Nat
  disk : Nat
  directoryDisk : Nat

def readEntries (b : ByteArray) (s : Summary) : (n : Nat) → (i : Nat) → List Entry → Read (List Entry)
  | 0, _, acc => .ok acc.reverse
  | n + 1, i, acc => do
      let (e, j) ← readEntry b s.shift i
      if s.directoryStart ≤ e.headerStart then
        throw (.invalid "A local file entry can't start after the central directory")
      readEntries b s n j (e :: acc)

def endSize : Nat := 22

def locatorSize : Nat := 20

structure EndRecord where
  disk : Nat
  directoryDisk : Nat
  countHere : Nat
  count : Nat
  directoryOffset : Nat
  commentSize : Nat

def readEnd (b : ByteArray) (i : Nat) : Read EndRecord := do
  if b.size < i + endSize then throw .cutOff
  let v (k n : Nat) := wordAt b (i + k) n
  if b.size < i + endSize + v 20 2 then throw .cutOff
  return ⟨v 4 2, v 6 2, v 8 2, v 10 2, v 16 4, v 20 2⟩

def EndRecord.mayBeLong (r : EndRecord) : Bool :=
  r.count = 65535 || r.directoryOffset = wordMax32

def shortSummary (b : ByteArray) (r : EndRecord) (i : Nat) : Read Summary :=
  let summary (shift : Nat) : Summary :=
    ⟨shift, r.directoryOffset + shift, r.countHere, r.disk, r.directoryDisk⟩
  if r.count = 0 then .ok (summary (i - r.directoryOffset))
  else if i ≤ r.directoryOffset then .error (.invalid "Invalid CDFH offset in EOCD")
  else match findForward b entryMark (i - r.directoryOffset) r.directoryOffset with
    | some start => .ok (summary (start - r.directoryOffset))
    | none => .error (.invalid "No CDFH found")

structure Locator where
  start : Nat
  disk : Nat
  offset : Nat
  disks : Nat

def readLocator? (b : ByteArray) (i : Nat) : Option Locator := do
  if i < locatorSize then none
  let start := i - locatorSize
  if wordAt b start 4 ≠ locatorMark then none
  return ⟨start, wordAt b (start + 4) 4, wordAt b (start + 8) 8, wordAt b (start + 16) 4⟩

def readLongEnd (b : ByteArray) (l : Locator) (i : Nat) : Read (Option Summary) := do
  if b.size < i + 56 then throw .cutOff
  let v (k n : Nat) := wordAt b (i + k) n
  let length := l.start - i
  let size := v 4 8
  if size < 44 then throw (.invalid "Low EOCD64 record size")
  if length < size + 12 then throw (.invalid "EOCD64 extends beyond EOCD64 locator")
  if v 20 4 ≠ l.disk then throw (.invalid "Invalid EOCD64: inconsistency with Locator data")
  if size + 12 ≠ length then throw (.invalid "Invalid EOCD64: inconsistent length")
  let count := v 32 8
  let offset := v 48 8
  if i < count * entrySize + offset then
    throw (.invalid "Invalid EOCD64: inconsistent number of files")
  let shift := i - l.offset
  if count < v 24 8 ∨ v 12 2 < v 14 2 then return none
  return some ⟨shift, offset + shift, count, v 16 4, v 20 4⟩

def longSummary (b : ByteArray) (l : Locator) :
    (fuel : Nat) → (i : Nat) → ReadFault → Read (Option Summary)
  | 0, _, fault => .error fault
  | n + 1, i, fault =>
      match findForward b longEndMark (l.start - i) i with
      | none => .error fault
      | some start =>
          match readLongEnd b l start with
          | .ok s => .ok s
          | .error e => longSummary b l n (start + 1) e

def summaryAt (b : ByteArray) (i : Nat) : Read (Option Summary) := do
  let r ← readEnd b i
  match if r.mayBeLong then readLocator? b i else none with
  | none => return some (← shortSummary b r i)
  | some l =>
      if l.start ≤ l.offset then throw (.invalid "Invalid EOCD64 Locator CD offset")
      if 1 < l.disks then throw (.invalid "Multi-disk ZIP files are not supported")
      longSummary b l (b.size + 1) l.offset (.invalid "Could not find EOCD64")

def entriesOf (b : ByteArray) (s : Summary) : Read (List Entry) :=
  if s.disk ≠ s.directoryDisk then
    .error (.unsupported "Support for multi-disk files is not implemented")
  else readEntries b s s.count s.directoryStart []

/-- Of entries with one name the last one counts, in the place of the first. -/
def insertEntry (es : List Entry) (e : Entry) : List Entry :=
  if es.any (·.name = e.name) then es.map fun x => if x.name = e.name then e else x
  else es ++ [e]

def missingEnd : ReadFault := .invalid "Could not find EOCD"

/-- Goes through the end records from the last one on. The first fault found at one counts, but a
directory that cannot be read starts the search anew in front of its end record. -/
def entriesBefore (b : ByteArray) : (fuel : Nat) → (stop : Nat) → Option ReadFault → Read (List Entry)
  | 0, _, fault => .error (fault.getD missingEnd)
  | n + 1, stop, fault =>
      match findBackward b endMark stop with
      | none => .error (fault.getD missingEnd)
      | some i =>
          match summaryAt b i with
          | .error e =>
              match readEnd b i with
              | .error _ => entriesBefore b n i (some (fault.getD e))
              | .ok _ => entriesBefore b n i (some e)
          | .ok none => entriesBefore b n i none
          | .ok (some s) =>
              match entriesOf b s with
              | .ok es => .ok (es.foldl insertEntry [])
              | .error _ => entriesBefore b n i none

def entries (b : ByteArray) : Read (List Entry) := entriesBefore b (b.size + 1) b.size none

def contentStart (b : ByteArray) (e : Entry) : Read Nat := do
  if b.size < e.headerStart + 30 then throw .cutOff
  if wordAt b e.headerStart 4 ≠ localMark then throw (.invalid "Invalid local file header")
  return e.headerStart + 30 + wordAt b (e.headerStart + 26) 2 + wordAt b (e.headerStart + 28) 2

end SourceAtlas.Archive
