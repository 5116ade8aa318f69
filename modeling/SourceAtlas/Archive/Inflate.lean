import SourceAtlas.Archive.Bytes

namespace SourceAtlas.Archive

inductive Ending where
  | finished
  | starved
  | corrupt
  deriving DecidableEq, Repr

abbrev Bits (α : Type) := Except Ending (α × Nat)

structure Stream where
  bytes : ByteArray
  -- the number of bytes that belong to the stream
  limit : Nat

namespace Stream

def bit (s : Stream) (i : Nat) : Nat := byteAt s.bytes (i / 8) >>> (i % 8) % 2

def number (s : Stream) (n i : Nat) : Bits Nat :=
  if 8 * s.limit < i + n then .error .starved
  else .ok ((List.range n).foldr (fun k v => s.bit (i + k) + 2 * v) 0, i + n)

end Stream

structure Code where
  counts : Array Nat
  symbols : Array Nat
  deriving Repr

namespace Code

def longest : Nat := 15

def ofLengths (lengths : List Nat) : Code :=
  let at_ (n : Nat) := (lengths.zipIdx.filter (·.1 = n)).map (·.2)
  let groups := (List.range longest).map fun k => at_ (k + 1)
  ⟨(groups.map List.length).toArray, groups.flatten.toArray⟩

def isComplete (c : Code) : Bool :=
  let total := c.counts.foldl (fun t n => 2 * (t + n)) 0
  total = 65536 || c.symbols.size ≤ 1

def readFrom (c : Code) (s : Stream) : List Nat → (word first index i : Nat) → Bits Nat
  | [], _, _, _, _ => .error .corrupt
  | n :: r, word, first, index, i =>
      if 8 * s.limit ≤ i then .error .starved
      else
        let word := word + s.bit i
        if word < first + n then .ok (c.symbols.getD (index + (word - first)) 0, i + 1)
        else readFrom c s r (2 * word) (2 * (first + n)) (index + n) (i + 1)

def read (c : Code) (s : Stream) (i : Nat) : Bits Nat := c.readFrom s c.counts.toList 0 0 0 i

end Code

def lengthBases : Array (Nat × Nat) :=
  #[(3, 0), (4, 0), (5, 0), (6, 0), (7, 0), (8, 0), (9, 0), (10, 0), (11, 1), (13, 1), (15, 1),
    (17, 1), (19, 2), (23, 2), (27, 2), (31, 2), (35, 3), (43, 3), (51, 3), (59, 3), (67, 4),
    (83, 4), (99, 4), (115, 4), (131, 5), (163, 5), (195, 5), (227, 5), (258, 0)]

def distanceBases : Array (Nat × Nat) :=
  #[(1, 0), (2, 0), (3, 0), (4, 0), (5, 1), (7, 1), (9, 2), (13, 2), (17, 3), (25, 3), (33, 4),
    (49, 4), (65, 5), (97, 5), (129, 6), (193, 6), (257, 7), (385, 7), (513, 8), (769, 8),
    (1025, 9), (1537, 9), (2049, 10), (3073, 10), (4097, 11), (6145, 11), (8193, 12), (12289, 12),
    (16385, 13), (24577, 13)]

def based (table : Array (Nat × Nat)) (s : Stream) (symbol i : Nat) : Bits Nat :=
  match table[symbol]? with
  | none => .error .corrupt
  | some (base, extra) => (s.number extra i).map fun x => (base + x.1, x.2)

def repeatBack (distance : Nat) : (n : Nat) → ByteArray → ByteArray
  | 0, out => out
  | n + 1, out =>
      let x := if distance ≤ out.size then byteAt out (out.size - distance) else 0
      repeatBack distance n (out.push x.toUInt8)

structure Unpacking where
  out : ByteArray
  at_ : Nat
  ending : Option Ending

namespace Unpacking

def stop (u : Unpacking) (e : Ending) : Unpacking := { u with ending := some e }

end Unpacking

def copyOf (s : Stream) (distances : Code) (symbol i : Nat) :
    Except Ending ((Nat × Nat) × Nat) := do
  let (length, i) ← based lengthBases s (symbol - 257) i
  let (d, i) ← distances.read s i
  let (distance, i) ← based distanceBases s d i
  return ((length, distance), i)

def readSymbols (s : Stream) (literals distances : Code) : (fuel : Nat) → Unpacking → Unpacking
  | 0, u => u.stop .corrupt
  | n + 1, u =>
      match literals.read s u.at_ with
      | .error e => u.stop e
      | .ok (symbol, i) =>
          if symbol < 256 then readSymbols s literals distances n ⟨u.out.push symbol.toUInt8, i, none⟩
          else if symbol = 256 then ⟨u.out, i, none⟩
          else match copyOf s distances symbol i with
            | .error e => u.stop e
            | .ok ((length, distance), i) =>
                readSymbols s literals distances n ⟨repeatBack distance length u.out, i, none⟩

def fixedLiterals : Code :=
  .ofLengths (List.replicate 144 8 ++ List.replicate 112 9 ++ List.replicate 24 7 ++
    List.replicate 8 8)

def fixedDistances : Code := .ofLengths (List.replicate 32 5)

def lengthOrder : List Nat := [16, 17, 18, 0, 8, 7, 9, 6, 10, 5, 11, 4, 12, 3, 13, 2, 14, 1, 15]

def readMany (s : Stream) (bits : Nat) : (n : Nat) → (i : Nat) → List Nat → Except Ending (List Nat × Nat)
  | 0, i, acc => .ok (acc.reverse, i)
  | n + 1, i, acc => do
      let (v, i) ← s.number bits i
      readMany s bits n i (v :: acc)

def readLengths (s : Stream) (c : Code) (total : Nat) :
    (fuel : Nat) → (i : Nat) → List Nat → Except Ending (List Nat × Nat)
  | 0, _, _ => .error .corrupt
  | n + 1, i, acc =>
      if acc.length = total then .ok (acc.reverse, i)
      else if total < acc.length then .error .corrupt
      else do
        let (symbol, i) ← c.read s i
        if symbol < 16 then readLengths s c total n i (symbol :: acc)
        else if symbol = 16 then
          match acc with
          | [] => .error .corrupt
          | last :: _ =>
              let (k, i) ← s.number 2 i
              readLengths s c total n i (List.replicate (k + 3) last ++ acc)
        else
          let (k, i) ← if symbol = 17 then s.number 3 i else s.number 7 i
          let base := if symbol = 17 then 3 else 11
          readLengths s c total n i (List.replicate (k + base) 0 ++ acc)

def readCodes (s : Stream) (i : Nat) : Except Ending ((Code × Code) × Nat) := do
  let (a, i) ← s.number 5 i
  let (b, i) ← s.number 5 i
  let (k, i) ← s.number 4 i
  let literals := a + 257
  let distances := b + 1
  if 286 < literals ∨ 30 < distances then throw .corrupt
  let (given, i) ← readMany s 3 (k + 4) i []
  let placed := lengthOrder.zip given
  let lengthCode := Code.ofLengths ((List.range 19).map fun n => (placed.lookup n).getD 0)
  if !lengthCode.isComplete then throw .corrupt
  let (ls, i) ← readLengths s lengthCode (literals + distances) (literals + distances + 1) i []
  let first := Code.ofLengths (ls.take literals)
  let second := Code.ofLengths (ls.drop literals)
  if !first.isComplete || !second.isComplete then throw .corrupt
  return ((first, second), i)

def readStored (s : Stream) (u : Unpacking) : Unpacking :=
  let i := (u.at_ + 7) / 8
  if s.limit < i + 4 then u.stop .starved
  else
    let length := wordAt s.bytes i 2
    if length + wordAt s.bytes (i + 2) 2 ≠ 65535 then u.stop .corrupt
    else
      let stop := min (i + 4 + length) s.limit
      let out := u.out ++ s.bytes.extract (i + 4) stop
      if stop < i + 4 + length then ⟨out, 8 * stop, some .starved⟩ else ⟨out, 8 * stop, none⟩

def readBlock (s : Stream) (u : Unpacking) : Unpacking × Bool :=
  match s.number 1 u.at_ with
  | .error e => (u.stop e, true)
  | .ok (final, i) =>
      let last := final == 1
      match s.number 2 i with
      | .error e => (u.stop e, true)
      | .ok (type, i) =>
          let fuel := 8 * s.limit + 1
          let u := { u with at_ := i }
          if type = 0 then (readStored s u, last)
          else if type = 1 then (readSymbols s fixedLiterals fixedDistances fuel u, last)
          else if type = 2 then
            match readCodes s i with
            | .error e => (u.stop e, true)
            | .ok ((literals, distances), i) =>
                (readSymbols s literals distances fuel { u with at_ := i }, last)
          else (u.stop .corrupt, true)

def readBlocks (s : Stream) : (fuel : Nat) → Unpacking → Unpacking
  | 0, u => u.stop .corrupt
  | n + 1, u =>
      match readBlock s u with
      | (u, last) =>
          if u.ending.isSome then u
          else if last then u.stop .finished
          else readBlocks s n u

/-- The size of the window in which a stream is unpacked. Of a window in which a fault is found
nothing comes out. -/
def windowSize : Nat := 32768

structure Inflated where
  out : ByteArray
  ending : Ending

def inflate (s : Stream) : Inflated :=
  let u := readBlocks s (8 * s.limit + 1) ⟨ByteArray.empty, 0, none⟩
  match u.ending with
  | some .corrupt => ⟨u.out.extract 0 (u.out.size / windowSize * windowSize), .corrupt⟩
  | some e => ⟨u.out, e⟩
  | none => ⟨u.out, .finished⟩

end SourceAtlas.Archive
