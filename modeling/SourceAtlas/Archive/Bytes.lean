namespace SourceAtlas.Archive

def byteAt (b : ByteArray) (i : Nat) : Nat :=
  if h : i < b.size then (b.get i h).toNat else 0

def wordAt (b : ByteArray) (i : Nat) : (n : Nat) → Nat
  | 0 => 0
  | n + 1 => byteAt b i + 256 * wordAt b (i + 1) n

def word? (b : ByteArray) (i n : Nat) : Option Nat :=
  if i + n ≤ b.size then some (wordAt b i n) else none

def findForward (b : ByteArray) (mark : Nat) : (n : Nat) → (i : Nat) → Option Nat
  | 0, _ => none
  | n + 1, i =>
      if word? b i 4 = some mark then some i else findForward b mark n (i + 1)

def findBackward (b : ByteArray) (mark : Nat) : (n : Nat) → Option Nat
  | 0 => none
  | n + 1 => if word? b n 4 = some mark then some n else findBackward b mark n

end SourceAtlas.Archive
