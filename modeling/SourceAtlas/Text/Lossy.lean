namespace SourceAtlas.Text

def replacement : Char := '\uFFFD'

def leadOf (b : UInt8) : Option (Nat × UInt8 × UInt8) :=
  if b < 0x80 then some (1, 0, 0)
  else if 0xC2 ≤ b && b ≤ 0xDF then some (2, 0x80, 0xBF)
  else if b == 0xE0 then some (3, 0xA0, 0xBF)
  else if b == 0xED then some (3, 0x80, 0x9F)
  else if 0xE1 ≤ b && b ≤ 0xEF then some (3, 0x80, 0xBF)
  else if b == 0xF0 then some (4, 0x90, 0xBF)
  else if 0xF1 ≤ b && b ≤ 0xF3 then some (4, 0x80, 0xBF)
  else if b == 0xF4 then some (4, 0x80, 0x8F)
  else none

def trailBits (b : UInt8) : Nat := b.toNat % 64

def trails (lo hi : UInt8) : (n : Nat) → List UInt8 → List UInt8
  | 0, _ => []
  | _, [] => []
  | n + 1, b :: r => if lo ≤ b && b ≤ hi then b :: trails 0x80 0xBF n r else []

def firstOf (b : UInt8) (r : List UInt8) : Char × Nat :=
  match leadOf b with
  | none => (replacement, 1)
  | some (n, lo, hi) =>
      let more := trails lo hi (n - 1) r
      if more.length + 1 < n then (replacement, more.length + 1)
      else
        let lead := if n = 1 then b.toNat else b.toNat % Nat.pow 2 (7 - n)
        (Char.ofNat (more.foldl (fun v x => v * 64 + trailBits x) lead), n)

def lossyFrom : (fuel : Nat) → List UInt8 → List Char
  | 0, _ => []
  | _, [] => []
  | n + 1, b :: r =>
      let (c, k) := firstOf b r
      c :: lossyFrom n (r.drop (k - 1))

def lossy (b : ByteArray) : String :=
  match String.fromUTF8? b with
  | some s => s
  | none => String.ofList (lossyFrom b.size b.toList)

end SourceAtlas.Text
