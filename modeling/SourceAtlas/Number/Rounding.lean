namespace SourceAtlas.Number

def roundDiv (n d : Nat) : Nat :=
  let q := n / d
  let r := n % d
  if 2 * r < d then q else if d < 2 * r then q + 1 else q + q % 2

def toBits (bits n : Nat) : Nat :=
  let unit := Nat.pow 2 (n.log2 + 1 - bits)
  roundDiv n unit * unit

def doubleBits : Nat := 53

def singleBits : Nat := 24

def hundredths (n d : Nat) : String :=
  let h := roundDiv (100 * n) d
  let digits := toString (h % 100)
  toString (h / 100) ++ "." ++ (if h % 100 < 10 then "0" ++ digits else digits)

def neighbour? (bits n k : Nat) : Option Nat :=
  let unit := Nat.pow 10 k
  let near := roundDiv n unit * unit
  let below := n / unit * unit
  [near, below, below + unit].find? fun c => toBits bits c == n

/-- The number with the fewest digits other than zeros at its end that rounds as `n` does. -/
def shortest (bits n : Nat) : Nat :=
  ((List.range (toString n).length).reverse.findSome? (neighbour? bits n)).getD n

end SourceAtlas.Number
