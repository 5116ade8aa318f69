import SourceAtlas.Yaml.Scalar

namespace SourceAtlas.Yaml

def isNull (s : List Char) : Bool :=
  s.isEmpty || ["~", "null", "Null", "NULL"].any (·.toList == s)

def isTruth (s : List Char) : Bool :=
  ["true", "True", "TRUE", "false", "False", "FALSE"].any (·.toList == s)

def digitValue (radix : Nat) (x : Char) : Option Nat :=
  match hexValue x with
  | some n => if n < radix then some n else none
  | none => none

def number? (radix : Nat) (s : List Char) : Option Nat :=
  if s.isEmpty then none
  else s.foldlM (fun n x => (digitValue radix x).map (n * radix + ·)) 0

def dropSign (signs : List Char) (s : List Char) : List Char :=
  match s with
  | c :: r => if signs.contains c then r else s
  | [] => []

def hasIdleZero (s : List Char) : Bool :=
  match dropSign ['-', '+'] s with
  | '0' :: d :: r => (d :: r).all Char.isDigit
  | _ => false

def radixes : List (List Char × Nat) :=
  [("0x".toList, 16), ("0o".toList, 8), ("0b".toList, 2)]

def magnitude? (s : List Char) : Option Nat :=
  let based := radixes.findSome? fun r =>
    if r.1.isPrefixOf s then number? r.2 (s.drop 2) else none
  match based with
  | some n => some n
  | none => number? 10 s

def natural? (s : List Char) : Option Nat :=
  let digits := dropSign ['+'] s
  if hasIdleZero s then none else magnitude? digits

def negative? (s : List Char) : Option Nat :=
  match s with
  | '-' :: digits => if hasIdleZero s then none else magnitude? digits
  | _ => none

def wholeLimit : Nat := Nat.pow 2 128

def isWhole (s : List Char) : Bool :=
  match natural? s, negative? s with
  | some n, _ => decide (n < wholeLimit)
  | _, some n => decide (n ≤ Nat.pow 2 127)
  | none, none => false

structure Decimal where
  digits : Nat
  places : Nat
  exponent : Int

def readExponent (s : List Char) : Option Int :=
  match s with
  | [] => some 0
  | e :: r =>
      if e == 'e' || e == 'E' then
        match r with
        | '-' :: d => (number? 10 d).map fun n => -(n : Int)
        | '+' :: d => (number? 10 d).map fun n => (n : Int)
        | d => (number? 10 d).map fun n => (n : Int)
      else none

def readDecimal (s : List Char) : Option Decimal :=
  let whole := s.takeWhile Char.isDigit
  let rest := s.dropWhile Char.isDigit
  let (fraction, rest) := match rest with
    | '.' :: r => (r.takeWhile Char.isDigit, r.dropWhile Char.isDigit)
    | r => ([], r)
  match number? 10 (whole ++ fraction), readExponent rest with
  | some n, some e => some ⟨n, fraction.length, e⟩
  | _, _ => none

def finiteLimit : Nat := Nat.pow 2 1024 - Nat.pow 2 970

def exponentLimit : Nat := 100000

def Decimal.isFinite (d : Decimal) : Bool :=
  let e := d.exponent - d.places
  if d.digits = 0 then true
  else if e < 0 then
    if e < -(exponentLimit : Int) then true
    else decide (d.digits < finiteLimit * Nat.pow 10 e.natAbs)
  else if e > exponentLimit then false
  else decide (d.digits * Nat.pow 10 e.toNat < finiteLimit)

def specialFractions : List String :=
  [".inf", ".Inf", ".INF", "+.inf", "+.Inf", "+.INF", "-.inf", "-.Inf", "-.INF", ".nan", ".NaN",
   ".NAN"]

def isFraction (s : List Char) : Bool :=
  specialFractions.any (·.toList == s) ||
    (match readDecimal (dropSign ['+', '-'] s) with
      | some d => d.isFinite
      | none => false)

def isAmbiguous (s : List Char) : Bool :=
  isNull s || isTruth s || isWhole s || isFraction s || hasIdleZero s

end SourceAtlas.Yaml
