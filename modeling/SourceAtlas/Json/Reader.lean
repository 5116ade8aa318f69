import SourceAtlas.Json.Value

namespace SourceAtlas.Json

def isBlank (c : Char) : Bool := c == ' ' || c == '\n' || c == '\t' || c == '\r'

def skipBlanks (s : List Char) : List Char := s.dropWhile isBlank

def hexValue? (c : Char) : Option Nat :=
  if c.isDigit then some (c.toNat - 48)
  else if 'a' ≤ c ∧ c ≤ 'f' then some (c.toNat - 87)
  else if 'A' ≤ c ∧ c ≤ 'F' then some (c.toNat - 55)
  else none

def hexValue4? (a b c d : Char) : Option Nat := do
  return (((← hexValue? a) * 16 + (← hexValue? b)) * 16 + (← hexValue? c)) * 16 + (← hexValue? d)

def unescaped? : Char → Option Char
  | '"' => some '"'
  | '\\' => some '\\'
  | '/' => some '/'
  | 'b' => some '\x08'
  | 't' => some '\t'
  | 'n' => some '\n'
  | 'f' => some '\x0c'
  | 'r' => some '\r'
  | _ => none

structure Reading where
  read : List Char
  whole : Bool
  high : Option Nat

namespace Reading

def start : Reading := ⟨[], true, none⟩

def char (t : Reading) (c : Char) : Reading := ⟨c :: t.read, t.whole && t.high.isNone, none⟩

def unit (t : Reading) (n : Nat) : Reading :=
  if 0xDC00 ≤ n ∧ n < 0xE000 then
    match t.high with
    | some h => ⟨Char.ofNat (0x10000 + (h - 0xD800) * 0x400 + (n - 0xDC00)) :: t.read, t.whole, none⟩
    | none => ⟨t.read, false, none⟩
  else if 0xD800 ≤ n ∧ n < 0xDC00 then ⟨t.read, t.whole && t.high.isNone, some n⟩
  else t.char (Char.ofNat n)

def result (t : Reading) : Option String :=
  if t.whole && t.high.isNone then some (String.ofList t.read.reverse) else none

end Reading

def readText : List Char → Reading → Option (Option String × List Char)
  | [], _ => none
  | '"' :: r, t => some (t.result, r)
  | '\\' :: 'u' :: a :: b :: c :: d :: r, t =>
      match hexValue4? a b c d with
      | some n => readText r (t.unit n)
      | none => none
  | '\\' :: e :: r, t =>
      match unescaped? e with
      | some c => readText r (t.char c)
      | none => none
  | c :: r, t => if c.toNat < 32 then none else readText r (t.char c)

def digits (s : List Char) : List Char := s.takeWhile Char.isDigit

def afterDigits (s : List Char) : List Char := s.dropWhile Char.isDigit

def natOf (ds : List Char) : Nat := ds.foldl (fun n c => n * 10 + (c.toNat - 48)) 0

def fraction (s : List Char) : Option (List Char × List Char) :=
  match s with
  | '.' :: r => if (digits r).isEmpty then none else some ('.' :: digits r, afterDigits r)
  | _ => some ([], s)

def isExponentMark (c : Char) : Bool := c == 'e' || c == 'E'

def exponent (s : List Char) : Option (List Char × List Char) :=
  match s with
  | e :: r =>
      if isExponentMark e then
        let (sign, r) := match r with
          | '+' :: r => (['+'], r)
          | '-' :: r => (['-'], r)
          | r => ([], r)
        if (digits r).isEmpty then none else some (e :: sign ++ digits r, afterDigits r)
      else some ([], s)
  | [] => some ([], s)

def readNumber (s : List Char) : Option (Value × List Char) := do
  let (sign, r) := match s with
    | '-' :: r => (['-'], r)
    | _ => ([], s)
  let whole := digits r
  if whole.isEmpty || (whole.head? == some '0' && 1 < whole.length) then none
  let (f, r) ← fraction (afterDigits r)
  let (e, r) ← exponent r
  let n := natOf whole
  if f.isEmpty && e.isEmpty && (sign.isEmpty || n != 0) then
    return (.integer (if sign.isEmpty then n else -n), r)
  else return (.decimal (String.ofList (sign ++ whole ++ f ++ e)), r)

def keyword (word : List Char) (v : Value) (s : List Char) : Option (Value × List Char) :=
  if word.isPrefixOf s then some (v, s.drop word.length) else none

def objectOf (pairs : List (Option String × Value)) : Value :=
  if pairs.all (·.1.isSome) then .object (pairs.filterMap fun p => p.1.map (·, p.2)) else .garbled

def readKey (s : List Char) : Option (Option String × List Char) :=
  match s with
  | '"' :: r =>
      match readText r .start with
      | some (k, r) =>
          match skipBlanks r with
          | ':' :: r => some (k, r)
          | _ => none
      | none => none
  | _ => none

mutual

def readValue : Nat → List Char → Option (Value × List Char)
  | 0, _ => none
  | n + 1, s =>
      match skipBlanks s with
      | '"' :: r =>
          match readText r .start with
          | some (some t, r) => some (.text t, r)
          | some (none, r) => some (.garbled, r)
          | none => none
      | '[' :: r =>
          match skipBlanks r with
          | ']' :: r => some (.array [], r)
          | r => (readItems n r).map fun x => (.array x.1, x.2)
      | '\x7b' :: r =>
          match skipBlanks r with
          | '\x7d' :: r => some (.object [], r)
          | r => (readPairs n r).map fun x => (objectOf x.1, x.2)
      | 't' :: r => keyword "rue".toList (.bool true) r
      | 'f' :: r => keyword "alse".toList (.bool false) r
      | 'n' :: r => keyword "ull".toList .null r
      | r => readNumber r

def readItems : Nat → List Char → Option (List Value × List Char)
  | 0, _ => none
  | n + 1, s =>
      match readValue n s with
      | none => none
      | some (v, r) =>
          match skipBlanks r with
          | ']' :: r => some ([v], r)
          | ',' :: r => (readItems n r).map fun x => (v :: x.1, x.2)
          | _ => none

def readPairs : Nat → List Char → Option (List (Option String × Value) × List Char)
  | 0, _ => none
  | n + 1, s =>
      match readKey (skipBlanks s) with
      | none => none
      | some (k, r) =>
          match readValue n r with
          | none => none
          | some (v, r) =>
              match skipBlanks r with
              | '\x7d' :: r => some ([(k, v)], r)
              | ',' :: r => (readPairs n r).map fun x => ((k, v) :: x.1, x.2)
              | _ => none

end

def Value.ofText? (s : List Char) : Option Value :=
  match readValue (s.length + 1) s with
  | some (v, r) => if (skipBlanks r).isEmpty then some v else none
  | none => none

def loneHalf : List Char := "\\ud800".toList

def isHead (b : UInt8) : Bool := b < 0x80 || 0xC0 ≤ b

def pieces : List UInt8 → List (List UInt8)
  | [] => []
  | b :: r =>
      match pieces r with
      | (c :: p) :: ps => if isHead c then [b] :: (c :: p) :: ps else (b :: c :: p) :: ps
      | ps => [b] :: ps

def charsOf (piece : List UInt8) : List Char :=
  match String.fromUTF8? ⟨piece.toArray⟩ with
  | some s => s.toList
  | none => loneHalf

def Value.ofBytes? (b : ByteArray) : Option Value :=
  match String.fromUTF8? b with
  | some s => Value.ofText? s.toList
  | none => Value.ofText? ((pieces b.toList).flatMap charsOf)

end SourceAtlas.Json
