import SourceAtlas.Clock.Date
import SourceAtlas.Text.Blank

namespace SourceAtlas

/-- `nanos` reaches a full second more within a leap second, which is written as second 60. -/
structure Timestamp where
  date : Date
  minuteOfDay : Nat
  second : Nat
  nanos : Nat
  deriving DecidableEq, Repr, Inhabited

namespace Timestamp

def nanosPerSecond : Nat := 1000000000

def ofNanos (n : Int) : Timestamp :=
  let nanos := (n % nanosPerSecond).toNat
  let seconds := n / nanosPerSecond
  let inDay := (seconds % 86400).toNat
  ⟨.ofDayNumber (seconds / 86400), inDay / 60, inDay % 60, nanos⟩

def padded (width n : Nat) : String :=
  let ds := (toString n).toList
  String.ofList (List.replicate (width - ds.length) '0' ++ ds)

def yearText (y : Int) : String :=
  if 0 ≤ y ∧ y ≤ 9999 then padded 4 y.toNat
  else (if y < 0 then "-" else "+") ++ padded 4 y.natAbs

def fractionText (nanos : Nat) : String :=
  if nanos = 0 then ""
  else if nanos % 1000000 = 0 then "." ++ padded 3 (nanos / 1000000)
  else if nanos % 1000 = 0 then "." ++ padded 6 (nanos / 1000)
  else "." ++ padded 9 nanos

def text (zone : String) (t : Timestamp) : String :=
  yearText t.date.year ++ "-" ++ padded 2 t.date.month ++ "-" ++ padded 2 t.date.day ++ "T" ++
    padded 2 (t.minuteOfDay / 60) ++ ":" ++ padded 2 (t.minuteOfDay % 60) ++ ":" ++
    padded 2 (t.second + t.nanos / nanosPerSecond) ++ fractionText (t.nanos % nanosPerSecond) ++ zone

abbrev Step (α : Type) := List Char → Option (α × List Char)

def skipBlanks (s : List Char) : List Char := s.dropWhile Text.isBlank

def valueOf (ds : List Char) : Nat := ds.foldl (fun n c => n * 10 + (c.toNat - 48)) 0

def number (width : Nat) : Step Nat := fun s =>
  let ds := (s.take width).takeWhile Char.isDigit
  if ds.isEmpty then none else some (valueOf ds, s.drop ds.length)

def anyNumber : Step Nat := fun s => number s.length s

def year : Step Int := fun s =>
  match skipBlanks s with
  | '-' :: r => (anyNumber r).map fun x => (-(x.1 : Int), x.2)
  | '+' :: r => (anyNumber r).map fun x => ((x.1 : Int), x.2)
  | r => (number 4 r).map fun x => ((x.1 : Int), x.2)

def mark (c : Char) : Step Unit := fun s =>
  match skipBlanks s with
  | x :: r => if x = c then some ((), r) else none
  | [] => none

def twoDigits : Step Nat := fun s => number 2 (skipBlanks s)

def fraction : Step Nat := fun s =>
  match s with
  | '.' :: r =>
      let ds := r.takeWhile Char.isDigit
      if ds.isEmpty then none
      else
        let nine := ds.take 9
        some (valueOf nine * Nat.pow 10 (9 - nine.length), r.drop ds.length)
  | _ => some (0, s)

def isSign (c : Char) : Option Bool :=
  if c = '+' then some false else if c = '-' ∨ c = '−' then some true else none

def offset : Step Int := fun s =>
  if (s.take 3).map Char.toLower = "utc".toList then some (0, s.drop 3)
  else match s with
    | [] => none
    | c :: r =>
        if c = 'Z' ∨ c = 'z' then some (0, r)
        else do
          let negative ← isSign c
          let (hours, r) ← exactlyTwo r
          let (minutes, r) ← exactlyTwo (r.dropWhile fun c => c == ':' || Text.isBlank c)
          if 59 < minutes then none
          let total : Int := hours * 60 + minutes
          return (if negative then -total else total, r)
where
  exactlyTwo : Step Nat
    | a :: b :: r => if a.isDigit && b.isDigit then some (valueOf [a, b], r) else none
    | _ => none

def shift (date : Date) (minuteOfDay : Nat) (offset : Int) : Date × Nat :=
  let m := minuteOfDay - offset
  if m < 0 then (date.previous, (m + 1440).toNat)
  else if 1440 ≤ m then (date.next, (m - 1440).toNat)
  else (date, m.toNat)

def build (date : Date) (hour minute second nanos : Nat) (offset : Int) : Option Timestamp :=
  if date.isValid && decide (hour < 24) && decide (minute < 60) && decide (second ≤ 60) &&
      decide (offset.natAbs < 1440) then
    let (date, m) := shift date (hour * 60 + minute) offset
    if !date.isValid then none
    else if second = 60 then some ⟨date, m, 59, nanosPerSecond + nanos⟩
    else some ⟨date, m, second, nanos⟩
  else none

def isDateEnd (c : Char) : Bool := c == 'T' || c == 't' || c == ' '

def ofText? (t : String) : Option Timestamp := do
  let (y, s) ← year t.toList
  let (_, s) ← mark '-' s
  let (month, s) ← twoDigits s
  let (_, s) ← mark '-' s
  let (day, s) ← twoDigits s
  let s ← match s with
    | c :: r => if isDateEnd c then some r else none
    | [] => none
  let (hour, s) ← twoDigits s
  let (_, s) ← mark ':' s
  let (minute, s) ← twoDigits s
  let (_, s) ← mark ':' s
  let (second, s) ← twoDigits s
  let (nanos, s) ← fraction s
  let (off, s) ← offset (skipBlanks s)
  if !(skipBlanks s).isEmpty then none
  build ⟨y, month, day⟩ hour minute second nanos off

end Timestamp

end SourceAtlas
