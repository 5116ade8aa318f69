import SourceAtlas.Text.CaseTable

namespace SourceAtlas.Text

def CaseRun.lower? (r : CaseRun) (n : Nat) : Option Nat :=
  if r.first ≤ n && n ≤ r.last && (n - r.first) % r.step == 0 then some (n + r.shift).toNat
  else none

def lowerChar (c : Char) : Char :=
  if c.toNat < 0x80 then c.toLower
  else match caseRuns.findSome? (·.lower? c.toNat) with
    | some n => Char.ofNat n
    | none => c

def isCased (c : Char) : Bool := inRanges casedRanges c.toNat

def isCaseIgnorable (c : Char) : Bool := inRanges caseIgnorableRanges c.toNat

def nextIsCased (s : List Char) : Bool :=
  match s.dropWhile isCaseIgnorable with
  | c :: _ => isCased c
  | [] => false

def lowerFrom (before : List Char) : List Char → List Char
  | [] => []
  | c :: r =>
      let low :=
        if c == 'İ' then ['i', '\u0307']
        else if c == 'Σ' then
          if nextIsCased before && !nextIsCased r then ['ς'] else ['σ']
        else [lowerChar c]
      low ++ lowerFrom (c :: before) r

def lower (s : List Char) : List Char := lowerFrom [] s

end SourceAtlas.Text
