import SourceAtlas.Shell.Script

namespace SourceAtlas.Shell

abbrev Marked := Char × Bool

def setMembers (first : Bool) : List Marked → Option (List (Char × Char) × List Marked)
  | [] => none
  | (']', false) :: r => if first then
        (setMembers false r).map fun (ms, r) => ((']', ']') :: ms, r)
      else some ([], r)
  | (a, _) :: ('-', false) :: (']', false) :: r => some ([(a, a), ('-', '-')], r)
  | (a, _) :: ('-', false) :: (b, _) :: r =>
      (setMembers false r).map fun (ms, r) => ((a, b) :: ms, r)
  | (a, _) :: r => (setMembers false r).map fun (ms, r) => ((a, a) :: ms, r)

def fits : (fuel : Nat) → List Marked → List Char → Bool
  | 0, _, _ => false
  | _ + 1, [], s => s.isEmpty
  | n + 1, ('*', false) :: p, s =>
      fits n p s || (match s with | [] => false | _ :: r => fits n (('*', false) :: p) r)
  | n + 1, ('?', false) :: p, s => match s with | [] => false | _ :: r => fits n p r
  | n + 1, ('[', false) :: p, s =>
      let (negated, q) := match p with
        | ('!', false) :: q => (true, q)
        | _ => (false, p)
      match setMembers true q, s with
      | some (ms, q), c :: r =>
          (ms.any (fun m => decide (m.1 ≤ c) && decide (c ≤ m.2)) != negated) && fits n q r
      | some _, [] => false
      | none, c :: r => c == '[' && fits n p r
      | none, [] => false
  | n + 1, (x, _) :: p, s => match s with | [] => false | c :: r => c == x && fits n p r

def isMatch (p : List Marked) (s : List Char) : Bool := fits (2 * (p.length + s.length) + 2) p s

def Cut.apply (how : Cut) (p : List Marked) (s : List Char) : List Char :=
  let upward := List.range (s.length + 1)
  let atEnd (k : Nat) := if isMatch p (s.drop (s.length - k)) then some (s.take (s.length - k)) else none
  let atStart (k : Nat) := if isMatch p (s.take k) then some (s.drop k) else none
  (match how with
    | .shortestEnd => upward.findSome? atEnd
    | .longestEnd => upward.reverse.findSome? atEnd
    | .shortestStart => upward.findSome? atStart
    | .longestStart => upward.reverse.findSome? atStart).getD s

end SourceAtlas.Shell
