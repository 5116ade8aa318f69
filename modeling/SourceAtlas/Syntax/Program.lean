import SourceAtlas.Syntax.BrokenGrammar

namespace SourceAtlas.Syntax

open SourceAtlas.Syntax.Parser SourceAtlas.Syntax.Part

def ruleBody (c : Rules) : Rule → Part
  | .statement => StatementGrammar.wholeStatement c
  | .block => StatementGrammar.block c
  | .expression m => ExpressionGrammar.wholeExpression c m
  | .operand m => ExpressionGrammar.operand c m
  | .type m => TypeGrammar.wholeType c m
  | .plainType m => TypeGrammar.plainType c m
  | .pattern => ExpressionGrammar.pattern c
  | .classBody => StatementGrammar.classBody c
  | .objectType => TypeGrammar.objectType c
  | .element => group .phrase [MarkupGrammar.element c]
  | .parameters => ExpressionGrammar.parameters c
  | .brokenBlock => BrokenGrammar.block c
  | .brokenTemplate => BrokenGrammar.template c
  | .brokenElement => BrokenGrammar.element c

def kept (r : Rule) (x : Part) : Part := fun s p =>
  match p.known[(r, p.pos)]? with
  | some (some (ns, stop)) => (some ns, { p with pos := stop })
  | some none => (none, p)
  | none =>
      let start := p.pos
      match x s p with
      | (some ns, p) => (some ns, { p with known := p.known.insert (r, start) (some (ns, p.pos)) })
      | (none, p) => (none, { p with known := p.known.insert (r, start) none })

def parse : (depth : Nat) → Rule → Part
  | 0, _ => fun _ p => (none, p)
  | n + 1, r => fun s p => kept r (ruleBody (parse n) r) s p

def salvage (c : Rules) (stop : Nat) : (fuel : Nat) → List Node → Part
  | 0, acc => pure acc.reverse
  | n + 1, acc => do
      let i ← position
      match ← orElse (some <$> BrokenGrammar.clause c) (pure none) with
      | some found =>
          if (← position) ≤ stop then
            let _ ← BrokenGrammar.divider
            goOn n (found.reverse ++ acc)
          else
            goto i
            pass n acc
      | none => pass n acc
where
  goOn (n : Nat) (acc : List Node) : Part := do
    if (← position) < stop then salvage c stop n acc else pure acc.reverse
  pass (n : Nat) (acc : List Node) : Part := do
    let rest := firstOf [c .brokenTemplate, c .brokenElement, BrokenGrammar.step]
    match ← orElse (some <$> rest) (pure none) with
    | some found => goOn n (found.reverse ++ acc)
    | none => pure acc.reverse

structure Reading where
  -- last statement first
  nodes : List Node
  sound : Bool

def statements (c : Rules) : (fuel : Nat) → Reading → Parser Reading
  | 0, r => pure { r with sound := false }
  | n + 1, r => do
      let s ← source
      let i := s.statementStart (← position)
      if s.size ≤ i then pure r
      else
        match ← orElse (some <$> c .statement) (pure none) with
        | some ns => statements c n { r with nodes := ns.reverse ++ r.nodes }
        | none =>
            let stop := max (← furthest) (i + 1)
            goto i
            let found ← salvage c stop (s.size + 1) []
            let stop := max stop (← position)
            goto stop
            let broken := Node.mk .broken none i stop found
            statements c n ⟨broken :: r.nodes, false⟩
where
  furthest : Parser Nat := fun _ p => (some p.reach, p)

def depthFor (s : Source) : Nat := 40 * s.size + 1000

def hashBang (s : Source) : Nat :=
  let i := s.solid 0
  if s.startsWith "#!".toList i then s.skip (· != '\n') i else 0

def commentNodes (s : Source) (start stop : Nat) : List Node :=
  (s.comments start stop).map fun r => Node.leaf .comment r.1 r.2

def Tree.ofSource (s : Source) : Tree :=
  let start : Progress := ⟨hashBang s, 0, {}⟩
  match (statements (parse (depthFor s)) (s.size + 1) ⟨[], true⟩ s start).1 with
  | none => ⟨s.chars, .mk .program none 0 s.size [], false⟩
  | some r =>
      let ns := r.nodes.reverse
      let first := (ns.head?.map Node.start).getD s.size
      let last := (ns.getLast?.map Node.stop).getD first
      let root := Node.mk .program none 0 s.size
        (commentNodes s (hashBang s) first ++ Node.spread (commentNodes s) none ns ++
          commentNodes s last s.size)
      ⟨s.chars, root, r.sound⟩

/-- Only scripts named `.ts` are read without markup. -/
def Tree.ofText (markup : Bool) (t : String) : Tree := .ofSource ⟨t.toList.toArray, markup⟩

end SourceAtlas.Syntax
