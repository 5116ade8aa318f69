import SourceAtlas.Yaml.Token

namespace SourceAtlas.Yaml

inductive Node where
  | scalar (text : List Char) (style : ScalarStyle) (tag : Option (List Char))
  | sequence (items : List Node)
  | mapping (items : List (Node × Node))
  | alias (anchor : Nat)
  deriving Repr, Inhabited

structure Anchors where
  names : List (List Char × Nat)
  nodes : List (Nat × Node)
  deriving Inhabited

def Anchors.none : Anchors := ⟨[], []⟩

def Anchors.declare (a : Anchors) (name : List Char) : Nat × Anchors :=
  (a.names.length, { a with names := (name, a.names.length) :: a.names })

structure Document where
  root : Option Node
  anchors : Anchors

def Document.resolve (d : Document) : Node → Node
  | .alias n => (d.anchors.nodes.lookup n).getD (.alias n)
  | n => n

def emptyScalar (tag : Option (List Char)) : Node := .scalar [] .plain tag

def emptyNode : Node := emptyScalar none

structure Reader where
  tokens : List Token
  anchors : Anchors
  handles : List (List Char)

namespace Reader

def next (r : Reader) : Option Token := r.tokens.head?

def skip (r : Reader) : Reader := { r with tokens := r.tokens.tail }

def atAny (r : Reader) (ts : List Token) : Bool :=
  match r.next with
  | some t => ts.contains t
  | none => true

def tagText (r : Reader) (handle suffix : List Char) : Option (List Char) :=
  if handle == ['!', '!'] then some ("tag:yaml.org,2002:".toList ++ suffix)
  else if handle.isEmpty || handle == ['!'] then some (handle ++ suffix)
  else if r.handles.contains handle then some (handle ++ suffix)
  else none

structure Properties where
  anchor : Option Nat
  tag : Option (List Char)

def properties (r : Reader) : Option (Properties × Reader) :=
  match r.tokens with
  | .anchor a :: .tag h s :: rest => do
      let tag ← r.tagText h s
      let (n, anchors) := r.anchors.declare a
      some (⟨some n, some tag⟩, { r with tokens := rest, anchors := anchors })
  | .tag h s :: .anchor a :: rest => do
      let tag ← r.tagText h s
      let (n, anchors) := r.anchors.declare a
      some (⟨some n, some tag⟩, { r with tokens := rest, anchors := anchors })
  | .anchor a :: rest =>
      let (n, anchors) := r.anchors.declare a
      some (⟨some n, none⟩, { r with tokens := rest, anchors := anchors })
  | .tag h s :: rest => do
      let tag ← r.tagText h s
      some (⟨none, some tag⟩, { r with tokens := rest })
  | _ => some (⟨none, none⟩, r)

def complete (r : Reader) (p : Properties) (n : Node) : Node × Reader :=
  match p.anchor with
  | some k => (n, { r with anchors := { r.anchors with nodes := (k, n) :: r.anchors.nodes } })
  | none => (n, r)

def entryEnds : List Token := [.key, .value, .blockEnd]

mutual

/-- `block` admits block collections, `bare` a sequence that is not indented. -/
def node (fuel : Nat) (block bare : Bool) (r : Reader) : Option (Node × Reader) :=
  match fuel with
  | 0 => none
  | n + 1 =>
    match r.next with
    | some (.alias name) => do
        let k ← r.anchors.names.lookup name
        some (.alias k, r.skip)
    | _ => do
        let (p, r) ← r.properties
        match r.next with
        | some .blockEntry =>
            if bare then do
              let (items, r) ← bareItems n r
              some (r.complete p (.sequence items))
            else if p.anchor.isSome || p.tag.isSome then some (r.complete p (emptyScalar p.tag))
            else none
        | some (.scalar text style) => some (r.skip.complete p (.scalar text style p.tag))
        | some .flowSequenceStart => do
            let (items, r) ← flowItems n true r.skip
            some (r.complete p (.sequence items))
        | some .flowMappingStart => do
            let (items, r) ← flowPairs n true r.skip
            some (r.complete p (.mapping items))
        | some .blockSequenceStart =>
            if block then do
              let (items, r) ← blockItems n r.skip
              some (r.complete p (.sequence items))
            else if p.anchor.isSome || p.tag.isSome then some (r.complete p (emptyScalar p.tag))
            else none
        | some .blockMappingStart =>
            if block then do
              let (items, r) ← blockPairs n r.skip
              some (r.complete p (.mapping items))
            else if p.anchor.isSome || p.tag.isSome then some (r.complete p (emptyScalar p.tag))
            else none
        | _ =>
            if p.anchor.isSome || p.tag.isSome then some (r.complete p (emptyScalar p.tag))
            else none

def nodeUnless (fuel : Nat) (ends : List Token) (block bare : Bool) (r : Reader) :
    Option (Node × Reader) :=
  match fuel with
  | 0 => none
  | n + 1 => if r.atAny ends then some (emptyNode, r) else node n block bare r

def bareItems (fuel : Nat) (r : Reader) : Option (List Node × Reader) :=
  match fuel with
  | 0 => none
  | n + 1 =>
    match r.next with
    | some .blockEntry => do
        let (x, r) ← nodeUnless n (.blockEntry :: entryEnds) true false r.skip
        let (xs, r) ← bareItems n r
        some (x :: xs, r)
    | _ => some ([], r)

def blockItems (fuel : Nat) (r : Reader) : Option (List Node × Reader) :=
  match fuel with
  | 0 => none
  | n + 1 =>
    match r.next with
    | some .blockEntry => do
        let (x, r) ← nodeUnless n [.blockEntry, .blockEnd] true false r.skip
        let (xs, r) ← blockItems n r
        some (x :: xs, r)
    | some .blockEnd => some ([], r.skip)
    | _ => none

def blockPairs (fuel : Nat) (r : Reader) : Option (List (Node × Node) × Reader) :=
  match fuel with
  | 0 => none
  | n + 1 =>
    match r.next with
    | some .blockEnd => some ([], r.skip)
    | some .key => do
        let (k, r) ← nodeUnless n entryEnds true true r.skip
        let (v, r) ← blockValue n r
        let (xs, r) ← blockPairs n r
        some ((k, v) :: xs, r)
    | some .value => do
        let (v, r) ← blockValue n r
        let (xs, r) ← blockPairs n r
        some ((emptyNode, v) :: xs, r)
    | _ => none

def blockValue (fuel : Nat) (r : Reader) : Option (Node × Reader) :=
  match fuel with
  | 0 => none
  | n + 1 =>
    match r.next with
    | some .value => nodeUnless n entryEnds true true r.skip
    | _ => some (emptyNode, r)

def flowValue (fuel : Nat) (close : Token) (r : Reader) : Option (Node × Reader) :=
  match fuel with
  | 0 => none
  | n + 1 =>
    match r.next with
    | some .value => nodeUnless n [.flowEntry, close] false false r.skip
    | _ => some (emptyNode, r)

def flowItems (fuel : Nat) (first : Bool) (r : Reader) : Option (List Node × Reader) :=
  match fuel with
  | 0 => none
  | n + 1 =>
    match r.next with
    | some .flowSequenceEnd => some ([], r.skip)
    | t =>
      if !first && t != some .flowEntry then none
      else
        let r := if first then r else r.skip
        match r.next with
        | some .flowSequenceEnd => some ([], r.skip)
        | some .key => do
            let (k, r) ← nodeUnless n [.value, .flowEntry, .flowSequenceEnd] false false r.skip
            let (v, r) ← flowValue n .flowSequenceEnd r
            let (xs, r) ← flowItems n false r
            some (.mapping [(k, v)] :: xs, r)
        | _ => do
            let (x, r) ← node n false false r
            let (xs, r) ← flowItems n false r
            some (x :: xs, r)

def flowPairs (fuel : Nat) (first : Bool) (r : Reader) : Option (List (Node × Node) × Reader) :=
  match fuel with
  | 0 => none
  | n + 1 =>
    match r.next with
    | some .flowMappingEnd => some ([], r.skip)
    | t =>
      if !first && t != some .flowEntry then none
      else
        let r := if first then r else r.skip
        match r.next with
        | some .flowMappingEnd => some ([], r.skip)
        | some .key => do
            let (k, r) ← nodeUnless n [.value, .flowEntry, .flowMappingEnd] false false r.skip
            let (v, r) ← flowValue n .flowMappingEnd r
            let (xs, r) ← flowPairs n false r
            some ((k, v) :: xs, r)
        | _ => do
            let (k, r) ← node n false false r
            let (xs, r) ← flowPairs n false r
            some ((k, emptyNode) :: xs, r)

end

def directives (version : Bool) : Nat → Reader → Option Reader
  | 0, r => some r
  | n + 1, r =>
      match r.tokens with
      | .versionDirective :: rest =>
          if version then none else directives true n { r with tokens := rest }
      | .tagDirective h :: rest =>
          if r.handles.contains h then none
          else directives version n { r with tokens := rest, handles := h :: r.handles }
      | _ => some r

def contentEnds : List Token := [.versionDirective, .documentStart, .documentEnd]

def atContentEnd (r : Reader) : Bool :=
  match r.next with
  | some (.tagDirective _) => true
  | _ => r.atAny contentEnds

end Reader

def Document.ofText? (s : List Char) : Option Document := do
  let tokens ← tokens? s
  let r : Reader := ⟨tokens, Anchors.none, []⟩
  let fuel := 4 * tokens.length + 8
  match tokens with
  | [] => some ⟨none, Anchors.none⟩
  | _ =>
      let r1 ← r.directives false fuel
      let explicit := r1.next == some .documentStart
      if !explicit && r1.tokens.length < tokens.length then none
      else
        let r2 := if explicit then r1.skip else r1
        let (root, r3) ←
          if explicit && r2.atContentEnd then some (emptyNode, r2)
          else r2.node fuel true false
        if (r3.tokens.dropWhile (· == .documentEnd)).isEmpty then some ⟨some root, r3.anchors⟩
        else none

end SourceAtlas.Yaml
