import SourceAtlas.Json.Value

namespace SourceAtlas.Json

abbrev Decode (α : Type) := Nat → Value → Option α

/-- How deep a document may nest, plus one. -/
def depthLimit : Nat := 128

namespace Decode

def text : Decode String
  | _, .text s => some s
  | _, _ => none

def natural (limit : Nat) : Decode Nat
  | _, .integer (.ofNat n) => if n ≤ limit then some n else none
  | _, _ => none

def optional {α : Type} (f : Decode α) : Decode (Option α)
  | _, .null => some none
  | depth, v => (f depth v).map some

def list {α : Type} (f : Decode α) : Decode (List α)
  | depth + 2, .array vs => vs.mapM (f (depth + 1))
  | _, _ => none

def word {α : Type} (words : List (String × α)) : Decode α
  | _, .text s => words.lookup s
  | _ + 2, .object [(s, .null)] => words.lookup s
  | _, _ => none

def map {α : Type} (f : Decode α) : Decode (List (String × α))
  | depth + 2, .object ps => ps.mapM fun p => (f (depth + 1) p.2).map (p.1, ·)
  | _, _ => none

def fields (names : List String) : Value → Option (List (String × Value))
  | .object ps =>
      let known := ps.filter fun p => names.contains p.1
      if (known.map (·.1)).Nodup then some known else none
  | .array vs => if vs.length ≤ names.length then some (names.zip vs) else none
  | _ => none

def required {α : Type} (f : Decode α) (depth : Nat) (known : List (String × Value))
    (name : String) : Option α :=
  (known.lookup name).bind (f depth)

def defaulted {α : Type} (f : Decode α) (other : α) (depth : Nat)
    (known : List (String × Value)) (name : String) : Option α :=
  match known.lookup name with
  | some v => f depth v
  | none => some other

end Decode

end SourceAtlas.Json
