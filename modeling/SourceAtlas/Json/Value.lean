namespace SourceAtlas.Json

inductive Value where
  | null
  | bool (b : Bool)
  | integer (n : Int)
  | decimal (text : String)
  | text (s : String)
  | garbled
  | array (items : List Value)
  | object (pairs : List (String × Value))
  deriving Repr, Inhabited

namespace Value

def natural (n : Nat) : Value := .integer n

def texts (ss : List String) : Value := .array (ss.map .text)

def field? (v : Value) (key : String) : Option Value :=
  match v with
  | .object ps => ps.reverse.lookup key
  | _ => none

end Value

end SourceAtlas.Json
