import SourceAtlas.Json.Value

namespace SourceAtlas.Json

def hexDigit (n : Nat) : Char := Char.ofNat (if n < 10 then 48 + n else 87 + n)

def shortEscape? : Char → Option Char
  | '"' => some '"'
  | '\\' => some '\\'
  | '\x08' => some 'b'
  | '\t' => some 't'
  | '\n' => some 'n'
  | '\x0c' => some 'f'
  | '\r' => some 'r'
  | _ => none

def escapeChar (c : Char) : List Char :=
  match shortEscape? c with
  | some e => ['\\', e]
  | none =>
      if c.toNat < 32 then ['\\', 'u', '0', '0', hexDigit (c.toNat / 16), hexDigit (c.toNat % 16)]
      else [c]

def writeText (s : String) : List Char := '"' :: s.toList.flatMap escapeChar ++ ['"']

def indent (level : Nat) : List Char := List.replicate (2 * level) ' '

def brackets (left right : Char) (items : List (List Char)) : List Char :=
  left :: (List.intersperse [','] items).flatten ++ [right]

def indentedBrackets (left right : Char) (level : Nat) (items : List (List Char)) : List Char :=
  if items.isEmpty then [left, right]
  else left :: '\n' ::
    (List.intersperse [',', '\n'] (items.map (indent (level + 1) ++ ·))).flatten ++
      '\n' :: indent level ++ [right]

namespace Value

def atom : Value → List Char
  | .null | .garbled => "null".toList
  | .bool true => "true".toList
  | .bool false => "false".toList
  | .integer n => (toString n).toList
  | .decimal s => s.toList
  | .text s => writeText s
  | .array _ | .object _ => []

mutual

def compact : Value → List Char
  | .array items => brackets '[' ']' (compactItems items)
  | .object pairs => brackets '\x7b' '\x7d' (compactPairs pairs)
  | v => v.atom

def compactItems : List Value → List (List Char)
  | [] => []
  | v :: vs => compact v :: compactItems vs

def compactPairs : List (String × Value) → List (List Char)
  | [] => []
  | (k, v) :: r => (writeText k ++ ':' :: compact v) :: compactPairs r

end

mutual

def indented (level : Nat) : Value → List Char
  | .array items => indentedBrackets '[' ']' level (indentedItems (level + 1) items)
  | .object pairs => indentedBrackets '\x7b' '\x7d' level (indentedPairs (level + 1) pairs)
  | v => v.atom

def indentedItems (level : Nat) : List Value → List (List Char)
  | [] => []
  | v :: vs => indented level v :: indentedItems level vs

def indentedPairs (level : Nat) : List (String × Value) → List (List Char)
  | [] => []
  | (k, v) :: r => (writeText k ++ ':' :: ' ' :: indented level v) :: indentedPairs level r

end

def compactText (v : Value) : String := String.ofList v.compact

def indentedText (v : Value) : String := String.ofList (v.indented 0)

end Value

end SourceAtlas.Json
