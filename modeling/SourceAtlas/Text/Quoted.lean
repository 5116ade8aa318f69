import SourceAtlas.Text.PrintTable

namespace SourceAtlas.Text

def hexDigits (n : Nat) : List Char := Nat.toDigits 16 n

def isInvisible (c : Char) : Bool := inRanges invisibleRanges c.toNat

def isExtending (c : Char) : Bool := inRanges extendingRanges c.toNat

def escapeChar (c : Char) : List Char :=
  if c == '\t' then ['\\', 't']
  else if c == '\r' then ['\\', 'r']
  else if c == '\n' then ['\\', 'n']
  else if c == '"' then ['\\', '"']
  else if c == '\\' then ['\\', '\\']
  else if c == '\x00' then ['\\', '0']
  else if 0x20 ≤ c.toNat && c.toNat < 0x7f then [c]
  else if isExtending c || isInvisible c then
    ['\\', 'u', '\x7b'] ++ hexDigits c.toNat ++ ['\x7d']
  else [c]

def quoted (s : String) : String :=
  String.ofList ('"' :: s.toList.flatMap escapeChar ++ ['"'])

end SourceAtlas.Text
