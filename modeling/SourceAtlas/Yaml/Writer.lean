import SourceAtlas.Yaml.Core

namespace SourceAtlas.Yaml

def isPlainlyVisible (c : Char) : Bool :=
  let n := c.toNat
  n == 0xa || (0x20 ≤ n && n ≤ 0x7e) || (0xa0 ≤ n && n ≤ 0xd7ff) ||
    (0xe000 ≤ n && n ≤ 0xfffd && n != 0xfeff) || 0x10000 ≤ n

def isWhite (c : Char) : Bool := isBlank c || isBreak c

def whiteNext (r : List Char) : Bool := match r with | c :: _ => isWhite c | [] => true

def startMarks : List Char := "#,[]\x7b\x7d&*!|>'\"%@`".toList

def marksStart (s : List Char) : Bool :=
  match s with
  | [] => false
  | c :: r =>
      startMarks.contains c || ((c == '?' || c == ':' || c == '-') && whiteNext r) ||
        "---".toList.isPrefixOf s || "...".toList.isPrefixOf s

def marksInside : List Char → Bool
  | a :: b :: r =>
      (b == ':' && whiteNext r) || (b == '#' && isWhite a) || marksInside (b :: r)
  | _ => false

def pairwise (p q : Char → Bool) : List Char → Bool
  | a :: b :: r => (p a && q b) || pairwise p q (b :: r)
  | _ => false

structure Shape where
  plain : Bool
  single : Bool
  block : Bool
  deriving DecidableEq, Repr

def isSpace (c : Char) : Bool := c == ' '

def shape (s : List Char) : Shape :=
  if s.isEmpty then ⟨true, true, false⟩
  else
    let special := s.any (fun c => !isPlainlyVisible c)
    let broken := s.any isBreak
    let edge (c : Option Char) := match c with | some c => isSpace c || isBreak c | none => false
    let breakSpace := pairwise isBreak isSpace s
    let spaceBreak := pairwise isSpace isBreak s
    let trailingSpace := (s.getLast?.map isSpace).getD false
    let worst := special || spaceBreak
    { plain := !(edge s.head? || edge s.getLast? || breakSpace || worst || broken ||
        marksStart s || marksInside s)
      single := !(breakSpace || worst)
      block := !(trailingSpace || worst) }

def textStyle (s : List Char) : ScalarStyle :=
  let f := shape s
  if s.contains '\n' then if f.block then .literal else .doubleQuoted
  else if f.plain && !isAmbiguous s then .plain
  else if f.single then .singleQuoted
  else .doubleQuoted

def spaces (n : Nat) : List Char := List.replicate n ' '

def hexDigit (n : Nat) : Char := (Nat.digitChar n).toUpper

def hexPadded : Nat → Nat → List Char
  | 0, _ => []
  | k + 1, n => hexPadded k (n / 16) ++ [hexDigit (n % 16)]

def writtenEscapes : List (Char × Char) :=
  [('\x00', '0'), ('\x07', 'a'), ('\x08', 'b'), ('\t', 't'), ('\n', 'n'), ('\x0b', 'v'),
   ('\x0c', 'f'), ('\r', 'r'), ('\x1b', 'e'), ('"', '"'), ('\\', '\\'), ('\u0085', 'N'),
   ('\u00a0', '_'), ('\u2028', 'L'), ('\u2029', 'P')]

def escaped (c : Char) : List Char :=
  match writtenEscapes.lookup c with
  | some x => ['\\', x]
  | none =>
      if c.toNat ≤ 0xff then ['\\', 'x'] ++ hexPadded 2 c.toNat
      else if c.toNat ≤ 0xffff then ['\\', 'u'] ++ hexPadded 4 c.toNat
      else ['\\', 'U'] ++ hexPadded 8 c.toNat

def doubleQuoted (s : List Char) : List Char :=
  '"' :: s.flatMap (fun c =>
    if !isPlainlyVisible c || isBreak c || c == '"' || c == '\\' then escaped c else [c]) ++ ['"']

def singleFrom (indent : Nat) (fresh : Bool) : List Char → List Char
  | [] => if fresh then spaces indent else []
  | c :: r =>
      if isSpace c then c :: singleFrom indent fresh r
      else if isBreak c then
        (if !fresh && c == '\n' then ['\n', c] else [c]) ++ singleFrom indent true r
      else
        (if fresh then spaces indent else []) ++ (if c == '\'' then ['\'', '\''] else [c]) ++
          singleFrom indent false r

def singleQuoted (indent : Nat) (s : List Char) : List Char :=
  '\'' :: singleFrom indent false s ++ ['\'']

def blockHints (s : List Char) : List Char :=
  let indent := match s with
    | c :: _ => if isSpace c || isBreak c then ['2'] else []
    | [] => []
  let chomp := match s.reverse with
    | [] => ['-']
    | [c] => if isBreak c then ['+'] else ['-']
    | c :: d :: _ => if !isBreak c then ['-'] else if isBreak d then ['+'] else []
  indent ++ chomp

def literalLines (indent : Nat) (fresh : Bool) : List Char → List Char
  | [] => if fresh then [] else ['\n']
  | c :: r =>
      if isBreak c then c :: literalLines indent true r
      else (if fresh then spaces indent else []) ++ c :: literalLines indent false r

def literalBlock (indent : Nat) (s : List Char) : List Char :=
  '|' :: blockHints s ++ '\n' :: literalLines indent true s

def writeText (indent : Nat) (s : List Char) : List Char :=
  match textStyle s with
  | .literal => literalBlock indent s
  | .plain => s ++ ['\n']
  | .singleQuoted => singleQuoted indent s ++ ['\n']
  | _ => doubleQuoted s ++ ['\n']

inductive Leaf where
  | text (s : List Char)
  | number (n : Nat)
  deriving Repr

def Leaf.write (indent : Nat) : Leaf → List Char
  | .text s => writeText indent s
  | .number n => Nat.toDigits 10 n ++ ['\n']

def writeEntry (depth : Nat) (e : String × Leaf) : List Char :=
  spaces (2 * depth) ++ e.1.toList ++ [':', ' '] ++ e.2.write (2 * depth + 2)

def writeSection (name : String) (entries : List (String × Leaf)) : List Char :=
  name.toList ++ [':', '\n'] ++ entries.flatMap (writeEntry 1)

end SourceAtlas.Yaml
