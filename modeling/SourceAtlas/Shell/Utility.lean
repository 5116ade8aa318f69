import SourceAtlas.Json.Writer
import SourceAtlas.Shell.Session
import SourceAtlas.Text.Search

namespace SourceAtlas.Shell

def octalValue (ds : List Char) : Nat := ds.foldl (fun n c => n * 8 + (c.toNat - 48)) 0

def isOctal (c : Char) : Bool := '0' ≤ c && c ≤ '7'

def plainEscapes : List (Char × Nat) :=
  [('a', 7), ('b', 8), ('f', 12), ('n', 10), ('r', 13), ('t', 9), ('v', 11), ('\\', 92)]

def charBytes (c : Char) : List UInt8 := c.toString.toUTF8.toList

def unescape (zero : Bool) : (fuel : Nat) → List Char → List UInt8 × Bool
  | 0, _ => ([], false)
  | n + 1, s =>
      let go (front : List UInt8) (r : List Char) : List UInt8 × Bool :=
        match unescape zero n r with
        | (bs, e) => (front ++ bs, e)
      match s with
      | [] => ([], false)
      | '\\' :: 'c' :: r => if zero then ([], true) else go (charBytes '\\') ('c' :: r)
      | '\\' :: c :: r =>
          match plainEscapes.lookup c with
          | some b => go [b.toUInt8] r
          | none =>
              let digits := if zero then (if c == '0' then some (r.takeWhile isOctal |>.take 3) else none)
                else if isOctal c then some ((c :: r).takeWhile isOctal |>.take 3) else none
              match digits with
              | some ds =>
                  go [(octalValue ds).toUInt8] ((if zero then r else c :: r).drop ds.length)
              | none => go (charBytes '\\' ++ charBytes c) r
      | c :: r => go (charBytes c) r

def unescaped (zero : Bool) (s : String) : List UInt8 × Bool :=
  unescape zero (s.length + 1) s.toList

def ofBytes (bs : List UInt8) : ByteArray := ⟨bs.toArray⟩

def echo (words : List String) : Act Nat := do
  let (quiet, words) := match words with | "-n" :: r => (true, r) | r => (false, r)
  let (bs, ended) := unescaped true (" ".intercalate words)
  Act.print (ofBytes (bs ++ if quiet || ended then [] else [10]))
  return 0

structure Field where
  left : Bool
  zeros : Bool
  width : Nat

def Field.pad (f : Field) (bs : List UInt8) : List UInt8 :=
  let gap := f.width - bs.length
  if f.left then bs ++ List.replicate gap 32
  else if f.zeros then List.replicate gap 48 ++ bs
  else List.replicate gap 32 ++ bs

def readField (s : List Char) : Field × List Char :=
  let flags := s.takeWhile fun c => c == '-' || c == '0' || c == '+' || c == ' ' || c == '#'
  let r := s.drop flags.length
  let digits := r.takeWhile Char.isDigit
  (⟨flags.contains '-', flags.contains '0', (String.ofList digits).toNat?.getD 0⟩,
    r.drop digits.length)

def numberText (kind : Char) (n : Int) : String :=
  let digits (base : Nat) := String.ofList (Nat.toDigits base n.toNat)
  if kind == 'x' then digits 16 else if kind == 'o' then digits 8 else toString n

def fillFormat : (fuel : Nat) → List Char → List String → List UInt8 × List String × Bool
  | 0, _, ws => ([], ws, false)
  | n + 1, s, ws =>
      let go (front : List UInt8) (r : List Char) (ws : List String) (used : Bool) :=
        match fillFormat n r ws with
        | (bs, ws, u) => (front ++ bs, ws, used || u)
      match s with
      | [] => ([], ws, false)
      | '%' :: '%' :: r => go [37] r ws false
      | '%' :: r =>
          let (f, r) := readField r
          let w := ws.headD ""
          match r with
          | 's' :: r => go (f.pad w.toUTF8.toList) r (ws.drop 1) true
          | 'b' :: r => go (f.pad (unescaped true w).1) r (ws.drop 1) true
          | 'c' :: r => go (f.pad (w.toUTF8.toList.take 1)) r (ws.drop 1) true
          | k :: r => go (f.pad (numberText k (w.toInt?.getD 0)).toUTF8.toList) r (ws.drop 1) true
          | [] => ([], ws, false)
      | '\\' :: c :: r =>
          let digits := ((c :: r).takeWhile isOctal).take 3
          let rest := if digits.isEmpty then r else (c :: r).drop digits.length
          go (unescaped false (String.ofList ('\\' :: if digits.isEmpty then [c] else digits))).1
            rest ws false
      | c :: r => go (charBytes c) r ws false

def fillAll (format : List Char) : (fuel : Nat) → List String → List UInt8
  | 0, _ => []
  | n + 1, ws =>
      match fillFormat (format.length + 1) format ws with
      | (bs, rest, used) => if used && !rest.isEmpty then bs ++ fillAll format n rest else bs

def printFormatted : List String → Act Nat
  | [] => return 2
  | "--" :: f :: ws | f :: ws => do
      Act.print (ofBytes (fillAll f.toList (ws.length + 1) ws))
      return 0

def compareNumbers? (op : String) (a b : Int) : Option Bool :=
  match op with
  | "-eq" => some (a == b)
  | "-ne" => some (a != b)
  | "-lt" => some (a < b)
  | "-le" => some (a ≤ b)
  | "-gt" => some (b < a)
  | "-ge" => some (b ≤ a)
  | _ => none

def testFile (d : Disk) (op : String) (w : String) : Bool :=
  let p := Path.ofText w
  match op with
  | "-e" | "-r" | "-w" => d.exists? p
  | "-f" => d.isFile p
  | "-d" => d.isFolder p
  | "-s" => match d.stat p with | .ok (_, r) => r.isFolder || 0 < r.size | .error _ => false
  | "-L" | "-h" => match d.linkStat p with | .ok (_, r) => r.isLink | .error _ => false
  | "-x" =>
      match d.stat p with
      | .ok (_, ⟨.file _ _ x, _⟩) => x
      | .ok (_, r) => r.isFolder
      | .error _ => false
  | _ => false

def testWords (d : Disk) : List String → Bool
  | [] => false
  | ["!"] => true
  | "!" :: r => !testWords d r
  | [w] => w ≠ ""
  | ["-n", w] => w ≠ ""
  | ["-z", w] => w = ""
  | [op, w] => testFile d op w
  | [a, "=", b] => a = b
  | [a, "!=", b] => a ≠ b
  | [a, op, b] =>
      ((do compareNumbers? op (← a.toInt?) (← b.toInt?)) : Option Bool).getD false
  | a :: b :: c :: "-a" :: r => testWords d [a, b, c] && testWords d r
  | a :: b :: "-a" :: r => testWords d [a, b] && testWords d r
  | a :: b :: c :: "-o" :: r => testWords d [a, b, c] || testWords d r
  | a :: b :: "-o" :: r => testWords d [a, b] || testWords d r
  | _ => false
termination_by ws => ws.length

def statusOf (b : Bool) : Nat := if b then 0 else 1

def decimalMillis? (s : String) : Option Nat := do
  let cs := s.toList
  let whole := cs.takeWhile Char.isDigit
  match cs.drop whole.length with
  | [] => (String.ofList whole).toNat?.map (· * 1000)
  | '.' :: f =>
      if f.all Char.isDigit then
        let f3 := (f ++ ['0', '0', '0']).take 3
        some (((String.ofList whole).toNat?.getD 0) * 1000 + ((String.ofList f3).toNat?.getD 0))
      else none
  | ['s'] => (String.ofList whole).toNat?.map (· * 1000)
  | ['m'] => (String.ofList whole).toNat?.map (· * 60000)
  | ['h'] => (String.ofList whole).toNat?.map (· * 3600000)
  | _ => none

def sleep (words : List String) : Act Nat := do
  match words.mapM decimalMillis? with
  | some (m :: ms) => Act.pass (ms.foldl (· + ·) m); return 0
  | _ => return 1

def isFlag (w : String) : Bool := w.startsWith "-" && w ≠ "-"

def hasFlag (c : Char) (words : List String) : Bool := words.any fun w => isFlag w && w.toList.contains c

def operands (words : List String) : List Path := (words.filter fun w => !isFlag w).map Path.ofText

def forAll (ps : List Path) (f : Path → Act Nat) : Act Nat :=
  ps.foldlM (fun status p => return max status (← f p)) 0

def makeFolders (words : List String) : Act Nat :=
  forAll (operands words) fun p =>
    Act.attempt ("mkdir: cannot create directory '" ++ p.text ++ "'")
      (if hasFlag 'p' words then Disk.makeFolders p else Disk.makeFolder p)

def touch (words : List String) : Act Nat :=
  forAll (operands words) fun p =>
    Act.attempt ("touch: cannot touch '" ++ p.text ++ "'") (Disk.appendBytes p ByteArray.empty)

def remove (words : List String) : Act Nat :=
  forAll (operands words) fun p => do
    let d := (← get).disk
    match d.linkStat p with
    | .error _ =>
        if hasFlag 'f' words then return 0
        else Act.attempt ("rm: cannot remove '" ++ p.text ++ "'") (Disk.removeFile p)
    | .ok (_, r) =>
        Act.attempt ("rm: cannot remove '" ++ p.text ++ "'")
          (if r.isFolder && (hasFlag 'r' words || hasFlag 'R' words) then Disk.removeTree p
          else Disk.removeFile p)

def sources (program : String) (ps : List Path) : Act (Nat × ByteArray) := do
  if ps.isEmpty then return (0, (← get).input)
  else ps.foldlM (fun (status, b) p => do
    match (← get).disk.readBytes p with
    | .ok more => return (status, b ++ more)
    | .error fault =>
        Act.complain (program ++ ": " ++ p.text ++ ": " ++
          (fault.message.splitOn " (os error").headD "")
        return (1, b)) (0, ByteArray.empty)

def concatenate (words : List String) : Act Nat := do
  let (status, b) ← sources "cat" (operands words)
  Act.print b
  return status

def countLines (words : List String) : Act Nat := do
  let ps := operands words
  let (status, b) ← sources "wc" ps
  let n := if hasFlag 'c' words then b.size else b.toList.count 10
  let label := String.join (ps.map fun p => " " ++ p.text)
  Act.print (toString n ++ label ++ "\n").toUTF8
  return status

def link (words : List String) : Act Nat := do
  match operands words with
  | [target, p] =>
      Act.attempt ("ln: failed to create symbolic link '" ++ p.text ++ "'") do
        let spot ← Disk.query (·.locate false p)
        if spot.record.isSome then throw .exists
        modify (·.put spot.place (.link target))
  | _ => return 1

def printVariable (words : List String) : Act Nat := do
  match words with
  | [name] =>
      match (← get).values.lookup name with
      | some v => Act.print (v ++ "\n").toUTF8; return 0
      | none => return 1
  | _ => return 0

def nameParts (folder : Bool) (words : List String) : Act Nat := do
  let p := Path.ofText (words.headD "")
  let t := if folder then (match p.parent with
      | some q => if q.isEmpty then "." else q.text
      | none => p.text)
    else p.fileName.getD p.text
  Act.print (t ++ "\n").toUTF8
  return 0

def utilities : List (String × (List String → Act Nat)) :=
  [("echo", echo), ("printf", printFormatted), ("true", fun _ => return 0),
   ("false", fun _ => return 1), ("sleep", sleep), ("mkdir", makeFolders), ("touch", touch),
   ("rm", remove), ("cat", concatenate), ("wc", countLines), ("ln", link),
   ("printenv", printVariable), ("dirname", nameParts true), ("basename", nameParts false),
   ("chmod", fun _ => return 0),
   ("test", fun ws => return statusOf (testWords (← get).disk ws))]

def builtins : List (String × (List String → Act Nat)) :=
  [("echo", echo), ("printf", printFormatted), (":", fun _ => return 0),
   ("true", fun _ => return 0), ("false", fun _ => return 1),
   ("test", fun ws => return statusOf (testWords (← get).disk ws)),
   ("[", fun ws => return statusOf (testWords (← get).disk ws.dropLast)),
   ("wait", fun _ => return 0), ("trap", fun _ => return 0), ("umask", fun _ => return 0)]

end SourceAtlas.Shell
