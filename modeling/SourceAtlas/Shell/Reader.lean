import SourceAtlas.Shell.Script
import SourceAtlas.Text.Search
import SourceAtlas.Text.Split

namespace SourceAtlas.Shell

abbrev Reader (α : Type) := List Char → Option (α × List Char)

def isGap (c : Char) : Bool := c == ' ' || c == '\t'

def isDelimiter (c : Char) : Bool := isGap c || "\n;&|<>()".toList.contains c

def isNameStart (c : Char) : Bool := c.isAlpha || c == '_'

def isNameChar (c : Char) : Bool := c.isAlphanum || c == '_'

def skipGaps : List Char → List Char
  | [] => []
  | '\\' :: '\n' :: r => skipGaps r
  | '#' :: r => r.dropWhile (· != '\n')
  | c :: r => if isGap c then skipGaps r else c :: r

def skipBreaks : (fuel : Nat) → List Char → List Char
  | 0, s => s
  | n + 1, s =>
      match skipGaps s with
      | ';' :: ';' :: r => ';' :: ';' :: r
      | ';' :: r | '\n' :: r | '&' :: r => skipBreaks n r
      | r => r

def afterWord? (w : String) (s : List Char) : Option (List Char) := do
  let r ← Text.stripPrefix? w.toList s
  match r with
  | [] => some []
  | c :: _ => if isDelimiter c then some r else none

def closingWords : List String := ["then", "else", "elif", "fi", "do", "done", "esac", "\x7d"]

def isClosed (s : List Char) : Bool :=
  match s with
  | [] => true
  | ')' :: _ | ';' :: ';' :: _ => true
  | _ => closingWords.any fun w => (afterWord? w s).isSome

def expect (w : String) (s : List Char) : Option (List Char) :=
  afterWord? w (skipBreaks s.length s)

def readName : Reader String := fun s =>
  match s with
  | c :: r =>
      if isNameStart c then
        some (String.ofList (c :: r.takeWhile isNameChar), r.dropWhile isNameChar)
      else if c.isDigit || "@*#?$!-".toList.contains c then some (c.toString, r)
      else none
  | [] => none

def readBracedName : Reader String := fun s =>
  if (s.headD ' ').isDigit then
    some (String.ofList (s.takeWhile Char.isDigit), s.dropWhile Char.isDigit)
  else readName s

def settingName? (s : List Char) : Option (String × List Char) := do
  let c ← s.head?
  if !isNameStart c then none
  match s.dropWhile isNameChar with
  | '=' :: r => some (String.ofList (s.takeWhile isNameChar), r)
  | _ => none

def pushText (c : Char) (quoted : Bool) : Word → Word
  | .text s q :: ps => if q == quoted then .text (c :: s) q :: ps else .text [c] quoted :: .text s q :: ps
  | ps => .text [c] quoted :: ps

def cutSigns : List (String × Cut) :=
  [("%%", .longestEnd), ("%", .shortestEnd), ("##", .longestStart), ("#", .shortestStart)]

def otherwiseSigns : List (Char × Otherwise) :=
  [('-', .use), ('=', .assign), ('?', .complain), ('+', .replace)]

def otherwiseSign? : List Char → Option ((Otherwise × Bool) × List Char)
  | ':' :: c :: r => (otherwiseSigns.lookup c).map fun o => ((o, true), r)
  | c :: r => (otherwiseSigns.lookup c).map fun o => ((o, false), r)
  | [] => none

def cutSign? (s : List Char) : Option (Cut × List Char) :=
  cutSigns.findSome? fun e => (Text.stripPrefix? e.1.toList s).map fun r => (e.2, r)

inductive Bound where
  | delimiter
  | quote
  | brace
  | never
  deriving DecidableEq

def Bound.isQuoted : Bound → Bool
  | .quote | .never => true
  | _ => false

def Bound.stops (b : Bound) (c : Char) : Bool :=
  match b with
  | .delimiter => isDelimiter c
  | .quote => c == '"'
  | .brace => c == '\x7d'
  | .never => false

def redirectionSign? (s : List Char) : Option ((Nat × Mode) × List Char) := do
  let digits := s.takeWhile Char.isDigit
  let given : Option Nat := (String.ofList digits).toNat?
  match s.dropWhile Char.isDigit with
  | '>' :: '>' :: r => some ((given.getD 1, .extend), r)
  | '>' :: '&' :: r => some ((given.getD 1, .duplicate), r)
  | '>' :: '|' :: r | '>' :: r => some ((given.getD 1, .create), r)
  | '<' :: '<' :: r => some ((given.getD 0, .document), r)
  | '<' :: r => some ((given.getD 0, .input), r)
  | _ => none

def takeDocument (stop : List Char) (s : List Char) : List Char × List Char :=
  let line := s.takeWhile (· != '\n')
  let lines := Text.splitAt '\n' ((s.dropWhile (· != '\n')).drop 1)
  let body := lines.takeWhile (· != stop)
  let after := lines.drop (body.length + 1)
  (body.flatMap (· ++ ['\n']), line ++ '\n' :: Text.joinWith ['\n'] after)

def plainText : Word → List Char
  | [] => []
  | .text s _ :: ps => s ++ plainText ps
  | _ :: ps => plainText ps

def hasQuotes (w : Word) : Bool := w.any fun p => match p with | .text _ q => q | _ => false

mutual

def readParts (b : Bound) : (fuel : Nat) → Reader Word
  | 0, _ => none
  | n + 1, s =>
      let quoted := b.isQuoted
      match s with
      | [] => if b = .delimiter ∨ b = .never then some ([], []) else none
      | '\\' :: '\n' :: r => readParts b n r
      | '\\' :: c :: r => do
          let (ps, rest) ← readParts b n r
          if quoted && !"$`\"\\".toList.contains c then
            some (pushText '\\' true (pushText c true ps), rest)
          else some (pushText c true ps, rest)
      | '$' :: r =>
          match readDollar quoted n r with
          | some (p, r) => do
              let (ps, rest) ← readParts b n r
              some (p :: ps, rest)
          | none => do
              let (ps, rest) ← readParts b n r
              some (pushText '$' quoted ps, rest)
      | '`' :: r => do
          let body := r.takeWhile (· != '`')
          let (c, _) ← readList n body
          let (ps, rest) ← readParts b n ((r.dropWhile (· != '`')).drop 1)
          some (.output c quoted :: ps, rest)
      | c :: r =>
          if b.stops c then some ([], s)
          else if c == '\'' && !quoted then do
            let body := r.takeWhile (· != '\'')
            let (ps, rest) ← readParts b n ((r.dropWhile (· != '\'')).drop 1)
            some (.text body true :: ps, rest)
          else if c == '"' && !quoted then do
            let (inner, r) ← readParts .quote n r
            let (ps, rest) ← readParts b n (r.drop 1)
            some (.text [] true :: inner ++ ps, rest)
          else do
            let (ps, rest) ← readParts b n r
            some (pushText c quoted ps, rest)

def readDollar (quoted : Bool) : (fuel : Nat) → Reader Part
  | 0, _ => none
  | n + 1, s =>
      match s with
      | '(' :: r => do
          let (c, r) ← readList n r
          match skipGaps r with
          | ')' :: r => some (.output c quoted, r)
          | _ => none
      | '\x7b' :: '#' :: r =>
          match readBracedName r with
          | some (name, '\x7d' :: r) => some (.size name, r)
          | _ => readBraced quoted n ('#' :: r)
      | '\x7b' :: r => readBraced quoted n r
      | r => do
          let (name, r) ← readName r
          some (.value name quoted, r)

def readBraced (quoted : Bool) : (fuel : Nat) → Reader Part
  | 0, _ => none
  | n + 1, s => do
      let (name, r) ← readBracedName s
      match r with
      | '\x7d' :: r => some (.value name quoted, r)
      | _ =>
          match otherwiseSign? r with
          | some ((how, orEmpty), r) => do
              let (w, r) ← readParts .brace n r
              some (.otherwise name how orEmpty w quoted, r.drop 1)
          | none => do
              let (how, r) ← cutSign? r
              let (w, r) ← readParts .brace n r
              some (.cut name how w quoted, r.drop 1)

def readRedirections : (fuel : Nat) → Reader (List Redirection)
  | 0, s => some ([], s)
  | n + 1, s =>
      match redirectionSign? (skipGaps s) with
      | none => some ([], s)
      | some ((fd, mode), r) => do
          let (one, r) ← readRedirection fd mode n r
          let (more, r) ← readRedirections n r
          some (one :: more, r)

def readRedirection (fd : Nat) (mode : Mode) : (fuel : Nat) → Reader Redirection
  | 0, _ => none
  | n + 1, s => do
      let (w, r) ← readParts .delimiter n (skipGaps s)
      if mode = .document then
        let (body, r) := takeDocument (plainText w) r
        if hasQuotes w then some (.mk fd mode [.text body true], r)
        else
          let (parts, _) ← readParts .never n body
          some (.mk fd mode parts, r)
      else some (.mk fd mode w, r)

def readSimple (line : Nat) (ss : List (String × Word)) (ws : List Word)
    (rs : List Redirection) : (fuel : Nat) → Reader Command
  | 0, _ => none
  | n + 1, s =>
      let s := skipGaps s
      let done := some (Command.simple line ss.reverse ws.reverse rs.reverse, s)
      match redirectionSign? s with
      | some ((fd, mode), r) => do
          let (one, r) ← readRedirection fd mode n r
          readSimple line ss ws (one :: rs) n r
      | none =>
          match s with
          | [] => done
          | c :: _ =>
              if isDelimiter c then done
              else match if ws.isEmpty then settingName? s else none with
                | some (name, r) => do
                    let (w, r) ← readParts .delimiter n r
                    readSimple line ((name, w) :: ss) ws rs n r
                | none => do
                    let (w, r) ← readParts .delimiter n s
                    readSimple line ss (w :: ws) rs n r

def readWords : (fuel : Nat) → Reader (List Word)
  | 0, _ => none
  | n + 1, s =>
      match skipGaps s with
      | [] => some ([], [])
      | c :: r =>
          if isDelimiter c then some ([], c :: r)
          else do
            let (w, r) ← readParts .delimiter n (c :: r)
            let (ws, r) ← readWords n r
            some (w :: ws, r)

def readPatterns : (fuel : Nat) → Reader (List Word)
  | 0, _ => none
  | n + 1, s => do
      let (w, r) ← readParts .delimiter n (skipGaps s)
      match skipGaps r with
      | '|' :: r => do
          let (ws, r) ← readPatterns n r
          some (w :: ws, r)
      | ')' :: r => some ([w], r)
      | _ => none

def readArms : (fuel : Nat) → Reader (List (List Word × Command))
  | 0, _ => none
  | n + 1, s =>
      let s := skipBreaks n s
      match afterWord? "esac" s with
      | some r => some ([], r)
      | none => do
          let s := match s with | '(' :: r => r | r => r
          let (ws, r) ← readPatterns n s
          let (c, r) ← readList n r
          let r := match skipGaps r with | ';' :: ';' :: r => r | r => r
          let (more, r) ← readArms n r
          some ((ws, c) :: more, r)

def readChoice : (fuel : Nat) → Reader Command
  | 0, _ => none
  | n + 1, s => do
      let (condition, r) ← readList n s
      let (yes, r) ← readList n (← expect "then" r)
      let r := skipBreaks n r
      match afterWord? "elif" r, afterWord? "else" r with
      | some r, _ => do
          let (no, r) ← readChoice n r
          some (.choice condition yes no, r)
      | _, some r => do
          let (no, r) ← readList n r
          some (.choice condition yes no, ← expect "fi" r)
      | _, _ => some (.choice condition yes .skip, ← expect "fi" r)

def readLoop (until_ : Bool) : (fuel : Nat) → Reader Command
  | 0, _ => none
  | n + 1, s => do
      let (condition, r) ← readList n s
      let (body, r) ← readList n (← expect "do" r)
      some (.loop until_ condition body, ← expect "done" r)

def readFor : (fuel : Nat) → Reader Command
  | 0, _ => none
  | n + 1, s => do
      let (name, r) ← readName (skipGaps s)
      let (ws, r) ← match afterWord? "in" (skipBreaks n r) with
        | some r => do
            let (ws, r) ← readWords n r
            some (some ws, r)
        | none => some (none, r)
      let (body, r) ← readList n (← expect "do" r)
      some (.forEach name ws body, ← expect "done" r)

def readSelect : (fuel : Nat) → Reader Command
  | 0, _ => none
  | n + 1, s => do
      let (w, r) ← readParts .delimiter n (skipGaps s)
      let (arms, r) ← readArms n (← expect "in" r)
      some (.select w arms, r)

def readCompound : (fuel : Nat) → List Char → Option (Reader Command × List Char)
  | 0, _ => none
  | n + 1, s =>
      match s with
      | '(' :: r => some (fun r => do
          let (c, r) ← readList n r
          match skipBreaks n r with
          | ')' :: r => some (.grouped true c [], r)
          | _ => none, r)
      | _ =>
          match afterWord? "if" s, afterWord? "while" s, afterWord? "until" s with
          | some r, _, _ => some (readChoice n, r)
          | _, some r, _ => some (readLoop false n, r)
          | _, _, some r => some (readLoop true n, r)
          | _, _, _ =>
              match afterWord? "for" s, afterWord? "case" s, afterWord? "\x7b" s with
              | some r, _, _ => some (readFor n, r)
              | _, some r, _ => some (readSelect n, r)
              | _, _, some r => some (fun r => do
                  let (c, r) ← readList n r
                  some (.grouped false c [], ← expect "\x7d" r), r)
              | _, _, _ => none

def readCommand : (fuel : Nat) → Reader Command
  | 0, _ => none
  | n + 1, s =>
      let s := skipGaps s
      match readCompound n s with
      | some (f, r) => do
          let (c, r) ← f r
          let (rs, r) ← readRedirections n r
          some (if rs.isEmpty then c else .grouped false c rs, r)
      | none => readSimple (s.count '\n') [] [] [] n s

def readPipeline : (fuel : Nat) → Reader Command
  | 0, _ => none
  | n + 1, s =>
      match afterWord? "!" (skipGaps s) with
      | some r => do
          let (c, r) ← readPipeline n r
          some (.negated c, r)
      | none => do
          let (c, r) ← readCommand n s
          match skipGaps r with
          | '|' :: '|' :: r => some (c, '|' :: '|' :: r)
          | '|' :: r => do
              let (d, r) ← readPipeline n (skipBreaks n r)
              some (.pipe c d, r)
          | r => some (c, r)

def readJoined (first : Option (Command → Command)) : (fuel : Nat) → Reader Command
  | 0, _ => none
  | n + 1, s => do
      let (c, r) ← readPipeline n s
      let c := (first.getD id) c
      match skipGaps r with
      | '&' :: '&' :: r => readJoined (some (Command.both c)) n (skipBreaks n r)
      | '|' :: '|' :: r => readJoined (some (Command.either c)) n (skipBreaks n r)
      | r => some (c, r)

def readList : (fuel : Nat) → Reader Command
  | 0, _ => none
  | n + 1, s =>
      let s := skipBreaks n s
      if isClosed s then some (.skip, s)
      else do
        let (c, r) ← readJoined none n s
        if isClosed (skipGaps r) then some (c, skipGaps r)
        else
          let (more, r) ← readList n r
          some (.sequence c more, r)

end

def Command.ofText? (s : List Char) : Option Command := do
  let (c, rest) ← readList (8 * s.length + 64) s
  if rest.isEmpty then some c else none

end SourceAtlas.Shell
