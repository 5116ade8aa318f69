import SourceAtlas.Settings.Basic
import SourceAtlas.Text.Search
import SourceAtlas.Text.Split

namespace SourceAtlas.Command

structure Flag where
  long : String
  letter : Option Char
  takesValue : Bool
  deriving DecidableEq, Repr

/-- Why a command line is not carried out. -/
inductive Aside where
  | help
  | version
  | misused
  deriving DecidableEq, Repr

inductive Item where
  | flag (long value : String)
  | word (w : String)
  deriving DecidableEq, Repr

namespace Flag

def config : Flag := ⟨"config", some 'c', true⟩

def help : Flag := ⟨"help", some 'h', false⟩

def version : Flag := ⟨"version", some 'V', false⟩

def withLong? (flags : List Flag) (name : List Char) : Option Flag :=
  flags.find? fun f => f.long.toList == name

def withLetter? (flags : List Flag) (c : Char) : Option Flag :=
  flags.find? fun f => f.letter == some c

end Flag

def looksLikeFlag : List Char → Bool
  | '-' :: _ :: _ => true
  | _ => false

def aside? (f : Flag) : Option Aside :=
  if f = .help then some .help else if f = .version then some .version else none

abbrev Taken := Except Aside (List Item × Nat)

def takeFlag (f : Flag) (value : Option (List Char)) (next : Option String) : Taken :=
  match f.takesValue, value, next with
  | true, some v, _ => .ok ([.flag f.long (String.ofList v)], 1)
  | true, none, some w =>
      if looksLikeFlag w.toList then .error .misused else .ok ([.flag f.long w], 2)
  | true, none, none => .error .misused
  | false, some _, _ => .error .misused
  | false, none, _ =>
      match aside? f with
      | some a => .error a
      | none => .ok ([.flag f.long ""], 1)

def takeLong (flags : List Flag) (s : List Char) (next : Option String) : Taken :=
  let name := s.takeWhile (· != '=')
  let value := if s.contains '=' then some (s.drop (name.length + 1)) else none
  match Flag.withLong? flags name with
  | some f => takeFlag f value next
  | none => .error .misused

def takeLetters (flags : List Flag) (next : Option String) : List Char → Taken
  | [] => .ok ([], 1)
  | c :: r =>
      match Flag.withLetter? flags c with
      | none => .error .misused
      | some f =>
          if f.takesValue then
            match r with
            | [] => takeFlag f none next
            | '=' :: v => takeFlag f (some v) next
            | v => takeFlag f (some v) next
          else do
            let (one, _) ← takeFlag f none next
            let (more, n) ← takeLetters flags next r
            return (one ++ more, n)

def readItems (flags : List Flag) (first : Bool) : (fuel : Nat) → List String →
    Except Aside (List Item × List String)
  | 0, ws => .ok ([], ws)
  | _ + 1, [] => .ok ([], [])
  | n + 1, w :: ws =>
      match w.toList with
      | ['-', '-'] => if first then .error .misused else .ok (ws.map .word, [])
      | '-' :: '-' :: s => do
          let (items, k) ← takeLong flags s ws.head?
          let (more, rest) ← readItems flags first n (ws.drop (k - 1))
          return (items ++ more, rest)
      | '-' :: c :: s => do
          let (items, k) ← takeLetters flags ws.head? (c :: s)
          let (more, rest) ← readItems flags first n (ws.drop (k - 1))
          return (items ++ more, rest)
      | _ =>
          if first then .ok ([.word w], ws)
          else do
            let (more, rest) ← readItems flags first n ws
            return (.word w :: more, rest)

structure Level where
  items : List Item
  once : (items.filterMap fun i => match i with
    | .flag f _ => some f | .word _ => none).Nodup

namespace Level

def ofItems (items : List Item) : Except Aside Level :=
  if h : (items.filterMap fun i => match i with
      | .flag f _ => some f | .word _ => none).Nodup then .ok ⟨items, h⟩
  else .error .misused

def value? (l : Level) (f : String) : Option String :=
  l.items.findSome? fun i => match i with
    | .flag g v => if g = f then some v else none
    | .word _ => none

def words (l : Level) : List String :=
  l.items.filterMap fun i => match i with | .word w => some w | .flag .. => none

def required (l : Level) (f : String) : Except Aside String :=
  match l.value? f with | some v => .ok v | none => .error .misused

def onlyWord (l : Level) : Except Aside String :=
  match l.words with | [w] => .ok w | _ => .error .misused

def noWords (l : Level) : Except Aside Unit :=
  if l.words.isEmpty then .ok () else .error .misused

end Level

def pathOf (s : String) : Except Aside Path :=
  if s.isEmpty then .error .misused else .ok (Path.ofText s)

def optionalPath (s : Option String) : Except Aside (Option Path) :=
  match s with
  | none => .ok none
  | some s => (pathOf s).map some

def numberOf (s : String) : Except Aside Nat :=
  let ds := match s.toList with | '+' :: r => r | r => r
  let n := ds.foldl (fun n c => n * 10 + (c.toNat - 48)) 0
  if !ds.isEmpty && ds.all Char.isDigit && n ≤ Settings.wordMax then .ok n else .error .misused

inductive Order where
  | validate (archive : Path)
  | clone (url : String) (id token : Option String)
  | analyze (id : String) (archive output : Option Path)
  | context (id : String) (request : List String) (json : Bool)
  | cleanup (hours : Option Nat)
  deriving DecidableEq, Repr

structure Invocation where
  config : String
  order : Order
  deriving DecidableEq, Repr

def tokenVariable : String := "GITHUB_TOKEN"

def usualConfig : String := "codesight.yaml"

structure Shape where
  flags : List Flag
  order : Settings.Environment → Level → Except Aside Order

def projectFlag : Flag := ⟨"project-id", some 'p', true⟩

def validateShape : Shape :=
  ⟨[], fun _ l => do return .validate (← pathOf (← l.onlyWord))⟩

def cloneShape : Shape :=
  ⟨[{ projectFlag with letter := none }, ⟨"token", none, true⟩], fun env l => do
    let token := (l.value? "token").or (env.lookup tokenVariable)
    return .clone (← l.onlyWord) (l.value? "project-id") token⟩

def analyzeShape : Shape :=
  ⟨[projectFlag, ⟨"zip", some 'z', true⟩, ⟨"output", some 'o', true⟩], fun _ l => do
    l.noWords
    let id ← l.required "project-id"
    return .analyze id (← optionalPath (l.value? "zip")) (← optionalPath (l.value? "output"))⟩

def contextShape : Shape :=
  ⟨[projectFlag, ⟨"json", none, false⟩], fun _ l => do
    let id ← l.required "project-id"
    if l.words.isEmpty then throw .misused
    return .context id l.words (l.value? "json").isSome⟩

def cleanupShape : Shape :=
  ⟨[⟨"max-age-hours", none, true⟩], fun _ l => do
    l.noWords
    match l.value? "max-age-hours" with
    | none => return .cleanup none
    | some s => return .cleanup (some (← numberOf s))⟩

def shapes : List (String × Shape) :=
  [("validate", validateShape), ("clone", cloneShape), ("analyze", analyzeShape),
   ("context", contextShape), ("cleanup", cleanupShape)]

def Invocation.ofWords (env : Settings.Environment) (ws : List String) :
    Except Aside Invocation := do
  let (items, rest) ← readItems [.config, .help, .version] true (ws.length + 1) ws
  let top ← Level.ofItems items
  match top.words with
  | ["help"] => throw .help
  | [name] =>
      match shapes.lookup name with
      | none => throw .misused
      | some shape =>
          let (items, _) ←
            readItems (.config :: .help :: shape.flags) false (rest.length + 1) rest
          let level ← Level.ofItems items
          let order ← shape.order env level
          let config := ((level.value? "config").or (top.value? "config")).getD usualConfig
          return ⟨config, order⟩
  | _ => throw .misused

end SourceAtlas.Command
