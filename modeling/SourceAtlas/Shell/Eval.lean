import SourceAtlas.Shell.Pattern
import SourceAtlas.Shell.Program
import SourceAtlas.Shell.Reader
import SourceAtlas.Shell.Utility

namespace SourceAtlas.Shell

structure Fields where
  -- finished ones, the last one first
  finished : List (List Marked)
  current : Option (List Marked)

namespace Fields

def none_ : Fields := ⟨[], none⟩

def close (f : Fields) : Fields :=
  match f.current with
  | some c => ⟨c :: f.finished, none⟩
  | none => f

def add (cs : List Char) (quoted : Bool) (f : Fields) : Fields :=
  { f with current := some (f.current.getD [] ++ cs.map fun c => (c, quoted)) }

def addSplit (cs : List Char) (f : Fields) : Fields :=
  cs.foldl (fun f c => if isGap c || c == '\n' then f.close else f.add [c] false) f

def addAll (args : List String) (put : List Char → Fields → Fields) (f : Fields) : Fields :=
  match args with
  | [] => f
  | a :: r => r.foldl (fun f a => put a.toList f.close) (put a.toList f)

def lists (f : Fields) : List (List Marked) := f.close.finished.reverse

end Fields

def textOf (m : List Marked) : String := String.ofList (m.map (·.1))

def addValue (split quoted : Bool) (v : String) (f : Fields) : Fields :=
  if quoted then f.add v.toList true
  else if split then f.addSplit v.toList
  else f.add v.toList false

def addArguments (split quoted : Bool) (name : String) (args : List String) (f : Fields) : Fields :=
  if quoted && name == "@" && split then f.addAll args fun cs g => g.add cs true
  else if quoted || !split then f.add (" ".intercalate args).toList quoted
  else f.addAll args Fields.addSplit

def complainAt (line : Nat) (text : String) : Act Unit := do
  let s ← get
  Act.complain (s.name ++ ": " ++ toString (s.breaks + 1 - line) ++ ": " ++ text)

def catchExit (a : Act Unit) : Act Unit := do
  match a.run (← get) with
  | (.ok _, s) => set s
  | (.error (.exit n), s) => set { s with status := n }
  | (.error e, s) => set s; throw e

def apart (a : Act Unit) : Act Unit := do
  let s ← get
  catchExit a
  modify fun t =>
    { t with values := s.values, arguments := s.arguments, out := s.out, err := s.err,
             input := s.input, disk := { t.disk with base := s.disk.base } }

def dropBreaks (cs : List Char) : List Char := (cs.reverse.dropWhile (· == '\n')).reverse

def createComplaint (p : Path) (fault : Disk.Fault) : String :=
  "cannot create " ++ p.text ++ ": " ++ (match fault with
    | .notFound | .notFolder => "Directory nonexistent"
    | e => (e.message.splitOn " (os error").headD "")

def openComplaint (p : Path) (fault : Disk.Fault) : String :=
  "cannot open " ++ p.text ++ ": " ++ (match fault with
    | .notFound | .notFolder => "No such file"
    | e => (e.message.splitOn " (os error").headD "")

def specialSink? (s : Session) (p : String) : Option Sink :=
  match p with
  | "/dev/null" => some .nowhere
  | "/dev/stdout" => some s.out
  | "/dev/stderr" => some s.err
  | _ => none

def setSink (descriptor : Nat) (sink : Sink) (s : Session) : Session :=
  if descriptor = 2 then { s with err := sink } else { s with out := sink }

def openSink (p : String) (empty : Bool) : Act (Except Disk.Fault Sink) := do
  match specialSink? (← get) p with
  | some sink => return .ok sink
  | none =>
      let path := Path.ofText p
      let open_ := if empty then Disk.writeBytes path ByteArray.empty
        else discard (Disk.openFile path)
      match ← Act.edit open_ with
      | .error e => return .error e
      | .ok _ =>
          match (← get).disk.canonical path with
          | .ok place => return .ok (.file place)
          | .error e => return .error e

def redirect (line descriptor : Nat) (mode : Mode) (target : String) : Act Bool := do
  match mode with
  | .duplicate =>
      let s ← get
      let sink := if target = "1" then s.out else if target = "2" then s.err else .nowhere
      set (setSink descriptor sink s)
      return true
  | .document => modify fun s => { s with input := target.toUTF8 }; return true
  | .input =>
      if target = "/dev/null" then
        modify fun s => { s with input := ByteArray.empty }
        return true
      else match (← get).disk.readBytes (Path.ofText target) with
        | .ok b => modify fun s => { s with input := b }; return true
        | .error e => complainAt line (openComplaint (Path.ofText target) e); return false
  | .create | .extend =>
      match ← openSink target (mode = .create) with
      | .ok sink => modify (setSink descriptor sink); return true
      | .error e => complainAt line (createComplaint (Path.ofText target) e); return false

def setStatus (n : Nat) : Act Unit := modify fun s => { s with status := n }

def control? (name : String) (words : List String) : Option (Act Unit) :=
  let number := (words.headD "").toNat?
  match name with
  | "exit" | "return" => some do throw (.exit (number.getD (← get).status % 256))
  | "break" => some (throw (.leave (number.getD 1) false))
  | "continue" => some (throw (.leave (number.getD 1) true))
  | "shift" => some do
      modify fun s => { s with arguments := s.arguments.drop (number.getD 1) }
      setStatus 0
  | "set" => some do
      let s ← get
      let flags := words.takeWhile fun w => isFlag w && w ≠ "--"
      let rest := words.drop flags.length
      let s := { s with isStrict := s.isStrict || hasFlag 'e' flags }
      set (if rest.isEmpty then s
        else { s with arguments := if rest.head? = some "--" then rest.drop 1 else rest })
      setStatus 0
  | "export" | "readonly" | "local" => some do
      for w in words do
        match settingName? w.toList with
        | some (name, v) => modify fun s => s.setValue name (String.ofList v)
        | none => pure ()
      setStatus 0
  | "unset" => some do
      modify fun s => { s with values := s.values.filter fun v => !words.contains v.1 }
      setStatus 0
  | "cd" => some do
      match (← get).disk.stat (Path.ofText (words.headD "/")) with
      | .ok (place, r) =>
          if r.isFolder then
            modify fun s => { s with disk := { s.disk with base := place } }
            setStatus 0
          else setStatus 2
      | .error _ => setStatus 2
  | "pwd" => some do
      Act.print ((Disk.pathOf (← get).disk.base).text ++ "\n").toUTF8
      setStatus 0
  | "read" => some do
      let s ← get
      let cs := (Text.lossy s.input).toList
      let line := cs.takeWhile (· != '\n')
      let names := words.filter fun w => !isFlag w
      let value := String.ofList (Text.trim line)
      let s := match names.head? with | some n => s.setValue n value | none => s
      set { s with input := (String.ofList (cs.drop (line.length + 1))).toUTF8
                   status := if cs.length ≤ line.length then 1 else 0 }
  | "kill" => some (if words.getLast? = some "1" then throw .killed
      else setStatus 0)
  | _ => none

mutual

def expand (split : Bool) : (fuel : Nat) → Word → Fields → Act Fields
  | 0, _, _ => throw .overdue
  | _ + 1, [], f => return f
  | n + 1, .text [] true :: .value "@" true :: ps, f => do
      if (← get).arguments.isEmpty then expand split n ps f
      else expand split n ps (addArguments split true "@" (← get).arguments f)
  | n + 1, p :: ps, f => do expand split n ps (← expandPart split n p f)
termination_by structural fuel => fuel

def expandPart (split : Bool) : (fuel : Nat) → Part → Fields → Act Fields
  | 0, _, _ => throw .overdue
  | _ + 1, .text s quoted, f => return f.add s quoted
  | _ + 1, .value name quoted, f => do
      let s ← get
      if name == "@" || name == "*" then return addArguments split quoted name s.arguments f
      else return addValue split quoted ((s.value name).getD "") f
  | _ + 1, .size name, f => do
      return f.add (toString (((← get).value name).getD "").length).toList false
  | n + 1, .cut name how pattern quoted, f => do
      let p ← expandMarked n pattern
      let v := (((← get).value name).getD "").toList
      return addValue split quoted (String.ofList (how.apply p v)) f
  | n + 1, .otherwise name how orEmpty word quoted, f => do
      let v := (← get).value name
      let given := match v with | some t => !(orEmpty && t.isEmpty) | none => false
      match how with
      | .replace => if given then expand split n word f else return f
      | .use => if given then return addValue split quoted (v.getD "") f else expand split n word f
      | .assign =>
          if given then return addValue split quoted (v.getD "") f
          else
            let t := textOf (← expandMarked n word)
            modify fun s => s.setValue name t
            return addValue split quoted t f
      | .complain =>
          if given then return addValue split quoted (v.getD "") f
          else
            let t := textOf (← expandMarked n word)
            let s ← get
            Act.complain (s.name ++ ": " ++ name ++ ": " ++
              (if t.isEmpty then "parameter not set" else t))
            throw (.exit 2)
  | n + 1, .output body quoted, f => do
      let s ← get
      set { s with out := .capture, captured := ByteArray.empty }
      apart (run n body)
      let t ← get
      set { t with out := s.out, captured := s.captured }
      return addValue split quoted (String.ofList (dropBreaks (Text.lossy t.captured).toList)) f
termination_by structural fuel => fuel

def expandMarked : (fuel : Nat) → Word → Act (List Marked)
  | 0, _ => throw .overdue
  | n + 1, w => do return ((← expand false n w Fields.none_).current).getD []
termination_by structural fuel => fuel

def expandWords : (fuel : Nat) → List Word → Act (List String)
  | 0, _ => throw .overdue
  | _ + 1, [] => return []
  | n + 1, w :: ws => do
      let f ← expand true n w Fields.none_
      return f.lists.map textOf ++ (← expandWords n ws)
termination_by structural fuel => fuel

def redirectAll (line : Nat) : (fuel : Nat) → List Redirection → Act Bool
  | 0, _ => throw .overdue
  | _ + 1, [] => return true
  | n + 1, .mk descriptor mode target :: rs => do
      let t ← expandMarked n target
      if ← redirect line descriptor mode (textOf t) then redirectAll line n rs else return false
termination_by structural fuel => fuel

def assignAll : (fuel : Nat) → List (String × Word) → Act Unit
  | 0, _ => throw .overdue
  | _ + 1, [] => return
  | n + 1, (name, w) :: rest => do
      let v ← expandMarked n w
      modify fun s => s.setValue name (textOf v)
      assignAll n rest
termination_by structural fuel => fuel

def runProgram (line : Nat) : (fuel : Nat) → String → List String → Act Unit
  | 0, _, _ => throw .overdue
  | n + 1, name, args => do
      let s ← get
      match findProgram s.disk ((s.value "PATH").getD usualSearch) name with
      | .error .denied => complainAt line (name ++ ": Permission denied"); setStatus 126
      | .error _ => complainAt line (name ++ ": not found"); setStatus 127
      | .ok p =>
          match formOf s.disk p with
          | .ok (.utility u leading) =>
              match utilities.lookup u with
              | some f => setStatus (← f (leading ++ args))
              | none => setStatus 127
          | .ok (.script text) => apart (runScript n p.text text args)
          | .error .notProgram =>
              let text := (Text.lossy ((s.disk.readBytes p).toOption.getD ByteArray.empty)).toList
              apart (runScript n p.text text args)
          | .error _ => complainAt line (name ++ ": not found"); setStatus 127
termination_by structural fuel => fuel

def runScript : (fuel : Nat) → String → List Char → List String → Act Unit
  | 0, _, _, _ => throw .overdue
  | n + 1, name, text, args => do
      let old ← get
      set { old with
        name := name, arguments := args, breaks := text.count '\n', status := 0, isStrict := false }
      match Command.ofText? text with
      | none => setStatus 2
      | some c => catchExit (run n c)
      modify fun s =>
        { s with name := old.name, breaks := old.breaks, isStrict := old.isStrict }
termination_by structural fuel => fuel

def runWords (line : Nat) : (fuel : Nat) → List String → Act Unit
  | 0, _ => throw .overdue
  | _ + 1, [] => setStatus 0
  | n + 1, name :: args => do
      match name with
      | "exec" =>
          match args with
          | [] => setStatus 0
          | p :: ps =>
              runProgram line n p ps
              throw (.exit (← get).status)
      | "eval" =>
          match Command.ofText? (" ".intercalate args).toList with
          | some c => run n c
          | none => setStatus 2
      | "command" => runWords line n args
      | _ =>
          match control? name args, builtins.lookup name with
          | some act, _ => act
          | none, some f => setStatus (← f args)
          | none, none => runProgram line n name args
termination_by structural fuel => fuel

def runSimple (line : Nat) (settings : List (String × Word)) (rs : List Redirection) :
    (fuel : Nat) → List Word → Act Unit
  | 0, _ => throw .overdue
  | n + 1, ws => do
      let words ← expandWords n ws
      let s ← get
      if ← redirectAll line n rs then
        assignAll n settings
        runWords line n words
        modify fun t =>
          { t with
            values := if words.isEmpty || settings.isEmpty then t.values else s.values
            out := if words = ["exec"] then t.out else s.out
            err := if words = ["exec"] then t.err else s.err
            input := if words.head? = some "read" || rs.isEmpty then t.input else s.input }
      else
        modify fun t => { t with out := s.out, err := s.err, input := s.input, status := 2 }
termination_by structural fuel => fuel

def runRound : (fuel : Nat) → Command → Act Bool
  | 0, _ => throw .overdue
  | n + 1, body => do
      match (run n body).run (← get) with
      | (.ok _, s) => set s; return true
      | (.error (.leave levels again), s) =>
          set { s with status := 0 }
          if levels ≤ 1 then return again else throw (.leave (levels - 1) again)
      | (.error e, s) => set s; throw e
termination_by structural fuel => fuel

def runFor (name : String) (body : Command) : (fuel : Nat) → List String → Act Unit
  | 0, _ => throw .overdue
  | _ + 1, [] => return
  | n + 1, w :: ws => do
      modify fun s => s.setValue name w
      if ← runRound n body then runFor name body n ws
termination_by structural fuel => fuel

def runLoop (until_ : Bool) (condition body : Command) : (fuel : Nat) → Act Unit
  | 0 => throw .overdue
  | n + 1 => do
      runLenient n condition
      if ((← get).status = 0) != until_ then
        if ← runRound n body then runLoop until_ condition body n
      else setStatus 0
termination_by structural fuel => fuel

def runArms : (fuel : Nat) → String → List (List Word × Command) → Act Unit
  | 0, _, _ => throw .overdue
  | _ + 1, _, [] => setStatus 0
  | n + 1, v, (patterns, c) :: rest => do
      if ← fitsAny n v patterns then run n c else runArms n v rest
termination_by structural fuel => fuel

def fitsAny : (fuel : Nat) → String → List Word → Act Bool
  | 0, _, _ => throw .overdue
  | _ + 1, _, [] => return false
  | n + 1, v, p :: ps => do
      let m ← expandMarked n p
      if isMatch m v.toList then return true else fitsAny n v ps
termination_by structural fuel => fuel

def runLenient : (fuel : Nat) → Command → Act Unit
  | 0, _ => throw .overdue
  | n + 1, c => do
      let strict := (← get).isStrict
      modify fun s => { s with isStrict := false }
      run n c
      modify fun s => { s with isStrict := strict }
termination_by structural fuel => fuel

def run : (fuel : Nat) → Command → Act Unit
  | 0, _ => throw .overdue
  | n + 1, c => do
      match c with
      | .skip => return
      | .simple line settings ws rs =>
          runSimple line settings rs n ws
          let s ← get
          if s.isStrict && s.status ≠ 0 then throw (.exit s.status)
      | .sequence a b => run n a; run n b
      | .both a b =>
          runLenient n a
          if (← get).status = 0 then run n b
      | .either a b =>
          runLenient n a
          if (← get).status ≠ 0 then run n b
      | .negated a =>
          runLenient n a
          setStatus (if (← get).status = 0 then 1 else 0)
      | .pipe a b =>
          let s ← get
          set { s with out := .capture, captured := ByteArray.empty }
          apart (run n a)
          let t ← get
          set { t with out := s.out, captured := s.captured, input := t.captured }
          apart (run n b)
          modify fun u => { u with input := s.input }
      | .choice condition yes no =>
          runLenient n condition
          if (← get).status = 0 then run n yes
          else
            setStatus 0
            run n no
      | .loop until_ condition body => runLoop until_ condition body n
      | .forEach name ws body =>
          let values ← match ws with
            | some ws => expandWords n ws
            | none => pure (← get).arguments
          runFor name body n values
      | .select w arms => runArms n (textOf (← expandMarked n w)) arms
      | .grouped alone body rs =>
          let s ← get
          if ← redirectAll 0 n rs then
            if alone then apart (run n body) else run n body
            modify fun t => { t with out := s.out, err := s.err,
                                     input := if rs.isEmpty then t.input else s.input }
          else
            modify fun t => { t with out := s.out, err := s.err, input := s.input, status := 2 }
termination_by structural fuel => fuel

end

inductive Ending where
  | status (n : Nat)
  | killed
  | overdue
  deriving DecidableEq, Repr

structure Outcome where
  disk : Disk
  ending : Ending
  diagnostics : ByteArray

/-- More than any script that ends in time needs. -/
def fuelFor : Nat := 100000

def runNamed (d : Disk) (env : Settings.Environment) (name : String) (args : List String)
    (seconds : Nat) : Except Disk.Fault Outcome := do
  let p ← findProgram d ((env.lookup "PATH").getD usualSearch) name
  let form ← formOf d p
  if seconds = 0 then return ⟨d, .overdue, ByteArray.empty⟩
  else
    let s : Session :=
      { disk := d, values := env, arguments := args, name := p.text, breaks := 0, status := 0
        elapsed := 0, deadline := 1000 * seconds, input := ByteArray.empty, out := .nowhere
        err := .diagnostics, diagnostics := ByteArray.empty, captured := ByteArray.empty
        isStrict := false }
    let act : Act Unit := match form with
      | .script text => runScript fuelFor p.text text args
      | .utility u leading =>
          match utilities.lookup u with
          | some f => do setStatus (← f (leading ++ args))
          | none => setStatus 127
    let (result, s) := act.run s
    let ending := match result with
      | .ok _ => .status s.status
      | .error (.exit n) => .status n
      | .error .killed => .killed
      | .error .overdue => .overdue
      | .error (.leave ..) => .status s.status
    return ⟨{ s.disk with base := d.base }, ending, s.diagnostics⟩

end SourceAtlas.Shell
