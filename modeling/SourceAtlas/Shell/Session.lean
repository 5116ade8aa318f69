import SourceAtlas.Disk.Edit
import SourceAtlas.Settings.Basic

namespace SourceAtlas.Shell

inductive Sink where
  | nowhere
  -- the error output of the whole program
  | diagnostics
  -- taken up by the command around
  | capture
  | file (place : Place)
  deriving DecidableEq, Repr

inductive Stop where
  | exit (status : Nat)
  | killed
  | overdue
  -- Leaves so many loops; `again` tells that the last of them goes on.
  | leave (levels : Nat) (again : Bool)
  deriving DecidableEq, Repr

structure Session where
  disk : Disk
  values : List (String × String)
  arguments : List String
  name : String
  -- line breaks in the script
  breaks : Nat
  status : Nat
  -- thousandths of a second
  elapsed : Nat
  deadline : Nat
  input : ByteArray
  out : Sink
  err : Sink
  diagnostics : ByteArray
  captured : ByteArray
  -- A command that fails ends the script.
  isStrict : Bool

abbrev Act := ExceptT Stop (StateM Session)

namespace Session

def value (s : Session) (name : String) : Option String :=
  match name with
  | "#" => some (toString s.arguments.length)
  | "?" => some (toString s.status)
  | "0" => some s.name
  | "@" | "*" => if s.arguments.isEmpty then none else some (" ".intercalate s.arguments)
  | "$" => some "1"
  | "-" | "!" => some ""
  | _ =>
      match name.toNat? with
      | some n => s.arguments[n - 1]?
      | none => s.values.lookup name

def setValue (s : Session) (name value : String) : Session :=
  { s with values := (name, value) :: s.values.filter (·.1 ≠ name) }

def extend (d : Disk) (p : Place) (b : ByteArray) : Disk :=
  match d.get? p with
  | some ⟨.file i old x, _⟩ => d.set p ⟨.file i (old ++ b) x, d.now⟩
  | _ => d

def send (s : Session) (sink : Sink) (b : ByteArray) : Session :=
  match sink with
  | .nowhere => s
  | .diagnostics => { s with diagnostics := s.diagnostics ++ b }
  | .capture => { s with captured := s.captured ++ b }
  | .file p => { s with disk := extend s.disk p b }

end Session

namespace Act

def print (b : ByteArray) : Act Unit := modify fun s => s.send s.out b

def complain (text : String) : Act Unit := modify fun s => s.send s.err (text ++ "\n").toUTF8

def pass (millis : Nat) : Act Unit := do
  modify fun s => { s with elapsed := s.elapsed + millis }
  let s ← get
  if s.deadline ≤ s.elapsed then throw .overdue

def edit {α : Type} (e : Disk.Edit α) : Act (Except Disk.Fault α) := do
  let s ← get
  let (r, d) := e.run s.disk
  set { s with disk := d }
  return r

def attempt {α : Type} (complaint : String) (e : Disk.Edit α) : Act Nat := do
  match ← edit e with
  | .ok _ => return 0
  | .error fault =>
      complain (complaint ++ ": " ++ (fault.message.splitOn " (os error").headD "")
      return 1

end Act

end SourceAtlas.Shell
