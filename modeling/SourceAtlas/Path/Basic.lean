import SourceAtlas.Text.Split

namespace SourceAtlas

/-- Names are texts here. A name whose bytes are no UTF-8 is not covered. -/
abbrev Name := String

structure Path where
  segments : List Name
  deriving DecidableEq, Repr, Inhabited

inductive Step where
  | root
  | here
  | up
  | name (n : Name)
  deriving DecidableEq, Repr

def Step.text : Step → String
  | .root => "/"
  | .here => "."
  | .up => ".."
  | .name n => n

namespace Path

def ofText (s : String) : Path := ⟨(Text.splitAt '/' s.toList).map String.ofList⟩

def text (p : Path) : String :=
  String.ofList (Text.joinWith ['/'] (p.segments.map String.toList))

theorem text_ofText (s : String) : (ofText s).text = s := by
  have h : String.toList ∘ String.ofList = id := by funext l; simp
  simp [ofText, text, List.map_map, h, Text.joinWith_splitAt]

def empty : Path := ⟨[""]⟩

def isEmpty (p : Path) : Bool := p.segments.all (· == "") && p.segments.length ≤ 1

def isAbsolute (p : Path) : Bool :=
  match p.segments with
  | "" :: _ :: _ => true
  | _ => false

def inner : Name → Option Step
  | "" => none
  | "." => none
  | ".." => some .up
  | n => some (.name n)

def steps (p : Path) : List Step :=
  match p.segments with
  | "" :: s :: r => .root :: (s :: r).filterMap inner
  | "." :: r => .here :: r.filterMap inner
  | r => r.filterMap inner

/-- An absolute second path wins; else the second is appended, with one slash between. -/
def join (p q : Path) : Path :=
  if q.isAbsolute then q
  else if p.segments.getLast? = some "" then ⟨p.segments.dropLast ++ q.segments⟩
  else ⟨p.segments ++ q.segments⟩

def child (p : Path) (n : Name) : Path := p.join (ofText n)

def ofNames (names : List Name) : Path :=
  if names = [] then empty else ⟨names⟩

def ofRootNames (names : List Name) : Path :=
  if names = [] then ⟨["", ""]⟩ else ⟨"" :: names⟩

def isStep (n : Name) : Bool := n ≠ "" && n ≠ "."

def dropIdle : List Name → List Name
  | [] => []
  | n :: r => n :: (r.reverse.dropWhile (fun s => !isStep s)).reverse

def parent (p : Path) : Option Path :=
  match dropIdle p.segments with
  | [] => none
  | [""] => none
  | [_] => some empty
  | n :: r =>
      match dropIdle (n :: r.dropLast) with
      | [""] => some ⟨["", ""]⟩
      | s => some ⟨s⟩

def fileName (p : Path) : Option Name :=
  match p.steps.getLast? with
  | some (.name n) => some n
  | _ => none

end Path

namespace Name

def splitExtension (n : Name) : Name × Option Name :=
  let r := n.toList.reverse
  match r.dropWhile (· != '.') with
  | [] => (n, none)
  | [_] => (n, none)
  | _ :: stem =>
      (String.ofList stem.reverse, some (String.ofList (r.takeWhile (· != '.')).reverse))

end Name

def Path.extension (p : Path) : Option Name :=
  p.fileName.bind fun n => (Name.splitExtension n).2

def Path.startsWith (p base : Path) : Bool := base.steps.isPrefixOf p.steps

def Path.stripPrefix (p base : Path) : Option (List Step) :=
  if p.startsWith base then some (p.steps.drop base.steps.length) else none

end SourceAtlas
