import SourceAtlas.Component.Scan
import SourceAtlas.Failure
import SourceAtlas.Graph.Basic
import SourceAtlas.Import.Resolve
import SourceAtlas.Import.Tree

namespace SourceAtlas.Graph

def entryPoints : List Path :=
  ["index.js", "index.ts", "src/index.js", "src/index.tsx", "src/main.tsx", "App.js", "App.tsx",
    "main.js", "main.ts"].map Path.ofText

def entryPoint? (d : Disk) (root : Path) : Option Path :=
  (entryPoints.map root.join).find? d.isFile

def distinct {α : Type} [DecidableEq α] (xs : List α) : List α :=
  xs.foldl (fun seen x => if x ∈ seen then seen else seen ++ [x]) []

def moduleImports (d : Disk) (root file : Path) (text : String) : List Path :=
  let found := (Import.inTree (Source.treeOf file text)).filterMap (Import.resolve d root file)
  distinct (found.filter Path.isSource)

def targetsOf (d : Disk) (root : Path) (maxBytes : Nat) (file : Path) : List Path :=
  match Source.read d file maxBytes with
  | .ok text => moduleImports d root file text
  | .error _ => []

def discover (maxFiles : Nat) (seen : List Path) (x : Path) : List Path :=
  if seen.length < maxFiles ∧ x ∉ seen then seen ++ [x] else seen

/-- `seen` begins with the files done and goes on with those still to do. No more than `maxFiles`
files are ever seen, so that many rounds will do. -/
def explore (d : Disk) (root : Path) (maxFiles maxBytes : Nat) :
    (fuel : Nat) → (done : Nat) → (seen : List Path) → Graph → Graph
  | 0, _, _, g => g
  | n + 1, done, seen, g =>
      match seen[done]? with
      | none => g
      | some file =>
          match file.relativeTo root with
          | none => explore d root maxFiles maxBytes n (done + 1) seen g
          | some key =>
              let targets := targetsOf d root maxBytes file
              explore d root maxFiles maxBytes n (done + 1) (targets.foldl (discover maxFiles) seen)
                (g.insert key (targets.filterMap (·.relativeTo root)))

def edges (g : Graph) : Nat := g.foldl (fun n e => n + e.2.length) 0

inductive Outcome where
  | graph (g : Graph)
  | empty
  | failed (d : Diagnostic)
  deriving DecidableEq, Repr

def ofModules (d : Disk) (root : Path) (maxFiles maxBytes : Nat) : Outcome :=
  match entryPoint? d root with
  | none => .failed (.ofText "no entry point found")
  | some entry =>
      let g := explore d root maxFiles maxBytes (max maxFiles 1) 0 [entry] Graph.empty
      if edges g = 0 then .empty else .graph g

end SourceAtlas.Graph
