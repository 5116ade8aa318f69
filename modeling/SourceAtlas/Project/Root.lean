import SourceAtlas.Disk.Locate

namespace SourceAtlas.Project

def resourceForks : Name := "__MACOSX"

/-- The only folder in `p` if there is nothing else in it, else `p` itself. -/
def effectiveRoot (d : Disk) (p : Path) : Path :=
  match d.list p with
  | .error _ => p
  | .ok inside =>
      match inside.filter (·.1 ≠ resourceForks) with
      | [(n, r)] => if r.isFolder then p.child n else p
      | _ => p

end SourceAtlas.Project
