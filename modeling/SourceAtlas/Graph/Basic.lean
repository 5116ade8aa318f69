import SourceAtlas.Disk.Basic

namespace SourceAtlas

abbrev Graph := List (String × List String)

namespace Graph

def empty : Graph := []

def insert (key : String) (targets : List String) : Graph → Graph
  | [] => [(key, targets)]
  | (k, ts) :: r =>
      if key = k then (key, targets) :: r
      else if Disk.before key k then (key, targets) :: (k, ts) :: r
      else (k, ts) :: insert key targets r

def ofList (entries : List (String × List String)) : Graph :=
  entries.foldl (fun g e => g.insert e.1 e.2) empty

def keys (g : Graph) : List String := g.map (·.1)

end Graph

end SourceAtlas
