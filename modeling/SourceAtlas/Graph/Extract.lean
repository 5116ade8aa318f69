import SourceAtlas.Graph.Scan

namespace SourceAtlas.Graph

structure Strategy where
  name : String
  outcome : Outcome

structure Extraction where
  graph : Graph
  strategy : String
  degraded : Option String
  deriving DecidableEq, Repr

namespace Strategy

def emptyReason (s : Strategy) : String := s.name ++ " produced an empty graph"

def failure (s : Strategy) (d : Diagnostic) : String := s.name ++ " failed: " ++ d.chain

def fallBack (fallback : Strategy) (reason : String) : Extraction :=
  match fallback.outcome with
  | .graph g => ⟨g, fallback.name, some reason⟩
  | .empty => ⟨Graph.empty, fallback.name, some reason⟩
  | .failed d => ⟨Graph.empty, fallback.name, some (reason ++ "; " ++ fallback.failure d)⟩

def extract (primary fallback : Strategy) : Extraction :=
  match primary.outcome with
  | .graph g => ⟨g, primary.name, none⟩
  | .empty => fallback.fallBack primary.emptyReason
  | .failed d => fallback.fallBack (primary.failure d)

end Strategy

def modules (d : Disk) (root : Path) (limits : Limits) : Strategy :=
  ⟨"module-graph", ofModules d root limits.maxSourceFiles limits.maxParseBytes⟩

def manual (d : Disk) (root : Path) (limits : Limits) : Strategy :=
  ⟨"manual-scan", ofScan d root limits.maxSourceFiles limits.maxParseBytes⟩

def ofProject (d : Disk) (root : Path) (limits : Limits) : Extraction :=
  (modules d root limits).extract (manual d root limits)

end SourceAtlas.Graph
