import SourceAtlas.Path.Basic

namespace SourceAtlas

def packageFolder : Name := "node_modules"

def Name.isExcluded (n : Name) : Bool := n.toList.head? = some '.' || n == packageFolder

def sourceExtensions : List Name := ["js", "jsx", "ts", "tsx"]

def Path.isSource (p : Path) : Bool :=
  match p.extension with
  | some e => sourceExtensions.contains e
  | none => false

def Step.isExcluded : Step → Bool
  | .name n => Name.isExcluded n
  | _ => true

end SourceAtlas
