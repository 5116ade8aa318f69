import SourceAtlas.Disk.Locate
import SourceAtlas.Import.Pattern
import SourceAtlas.Path.Naming
import SourceAtlas.Path.Normal

namespace SourceAtlas.Import

def suffixes : List String := [".ts", ".tsx", ".js", ".jsx"]

def withSuffix (p : Path) (suffix : String) : Path := Path.ofText (p.text ++ suffix)

def candidates (base : Path) : List Path :=
  base :: suffixes.map (withSuffix base) ++
    suffixes.map (withSuffix (base.child "index"))

/-- The specifier as a path from the root; `none` if it leaves the root or enters an excluded
folder. -/
def target (root importer : Path) (specifier : String) : Option Path := do
  let folder ← importer.parent
  let inside ← folder.stripPrefix root
  let names ← Path.settle [] (inside ++ (Path.ofText specifier).steps)
  if names.any Name.isExcluded then none else some (Path.ofNames names)

def resolve (d : Disk) (root importer : Path) (specifier : String) : Option Path := do
  if !isRelative specifier then none
  let p ← target root importer specifier
  (candidates (root.join p)).find? d.isFile

end SourceAtlas.Import
