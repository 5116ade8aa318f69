import SourceAtlas.Path.Basic

namespace SourceAtlas.Path

/-- `above` holds the names kept so far, nearest first. -/
def settle (above : List Name) : List Step → Option (List Name)
  | [] => some above.reverse
  | .here :: r => settle above r
  | .root :: r => settle above r
  | .name n :: r => settle (n :: above) r
  | .up :: r =>
      match above with
      | [] => none
      | _ :: rest => settle rest r

def settledNames (p : Path) : Option (List Name) := settle [] p.steps

def normalize (p : Path) : Option Path :=
  p.settledNames.map fun names => if p.isAbsolute then ofRootNames names else ofNames names

def joinWithin (base p : Path) : Option Path :=
  if p.isAbsolute then none else p.normalize.map base.join

def slashed (cs : List Step) : String := "/".intercalate (cs.map Step.text)

/-- `p` as seen from `base`, with a slash between steps. The names go in as they are: only names that
are no UTF-8, which are not covered, would be shown with replacement characters. -/
def relativeTo (p base : Path) : Option String := (p.stripPrefix base).map slashed

end SourceAtlas.Path
