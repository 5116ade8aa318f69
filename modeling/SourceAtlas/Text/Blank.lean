import SourceAtlas.Text.Range

namespace SourceAtlas.Text

def blankRanges : List CodeRange :=
  [(0x9, 0xd), (0x20, 0x20), (0x85, 0x85), (0xa0, 0xa0), (0x1680, 0x1680), (0x2000, 0x200a),
   (0x2028, 0x2029), (0x202f, 0x202f), (0x205f, 0x205f), (0x3000, 0x3000)]

def isBlank (c : Char) : Bool := inRanges blankRanges c.toNat

abbrev trimLeft (s : List Char) : List Char := s.dropWhile isBlank

def trimRight (s : List Char) : List Char := (s.reverse.dropWhile isBlank).reverse

def trim (s : List Char) : List Char := trimRight (trimLeft s)

def words (s : List Char) : List (List Char) :=
  match s with
  | [] => []
  | c :: r =>
      if isBlank c then words r
      else (c :: r.takeWhile (fun x => !isBlank x)) :: words (r.dropWhile (fun x => !isBlank x))
termination_by s.length
decreasing_by
  · simp
  · have := (List.dropWhile_suffix (fun x => !isBlank x) (l := r)).length_le
    simp; omega

end SourceAtlas.Text
