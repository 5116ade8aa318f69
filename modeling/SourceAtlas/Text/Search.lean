namespace SourceAtlas.Text

def contains (needle : List Char) : List Char → Bool
  | [] => needle.isEmpty
  | c :: r => needle.isPrefixOf (c :: r) || contains needle r

theorem contains_iff {needle s : List Char} :
    contains needle s = true ↔ ∃ a b, s = a ++ needle ++ b := by
  induction s with
  | nil =>
      simp only [contains, List.isEmpty_iff]
      constructor
      · rintro rfl; exact ⟨[], [], rfl⟩
      · rintro ⟨a, b, h⟩
        have := congrArg List.length h
        simp at this
        exact List.eq_nil_of_length_eq_zero (by omega)
  | cons c r ih =>
      simp only [contains, Bool.or_eq_true, List.isPrefixOf_iff_prefix, ih]
      constructor
      · rintro (⟨b, h⟩ | ⟨a, b, rfl⟩)
        · exact ⟨[], b, by simpa using h.symm⟩
        · exact ⟨c :: a, b, rfl⟩
      · rintro ⟨a, b, h⟩
        cases a with
        | nil => exact Or.inl ⟨b, by simpa using h.symm⟩
        | cons x a =>
            simp only [List.cons_append, List.cons.injEq] at h
            exact Or.inr ⟨a, b, h.2⟩

def containsText (needle hay : String) : Bool := contains needle.toList hay.toList

def stripPrefix? (pre s : List Char) : Option (List Char) :=
  if pre.isPrefixOf s then some (s.drop pre.length) else none

theorem stripPrefix?_eq_some {pre s r : List Char} :
    stripPrefix? pre s = some r ↔ s = pre ++ r := by
  unfold stripPrefix?
  constructor
  · intro h
    split at h
    · next hp =>
        cases h
        exact (List.prefix_iff_eq_append.mp (List.isPrefixOf_iff_prefix.mp hp)).symm
    · cases h
  · rintro rfl
    rw [if_pos (List.isPrefixOf_iff_prefix.mpr (List.prefix_append ..)), List.drop_left]

def stripSuffix? (suf s : List Char) : Option (List Char) :=
  if suf.isSuffixOf s then some (s.take (s.length - suf.length)) else none

def replaceAll (needle mask : List Char) (s : List Char) : List Char :=
  match s with
  | [] => []
  | c :: r =>
      if 0 < needle.length && needle.isPrefixOf (c :: r) then
        mask ++ replaceAll needle mask (r.drop (needle.length - 1))
      else c :: replaceAll needle mask r
termination_by s.length
decreasing_by all_goals simp only [List.length_drop, List.length_cons]; omega

end SourceAtlas.Text
