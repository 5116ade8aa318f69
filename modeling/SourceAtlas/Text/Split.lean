namespace SourceAtlas.Text

def splitAt (sep : Char) : List Char → List (List Char)
  | [] => [[]]
  | c :: r =>
      if c = sep then [] :: splitAt sep r
      else match splitAt sep r with
        | [] => [[c]]
        | p :: ps => (c :: p) :: ps

def joinWith (sep : List Char) : List (List Char) → List Char
  | [] => []
  | [p] => p
  | p :: ps => p ++ sep ++ joinWith sep ps

theorem splitAt_ne_nil (sep : Char) (s : List Char) : splitAt sep s ≠ [] := by
  cases s with
  | nil => simp [splitAt]
  | cons c r => simp only [splitAt]; split <;> (try split) <;> simp

theorem joinWith_splitAt (sep : Char) (s : List Char) :
    joinWith [sep] (splitAt sep s) = s := by
  induction s with
  | nil => rfl
  | cons c r ih =>
      simp only [splitAt]
      split
      · next h =>
          cases hs : splitAt sep r with
          | nil => exact absurd hs (splitAt_ne_nil sep r)
          | cons p ps => rw [hs] at ih; simp [joinWith, ih, h]
      · cases hs : splitAt sep r with
        | nil => exact absurd hs (splitAt_ne_nil sep r)
        | cons p ps =>
            rw [hs] at ih
            cases ps with
            | nil => simp only [joinWith] at ih ⊢; rw [ih]
            | cons q qs =>
                simp only [joinWith] at ih ⊢
                rw [List.cons_append, List.cons_append, ih]

theorem not_mem_of_mem_splitAt {sep : Char} {s p : List Char} (h : p ∈ splitAt sep s) :
    sep ∉ p := by
  induction s generalizing p with
  | nil => simp only [splitAt, List.mem_singleton] at h; simp [h]
  | cons c r ih =>
      simp only [splitAt] at h
      split at h
      · rcases List.mem_cons.1 h with rfl | h
        · simp
        · exact ih h
      · next hc =>
          cases hs : splitAt sep r with
          | nil => exact absurd hs (splitAt_ne_nil sep r)
          | cons q qs =>
              rw [hs] at h ih
              rcases List.mem_cons.1 h with rfl | h
              · simp only [List.mem_cons, not_or]
                exact ⟨fun e => hc e.symm, ih (by simp)⟩
              · exact ih (by simp [h])

/-- The lines of a text: a final line feed ends the last line and opens none. -/
def lines (s : List Char) : List (List Char) :=
  let parts := splitAt '\n' s
  if parts.getLast? = some [] then parts.dropLast else parts

end SourceAtlas.Text
