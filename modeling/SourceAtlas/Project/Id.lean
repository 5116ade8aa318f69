import SourceAtlas.Rejection

namespace SourceAtlas.Project

def isIdChar (c : Char) : Bool := c.isAlphanum || c == '-' || c == '_'

def checkId (id : String) : Except Rejection Unit :=
  if id.isEmpty then .error .emptyProjectId
  else if maxProjectIdBytes < id.utf8ByteSize then .error (.longProjectId id)
  else if id.toList.all isIdChar then .ok ()
  else .error (.malformedProjectId id)

theorem checkId_ok_iff {id : String} : checkId id = .ok () ↔
    id ≠ "" ∧ id.utf8ByteSize ≤ maxProjectIdBytes ∧ id.toList.all isIdChar = true := by
  unfold checkId
  by_cases h : id = ""
  · simp [h]
  · have hb : id.isEmpty = false := by simpa using h
    by_cases hl : maxProjectIdBytes < id.utf8ByteSize
    · have hn : ¬ id.utf8ByteSize ≤ maxProjectIdBytes := by omega
      rw [if_neg (by simpa using hb), if_pos hl]
      exact ⟨nofun, fun ⟨_, h2, _⟩ => absurd h2 hn⟩
    · have : id.utf8ByteSize ≤ maxProjectIdBytes := by omega
      by_cases ha : id.toList.all isIdChar = true <;> simp [hb, hl, ha, h, this]

end SourceAtlas.Project
