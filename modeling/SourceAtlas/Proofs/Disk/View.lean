import Mathlib.Tactic.Common
import SourceAtlas.Disk.Edit

namespace SourceAtlas.Disk

def found? (d : Disk) (p : Place) : Option Entry := (d.get? p).map (·.entry)

theorem found?_eq_some {d : Disk} {p : Place} {e : Entry} :
    d.found? p = some e ↔ ∃ t, d.get? p = some ⟨e, t⟩ := by
  constructor
  · intro h
    obtain ⟨⟨e', t⟩, hr, he⟩ := Option.map_eq_some_iff.mp h
    exact ⟨t, by rw [hr, ← he]⟩
  · rintro ⟨t, h⟩
    simp [found?, h]

theorem found?_eq_none {d : Disk} {p : Place} : d.found? p = none ↔ d.get? p = none := by
  simp [found?]

theorem found?_root (d : Disk) : d.found? [] = some .folder := rfl

theorem found?_eq_folder {d : Disk} {p : Place} :
    d.found? p = some .folder ↔ (d.get? p).any Record.isFolder = true := by
  unfold found?
  rcases d.get? p with _ | ⟨_ | _ | _, t⟩ <;> simp [Record.isFolder]

theorem found?_of_get? {d : Disk} {p : Place} {r : Record} (h : d.get? p = some r) :
    d.found? p = some r.entry := by
  simp [found?, h]

theorem mem_of_get? {d : Disk} {p : Place} {r : Record} (hp : p ≠ []) (h : d.get? p = some r) :
    (p, r) ∈ d.records := by
  cases p with
  | nil => exact absurd rfl hp
  | cons n p =>
      obtain ⟨l, l', hl, _⟩ := List.lookup_eq_some_iff.mp h
      rw [hl]
      simp

theorem record_of_found? {d : Disk} {p : Place} {e : Entry} (h : d.found? p = some e) :
    p = [] ∧ e = .folder ∨ ∃ t, (p, ⟨e, t⟩) ∈ d.records := by
  by_cases hp : p = []
  · subst hp
    exact .inl ⟨rfl, (Option.some.inj h).symm⟩
  · obtain ⟨t, hr⟩ := found?_eq_some.mp h
    exact .inr ⟨t, mem_of_get? hp hr⟩

theorem record_of_link {d : Disk} {p : Place} {target : Path} (h : d.found? p = some (.link target)) :
    ∃ t, (p, ⟨.link target, t⟩) ∈ d.records := by
  obtain ⟨_, he⟩ | hr := record_of_found? h
  · cases he
  · exact hr

theorem record_of_file {d : Disk} {p : Place} {i : Nat} {b : ByteArray} {x : Bool}
    (h : d.found? p = some (.file i b x)) : ∃ t, (p, ⟨.file i b x, t⟩) ∈ d.records := by
  obtain ⟨_, he⟩ | hr := record_of_found? h
  · cases he
  · exact hr

theorem found?_congr {d d' : Disk} {p : Place} (h : d'.get? p = d.get? p) :
    d'.found? p = d.found? p := by
  simp [found?, h]

theorem get?_touch_of_ne {d : Disk} {p q : Place} (h : q ≠ p) :
    (d.touch p).get? q = d.get? q := by
  unfold touch
  split
  · split
    · rfl
    · exact get?_set_of_ne h
  · rfl

theorem found?_touch (d : Disk) (p q : Place) : (d.touch p).found? q = d.found? q := by
  by_cases hq : q = p
  · subst hq
    unfold touch
    split
    · next r hr =>
        split
        · rfl
        · next hp =>
            have hne : q ≠ [] := by simpa using hp
            rw [found?, get?_set_self hne, found?, hr]
            rfl
    · rfl
  · exact found?_congr (get?_touch_of_ne hq)

theorem ne_dropLast {p : Place} (h : p ≠ []) : p ≠ p.dropLast := by
  intro e
  have hl := congrArg List.length e
  have := List.length_pos_iff.mpr h
  rw [List.length_dropLast] at hl
  omega

theorem get?_put_self {d : Disk} {p : Place} {e : Entry} (h : p ≠ []) :
    (d.put p e).get? p = some ⟨e, d.now⟩ := by
  rw [put, get?_touch_of_ne (ne_dropLast h), get?_set_self h]

theorem get?_put_of_ne {d : Disk} {p q : Place} {e : Entry} (hp : q ≠ p) (hd : q ≠ p.dropLast) :
    (d.put p e).get? q = d.get? q := by
  rw [put, get?_touch_of_ne hd, get?_set_of_ne hp]

theorem found?_put_self {d : Disk} {p : Place} {e : Entry} (h : p ≠ []) :
    (d.put p e).found? p = some e := found?_of_get? (get?_put_self h)

theorem found?_put_of_ne {d : Disk} {p q : Place} {e : Entry} (h : q ≠ p) :
    (d.put p e).found? q = d.found? q := by
  rw [put, found?_touch]
  exact found?_congr (get?_set_of_ne h)

theorem get?_drop_of_outside {d : Disk} {p q : Place} (h : ¬ p <+: q) (hd : q ≠ p.dropLast) :
    (d.drop p).get? q = d.get? q := by
  rw [drop, get?_touch_of_ne hd, get?_erase_outside h]

theorem found?_drop_of_outside {d : Disk} {p q : Place} (h : ¬ p <+: q) :
    (d.drop p).found? q = d.found? q := by
  rw [drop, found?_touch]
  exact found?_congr (get?_erase_outside h)

theorem found?_drop_below {d : Disk} {p q : Place} (hq : q ≠ []) (h : p <+: q) :
    (d.drop p).found? q = none := by
  rw [drop, found?_touch]
  exact found?_eq_none.mpr (get?_erase_below hq h)

theorem get?_newFile (d : Disk) (p q : Place) (b : ByteArray) (x : Bool) :
    (d.newFile p b x).get? q = (d.put p (.file d.nextId b x)).get? q := by
  cases q <;> rfl

theorem touch_eq (d : Disk) (p : Place) : ∃ rs, d.touch p = { d with records := rs } := by
  unfold touch
  split
  · split <;> exact ⟨_, rfl⟩
  · exact ⟨_, rfl⟩

theorem put_eq (d : Disk) (p : Place) (e : Entry) : ∃ rs, d.put p e = { d with records := rs } :=
  touch_eq ..

theorem drop_eq (d : Disk) (p : Place) : ∃ rs, d.drop p = { d with records := rs } := touch_eq ..

@[simp] theorem put_base (d : Disk) (p : Place) (e : Entry) : (d.put p e).base = d.base := by
  obtain ⟨rs, h⟩ := d.put_eq p e
  rw [h]

@[simp] theorem put_nextId (d : Disk) (p : Place) (e : Entry) : (d.put p e).nextId = d.nextId := by
  obtain ⟨rs, h⟩ := d.put_eq p e
  rw [h]

theorem drop_base (d : Disk) (p : Place) : (d.drop p).base = d.base := by
  obtain ⟨rs, h⟩ := d.drop_eq p
  rw [h]

theorem drop_nextId (d : Disk) (p : Place) : (d.drop p).nextId = d.nextId := by
  obtain ⟨rs, h⟩ := d.drop_eq p
  rw [h]

@[simp] theorem newFile_base (d : Disk) (p : Place) (b : ByteArray) (x : Bool) :
    (d.newFile p b x).base = d.base := by
  simp [newFile]

end SourceAtlas.Disk
