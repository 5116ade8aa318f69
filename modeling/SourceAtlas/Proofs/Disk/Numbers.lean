import SourceAtlas.Proofs.Disk.Growth

namespace SourceAtlas.Disk

open Work

structure Retains (d d' : Disk) : Prop where
  numbers : d.nextId ≤ d'.nextId
  files : ∀ {q i b x}, d'.found? q = some (.file i b x) → i < d.nextId →
    ∃ b x, d.found? q = some (.file i b x)

namespace Retains

theorem refl (d : Disk) : Retains d d := ⟨le_rfl, fun h _ => ⟨_, _, h⟩⟩

theorem trans {d d' d'' : Disk} (h : Retains d d') (h' : Retains d' d'') : Retains d d'' where
  numbers := h.numbers.trans h'.numbers
  files hf hi := by
    obtain ⟨b, x, hf⟩ := h'.files hf (hi.trans_le h.numbers)
    exact h.files hf hi

end Retains

def IsOnly (d : Disk) (i : Nat) (n : Name) : Prop :=
  ∀ {q b x}, d.found? q = some (.file i b x) → q.getLast? = some n

theorem IsOnly.retain {d d' : Disk} {i : Nat} {n : Name} (h : d.IsOnly i n) (hr : Retains d d')
    (hi : i < d.nextId) : d'.IsOnly i n := by
  intro q b x hq
  obtain ⟨b, x, hq⟩ := hr.files hq hi
  exact h hq

structure IsPlain (N : Name → Prop) (d : Disk) : Prop where
  numbered : d.IsNumbered
  links : ∀ {q n t}, N n → d.found? (q ++ [n]) ≠ some (.link t)

theorem IsPlain.of_records {N : Name → Prop} {d : Disk} (hn : d.IsNumbered)
    (hlink : ∀ x ∈ d.records, x.2.isLink = false) : IsPlain N d where
  numbered := hn
  links := by
    intro q n target _ h
    obtain ⟨t, hr⟩ := record_of_link h
    cases hlink _ hr

theorem Way.place_last {d : Disk} {deep : Bool} {k : Nat} {a : Place} {ns : List Name} {s : Spot}
    (h : Way d deep k a ns s) {n : Name} (hn : Path.isStep n = true) (hup : n ≠ "..")
    (hlink : ∀ {q t}, d.found? (q ++ [n]) ≠ some (.link t)) (hlast : ns.getLast? = some n) :
    s.place.getLast? = some n := by
  have hmore : ∀ {m : Name} {ms : List Name}, (m :: ms).getLast? = some n → m ≠ n →
      ms.getLast? = some n := by
    intro m ms hm hne
    cases ms with
    | nil => exact absurd (Option.some.inj hm) hne
    | cons m' ms => exact hm
  have hidle : ¬ (n = "" ∨ n = ".") := by
    rintro (rfl | rfl) <;> cases hn
  -- the last name is followed to the end: it is no step back, and no link has it
  induction h with
  | stop => cases hlast
  | idle hm _ ih =>
      refine ih (hmore hlast ?_)
      rintro rfl
      exact hidle hm
  | up _ ih =>
      refine ih (hmore hlast ?_)
      rintro rfl
      exact hup rfl
  | @enter _ _ m ms _ _ _ hw ih =>
      cases ms with
      | nil =>
          cases hw
          simpa using hlast
      | cons m' ms => exact ih hlast
  | @missing _ _ m ms _ _ hrest =>
      cases ms with
      | nil => simpa using hlast
      | cons m' ms =>
          have hempty := List.all_eq_true.mp hrest n (List.mem_of_getLast? hlast)
          exact absurd (.inl (beq_iff_eq.mp hempty)) hidle
  | file => simpa using hlast
  | last => simpa using hlast
  | @turn _ _ m ms p _ _ hl _ _ ih =>
      cases ms with
      | nil =>
          obtain rfl : m = n := Option.some.inj hlast
          exact absurd hl hlink
      | cons m' ms => exact ih (by rw [List.getLast?_append, show (m' :: ms).getLast? = some n from hlast]; rfl)

theorem IsPlain.place_last {N : Name → Prop} {d : Disk} (h : IsPlain N d) {p : Path} {n : Name}
    {deep : Bool} {s : Spot} (hN : N n) (hn : Path.isStep n = true) (hup : n ≠ "..")
    (hp : p.segments.getLast? = some n) (hl : d.locate deep p = .ok s) :
    s.place.getLast? = some n :=
  (locate_eq_ok.mp hl).2.place_last hn hup (h.links hN) hp

structure Steady (N : Name → Prop) (d₀ d : Disk) : Prop where
  plain : IsPlain N d
  retains : Retains d₀ d

namespace Steady

variable {N : Name → Prop} {d₀ d : Disk} {q : Place}

theorem refl (h : IsPlain N d) : Steady N d d := ⟨h, .refl d⟩

theorem congr (h : Steady N d₀ d) {d' : Disk} (hid : d'.nextId = d.nextId)
    (hlink : ∀ {q t}, d'.found? q = some (.link t) → d.found? q = some (.link t))
    (hfile : ∀ {q i b x}, d'.found? q = some (.file i b x) →
      ∃ b x, d.found? q = some (.file i b x)) : Steady N d₀ d' where
  plain := ⟨h.plain.numbered.congr hid hfile, fun hn ht => h.plain.links hn (hlink ht)⟩
  retains := h.retains.trans ⟨hid.ge, fun hq _ => hfile hq⟩

theorem put (h : Steady N d₀ d) (hq : q ≠ []) : Steady N d₀ (d.put q .folder) :=
  h.congr (put_nextId ..) (file_of_put hq Entry.noConfusion)
    fun hf => ⟨_, _, file_of_put hq Entry.noConfusion hf⟩

theorem newFile (h : Steady N d₀ d) (hq : q ≠ []) (b : ByteArray) (x : Bool) :
    Steady N d₀ (d.newFile q b x) where
  plain := by
    refine ⟨h.plain.numbered.newFile hq b x, fun {q' n t} hn ht => ?_⟩
    rw [found?_newFile] at ht
    by_cases he : q' ++ [n] = q
    · rw [he, found?_put_self hq] at ht
      cases ht
    · rw [found?_put_of_ne he] at ht
      exact h.plain.links hn ht
  retains := by
    refine h.retains.trans ⟨by rw [newFile_nextId]; omega, fun hf hi => ?_⟩
    rcases h.plain.numbered.file_of_newFile hq hf with ⟨_, rfl⟩ | ⟨hf, _⟩
    · omega
    · exact ⟨_, _, hf⟩

theorem rewrite (h : Steady N d₀ d) {i : Nat} {b b' : ByteArray} {x x' : Bool} {t : Moment}
    (hf : d.found? q = some (.file i b x)) : Steady N d₀ (d.set q ⟨.file i b' x', t⟩) :=
  h.congr rfl (Extends.rewrite hf).links (file_of_rewrite hf)

theorem drop (h : Steady N d₀ d) (q : Place) : Steady N d₀ (d.drop q) :=
  h.congr (drop_nextId ..) file_of_drop fun hf => ⟨_, _, file_of_drop hf⟩

theorem wait (h : Steady N d₀ d) (t : Moment) : Steady N d₀ { d with now := t } := by
  have hfound : ∀ q, ({ d with now := t } : Disk).found? q = d.found? q := fun q =>
    found?_congr (by cases q <;> rfl)
  exact h.congr rfl (fun ht => (hfound _).symm.trans ht) fun hf => ⟨_, _, (hfound _).symm.trans hf⟩

end Steady

section

variable (N : Name → Prop) (d₀ : Disk)

theorem makeFolders_steady (p : Path) : Keeps (Steady N d₀) (makeFolders p) :=
  makeFolders_keeps (A := fun _ => True) (fun _ _ _ => trivial)
    (fun _ h hl => h.put (free_of_locate hl).2) trivial

theorem openWith_steady (change : ByteArray → Option ByteArray) (p : Path) :
    Keeps (Steady N d₀) (openWith change p) := fun _ h =>
  openWith_elim change h (fun _ hf => h.rewrite hf) fun hl => h.newFile (free_of_locate hl).2 _ _

theorem removeUnless_steady (isRefused : Record → Bool) (fault : Fault) (p : Path) :
    Keeps (Steady N d₀) (removeUnless isRefused fault p) := by
  intro d h
  rw [removeUnless_run]
  split
  · exact h
  · split
    · exact h
    · exact h.drop _

end

end SourceAtlas.Disk
