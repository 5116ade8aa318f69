import SourceAtlas.Proofs.Disk.Regular

namespace SourceAtlas.Disk

def Record.text (r : Record) : Except Fault String :=
  match r.entry with
  | .file _ b _ => textOf b
  | _ => .error .isFolder

theorem readText_of_stat {d : Disk} {p : Path} {q : Place} {r : Record}
    (h : d.stat p = .ok (q, r)) : d.readText p = r.text := by
  obtain ⟨_ | _ | _, t⟩ := r <;> simp [readText, readBytes, h, Record.text, bind, Except.bind]

theorem readText_of_error {d : Disk} {p : Path} {e : Fault} (h : d.stat p = .error e) :
    d.readText p = .error e := by
  simp [readText, readBytes, h, bind, Except.bind]

def Record.rewrite (f : ByteArray → ByteArray) (r : Record) : Record :=
  match r.entry with
  | .file i b x => ⟨.file i (f b) x, r.changed⟩
  | _ => r

def rewrite (d : Disk) (f : Place → ByteArray → ByteArray) : Disk :=
  { d with records := d.records.map fun x => (x.1, x.2.rewrite (f x.1)) }

namespace Record

variable {f : ByteArray → ByteArray} {r : Record}

theorem alike_rewrite (f : ByteArray → ByteArray) (r : Record) : r.entry.Alike (r.rewrite f).entry := by
  obtain ⟨_ | _ | _, t⟩ := r
  · exact .folder
  · exact .file ..
  · exact .link _

@[simp] theorem isFile_rewrite : (r.rewrite f).isFile = r.isFile := by
  obtain ⟨_ | _ | _, t⟩ := r <;> rfl

@[simp] theorem isFolder_rewrite : (r.rewrite f).isFolder = r.isFolder := by
  obtain ⟨_ | _ | _, t⟩ := r <;> rfl

theorem rewrite_eq (h : r.isFile = true → ∀ b, f b = b) : r.rewrite f = r := by
  obtain ⟨_ | ⟨i, b, x⟩ | _, t⟩ := r
  · rfl
  · show (⟨.file i (f b) x, t⟩ : Record) = _
    rw [h rfl b]
  · rfl

end Record

variable {d : Disk} {f : Place → ByteArray → ByteArray}

theorem get?_rewrite (p : Place) :
    (d.rewrite f).get? p = (d.get? p).map (·.rewrite (f p)) := by
  have hlookup : ∀ l : List (Place × Record),
      (l.map fun x => (x.1, x.2.rewrite (f x.1))).lookup p = (l.lookup p).map (·.rewrite (f p)) := by
    intro l
    induction l with
    | nil => rfl
    | cons x l ih =>
        obtain ⟨q, r⟩ := x
        rw [List.map_cons, List.lookup_cons, List.lookup_cons]
        by_cases hq : p = q
        · subst hq
          simp
        · rw [beq_false_of_ne hq]
          exact ih
  cases p with
  | nil => rfl
  | cons n p => exact hlookup d.records

theorem found?_rewrite (p : Place) :
    (d.rewrite f).found? p = (d.get? p).map fun r => (r.rewrite (f p)).entry := by
  rw [found?, get?_rewrite, Option.map_map]
  rfl

theorem of_found?_rewrite {p : Place} {e : Entry} (h : (d.rewrite f).found? p = some e) :
    ∃ e', d.found? p = some e' ∧ e'.Alike e := by
  rw [found?_rewrite] at h
  obtain ⟨r, hr, rfl⟩ := Option.map_eq_some_iff.mp h
  exact ⟨r.entry, found?_of_get? hr, Record.alike_rewrite (f p) r⟩

theorem extends_rewrite (d : Disk) (f : Place → ByteArray → ByteArray) :
    Extends d (d.rewrite f) where
  base := rfl
  kept := by
    intro q e he
    obtain ⟨t, hr⟩ := found?_eq_some.mp he
    exact ⟨_, by rw [found?_rewrite, hr]; rfl, Record.alike_rewrite (f q) ⟨e, t⟩⟩
  links := by
    intro q t he
    obtain ⟨e, hq, ha⟩ := of_found?_rewrite he
    cases ha
    exact hq

theorem IsRegular.rewrite (hd : IsRegular d) (f : Place → ByteArray → ByteArray) :
    IsRegular (d.rewrite f) where
  toIsNumbered := hd.toIsNumbered.congr rfl fun {q i b x} he => by
    obtain ⟨e, hq, ha⟩ := of_found?_rewrite he
    cases ha
    exact ⟨_, _, hq⟩
  around := by
    intro p e he
    obtain ⟨_, hp, _⟩ := of_found?_rewrite he
    obtain ⟨e', he', ha⟩ := (extends_rewrite d f).kept (hd.around hp)
    cases ha
    exact he'
  named := by
    intro x hx
    obtain ⟨y, hy, rfl⟩ := List.mem_map.mp hx
    exact fun n hn => hd.named hy n hn
  once := by
    rw [Disk.rewrite, List.map_map]
    exact hd.once

def withBytes (d : Disk) (q : Place) (b : ByteArray) : Disk :=
  d.rewrite fun p old => if p = q then b else old

def Spot.rewrite (f : Place → ByteArray → ByteArray) (s : Spot) : Spot :=
  { s with record := s.record.map (·.rewrite (f s.place)) }

theorem walk_rewrite {deep : Bool} {turn turn' : Place → List Name → Except Fault Spot}
    (ht : ∀ a ns, turn' a ns = (turn a ns).map (Spot.rewrite f)) (a : Place) (ns : List Name) :
    (d.rewrite f).walk deep turn' a ns = (d.walk deep turn a ns).map (Spot.rewrite f) := by
  induction ns generalizing a with
  | nil =>
      rw [walk, walk, get?_rewrite]
      rfl
  | cons n ns ih =>
      simp only [walk, get?_rewrite, ih]
      split
      · rfl
      · split
        · rfl
        · split
          · rfl
          · rcases d.get? (a ++ [n]) with _ | ⟨_ | _ | _, t⟩
            · dsimp only [Option.map]
              split <;> rfl
            · rfl
            · dsimp only [Option.map, Record.rewrite]
              split <;> rfl
            · dsimp only [Option.map, Record.rewrite]
              split
              · rfl
              · exact ht _ _

theorem follow_rewrite (deep : Bool) (k : Nat) (a : Place) (ns : List Name) :
    (d.rewrite f).follow deep k a ns = (d.follow deep k a ns).map (Spot.rewrite f) := by
  induction k generalizing a ns with
  | zero =>
      rw [follow, follow]
      refine walk_rewrite (fun _ _ => ?_) a ns
      rfl
  | succ k ih =>
      rw [follow, follow]
      exact walk_rewrite ih a ns

theorem locate_rewrite (deep : Bool) (p : Path) :
    (d.rewrite f).locate deep p = (d.locate deep p).map (Spot.rewrite f) := by
  have hstart : (d.rewrite f).start p = d.start p := rfl
  rw [locate, locate, hstart, get?_rewrite, follow_rewrite]
  split_ifs
  · rfl
  · rfl
  · rcases d.get? (d.start p) with _ | ⟨_ | _ | _, t⟩ <;> rfl

theorem stat_rewrite_eq (p : Path) :
    (d.rewrite f).stat p = (d.stat p).map fun x => (x.1, x.2.rewrite (f x.1)) := by
  rw [stat, stat, locate_rewrite]
  rcases d.locate true p with e | ⟨q, _ | r, sl⟩ <;> rfl

theorem stat_rewrite {p : Path} {q : Place} {r : Record} (h : d.stat p = .ok (q, r)) :
    (d.rewrite f).stat p = .ok (q, r.rewrite (f q)) := by
  rw [stat_rewrite_eq, h]
  rfl

theorem stat_of_rewrite {p : Path} {q : Place} {r : Record} (h : (d.rewrite f).stat p = .ok (q, r)) :
    ∃ r', d.stat p = .ok (q, r') := by
  rw [stat_rewrite_eq] at h
  rcases hs : d.stat p with e | ⟨q', r'⟩ <;> rw [hs] at h <;> cases h
  exact ⟨r', rfl⟩

theorem isFile_iff {p : Path} :
    d.isFile p = true ↔ ∃ q r, d.stat p = .ok (q, r) ∧ r.isFile = true := by
  unfold isFile
  rcases d.stat p with e | ⟨q, r⟩ <;> simp

theorem isFile_rewrite : (d.rewrite f).isFile = d.isFile := by
  funext p
  rw [isFile, isFile, stat_rewrite_eq]
  rcases d.stat p with e | ⟨q, r⟩
  · rfl
  · exact Record.isFile_rewrite

theorem isFolder_rewrite (p : Path) : (d.rewrite f).isFolder p = d.isFolder p := by
  rw [isFolder, isFolder, stat_rewrite_eq]
  rcases d.stat p with e | ⟨q, r⟩
  · rfl
  · exact Record.isFolder_rewrite

theorem children_rewrite (p : Place) :
    (d.rewrite f).children p = (d.children p).map fun e => (e.1, e.2.rewrite (f (p ++ [e.1]))) := by
  rw [children, children]
  have hsort : ∀ l : List (Name × Record),
      (l.mergeSort fun a b => before a.1 b.1).map (fun e => (e.1, e.2.rewrite (f (p ++ [e.1])))) =
        (l.map fun e => (e.1, e.2.rewrite (f (p ++ [e.1])))).mergeSort fun a b => before a.1 b.1 :=
    fun l => List.map_mergeSort fun _ _ _ _ => rfl
  rw [hsort]
  congr 1
  rw [rewrite, List.filterMap_map, List.map_filterMap]
  congr 1
  funext x
  obtain ⟨q, r⟩ := x
  dsimp only [Function.comp_apply]
  split
  · next n hn =>
      split
      · next hq =>
          obtain ⟨as, rfl⟩ := List.getLast?_eq_some_iff.mp hn
          rw [List.dropLast_concat] at hq
          rw [hq]
          rfl
      · rfl
  · rfl

theorem canonical_rewrite (p : Path) : (d.rewrite f).canonical p = d.canonical p := by
  rw [canonical, canonical, stat_rewrite_eq]
  rcases d.stat p with e | x <;> rfl

theorem exists?_rewrite (p : Path) : (d.rewrite f).exists? p = d.exists? p := by
  rw [exists?, exists?, stat_rewrite_eq]
  rcases d.stat p with e | x <;> rfl

theorem list_rewrite (p : Path) :
    ∃ g : Name → ByteArray → ByteArray,
      (d.rewrite f).list p = (d.list p).map (·.map fun e => (e.1, e.2.rewrite (g e.1))) := by
  rw [list, list, stat_rewrite_eq]
  rcases d.stat p with e | ⟨q, r⟩
  · exact ⟨fun _ => id, rfl⟩
  · refine ⟨fun n => f (q ++ [n]), ?_⟩
    dsimp only [Except.map, bind, Except.bind]
    rw [Record.isFolder_rewrite, children_rewrite]
    split <;> rfl

end SourceAtlas.Disk
