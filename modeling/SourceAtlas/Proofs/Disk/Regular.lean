import Mathlib.Data.List.Induction
import Mathlib.Data.List.Nodup
import SourceAtlas.Proofs.Disk.Way
import SourceAtlas.Proofs.Path.Names
import SourceAtlas.Proofs.Text.Order

namespace SourceAtlas.Disk

structure IsEntryName (n : Name) : Prop where
  proper : n.IsProper
  short : ¬ maxNameBytes < n.utf8ByteSize
  clean : '\x00' ∉ n.toList

instance (n : Name) : Decidable (IsEntryName n) :=
  decidable_of_iff (n.IsProper ∧ ¬ maxNameBytes < n.utf8ByteSize ∧ '\x00' ∉ n.toList)
    ⟨fun h => ⟨h.1, h.2.1, h.2.2⟩, fun h => ⟨h.proper, h.short, h.clean⟩⟩

structure IsRegular (d : Disk) : Prop extends IsTree d where
  named : ∀ {x}, x ∈ d.records → ∀ n ∈ x.1, IsEntryName n
  once : (d.records.map (·.1)).Nodup

instance (d : Disk) : Decidable (IsRegular d) :=
  decidable_of_iff
    (IsTree d ∧ (∀ x ∈ d.records, ∀ n ∈ x.1, IsEntryName n) ∧ (d.records.map (·.1)).Nodup)
    ⟨fun h => ⟨h.1, fun hx => h.2.1 _ hx, h.2.2⟩, fun h => ⟨h.toIsTree, fun _ hx => h.named hx, h.once⟩⟩

theorem isName_of_proper {n : Name} (h : n.IsProper) (hs : ¬ maxNameBytes < n.utf8ByteSize) :
    IsName n := by
  refine ⟨?_, ?_, hs⟩
  · rintro (rfl | rfl)
    · cases h.inner
    · cases h.inner
  · rintro rfl
    cases h.inner

theorem IsEntryName.isName {n : Name} (h : IsEntryName n) : IsName n :=
  isName_of_proper h.proper h.short

theorem lookup_of_mem {l : List (Place × Record)} {p : Place} {r : Record}
    (hn : (l.map (·.1)).Nodup) (h : (p, r) ∈ l) : l.lookup p = some r := by
  induction l with
  | nil => cases h
  | cons x l ih =>
      obtain ⟨q, r'⟩ := x
      obtain ⟨hq, hl⟩ := List.nodup_cons.mp hn
      rcases List.mem_cons.mp h with he | hm
      · cases he
        simp
      · have hne : (p == q) = false := by
          refine beq_false_of_ne fun e => hq ?_
          rw [← e]
          exact List.mem_map.mpr ⟨_, hm, rfl⟩
        rw [List.lookup_cons, hne]
        exact ih hl hm

theorem length_le_of_mem {d : Disk} {x : Place × Record} (h : x ∈ d.records) :
    x.1.length ≤ d.records.foldl (fun n x => max n x.1.length) 0 := by
  have hfold : ∀ (l : List (Place × Record)) (n : Nat),
      n ≤ l.foldl (fun n x => max n x.1.length) n ∧
        ∀ x ∈ l, x.1.length ≤ l.foldl (fun n x => max n x.1.length) n := by
    intro l
    induction l with
    | nil => exact fun n => ⟨Nat.le_refl n, nofun⟩
    | cons y l ih =>
        intro n
        obtain ⟨hn, hl⟩ := ih (max n y.1.length)
        refine ⟨(Nat.le_max_left ..).trans hn, fun x hx => ?_⟩
        rcases List.mem_cons.mp hx with rfl | hx
        · exact (Nat.le_max_right ..).trans hn
        · exact hl x hx
  exact (hfold d.records 0).2 x h

theorem before_total (a b : Name) : (before a b || before b a) = true := by
  rw [before, before, Bool.or_eq_true, decide_eq_true_iff, decide_eq_true_iff]
  exact String.le_total a b

theorem before_trans {a b c : Name} (h : before a b = true) (h' : before b c = true) :
    before a c = true := by
  rw [before, decide_eq_true_iff] at *
  exact String.le_trans h h'

def nameIn? (p q : Place) : Option Name :=
  match q.getLast? with
  | some n => if q.dropLast = p then some n else none
  | none => none

theorem nameIn?_eq_some {p q : Place} {n : Name} : nameIn? p q = some n ↔ q = p ++ [n] := by
  unfold nameIn?
  constructor
  · intro h
    split at h
    · next m hm =>
        split at h
        · next hp =>
            cases h
            obtain ⟨l, rfl⟩ := List.getLast?_eq_some_iff.mp hm
            rw [← hp, List.dropLast_concat]
        · cases h
    · cases h
  · rintro rfl
    simp

theorem children_eq (d : Disk) (p : Place) : d.children p =
    (d.records.filterMap fun x => (nameIn? p x.1).map (·, x.2)).mergeSort
      fun a b => before a.1 b.1 := by
  rw [children]
  congr 2
  funext x
  rw [nameIn?]
  cases x.1.getLast? with
  | none => rfl
  | some n =>
      dsimp only
      split <;> rfl

theorem list_of_folderAt {d : Disk} {D : Path} {P : Place} (hP : d.FolderAt D P) :
    d.list D = .ok (d.children P) := by
  obtain ⟨t, hs⟩ := hP
  simp [Disk.list, hs, bind, Except.bind, Record.isFolder]

theorem canonical_of_folderAt {d : Disk} {D : Path} {P : Place} (hP : d.FolderAt D P) :
    d.canonical D = .ok P := by
  obtain ⟨t, hs⟩ := hP
  rw [canonical, hs]
  rfl

theorem mem_children_iff {d : Disk} {p : Place} {n : Name} {r : Record} :
    (n, r) ∈ d.children p ↔ (p ++ [n], r) ∈ d.records := by
  rw [children_eq, List.mem_mergeSort, List.mem_filterMap]
  constructor
  · rintro ⟨⟨q, r'⟩, hm, h⟩
    obtain ⟨m, hq, he⟩ := Option.map_eq_some_iff.mp h
    cases he
    rwa [← nameIn?_eq_some.mp hq]
  · exact fun h => ⟨_, h, by rw [nameIn?_eq_some.mpr rfl, Option.map_some]⟩

namespace IsRegular

variable {d : Disk} {p q : Place} {r : Record}

theorem mem_iff (hd : IsRegular d) (hp : p ≠ []) : (p, r) ∈ d.records ↔ d.get? p = some r := by
  refine ⟨fun h => ?_, mem_of_get? hp⟩
  cases p with
  | nil => exact absurd rfl hp
  | cons n p => exact lookup_of_mem hd.once h

theorem names (hd : IsRegular d) (h : d.get? p = some r) : ∀ n ∈ p, IsEntryName n := by
  by_cases hp : p = []
  · subst hp
    exact nofun
  · exact hd.named (mem_of_get? hp h)

theorem mem_children (hd : IsRegular d) {n : Name} :
    (n, r) ∈ d.children p ↔ d.get? (p ++ [n]) = some r := by
  rw [← hd.mem_iff (by simp)]
  exact mem_children_iff

theorem nodup_children (hd : IsRegular d) (p : Place) : ((d.children p).map (·.1)).Nodup := by
  have hperm : ((d.children p).map (·.1)).Perm ((d.records.map (·.1)).filterMap (nameIn? p)) := by
    rw [children_eq, List.filterMap_map]
    refine ((List.mergeSort_perm ..).map _).trans (List.Perm.of_eq ?_)
    rw [List.map_filterMap]
    refine List.filterMap_congr fun x _ => ?_
    cases h : nameIn? p x.1 <;> simp [h]
  rw [hperm.nodup_iff]
  refine hd.once.filterMap fun q q' n hn hn' => ?_
  rw [nameIn?_eq_some.mp hn, nameIn?_eq_some.mp hn']

theorem ordered_children (hd : IsRegular d) (p : Place) :
    (d.children p).Pairwise fun a b => Text.bytes a.1 < Text.bytes b.1 := by
  have hsorted : (d.children p).Pairwise fun a b => before a.1 b.1 = true :=
    @List.pairwise_mergeSort (Name × Record) (fun a b => before a.1 b.1)
      (fun _ _ _ => before_trans) (fun a b => before_total a.1 b.1) _
  have hnames : (d.children p).Pairwise fun a b => a.1 ≠ b.1 :=
    List.pairwise_map.mp (hd.nodup_children p)
  refine (hsorted.and hnames).imp fun h => ?_
  exact Text.lt_iff_bytes_lt.mp (lt_of_le_of_ne (of_decide_eq_true h.1) h.2)

end IsRegular

theorem IsTree.folder_above {d : Disk} (ht : IsTree d) {a ms : Place} {e : Entry}
    (h : d.found? (a ++ ms) = some e) (hm : ms ≠ []) : d.found? a = some .folder := by
  induction ms using List.reverseRecOn generalizing e with
  | nil => exact absurd rfl hm
  | append_singleton ms n ih =>
      have hd := ht.around h
      rw [← List.append_assoc, List.dropLast_concat] at hd
      by_cases hms : ms = []
      · rwa [hms, List.append_nil] at hd
      · exact ih hd hms

theorem way_down {d : Disk} (ht : IsTree d) {deep : Bool} {k : Nat} {a : Place} {ns : List Name}
    {r : Record} (hn : ∀ n ∈ ns, IsName n) (h : d.get? (a ++ ns) = some r)
    (hl : ∀ t, r.entry ≠ .link t) : Way d deep k a ns ⟨a ++ ns, some r, false⟩ := by
  induction ns generalizing a with
  | nil =>
      rw [List.append_nil] at h ⊢
      rw [← h]
      exact .stop
  | cons n ns ih =>
      have he : a ++ n :: ns = (a ++ [n]) ++ ns := by simp
      rw [he] at h ⊢
      have hnn := hn n (by simp)
      by_cases hns : ns = []
      · subst hns
        rw [List.append_nil] at h ⊢
        obtain ⟨_ | ⟨i, b, x⟩ | t, τ⟩ := r
        · rw [← h]
          exact .enter hnn (found?_of_get? h) .stop
        · exact .file hnn h
        · exact absurd rfl (hl t)
      · exact .enter hnn (ht.folder_above (found?_of_get? h) hns)
          (ih (fun m hm => hn m (.tail _ hm)) h)

theorem way_straight {d : Disk} {deep : Bool} {k : Nat} {a : Place} {ns : List Name} {s : Spot}
    (h : Way d deep k a ns s) (hl : ∀ {q t}, a <+: q → d.found? q ≠ some (.link t))
    (hn : ∀ n ∈ ns, n.IsProper) : s.place = a ++ ns := by
  induction h with
  | stop => simp
  | idle hi _ _ =>
      have := (hn _ List.mem_cons_self).inner
      rcases hi with rfl | rfl <;> cases this
  | up _ _ => cases (hn _ List.mem_cons_self).inner
  | enter _ _ _ ih =>
      rw [ih (fun hq => hl ((List.prefix_append ..).trans hq)) fun m hm => hn m (.tail _ hm)]
      simp
  | @missing _ _ _ ns _ _ hr =>
      have hns : ns = [] := by
        by_contra hne
        obtain ⟨m, t, rfl⟩ := List.exists_cons_of_ne_nil hne
        have hm : m = "" := by
          rw [List.all_cons, Bool.and_eq_true] at hr
          simpa using hr.1
        have := (hn m (by simp)).inner
        rw [hm] at this
        cases this
      rw [hns]
  | file => rfl
  | last => rfl
  | turn _ he _ _ _ => exact absurd he (hl (List.prefix_append ..))

theorem isClean_of {p : Path} (h : ∀ n ∈ p.segments, '\x00' ∉ n.toList) : IsClean p := by
  rw [IsClean, List.any_eq_false]
  intro n hn
  simpa using h n hn

theorem stat_below {d : Disk} (hd : IsRegular d) {D : Path} {P : Place} (hP : d.FolderAt D P)
    {ns : List Name} (hns : ns ≠ []) {r : Record} (hr : d.get? (P ++ ns) = some r)
    (hl : ∀ t, r.entry ≠ .link t) : d.stat (D.join ⟨ns⟩) = .ok (P ++ ns, r) := by
  have hnames : ∀ n ∈ ns, IsEntryName n := fun n hn => hd.names hr n (by simp [hn])
  obtain ⟨k, _, hj⟩ := hP.join hd.toIsTree (.refl d) (r := ⟨ns⟩)
    (Path.isAbsolute_names fun n hn => (hnames n hn).proper) hns
  rw [stat_eq_ok, hj]
  exact ⟨isClean_of fun n hn => (hnames n hn).clean,
    way_down hd.toIsTree (fun n hn => (hnames n hn).isName) hr hl⟩

theorem stat_join {d : Disk} (hd : IsRegular d) {D : Path} {P : Place} (hP : d.FolderAt D P)
    (hl : ∀ {q t}, P <+: q → d.found? q ≠ some (.link t)) {ns : List Name} (hns : ns ≠ [])
    (hn : ∀ n ∈ ns, n.IsProper) {q : Place} {r : Record} :
    d.stat (D.join ⟨ns⟩) = .ok (q, r) ↔ q = P ++ ns ∧ d.get? (P ++ ns) = some r := by
  constructor
  · intro h
    obtain ⟨k, _, hj⟩ := hP.join hd.toIsTree (.refl d) (r := ⟨ns⟩) (Path.isAbsolute_names hn) hns
    have hw := (hj.mp (stat_eq_ok.mp h)).2
    have hq : q = P ++ ns := way_straight hw hl hn
    subst hq
    exact ⟨rfl, hw.record.symm⟩
  · rintro ⟨rfl, hr⟩
    exact stat_below hd hP hns hr fun t he =>
      hl (List.prefix_append P ns) (he ▸ found?_of_get? hr)

theorem stat_pathOf {d : Disk} (hd : IsRegular d) {q : Place} {r : Record} (h : d.get? q = some r)
    (hl : ∀ t, r.entry ≠ .link t) : d.stat (pathOf q) = .ok (q, r) := by
  rw [stat_eq_ok, locate_eq_ok]
  by_cases hq : q = []
  · subst hq
    rw [← h]
    exact ⟨⟨rfl, rfl, rfl⟩, .idle (.inl rfl) (.idle (.inl rfl) .stop)⟩
  · have hp : pathOf q = ⟨"" :: q⟩ := by rw [pathOf, Path.ofRootNames, if_neg hq]
    obtain ⟨n, t, rfl⟩ := List.exists_cons_of_ne_nil hq
    have hnames := hd.names h
    rw [hp]
    refine ⟨⟨Path.isEmpty_cons (by simp), isClean_of fun m hm => ?_, rfl⟩, .idle (.inl rfl) ?_⟩
    · rcases List.mem_cons.mp hm with rfl | hm
      · decide
      · exact (hnames m hm).clean
    · exact way_down (a := []) hd.toIsTree (fun m hm => (hnames m hm).isName) h hl

end SourceAtlas.Disk
