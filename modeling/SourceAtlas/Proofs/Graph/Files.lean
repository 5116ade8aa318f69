import SourceAtlas.Proofs.Graph.Order
import SourceAtlas.Proofs.Import.Resolve
import SourceAtlas.Proofs.Source.Files

namespace SourceAtlas.Graph

open Disk SourceAtlas.Path

/-- Every key is the label of a file of one kind, every target that of a file to which this one is
related. -/
def Tells (root : Path) (P : Path → Prop) (Q : Path → Path → Prop) (g : Graph) : Prop :=
  ∀ e ∈ g, ∃ x, P x ∧ x.relativeTo root = some e.1 ∧
    ∀ t ∈ e.2, ∃ y, Q x y ∧ y.relativeTo root = some t

variable {d : Disk} {root : Path} {P : Path → Prop} {Q : Path → Path → Prop}

namespace Tells

theorem mono {P' : Path → Prop} {Q' : Path → Path → Prop} {g : Graph} (h : g.Tells root P Q)
    (hP : ∀ x, P x → P' x) (hQ : ∀ x y, P x → Q x y → Q' x y) : g.Tells root P' Q' := by
  intro e he
  obtain ⟨x, hx, hk, ht⟩ := h e he
  refine ⟨x, hP x hx, hk, fun t hm => ?_⟩
  obtain ⟨y, hy, hl⟩ := ht t hm
  exact ⟨y, hQ x y hx hy, hl⟩

theorem insert {g : Graph} (hg : g.Tells root P Q) {key : String} {ts : List String}
    (h : ∃ x, P x ∧ x.relativeTo root = some key ∧
      ∀ t ∈ ts, ∃ y, Q x y ∧ y.relativeTo root = some t) : (g.insert key ts).Tells root P Q := by
  intro e he
  rcases mem_insert he with rfl | he
  · exact h
  · exact hg e he

theorem ofList {es : List (String × List String)}
    (h : ∀ e ∈ es, ∃ x, P x ∧ x.relativeTo root = some e.1 ∧
      ∀ t ∈ e.2, ∃ y, Q x y ∧ y.relativeTo root = some t) : (ofList es).Tells root P Q := by
  have hfold : ∀ {g : Graph}, g.Tells root P Q →
      Tells root P Q (es.foldl (fun g e => g.insert e.1 e.2) g) := by
    intro g hg
    induction es generalizing g with
    | nil => exact hg
    | cons e es ih =>
        exact ih (fun x hx => h x (.tail _ hx)) (hg.insert (h e List.mem_cons_self))
  exact hfold nofun

end Tells

theorem mem_distinct {α : Type} [DecidableEq α] {xs : List α} {x : α} (h : x ∈ distinct xs) :
    x ∈ xs := by
  have hfold : ∀ {seen : List α},
      x ∈ xs.foldl (fun seen x => if x ∈ seen then seen else seen ++ [x]) seen →
        x ∈ seen ∨ x ∈ xs := by
    clear h
    induction xs with
    | nil => exact .inl
    | cons y xs ih =>
        intro seen hx
        rcases ih hx with hx | hx
        · dsimp only at hx
          split at hx
          · exact .inl hx
          · rcases List.mem_append.mp hx with hx | hx
            · exact .inl hx
            · exact .inr (List.mem_singleton.mp hx ▸ List.mem_cons_self)
        · exact .inr (.tail _ hx)
  exact (hfold h).resolve_left nofun

theorem mem_targetsOf {maxBytes : Nat} {file x : Path} (hx : x ∈ targetsOf d root maxBytes file) :
    x.isSource = true ∧ ∃ s, Import.resolve d root file s = some x := by
  unfold targetsOf at hx
  split at hx
  · obtain ⟨hm, hs⟩ := List.mem_filter.mp (mem_distinct hx)
    obtain ⟨s, _, hr⟩ := List.mem_filterMap.mp hm
    exact ⟨hs, s, hr⟩
  · cases hx

theorem mem_discover {maxFiles : Nat} {xs seen : List Path} {x : Path}
    (h : x ∈ xs.foldl (discover maxFiles) seen) : x ∈ seen ∨ x ∈ xs := by
  induction xs generalizing seen with
  | nil => exact .inl h
  | cons y xs ih =>
      rcases ih h with hx | hx
      · unfold discover at hx
        split at hx
        · rcases List.mem_append.mp hx with hx | hx
          · exact .inl hx
          · exact .inr (List.mem_singleton.mp hx ▸ List.mem_cons_self)
        · exact .inl hx
      · exact .inr (.tail _ hx)

theorem explore_tells {maxFiles maxBytes : Nat}
    (ht : ∀ f x, P f → x ∈ targetsOf d root maxBytes f → P x) (fuel done : Nat) {seen : List Path}
    {g : Graph} (hs : ∀ x ∈ seen, P x)
    (hg : g.Tells root P fun f x => x ∈ targetsOf d root maxBytes f) :
    (explore d root maxFiles maxBytes fuel done seen g).Tells root P
      fun f x => x ∈ targetsOf d root maxBytes f := by
  induction fuel generalizing done seen g with
  | zero => exact hg
  | succ n ih =>
      unfold explore
      split
      · exact hg
      · next file hfile =>
          have hf := hs file (List.mem_of_getElem? hfile)
          split
          · exact ih _ hs hg
          · next key hkey =>
              refine ih _ (fun x hx => ?_) (hg.insert ⟨file, hf, hkey, fun t hm => ?_⟩)
              · rcases mem_discover hx with hx | hx
                · exact hs x hx
                · exact ht file x hf hx
              · exact List.mem_filterMap.mp hm

theorem entryPoint_names {x : Path} (h : entryPoint? d root = some x) :
    ∃ ns : List Name, ns ≠ [] ∧ (∀ n ∈ ns, n.IsProper) ∧ (∀ n ∈ ns, n.isExcluded = false) ∧
      x = root.join ⟨ns⟩ := by
  obtain ⟨p, hp, rfl⟩ := List.mem_map.mp (List.mem_of_find?_eq_some h)
  have hnames : ∀ p ∈ entryPoints, p.segments ≠ [] ∧ (∀ n ∈ p.segments, n.IsProper) ∧
      ∀ n ∈ p.segments, n.isExcluded = false := by decide
  obtain ⟨hne, hp, hv⟩ := hnames p hp
  exact ⟨p.segments, hne, hp, hv, rfl⟩

theorem entryPoint_isFile {x : Path} (h : entryPoint? d root = some x) : d.isFile x = true :=
  List.find?_some (p := d.isFile) h

theorem ofModules_tells {maxFiles maxBytes : Nat} (he : ∀ x, entryPoint? d root = some x → P x)
    (ht : ∀ f x, P f → x ∈ targetsOf d root maxBytes f → P x) {g : Graph}
    (h : ofModules d root maxFiles maxBytes = .graph g) :
    g.Tells root P fun f x => x ∈ targetsOf d root maxBytes f := by
  unfold ofModules at h
  split at h
  · cases h
  · next entry hentry =>
      dsimp only at h
      split at h
      · cases h
      · cases h
        refine explore_tells ht _ _ (fun x hx => ?_) nofun
        rw [List.mem_singleton.mp hx]
        exact he entry hentry

def Names (d : Disk) (root : Path) (maxBytes : Nat) (file x : Path) : Prop :=
  ∃ text, Source.read d file maxBytes = .ok text ∧
    ∃ s ∈ Import.specifiers text, Import.resolve d root file s = some x

theorem ofScan_tells {maxFiles maxBytes : Nat} {g : Graph}
    (h : ofScan d root maxFiles maxBytes = .graph g) :
    (∃ R, d.FolderAt root R) ∧
      g.Tells root (· ∈ (Source.files d root maxFiles).files) (Names d root maxBytes) := by
  unfold ofScan at h
  split at h
  · cases h
  · next hfolder =>
      split at h
      · cases h
      · cases h
        refine ⟨isFolder_iff.mp (by simpa using hfolder), .ofList fun e he => ?_⟩
        obtain ⟨file, hfile, he⟩ := List.mem_filterMap.mp he
        unfold scannedEntry at he
        split at he
        · cases he
        · next text htext =>
            split at he
            · cases he
            · obtain ⟨key, hkey, rfl⟩ := Option.map_eq_some_iff.mp he
              refine ⟨file, hfile, hkey, fun t ht => ?_⟩
              obtain ⟨s, hs, hr⟩ := List.mem_filterMap.mp (mem_distinct ht)
              obtain ⟨x, hx, hl⟩ := Option.bind_eq_some_iff.mp hr
              exact ⟨x, ⟨text, htext, s, (List.mem_filter.mp hs).1, hx⟩, hl⟩

theorem targetsOf_inside (ht : IsTree d) (hr : ∀ n ∈ root.segments, '/' ∉ n.toList) {maxBytes : Nat}
    {file x : Path} (hf : Inside root file) (hx : x ∈ targetsOf d root maxBytes file) :
    Inside root x := by
  obtain ⟨_, s, hs⟩ := mem_targetsOf hx
  exact Import.resolve_inside ht hr (hf.slash hr) hs

theorem entryPoint_inside {x : Path} (h : entryPoint? d root = some x) : Inside root x := by
  obtain ⟨ns, hn, hp, _, hx⟩ := entryPoint_names h
  exact ⟨ns, hn, hp, hx⟩

theorem ofProject_inside (hd : IsRegular d) (hr : ∀ n ∈ root.segments, '/' ∉ n.toList)
    (limits : Limits) :
    (ofProject d root limits).graph.Tells root (Inside root) fun _ => Inside root := by
  rcases ofProject_graph d root limits with ⟨hg, _⟩ | ⟨hg | hg, _⟩
  · exact (ofModules_tells (fun _ => entryPoint_inside) (fun _ _ => targetsOf_inside hd.toIsTree hr)
      hg).mono (fun _ h => h) fun _ _ => targetsOf_inside hd.toIsTree hr
  · obtain ⟨⟨R, hR⟩, ht⟩ := ofScan_tells hg
    have hin : ∀ {x}, x ∈ (Source.files d root limits.maxSourceFiles).files → Inside root x :=
      fun h => (Source.files_isBelow hd hR h).inside
    refine ht.mono (fun _ => hin) fun x y hx hy => ?_
    obtain ⟨_, _, s, _, hs⟩ := hy
    exact Import.resolve_inside hd.toIsTree hr ((hin hx).slash hr) hs
  · rw [hg]
    exact nofun

end SourceAtlas.Graph
