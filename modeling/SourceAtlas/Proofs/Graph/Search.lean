import Mathlib.Data.List.Infix
import Mathlib.Data.List.Perm.Subperm
import SourceAtlas.Proofs.Graph.Files
import SourceAtlas.Proofs.Graph.Layers

namespace SourceAtlas.Graph

open Disk SourceAtlas.Path

section

variable (d : Disk) (root : Path) (maxFiles maxBytes : Nat)

inductive Explores : Nat → List Path → Graph → List Path → Graph → Prop
  | finished {done seen g} : seen[done]? = none → Explores done seen g seen g
  | passed {done seen g file files g'} : seen[done]? = some file → file.relativeTo root = none →
      Explores (done + 1) seen g files g' → Explores done seen g files g'
  | taken {done seen g file key files g'} : seen[done]? = some file →
      file.relativeTo root = some key →
      Explores (done + 1) ((targetsOf d root maxBytes file).foldl (discover maxFiles) seen)
        (g.insert key ((targetsOf d root maxBytes file).filterMap (·.relativeTo root))) files g' →
      Explores done seen g files g'

def importedBy (file : Path) : List String :=
  match Source.read d file maxBytes with
  | .error _ => []
  | .ok text =>
      ((Import.inTree (Source.treeOf file text)).filterMap fun s =>
        ((Import.resolve d root file s).filter Path.isSource).bind (·.relativeTo root)).eraseDups

def entryOf (file : Path) : Option (String × List String) :=
  (file.relativeTo root).map (·, (targetsOf d root maxBytes file).filterMap (·.relativeTo root))

structure Searching (entry : Path) (done : Nat) (seen : List Path) (g : Graph) : Prop where
  seen_eq : seen = (entry :: (seen.take done).flatMap (targetsOf d root maxBytes)).eraseDups.take
    (max maxFiles 1)
  done_le : done ≤ seen.length
  found : ∀ {j x}, seen[j]? = some x →
    x ∈ entry :: (seen.take j).flatMap (targetsOf d root maxBytes)
  inside : ∀ x ∈ seen, Inside root x
  graph_eq : g = ofList ((seen.take done).filterMap (entryOf d root maxBytes))

/-- A search at its end. -/
structure IsSearch (entry : Path) (files : List Path) (g : Graph) : Prop where
  ends : Explores d root maxFiles maxBytes 0 [entry] Graph.empty files g
  first : ∀ n, maxFiles ≤ n →
    files = (order (targetsOf d root maxBytes) entry n).take (max maxFiles 1)
  once : files.Nodup
  sorted : g.IsSorted
  labels : ∀ f ∈ files, ∃ key, f.relativeTo root = some key ∧ root.join (.ofText key) = f
  entries : ∀ e, e ∈ g ↔
    ∃ f ∈ files, f.relativeTo root = some e.1 ∧ e.2 = importedBy d root maxBytes f
  reached : ∀ f ∈ files, Reaches (targetsOf d root maxBytes) entry f
  complete : files.length < maxFiles →
    (∀ f, Reaches (targetsOf d root maxBytes) entry f → f ∈ files) ∧
    ∀ e ∈ g, ∀ t ∈ e.2, t ∈ g.keys

end

variable {d : Disk} {root entry : Path} {maxFiles maxBytes : Nat}

theorem relativeTo_inj {x y : Path} (hx : Inside root x) (hy : Inside root y) {key : String}
    (hk : x.relativeTo root = some key) (hk' : y.relativeTo root = some key) : x = y :=
  (hx.join_label hk).symm.trans (hy.join_label hk')

theorem filterMap_targetsOf (ht : IsTree d) (hr : ∀ n ∈ root.segments, '/' ∉ n.toList) {file : Path}
    (hf : Inside root file) :
    (targetsOf d root maxBytes file).filterMap (·.relativeTo root) =
      importedBy d root maxBytes file := by
  rcases hread : Source.read d file maxBytes with e | text
  · rw [targetsOf, importedBy, hread]
    rfl
  · have hinside : ∀ x ∈ ((Import.inTree (Source.treeOf file text)).filterMap
        (Import.resolve d root file)).filter Path.isSource, Inside root x := by
      intro x hx
      obtain ⟨s, _, hs⟩ := List.mem_filterMap.mp (List.mem_filter.mp hx).1
      exact Import.resolve_inside ht hr (hf.slash hr) hs
    rw [targetsOf, importedBy, hread]
    dsimp only
    rw [moduleImports, distinct_eq, filterMap_eraseDups, List.filter_filterMap,
      List.filterMap_filterMap]
    intro x hx y hy key hk hk'
    exact relativeTo_inj (hinside x hx) (hinside y hy) hk hk'

theorem mem_imports_mono {imports : Path → List Path} {xs ys : List Path} (h : ∀ x ∈ xs, x ∈ ys)
    {x : Path} (hx : x ∈ entry :: xs.flatMap imports) : x ∈ entry :: ys.flatMap imports := by
  rcases List.mem_cons.mp hx with rfl | hx
  · exact List.mem_cons_self
  · obtain ⟨y, hy, hx⟩ := List.mem_flatMap.mp hx
    exact .tail _ (List.mem_flatMap.mpr ⟨y, h y hy, hx⟩)

theorem take_discover {seen : List Path} {j : Nat} (hj : j ≤ seen.length) (ts : List Path) :
    (ts.foldl (discover maxFiles) seen).take j = seen.take j := by
  obtain ⟨more, hmore⟩ := isPrefix_discover maxFiles ts seen
  rw [← hmore, List.take_append_of_le_length hj]

namespace Searching

theorem start (he : Inside root entry) :
    Searching d root maxFiles maxBytes entry 0 [entry] Graph.empty where
  seen_eq := by
    rw [List.take_zero, List.flatMap_nil, List.take_of_length_le]
    · rfl
    · exact Nat.le_max_right ..
  done_le := Nat.zero_le _
  found := by
    intro j x hx
    rw [List.mem_singleton.mp (List.mem_of_getElem? hx)]
    exact List.mem_cons_self
  inside := fun x hx => List.mem_singleton.mp hx ▸ he
  graph_eq := rfl

section

variable {done : Nat} {seen : List Path} {g : Graph}

theorem length_le (h : Searching d root maxFiles maxBytes entry done seen g) :
    seen.length ≤ max maxFiles 1 := by
  rw [h.seen_eq, List.length_take]
  exact Nat.min_le_left ..

section

variable {file : Path} (h : Searching d root maxFiles maxBytes entry done seen g)
  (hfile : seen[done]? = some file)

include h hfile

theorem found_next {j : Nat} {x : Path}
    (hx : ((targetsOf d root maxBytes file).foldl (discover maxFiles) seen)[j]? = some x) :
    x ∈ entry :: (((targetsOf d root maxBytes file).foldl (discover maxFiles) seen).take j).flatMap
      (targetsOf d root maxBytes) := by
  obtain ⟨more, hmore⟩ :=
    isPrefix_discover maxFiles (targetsOf d root maxBytes file) seen
  by_cases hj : j < seen.length
  · rw [← hmore, List.getElem?_append_left hj] at hx
    rw [take_discover hj.le]
    exact h.found hx
  · have hsub : ∀ y ∈ seen, y ∈ (seen ++ more).take j := by
      intro y hy
      rw [List.take_append]
      exact List.mem_append_left _ (by rwa [List.take_of_length_le (by omega)])
    rw [hmore] at hsub
    rcases mem_discover (List.mem_of_getElem? hx) with hx | hx
    · obtain ⟨i, hi⟩ := List.mem_iff_getElem?.mp hx
      exact mem_imports_mono (fun y hy => hsub y (List.mem_of_mem_take hy)) (h.found hi)
    · exact .tail _ (List.mem_flatMap.mpr ⟨file, hsub file (List.mem_of_getElem? hfile), hx⟩)

theorem next (ht : IsTree d) (hr : ∀ n ∈ root.segments, '/' ∉ n.toList) {key : String}
    (hkey : file.relativeTo root = some key) :
    Searching d root maxFiles maxBytes entry (done + 1)
      ((targetsOf d root maxBytes file).foldl (discover maxFiles) seen)
      (g.insert key ((targetsOf d root maxBytes file).filterMap (·.relativeTo root))) := by
  have hlt : done < seen.length := (List.getElem?_eq_some_iff.mp hfile).1
  have hdone : ((targetsOf d root maxBytes file).foldl (discover maxFiles) seen).take (done + 1) =
      seen.take done ++ [file] := by
    rw [take_discover hlt, List.take_add_one, hfile]
    rfl
  refine ⟨?_, ?_, h.found_next hfile, fun x hx => ?_, ?_⟩
  · rw [hdone, List.flatMap_append, List.flatMap_singleton, ← List.cons_append,
      ← foldl_discover (by simp), ← h.seen_eq]
  · exact hlt.trans_le (isPrefix_discover maxFiles (targetsOf d root maxBytes file) seen).length_le
  · rcases mem_discover hx with hx | hx
    · exact h.inside x hx
    · exact targetsOf_inside ht hr (h.inside file (List.mem_of_getElem? hfile)) hx
  · have hentry : entryOf d root maxBytes file =
        some (key, (targetsOf d root maxBytes file).filterMap (·.relativeTo root)) := by
      rw [entryOf, hkey]
      rfl
    rw [hdone, List.filterMap_append, List.filterMap_cons_some hentry, List.filterMap_nil,
      ofList_concat, ← h.graph_eq]

end

theorem finished (h : Searching d root maxFiles maxBytes entry done seen g)
    (hle : seen.length ≤ done) :
    Explores d root maxFiles maxBytes done seen g seen g ∧
      Searching d root maxFiles maxBytes entry seen.length seen g := by
  obtain rfl : done = seen.length := by have := h.done_le; omega
  exact ⟨.finished (List.getElem?_eq_none_iff.mpr hle), h⟩

theorem run (ht : IsTree d) (hr : ∀ n ∈ root.segments, '/' ∉ n.toList) (fuel : Nat)
    (h : Searching d root maxFiles maxBytes entry done seen g)
    (hfuel : max maxFiles 1 ≤ fuel + done) :
    ∃ files, Explores d root maxFiles maxBytes done seen g files
        (explore d root maxFiles maxBytes fuel done seen g) ∧
      Searching d root maxFiles maxBytes entry files.length files
        (explore d root maxFiles maxBytes fuel done seen g) := by
  -- each round is done with one more file, and no more than `maxFiles` are ever seen
  induction fuel generalizing done seen g with
  | zero => exact ⟨seen, h.finished (by have := h.length_le; omega)⟩
  | succ n ih =>
      unfold explore
      split
      · next hnone => exact ⟨seen, h.finished (List.getElem?_eq_none_iff.mp hnone)⟩
      · next file hfile =>
          obtain ⟨key, hkey⟩ := (h.inside file (List.mem_of_getElem? hfile)).exists_label
          rw [hkey]
          obtain ⟨files, hends, hs⟩ := ih (h.next hfile ht hr hkey) (by omega)
          exact ⟨files, .taken hfile hkey hends, hs⟩

theorem reached (h : Searching d root maxFiles maxBytes entry done seen g) :
    ∀ f ∈ seen, Reaches (targetsOf d root maxBytes) entry f := by
  have hindex : ∀ (j : Nat) (x : Path), seen[j]? = some x →
      Reaches (targetsOf d root maxBytes) entry x := by
    intro j
    induction j using Nat.strong_induction_on with
    | _ j ih =>
        intro x hx
        rcases List.mem_cons.mp (h.found hx) with rfl | hx
        · exact .refl
        · obtain ⟨y, hy, hx⟩ := List.mem_flatMap.mp hx
          obtain ⟨i, hi⟩ := List.mem_iff_getElem?.mp hy
          have hij : i < j := by
            by_contra hle
            rw [List.getElem?_take_eq_none (by omega)] at hi
            cases hi
          rw [List.getElem?_take_of_lt hij] at hi
          exact (ih i hij y hi).tail hx
  intro f hf
  obtain ⟨j, hj⟩ := List.mem_iff_getElem?.mp hf
  exact hindex j f hj

theorem once (h : Searching d root maxFiles maxBytes entry done seen g) : seen.Nodup := by
  rw [h.seen_eq]
  exact (nodup_eraseDups _).sublist (List.take_sublist ..)

theorem sorted (h : Searching d root maxFiles maxBytes entry done seen g) : g.IsSorted := by
  rw [h.graph_eq]
  exact .ofList _

end

variable {files : List Path} {g : Graph}

theorem files_eq (h : Searching d root maxFiles maxBytes entry files.length files g) :
    files = (entry :: files.flatMap (targetsOf d root maxBytes)).eraseDups.take
      (max maxFiles 1) := by
  have := h.seen_eq
  rwa [List.take_length] at this

theorem order_isPrefix_files (h : Searching d root maxFiles maxBytes entry files.length files g)
    (n : Nat) :
    (order (targetsOf d root maxBytes) entry n).take (max maxFiles 1) <+: files := by
  induction n with
  | zero =>
      rw [h.files_eq]
      exact List.IsPrefix.take (eraseDups_isPrefix (List.prefix_append [entry] _)) _
  | succ n ih =>
      by_cases hroom : (order (targetsOf d root maxBytes) entry n).length ≤ max maxFiles 1
      · rw [List.take_of_length_le hroom] at ih
        rw [h.files_eq, order_succ]
        obtain ⟨more, hmore⟩ := ih
        refine List.IsPrefix.take (eraseDups_isPrefix ?_) _
        rw [← hmore, List.flatMap_append, ← List.cons_append]
        exact List.prefix_append ..
      · -- the cut is already behind what stands nearer
        obtain ⟨more, hmore⟩ := @order_isPrefix (targetsOf d root maxBytes) entry n
        rwa [← hmore, List.take_append_of_le_length (by omega)]

theorem first (h : Searching d root maxFiles maxBytes entry files.length files g) {n : Nat}
    (hn : maxFiles ≤ n) :
    files = (order (targetsOf d root maxBytes) entry n).take (max maxFiles 1) := by
  refine ((h.order_isPrefix_files n).eq_of_length_le ?_).symm
  have hle := h.length_le
  rw [List.length_take]
  rcases @order_grows (targetsOf d root maxBytes) entry n with hlong | hfix
  · omega
  · have hsub : files ⊆ order (targetsOf d root maxBytes) entry n :=
      fun f hf => mem_order_of_reaches hfix (h.reached f hf)
    have := (List.subperm_of_subset h.once hsub).length_le
    omega

theorem entries (ht : IsTree d) (hr : ∀ n ∈ root.segments, '/' ∉ n.toList)
    (h : Searching d root maxFiles maxBytes entry files.length files g)
    (e : String × List String) :
    e ∈ g ↔ ∃ f ∈ files, f.relativeTo root = some e.1 ∧ e.2 = importedBy d root maxBytes f := by
  have hkeys : ((files.filterMap (entryOf d root maxBytes)).map (·.1)).Nodup := by
    have hlabel : (fun f => (entryOf d root maxBytes f).map (·.1)) = (·.relativeTo root) := by
      funext f
      rw [entryOf]
      cases f.relativeTo root <;> rfl
    rw [List.map_filterMap, hlabel, List.Nodup, List.pairwise_filterMap]
    refine h.once.imp_of_mem fun {x y} hx hy hne key hk key' hk' he => hne ?_
    exact relativeTo_inj (h.inside x hx) (h.inside y hy) hk (he ▸ hk')
  have hg := h.graph_eq
  rw [List.take_length] at hg
  rw [hg, mem_ofList hkeys, List.mem_filterMap]
  refine exists_congr fun f => and_congr_right fun hf => ?_
  rw [entryOf, filterMap_targetsOf ht hr (h.inside f hf), Option.map_eq_some_iff]
  constructor
  · rintro ⟨key, hk, rfl⟩
    exact ⟨hk, rfl⟩
  · rintro ⟨hk, he⟩
    exact ⟨e.1, hk, he ▸ rfl⟩

theorem mem_files (h : Searching d root maxFiles maxBytes entry files.length files g)
    (hroom : files.length < maxFiles) {x : Path} :
    x ∈ files ↔ x ∈ entry :: files.flatMap (targetsOf d root maxBytes) := by
  have hlen := congrArg List.length h.files_eq
  rw [List.length_take] at hlen
  have hall : files = (entry :: files.flatMap (targetsOf d root maxBytes)).eraseDups :=
    h.files_eq.trans (List.take_of_length_le (by omega))
  calc x ∈ files
      ↔ x ∈ (entry :: files.flatMap (targetsOf d root maxBytes)).eraseDups := by rw [← hall]
    _ ↔ x ∈ entry :: files.flatMap (targetsOf d root maxBytes) := List.mem_eraseDups

theorem complete (ht : IsTree d) (hr : ∀ n ∈ root.segments, '/' ∉ n.toList)
    (h : Searching d root maxFiles maxBytes entry files.length files g)
    (hroom : files.length < maxFiles) :
    (∀ f, Reaches (targetsOf d root maxBytes) entry f → f ∈ files) ∧
      ∀ e ∈ g, ∀ t ∈ e.2, t ∈ g.keys := by
  have hclosed : ∀ {x y}, x ∈ files → y ∈ targetsOf d root maxBytes x → y ∈ files :=
    fun hx hy => (h.mem_files hroom).mpr (.tail _ (List.mem_flatMap.mpr ⟨_, hx, hy⟩))
  refine ⟨fun f hf => ?_, fun e he t htarget => ?_⟩
  · induction hf with
    | refl => exact (h.mem_files hroom).mpr List.mem_cons_self
    | tail _ hy ih => exact hclosed ih hy
  · obtain ⟨f, hf, _, himports⟩ := (h.entries ht hr e).mp he
    rw [himports, ← filterMap_targetsOf ht hr (h.inside f hf)] at htarget
    obtain ⟨y, hy, hl⟩ := List.mem_filterMap.mp htarget
    exact List.mem_map.mpr
      ⟨(t, _), (h.entries ht hr (t, _)).mpr ⟨y, hclosed hf hy, hl, rfl⟩, rfl⟩

theorem isSearch (ht : IsTree d) (hr : ∀ n ∈ root.segments, '/' ∉ n.toList)
    (h : Searching d root maxFiles maxBytes entry files.length files g)
    (hends : Explores d root maxFiles maxBytes 0 [entry] Graph.empty files g) :
    IsSearch d root maxFiles maxBytes entry files g where
  ends := hends
  first := fun _ => h.first
  once := h.once
  sorted := h.sorted
  labels := fun f hf =>
    have ⟨key, hk⟩ := (h.inside f hf).exists_label
    ⟨key, hk, (h.inside f hf).join_label hk⟩
  entries := h.entries ht hr
  reached := h.reached
  complete := h.complete ht hr

end Searching

/-- The graph of modules is that of a search from the entry point, unless there is none or no import
is found. -/
theorem ofModules_isSearch (ht : IsTree d) (t : String) (maxFiles maxBytes : Nat) :
    (entryPoint? d (.ofText t) = none →
      ofModules d (.ofText t) maxFiles maxBytes = .failed (.ofText "no entry point found")) ∧
    ∀ entry, entryPoint? d (.ofText t) = some entry →
      ∃ files g, IsSearch d (.ofText t) maxFiles maxBytes entry files g ∧
        ofModules d (.ofText t) maxFiles maxBytes =
          if ∀ e ∈ g, e.2 = [] then .empty else .graph g := by
  have hr : ∀ n ∈ (Path.ofText t).segments, '/' ∉ n.toList := fun _ => slash_not_mem
  refine ⟨fun hnone => by rw [ofModules, hnone], fun entry hentry => ?_⟩
  have hstart : Searching d (.ofText t) maxFiles maxBytes entry 0 [entry] Graph.empty :=
    .start (entryPoint_inside hentry)
  obtain ⟨files, hends, hs⟩ := hstart.run ht hr (max maxFiles 1) (Nat.le_refl _)
  refine ⟨files, _, hs.isSearch ht hr hends, ?_⟩
  rw [ofModules, hentry]
  exact if_congr edges_eq_zero rfl rfl

def roundDisk : Disk :=
  ⟨[(["p"], ⟨.folder, 0⟩), (["p", "index.js"], ⟨.file 0 "import a from './a';".toUTF8 false, 0⟩),
    (["p", "a.js"], ⟨.file 1 "import i from '.';".toUTF8 false, 0⟩)], [], 0, 2⟩

theorem isTree_roundDisk : IsTree roundDisk := by decide

theorem ofModules_isSearch_round :
    IsTree roundDisk ∧ entryPoint? roundDisk (.ofText "p") = some (.ofText "p/index.js") ∧
    ∃ files g, IsSearch roundDisk (.ofText "p") 2 100 (.ofText "p/index.js") files g ∧
      ofModules roundDisk (.ofText "p") 2 100 =
        if ∀ e ∈ g, e.2 = [] then .empty else .graph g := by
  have hentry : entryPoint? roundDisk (.ofText "p") = some (.ofText "p/index.js") := by decide
  exact ⟨isTree_roundDisk, hentry, (ofModules_isSearch isTree_roundDisk "p" 2 100).2 _ hentry⟩

end SourceAtlas.Graph
