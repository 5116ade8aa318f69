import SourceAtlas.Proofs.Analysis.Context
import SourceAtlas.Proofs.Disk.Contents

namespace SourceAtlas

open Disk

namespace Disk

variable {d : Disk} {p : Path} {q : Place}

theorem canonical_eq_ok : d.canonical p = .ok q ↔ ∃ r, d.stat p = .ok (q, r) := by
  unfold canonical
  rcases d.stat p with e | ⟨q', r⟩ <;> simp [Except.map]

theorem stat_not_link (ht : IsTree d) {r : Record} (h : d.stat p = .ok (q, r)) (t : Path) :
    r.entry ≠ .link t := by
  intro he
  obtain ⟨hp, hw⟩ := locate_eq_ok.mp (stat_eq_ok.mp h)
  exact ht.not_link hw hp.folder (he ▸ found?_of_get? hw.record.symm)

theorem readText_rewrite {f : Place → ByteArray → ByteArray}
    (h : ∀ q r, d.stat p = .ok (q, r) → r.rewrite (f q) = r) :
    (d.rewrite f).readText p = d.readText p := by
  rcases hs : d.stat p with e | ⟨q, r⟩
  · rw [readText_of_error hs, readText_of_error (e := e) (by rw [stat_rewrite_eq, hs]; rfl)]
  · rw [readText_of_stat hs, readText_of_stat (stat_rewrite hs), h q r hs]

theorem text_eq_ok {r : Record} {s : String} :
    r.text = .ok s ↔ ∃ i b x, r.entry = .file i b x ∧ textOf b = .ok s := by
  obtain ⟨_ | ⟨i, b, x⟩ | t, τ⟩ := r <;> simp [Record.text]

end Disk

namespace Project

variable {d : Disk} {root : Path}

/-- The text is that of a file that lies in the folder the root leads to. -/
def HoldsText (d : Disk) (root : Path) (s : String) : Prop :=
  ∃ P q i b x t, d.canonical root = .ok P ∧ P <+: q ∧ d.canonical (Disk.pathOf q) = .ok q ∧
    d.get? q = some ⟨.file i b x, t⟩ ∧ textOf b = .ok s

theorem resolved_eq_ok {p : Path} {q : Place} :
    resolved d p = .ok q ↔ d.canonical p = .ok q := by
  unfold resolved
  rcases d.canonical p with e | q' <;> simp

theorem contentOf_ok {path s : String} (h : contentOf d root path = .ok s) :
    ∃ p P q, locateFile d root path = .ok p ∧ d.canonical root = .ok P ∧ d.canonical p = .ok q ∧
      P <+: q ∧ d.readText (Disk.pathOf q) = .ok s := by
  unfold contentOf at h
  rcases hp : locateFile d root path with e | p
  · rw [hp] at h
    cases h
  rw [hp] at h
  change (if d.isFolder p = true then _ else _) = _ at h
  split at h
  · cases h
  rcases hP : resolved d root with e | P
  · rw [hP] at h
    cases h
  rcases hq : resolved d p with e | q
  · rw [hP, hq] at h
    cases h
  rw [hP, hq] at h
  change (if _ then _ else _) = _ at h
  split at h
  · cases h
  · next hin =>
      refine ⟨p, P, q, rfl, resolved_eq_ok.mp hP, resolved_eq_ok.mp hq, by simpa using hin, ?_⟩
      split at h
      · next s' hs =>
          cases h
          exact hs
      · cases h

theorem holdsText_of_contentOf (hd : IsRegular d) {path s : String}
    (h : contentOf d root path = .ok s) : HoldsText d root s := by
  obtain ⟨p, P, q, _, hP, hq, hin, hs⟩ := contentOf_ok h
  obtain ⟨r, hr⟩ := canonical_eq_ok.mp hq
  have hget : d.get? q = some r := (locate_record (stat_eq_ok.mp hr)).symm
  have hself := stat_pathOf hd hget (stat_not_link hd.toIsTree hr)
  rw [readText_of_stat hself] at hs
  obtain ⟨i, b, x, he, hs⟩ := text_eq_ok.mp hs
  obtain ⟨e, t⟩ := r
  subst he
  exact ⟨P, q, i, b, x, t, hP, hin, canonical_eq_ok.mpr ⟨_, hself⟩, hget, hs⟩

section Rewrite

variable {g : Place → ByteArray → ByteArray}

theorem effectiveRoot_rewrite : effectiveRoot (d.rewrite g) root = effectiveRoot d root := by
  obtain ⟨f, hf⟩ := list_rewrite (d := d) (f := g) root
  rw [effectiveRoot, effectiveRoot, hf]
  rcases d.list root with e | inside
  · rfl
  · have hfilter : (inside.map fun e => (e.1, e.2.rewrite (f e.1))).filter
        (·.1 ≠ resourceForks) =
          (inside.filter (·.1 ≠ resourceForks)).map fun e => (e.1, e.2.rewrite (f e.1)) :=
      List.filter_map
    dsimp only [Except.map]
    rw [hfilter]
    generalize inside.filter (·.1 ≠ resourceForks) = rest
    rcases rest with _ | ⟨⟨n, r⟩, _ | ⟨x, rest⟩⟩
    · rfl
    · dsimp only [List.map]
      rw [Record.isFolder_rewrite]
    · rfl

theorem locateFile_rewrite (path : String) :
    locateFile (d.rewrite g) root path = locateFile d root path := by
  have he : (d.rewrite g).exists? = d.exists? := funext exists?_rewrite
  rw [locateFile, locateFile, he, effectiveRoot_rewrite]

theorem resolved_rewrite (p : Path) : resolved (d.rewrite g) p = resolved d p := by
  rw [resolved, resolved, canonical_rewrite]

theorem contentOf_rewrite (hd : IsRegular d)
    (hg : ∀ P q b, d.canonical root = .ok P → P <+: q → g q b = b) (path : String) :
    contentOf (d.rewrite g) root path = contentOf d root path := by
  unfold contentOf
  rw [locateFile_rewrite]
  rcases locateFile d root path with e | p
  · rfl
  show (if (d.rewrite g).isFolder p = true then _ else _) =
    if d.isFolder p = true then _ else _
  rw [isFolder_rewrite, resolved_rewrite, resolved_rewrite]
  split
  · rfl
  rcases hP : resolved d root with e | P
  · rfl
  rcases hq : resolved d p with e | q
  · rfl
  show (if (!P.isPrefixOf q) = true then _ else _) = if (!P.isPrefixOf q) = true then _ else _
  split
  · rfl
  · next hin =>
      obtain ⟨r, hr⟩ := canonical_eq_ok.mp (resolved_eq_ok.mp hq)
      have hget : d.get? q = some r := (locate_record (stat_eq_ok.mp hr)).symm
      have hread : (d.rewrite g).readText (Disk.pathOf q) = d.readText (Disk.pathOf q) := by
        refine readText_rewrite fun q' r' hr' => Record.rewrite_eq fun _ b => ?_
        rw [stat_pathOf hd hget (stat_not_link hd.toIsTree hr)] at hr'
        cases hr'
        exact hg P q b (resolved_eq_ok.mp hP) (by simpa using hin)
      rw [hread]

end Rewrite

/-- Whatever an analysis says, and wherever links lead, all that a context has of files is text of
files in the project, and no other file has any part in it. -/
theorem context_confined {d : Disk} (hd : IsRegular d) (root : Path) :
    (∀ path s, contentOf d root path = .ok s → HoldsText d root s) ∧
    (∀ request a maxFiles, ∀ f ∈ (FeatureContext.build d root request a maxFiles).1.files,
      HoldsText d root f.content) ∧
    (∀ g, (∀ P q b, d.canonical root = .ok P → P <+: q → g q b = b) →
      ∀ request a maxFiles, FeatureContext.build (d.rewrite g) root request a maxFiles =
        FeatureContext.build d root request a maxFiles) := by
  refine ⟨fun path s h => holdsText_of_contentOf hd h, fun request a maxFiles f hf => ?_,
    fun g hg request a maxFiles => ?_⟩
  · exact holdsText_of_contentOf hd (FeatureContext.mem_select hf).2
  · have hread : contentOf (d.rewrite g) root = contentOf d root :=
      funext (contentOf_rewrite hd hg)
    unfold FeatureContext.build FeatureContext.select FeatureContext.readAll
    rw [hread]

def leaking : Disk :=
  ⟨[(["p"], ⟨.folder, 0⟩), (["p", "a"], ⟨.file 0 "x".toUTF8 false, 0⟩),
    (["p", "b"], ⟨.link (.ofText "../k"), 0⟩), (["k"], ⟨.file 1 "y".toUTF8 false, 0⟩)], [], 0, 2⟩

theorem isRegular_leaking : IsRegular leaking := by decide

theorem context_confined_leaking :
    IsRegular leaking ∧ HoldsText leaking (.ofText "p") "x" ∧
      contentOf leaking (.ofText "p") "b" = .error (.accessDenied "b") := by
  have hread : contentOf leaking (.ofText "p") "a" = .ok "x" := by cbv
  exact ⟨isRegular_leaking, (context_confined isRegular_leaking (.ofText "p")).1 "a" "x" hread,
    by cbv⟩

end Project

end SourceAtlas
