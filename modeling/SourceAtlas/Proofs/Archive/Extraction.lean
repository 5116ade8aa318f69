import SourceAtlas.Proofs.Archive.Descent

namespace SourceAtlas.Archive

open Disk Work

def MadeFor (target : Path) (d d' : Disk) (q : Place) : Prop :=
  d.found? q = none ∧ ∃ p ms, target.segments = p.segments ++ ms ∧ d'.FolderAt p q

/-- Nothing has changed in the place, unless it is a folder made on the way to `target`, or the one
around such a folder. -/
def Spared (target : Path) (q : Place) (d d' : Disk) : Prop :=
  let d₁ := ((makeFolders target).run d).2
  d'.get? q = d.get? q ∨ d.isFolder target = false ∧ d'.found? q = some .folder ∧
    (MadeFor target d d₁ q ∨ d.found? q = some .folder ∧ ∃ n, MadeFor target d d₁ (q ++ [n]))

theorem MadeFor.extend {target : Path} {d d' d'' : Disk} {q : Place} (hx : Extends d' d'')
    (h : MadeFor target d d' q) : MadeFor target d d'' q := by
  obtain ⟨hn, p, ms, hs, hp⟩ := h
  exact ⟨hn, p, ms, hs, hp.extend hx⟩

structure OpenedFor (target : Path) (d d' : Disk) : Prop where
  widened : Widened d d'
  only : ∀ q, d'.get? q = d.get? q ∨ MadeFor target d d' q ∨
    d.found? q = some .folder ∧ ∃ n, MadeFor target d d' (q ++ [n])

theorem OpenedFor.put {target : Path} {d d' : Disk} (h : OpenedFor target d d') {p : Path}
    {ms : List Name} (hp : target.segments = p.segments ++ ms) {q : Place} {sl : Bool}
    (hl : d'.locate true p = .ok ⟨q, none, sl⟩) : OpenedFor target d (d'.put q .folder) := by
  obtain ⟨hfree, h0⟩ := free_of_locate hl
  have hx : Extends d' (d'.put q .folder) := .put h0 hfree fun _ => nofun
  have hmade : MadeFor target d (d'.put q .folder) q := by
    refine ⟨?_, p, ms, hp, folderAt_put hl⟩
    rcases h.widened.only q with he | ⟨hf, _⟩
    · exact found?_eq_none.mpr (he ▸ hfree)
    · rw [found?_eq_none.mpr hfree] at hf
      cases hf
  refine ⟨h.widened.put hl, fun q' => ?_⟩
  rcases h.only q' with he | hm | ⟨hf, n, hm⟩
  · by_cases hq : q' = q
    · exact .inr (.inl (hq ▸ hmade))
    · by_cases hd : q' = q.dropLast
      · have haround := (h.widened.tree.free_spot hl).2
        rw [← hd, found?_congr he] at haround
        refine .inr (.inr ⟨haround, q.getLast h0, ?_⟩)
        rwa [hd, List.dropLast_concat_getLast h0]
      · exact .inl ((get?_put_of_ne hq hd).trans he)
  · exact .inr (.inl (hm.extend hx))
  · exact .inr (.inr ⟨hf, n, hm.extend hx⟩)

theorem makeFolders_openedFor {d : Disk} (ht : IsTree d) (target : Path) :
    OpenedFor target d ((makeFolders target).run d).2 := by
  have hup : ∀ {p q : Path}, (p = Path.top ∨ ∃ ms, target.segments = p.segments ++ ms) →
      p.parent = some q → q.isEmpty = false →
      q = Path.top ∨ ∃ ms, target.segments = q.segments ++ ms := by
    rintro p q hp hparent hq
    rcases Path.parent_eq_some hparent with rfl | rfl | ⟨_, ms, hs, _⟩
    · cases hq
    · exact .inl rfl
    · rcases hp with rfl | ⟨ms', hp⟩
      · cases hparent
      · exact .inr ⟨ms ++ ms', by rw [hp, hs, List.append_assoc]⟩
  refine makeFolders_keeps hup ?_ (.inr ⟨[], (List.append_nil _).symm⟩) d
    ⟨⟨ht, .refl d, fun _ => .inl rfl⟩, fun _ => .inl rfl⟩
  rintro p d' q sl (rfl | ⟨ms, hp⟩) h hl
  · obtain ⟨t, htop⟩ := FolderAt.top d'
    rw [stat_eq_ok, hl] at htop
    cases htop
  · exact h.put hp hl

theorem spared_makeFolders {d : Disk} (ht : IsTree d) (target : Path) (q : Place) :
    Spared target q d ((makeFolders target).run d).2 := by
  cases hf : d.isFolder target with
  | true =>
      rw [makeFolders_of_isFolder hf]
      exact .inl rfl
  | false =>
      have h := makeFolders_openedFor ht target
      rcases h.only q with he | hm | hd
      · exact .inl he
      · obtain ⟨_, _, _, _, hfolder⟩ := id hm
        exact .inr ⟨hf, hfolder.folder, .inl hm⟩
      · exact .inr ⟨hf, h.widened.grown.folder hd.1, .inr hd⟩

theorem Spared.congr {target : Path} {q : Place} {d d' d'' : Disk} (h : Spared target q d d')
    (hq : d''.get? q = d'.get? q) : Spared target q d d'' := by
  rcases h with h | ⟨hf, he, hd⟩
  · exact .inl (hq.trans h)
  · exact .inr ⟨hf, (found?_congr hq).trans he, hd⟩

/-- Unpacking keeps to the folder that `target` leads to as long as no link there leads a path of
the archive out of it; and where a path leads, inside or not, the file of an entry is written. -/
theorem extract_confined {d d₁ : Disk} (ht : IsTree d) (archive : Path) {target : Path}
    (hp : target.isEmpty = false) (maxBytes : Nat) (h₁ : ((makeFolders target).run d).2 = d₁) :
    ((∀ T, d₁.FolderAt target T → Sealed d₁ target T) →
      ∀ q, (∀ T, d₁.FolderAt target T → ¬ T <+: q) →
        Spared target q d ((extract archive target maxBytes).run d).2) ∧
    (∀ b t e c out s, e.destination target = some out → contentOf b e = .ok c →
      e.isFolder = false → s.slash = false → d₁.locate true out = .ok s →
      d₁.found? s.place ≠ some .folder →
      ∃ i x, ((extractEntry archive target maxBytes b t e).run d₁).2.get? s.place =
        some ⟨.file i (c.take (maxBytes - t.bytesWritten + 1)).bytes x, d₁.now⟩) := by
  have hspared := spared_makeFolders ht target
  have hwide := makeFolders_widened ht target
  rw [h₁] at hspared hwide
  refine ⟨fun hs q hq => ?_, ?_⟩
  · rw [extract_run]
    split
    · rcases hm : (makeFolders target).run d with ⟨_ | _, d'⟩
      all_goals
        rw [hm] at h₁
        cases h₁
      · exact hspared q
      · obtain ⟨T, hT⟩ := isFolder_iff.mp (makeFolders_ok hp hm)
        exact (hspared q).congr (unpack_outside hwide.tree hT (hs T hT) archive maxBytes (hq T hT))
    · exact .inl rfl
  · intro b t e c out s ho hc he hl h hs
    exact extractEntry_lands hwide.tree ho hc he hl h hs

def archiveOfOne : ByteArray :=
  ⟨#[80, 75, 3, 4, 20, 0, 0, 0, 0, 0, 0, 0, 33, 0, 0, 0, 0, 0, 0, 0, 0, 0, 0, 0, 0, 0, 4, 0, 0, 0,
    117, 112, 47, 110, 80, 75, 1, 2, 20, 0, 20, 0, 0, 0, 0, 0, 0, 0, 33, 0, 0, 0, 0, 0, 0, 0, 0,
    0, 0, 0, 0, 0, 4, 0, 0, 0, 0, 0, 0, 0, 0, 0, 0, 0, 128, 1, 0, 0, 0, 0, 117, 112, 47, 110, 80,
    75, 5, 6, 0, 0, 0, 0, 1, 0, 1, 0, 50, 0, 0, 0, 34, 0, 0, 0, 0, 0]⟩

def linked (target : Path) : Disk :=
  ⟨[(["p"], ⟨.folder, 0⟩), (["p", "in"], ⟨.folder, 0⟩), (["p", "up"], ⟨.link target, 0⟩),
    (["q"], ⟨.folder, 0⟩), (["a.zip"], ⟨.file 0 archiveOfOne false, 0⟩)], [], 1, 1⟩

theorem isTree_linked (target : Path) : IsTree (linked target) :=
  of_decide_eq_true rfl

theorem folderAt_linked (target : Path) : (linked target).FolderAt (.ofText "p") ["p"] := ⟨0, rfl⟩

theorem link_linked {target p : Path} {q : Place}
    (h : (linked target).found? q = some (.link p)) : p = target := by
  obtain ⟨t, hr⟩ := record_of_link h
  simp only [linked, List.mem_cons, List.not_mem_nil, or_false, Prod.mk.injEq, Record.mk.injEq,
    reduceCtorEq, false_and, and_false, false_or] at hr
  obtain ⟨_, hp, _⟩ := hr
  cases hp
  rfl

def plainEntry : Entry where
  name := "up/n"
  rawName := "up/n".toUTF8
  system := 0
  locked := false
  method := .stored
  checksum := 0
  packedSize := 0
  size := 0
  attributes := 0
  headerStart := 0
  isSealed := false

theorem extract_confined_in :
    IsTree (linked (.ofText "in")) ∧ (Path.ofText "p").isEmpty = false ∧
    Spared (.ofText "p") ["q"] (linked (.ofText "in"))
      ((extract (.ofText "a.zip") (.ofText "p") 10).run (linked (.ofText "in"))).2 ∧
    ∃ i x, ((extractEntry (.ofText "a.zip") (.ofText "p") 10 archiveOfOne {} plainEntry).run
      (linked (.ofText "in"))).2.get? ["p", "in", "n"] =
        some ⟨.file i ((Content.ofStored archiveOfOne plainEntry 34).take 11).bytes x, 1⟩ := by
  have ht := isTree_linked (.ofText "in")
  have hT := folderAt_linked (.ofText "in")
  have hd : ((makeFolders (.ofText "p")).run (linked (.ofText "in"))).2 = linked (.ofText "in") := by
    rw [makeFolders_of_isFolder (isFolder_iff.mpr ⟨_, hT⟩)]
  have h := extract_confined ht (.ofText "a.zip") (by decide) 10 hd
  refine ⟨ht, by decide, h.1 ?_ ["q"] ?_, ?_⟩
  · intro T hT'
    rw [← hT.unique hT']
    refine sealed_of_descends ht hT fun {q p} _ he => ?_
    rw [link_linked he]
    exact ⟨by decide, by decide⟩
  · intro T hT'
    rw [← hT.unique hT']
    decide
  · exact h.2 archiveOfOne {} plainEntry _ (.ofText "p/up/n") ⟨["p", "in", "n"], none, false⟩ rfl rfl rfl
      (by decide) rfl nofun

theorem extract_follows_link :
    IsTree (linked (.ofText "../q")) ∧ (linked (.ofText "../q")).FolderAt (.ofText "p") ["p"] ∧
    ((linked (.ofText "../q")).get? ["q", "n"]).isSome = false ∧
    (((extract (.ofText "a.zip") (.ofText "p") 10).run (linked (.ofText "../q"))).2.get?
      ["q", "n"]).isSome = true :=
  ⟨isTree_linked _, folderAt_linked _, by decide +kernel, by decide +kernel⟩

end SourceAtlas.Archive
