import SourceAtlas.Proofs.Archive.Descent
import SourceAtlas.Proofs.Disk.Places
import SourceAtlas.Proofs.Run.Phases
import SourceAtlas.Proofs.Store.Log
import SourceAtlas.Proofs.Store.Saves

namespace SourceAtlas

open Disk Work

namespace Archive

theorem removeDependencies_inside {d : Disk} {target : Path} {T : Place} (ht : IsTree d)
    (hT : d.FolderAt target T) : Inside T d ((removeDependencies target).run d).2 := by
  have hn : IsEntryName dependencyFolder := by decide
  have hkeep : Inside T d d := .grownIn hT.folder (.refl ..) ht
  have hremove : Inside T d ((removeTree (target.child dependencyFolder)).run d).2 := by
    rw [removeTree, removeUnless_run, linkStat, Path.Inside.child_root hn.proper, locate_child ht hT hn]
    rcases d.get? (T ++ [dependencyFolder]) with _ | r
    · exact hkeep
    · dsimp only [bind, Except.bind]
      split
      · exact hkeep
      · exact .drop ht hT.folder (List.prefix_append ..) (by simp)
  unfold removeDependencies
  dsimp only
  rw [run_bind, run_get]
  dsimp only
  split
  · rw [run_bind]
    split <;> next h => rwa [h] at hremove
  · exact hkeep

end Archive

namespace Run

structure ProjectArea where
  settings : Settings
  id : String
  first : Disk
  -- where the projects are
  folder : Place
  -- nobody makes a link in the folder of the project
  plain : Prop

namespace ProjectArea

variable (g : ProjectArea)

def project : Place := g.folder ++ [g.id]

def analysis : Place := g.folder ++ [Settings.analysisName g.id]

structure IsSound : Prop where
  valid : Project.checkId g.id = .ok ()
  tree : IsTree g.first
  reached : ∀ {d}, Emptied g.project g.first d → d.FolderAt g.settings.projectsDir g.folder
  links : ∀ {q t}, g.folder <+: q → g.first.found? q ≠ some (.link t)

structure Footing (ph : Phase) (d : Disk) : Prop where
  tree : IsTree d
  reached : ∀ {d'}, Emptied g.project d d' → d'.FolderAt g.settings.projectsDir g.folder
  ready : ph = .ready → d.found? g.project = some .folder
  links : ∀ {q t}, d.found? q = some (.link t) →
    q ≠ g.project ∧ q ≠ g.analysis ∧ (g.plain → ¬ g.project <+: q)

structure Frame (log : Option Place) (ph : Phase) (d : Disk) : Prop extends g.Footing ph d where
  base : d.base = g.first.base
  firm : ∀ {q e}, g.first.found? q = some e → (∀ i b x, e ≠ .file i b x) →
    ¬ (g.project <+: q ∧ q ≠ g.project) → d.found? q = some e
  outside : ∀ {q}, ¬ g.project <+: q → q ≠ g.analysis → log ≠ some q →
    d.found? q = g.first.found? q
  analysis : ph ≠ .saved → log ≠ some g.analysis → d.found? g.analysis = g.first.found? g.analysis
  untouched : ph = .untouched → ∀ {q}, g.project <+: q → log ≠ some q →
    d.found? q = g.first.found? q

variable {g}

theorem not_in_project : ¬ g.project <+: g.analysis := by
  intro h
  have he := h.eq_of_length (by simp [project, analysis])
  have hlen := congrArg String.length (List.singleton_inj.mp (List.append_cancel_left he))
  rw [Settings.analysisName, String.length_append] at hlen
  have : Settings.analysisSuffix.length = 14 := by decide
  omega

namespace Footing

variable {ph ph' : Phase} {d d' : Disk}

theorem found (hg : g.IsSound) : g.Footing .untouched g.first where
  tree := hg.tree
  reached := hg.reached
  ready := nofun
  links := by
    intro q t h
    have hnot : ∀ ns, q ≠ g.folder ++ ns := by
      rintro ns rfl
      exact hg.links (List.prefix_append ..) h
    refine ⟨hnot _, hnot _, fun _ => ?_⟩
    rintro ⟨ns, hq⟩
    rw [project, List.append_assoc] at hq
    exact hnot _ hq.symm

theorem folderAt (h : g.Footing ph d) : d.FolderAt g.settings.projectsDir g.folder := by
  have hempty := emptied_dropAll h.tree g.project
  refine (h.reached hempty).carry hempty.base.symm fun {q e} hq _ => ?_
  rwa [hempty.other] at hq
  intro hin
  rw [hempty.bare q hin.1 hin.2] at hq
  cases hq

theorem inPhase (h : g.Footing ph d) (hph : ph' ≠ .ready) : g.Footing ph' d :=
  ⟨h.tree, h.reached, fun he => absurd he hph, h.links⟩

theorem kept (h : g.Footing ph d) (hw : Within g.project d d') {q : Place} {e : Entry}
    (he : d.found? q = some e) (hfile : ∀ i b x, e ≠ .file i b x)
    (hout : ¬ (g.project <+: q ∧ q ≠ g.project)) : d'.found? q = some e := by
  by_cases hq : g.project <+: q
  · obtain rfl : q = g.project := by
      by_contra hne
      exact hout ⟨hq, hne⟩
    cases e with
    | folder => exact hw.folder
    | file i b x => exact absurd rfl (hfile i b x)
    | link t => exact absurd rfl (h.links he).1
  · rwa [hw.outside hq]

theorem within (h : g.Footing ph d) (hw : Within g.project d d')
    (hl : g.plain → ∀ {q t}, d'.found? q = some (.link t) → d.found? q = some (.link t)) :
    g.Footing .ready d' where
  tree := hw.tree
  reached := Emptied.folderAt_carry h.tree h.reached hw.base (h.kept hw)
  ready := fun _ => hw.folder
  links := by
    intro q t hq
    by_cases hin : g.project <+: q
    · refine ⟨?_, ?_, fun hp => absurd hin ((h.links (hl hp hq)).2.2 hp)⟩
      · rintro rfl
        rw [hw.folder] at hq
        cases hq
      · rintro rfl
        exact not_in_project hin
    · rw [hw.outside hin] at hq
      exact h.links hq

theorem filed {q : Place} (h : g.Footing ph d) (hf : Filed q d d') : g.Footing ph d' where
  tree := hf.tree
  reached := Emptied.folderAt_carry h.tree h.reached hf.base fun he hfile _ => hf.kept he hfile
  ready := fun hph => hf.kept (h.ready hph) nofun
  links := fun hq => h.links (hf.link hq)

theorem widened (h : g.Footing ph d) (hw : Archive.Widened d d') : g.Footing ph d' where
  tree := hw.tree
  reached := by
    refine Emptied.folderAt_carry h.tree h.reached hw.grown.base fun {q e} he hfile _ => ?_
    cases e with
    | folder => exact hw.grown.folder he
    | file i b x => exact absurd rfl (hfile i b x)
    | link t => exact hw.grown.link he
  ready := fun hph => hw.grown.folder (h.ready hph)
  links := fun hq => h.links (hw.grown.links hq)

theorem project_no_link (h : g.Footing ph d) (t : Path) :
    d.found? (g.folder ++ [g.id]) ≠ some (.link t) := fun hl => (h.links hl).1 rfl

theorem projectAt (h : g.Footing ph d) (hid : Project.checkId g.id = .ok ())
    (hr : d.found? g.project = some .folder) :
    d.FolderAt (g.settings.projectDir g.id) g.project := by
  rw [Settings.projectDir_eq _ hid]
  exact folderAt_child h.tree h.folderAt (Settings.id_isEntryName hid) hr

end Footing

namespace Frame

variable {log : Option Place} {ph : Phase} {d d' : Disk}

theorem found (hg : g.IsSound) : g.Frame none .untouched g.first where
  toFooting := .found hg
  base := rfl
  firm := fun h _ _ => h
  outside := fun _ _ _ => rfl
  analysis := fun _ _ => rfl
  untouched := fun _ _ _ _ => rfl

theorem touch (h : g.Frame log ph d) (hph : ph ≠ .saved) : g.Frame log .touched d where
  toFooting := h.inPhase nofun
  base := h.base
  firm := h.firm
  outside := h.outside
  analysis := fun _ => h.analysis hph
  untouched := nofun

theorem within (h : g.Frame log ph d) (hph : ph ≠ .saved) (hw : Within g.project d d')
    (hl : g.plain → ∀ {q t}, d'.found? q = some (.link t) → d.found? q = some (.link t)) :
    g.Frame log .ready d' where
  toFooting := h.toFooting.within hw hl
  base := hw.base.trans h.base
  firm := fun he hfile hout => h.toFooting.kept hw (h.firm he hfile hout) hfile hout
  outside := by
    intro q hq hne hlog
    rw [hw.outside hq]
    exact h.outside hq hne hlog
  analysis := by
    intro _ hlog
    rw [hw.outside not_in_project]
    exact h.analysis hph hlog
  untouched := nofun

theorem logged {q : Place} (h : g.Frame none ph d) (hf : Filed q d d') :
    g.Frame (some q) ph d' where
  toFooting := h.filed hf
  base := hf.base.trans h.base
  firm := fun he hfile hout => hf.kept (h.firm he hfile hout) hfile
  outside := by
    intro q' hq hne hlog
    rw [hf.other fun he => hlog (by rw [he])]
    exact h.outside hq hne nofun
  analysis := by
    intro hph hlog
    rw [hf.other fun he => hlog (by rw [he])]
    exact h.analysis hph nofun
  untouched := by
    intro hph q' hq hlog
    rw [hf.other fun he => hlog (by rw [he])]
    exact h.untouched hph hq nofun

theorem relog (h : g.Frame none ph d) : g.Frame log ph d where
  toFooting := h.toFooting
  base := h.base
  firm := h.firm
  outside := fun hq hne _ => h.outside hq hne nofun
  analysis := fun hph _ => h.analysis hph nofun
  untouched := fun hph _ hq _ => h.untouched hph hq nofun

theorem saved (h : g.Frame log ph d) (hf : Filed g.analysis d d') : g.Frame log .saved d' where
  toFooting := (h.filed hf).inPhase nofun
  base := hf.base.trans h.base
  firm := fun he hfile hout => hf.kept (h.firm he hfile hout) hfile
  outside := by
    intro q hq hne hlog
    rw [hf.other hne]
    exact h.outside hq hne hlog
  analysis := fun h => absurd rfl h
  untouched := nofun

end Frame

end ProjectArea

structure Regime.Suits (I : Regime) (g : ProjectArea) : Prop where
  valid : Project.checkId g.id = .ok ()
  footing : ∀ {log ph d}, I log ph d → g.Footing ph d
  touch : ∀ {log ph d}, I log ph d → ph ≠ .saved → I log .touched d
  within : ∀ {log ph d d'}, I log ph d → ph ≠ .saved → Within g.project d d' →
    (g.plain → ∀ {q t}, d'.found? q = some (.link t) → d.found? q = some (.link t)) → I log .ready d'
  saved : ∀ {log ph d d'}, I log ph d → Filed g.analysis d d' → I log .saved d'

theorem Regime.Suits.inside {I : Regime} {g : ProjectArea} (hI : I.Suits g) {log : Option Place}
    {ph : Phase} {d d' : Disk} (h : I log ph d) (hph : ph ≠ .saved) (hi : Inside g.project d d') :
    I log .ready d' := hI.within h hph hi.toWithin fun _ => hi.links

theorem ProjectArea.IsSound.suits {g : ProjectArea} (hg : g.IsSound) : Regime.Suits g.Frame g where
  valid := hg.valid
  footing h := h.toFooting
  touch h hph := h.touch hph
  within h hph hw hl := h.within hph hw hl
  saved h hf := h.saved hf

end Run

end SourceAtlas
