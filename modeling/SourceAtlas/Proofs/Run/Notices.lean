import SourceAtlas.Proofs.Run.Attempts

namespace SourceAtlas.Run

open Work

variable {σ α : Type}

namespace Stage

def rank : Stage → Nat
  | .initializing => 0
  | .materializing => 1
  | .buildingTree => 2
  | .extractingGraph => 3
  | .extractingComponents => 4
  | .assembling => 5
  | .persisted => 6
  | .failed _ => 7

def plain : List Stage :=
  [.initializing, .materializing, .buildingTree, .extractingGraph, .extractingComponents,
    .assembling, .persisted]

def ofText? (t : String) : Option Stage :=
  match plain.find? (·.text = t) with
  | some s => some s
  | none => (t.toList.dropPrefix? "failed: ".toList).map fun r => .failed (String.ofList r)

theorem ofText?_text (s : Stage) : ofText? s.text = some s := by
  cases s with
  | failed reason =>
      have hnone : plain.find? (·.text = (failed reason).text) = none := by
        rw [List.find?_eq_none]
        intro s hs he
        have hhead : ∀ s ∈ plain, s.text.toList.head? ≠ some 'f' := by decide
        apply hhead s hs
        rw [of_decide_eq_true he, text, String.toList_append]
        rfl
      rw [ofText?, hnone]
      dsimp only
      rw [text, String.toList_append, List.dropPrefix?_append_of_beq _ (by decide), Option.map_some,
        String.ofList_toList]
  | _ => decide

end Stage

def stageMark : List Char := ['S', 't', 'a', 'g', 'e', ':', ' ']

def stageOf? (text : String) : Option Stage :=
  (text.toList.dropPrefix? stageMark).bind fun r => Stage.ofText? (String.ofList r)

def entered (id : String) (ns : List Notice) : List Stage :=
  ns.filterMap fun n => if n.subject = id then stageOf? n.text else none

@[simp] theorem entered_append (id : String) (ns ns' : List Notice) :
    entered id (ns ++ ns') = entered id ns ++ entered id ns' := List.filterMap_append

theorem entered_stage (id : String) (s : Stage) :
    entered id [⟨id, "Stage: " ++ s.text⟩] = [s] := by
  have h : stageOf? ("Stage: " ++ s.text) = some s := by
    rw [stageOf?, String.toList_append, List.dropPrefix?_append_of_beq _ (by decide),
      Option.bind_some, String.ofList_toList, Stage.ofText?_text]
  simp [entered, h]

def IsQuiet (text : String) : Prop :=
  stageMark.length ≤ text.toList.length ∧ text.toList.take stageMark.length ≠ stageMark

instance (text : String) : Decidable (IsQuiet text) := inferInstanceAs (Decidable (_ ∧ _))

theorem isQuiet_ofList {cs : List Char}
    (h : stageMark.length ≤ cs.length ∧ cs.take stageMark.length ≠ stageMark) :
    IsQuiet (String.ofList cs) := by rwa [IsQuiet, String.toList_ofList]

theorem IsQuiet.append {s : String} (h : IsQuiet s) (t : String) : IsQuiet (s ++ t) := by
  obtain ⟨hlen, hne⟩ := h
  rw [IsQuiet, String.toList_append, List.take_append_of_le_length hlen]
  exact ⟨by rw [List.length_append]; omega, hne⟩

theorem IsQuiet.entered {text : String} (h : IsQuiet text) (id id' : String) :
    entered id [⟨id', text⟩] = [] := by
  have hnone : stageOf? text = none := by
    rw [stageOf?]
    cases hd : text.toList.dropPrefix? stageMark with
    | none => rfl
    | some r =>
        obtain ⟨p, hp, hbeq⟩ := List.dropPrefix?_eq_some_iff.mp hd
        obtain rfl := eq_of_beq hbeq
        have htake := h.2
        rw [hp, List.take_left] at htake
        exact absurd rfl htake
  simp [Run.entered, hnone]

theorem quiet_message (c : Repository.CloneFailure) : IsQuiet c.message := by
  cases c with
  | unknown text => exact IsQuiet.append (by decide) text
  | _ => exact isQuiet_ofList (by decide)

def Hush (id : String) (j : Job σ α) : Prop :=
  ∀ w, entered id (j.run w).2.notices = entered id w.notices

theorem hush_notice {id text : String} (h : IsQuiet text) :
    Hush id (Job.notice id text : Job σ Unit) := by
  intro w
  show entered id (w.notices ++ [⟨id, text⟩]) = _
  rw [entered_append, h.entered, List.append_nil]

theorem hush_notices {id : String} {texts : List String} (h : ∀ t ∈ texts, IsQuiet t) :
    Hush id (texts.forM (Job.notice id) : Job σ PUnit) := by
  induction texts with
  | nil => exact fun _ => rfl
  | cons t ts ih =>
      intro w
      show entered id ((Job.notice id t >>= fun _ => ts.forM (Job.notice id)).run w).2.notices = _
      rw [run_bind, Job.notice_run]
      have hrest := ih fun t ht => h t (.tail _ ht)
      have hhead : Hush id (Job.notice id t : Job σ Unit) := hush_notice (h t (.head _))
      exact (hrest _).trans (hhead w)

theorem quiet_warnings (g : Graph.Extraction) (c : ComponentScan) (limits : Limits) :
    ∀ t ∈ Analyzer.warnings g c limits, IsQuiet t := by
  have hskip : IsQuiet "Skipped " := by decide
  have hlimit : IsQuiet "Source file limit of " := by decide
  have hgraph : IsQuiet "Graph extraction degraded to " := by decide
  intro t ht
  rw [Analyzer.warnings, List.mem_append, List.mem_append] at ht
  rcases ht with (ht | ht) | ht
  · rw [Option.mem_toList, Option.map_eq_some_iff] at ht
    obtain ⟨reason, _, rfl⟩ := ht
    exact ((hgraph.append _).append _).append _
  · split at ht
    · rw [List.mem_singleton.mp ht]
      exact (hlimit.append _).append _
    · cases ht
  · split at ht
    · rw [List.mem_singleton.mp ht]
      exact (hskip.append _).append _
    · cases ht

theorem Analyzer.entered_report (a : Analyzer σ) (operation id : String) (f : Failure)
    (w : Workspace σ) : entered id ((a.report operation id f).run w).2.notices =
      entered id w.notices ++ [.failed f.message] := by
  unfold report
  simp only [run_bind, Job.enter, Job.notice_run, run_get]
  rcases (Store.recordFailure a.settings operation id f).run w.disk with ⟨e | _, d⟩
  · have hquiet : IsQuiet ("Could not write error log: " ++ e.chain) := IsQuiet.append (by decide) _
    show entered id ((w.notices ++ [_]) ++ [⟨id, "Could not write error log: " ++ e.chain⟩]) = _
    rw [entered_append, hquiet.entered, List.append_nil, entered_append, entered_stage]
  · show entered id (w.notices ++ [_]) = _
    rw [entered_append, entered_stage]

end SourceAtlas.Run
