import SourceAtlas.Proofs.Run.Held
import SourceAtlas.Proofs.Store.Log
import SourceAtlas.Proofs.Text.Quoted

namespace SourceAtlas

open Text Work Repository

variable {p : Char → Bool}

namespace Failure

def told (f : Failure) : List String := [f.message, f.payload.error] ++ f.payload.details.toList

theorem exists_told {P : String → Prop} {f : Failure} : (∃ s ∈ f.told, P s) ↔
    P f.message ∨ P f.payload.error ∨ ∃ s ∈ f.payload.details, P s := by
  simp [told]

theorem told_invalidInput (reason : String) :
    (∃ s ∈ (invalidInput reason).told, Exposes s.toList) ↔ Exposes reason.toList := by
  rw [exists_told]
  show Exposes reason.toList ∨ Exposes reason.toList ∨ (∃ s ∈ none, _) ↔ _
  simp

theorem told_internal (d : Diagnostic) :
    (∃ s ∈ (internal d).told, Exposes s.toList) ↔ Exposes d.text.toList := by
  have hfixed : ¬ Exposes "Analysis failed".toList :=
    not_shows_of_not_mem (not_mem_ofList (by decide))
  rw [exists_told]
  show Exposes d.text.toList ∨ Exposes "Analysis failed".toList ∨
    (∃ s ∈ some d.text, Exposes s.toList) ↔ _
  simp only [hfixed, Option.mem_some_iff, exists_eq_left', false_or, or_self]

theorem exposes_quotedIn (kind : String) {s : String} (hk : IsLead (kind ++ "(").toList) :
    Exposes (kind ++ "(" ++ quoted s ++ ")").toList ↔ Loosely s.toList :=
  (shows_told (by decide) hk (by decide)).trans exposes_quoted

theorem shows_label_details {failure : CloneFailure} {details : String} (hp : p ' ' = false) :
    Shows p (cloneFailed failure details).logDetail.toList ↔
      Shows p (cloneLabel failure).toList ∨ Shows p (quoted details).toList := by
  have hlead : IsLead ("CloneFailed" ++ " \x7b failure: ").toList := by decide
  have hdetails : IsLead "details: ".toList := by decide
  have hsplit : ", details: ".toList = [','] ++ ' ' :: "details: ".toList := by decide
  let lead := "CloneFailed" ++ " \x7b failure: "
  have htext : (lead ++ cloneLabel failure ++ ", details: " ++ quoted details).toList =
      lead.toList ++ (cloneLabel failure).toList ++ [','] ++
        ' ' :: ("details: ".toList ++ (quoted details).toList) := by
    rw [String.toList_append, String.toList_append, String.toList_append, hsplit]
    simp only [List.append_assoc, List.cons_append, List.nil_append]
  show Shows p (lead ++ cloneLabel failure ++ ", details: " ++ quoted details ++ " \x7d").toList ↔ _
  rw [String.toList_append, shows_append_of_not_mem (by decide), htext, shows_append_blank hp,
    hlead.shows_framed hp (by decide), hdetails.shows hp]

theorem unbroken_tag (f : Failure) : Unbroken f.tag.toList := by
  cases f <;> exact unbroken_ofList (by decide)

theorem unbroken_logDetail (f : Failure) : Unbroken f.logDetail.toList := by
  have hquoted : ∀ (f : Failure) s, Unbroken (f.tag ++ "(" ++ quoted s ++ ")").toList := by
    intro f s
    simp only [String.toList_append]
    exact .append (.append (.append f.unbroken_tag (unbroken_ofList (by decide))) (unbroken_quoted s))
      (unbroken_ofList (by decide))
  cases f with
  | timedOut seconds =>
      have hdigits : Unbroken (toString seconds).toList := by
        intro c hc hb
        rw [Timestamp.not_blank_of_digit (toDigits_isDigit seconds c (Nat.toList_repr ▸ hc))] at hb
        cases hb
      simp only [logDetail, String.toList_append]
      exact .append (.append (.append (unbroken_tag _) (by decide)) hdigits) (by decide)
  | cloneFailed failure details =>
      have hlabel : Unbroken (cloneLabel failure).toList := by
        cases failure with
        | unknown text =>
            simp only [cloneLabel, String.toList_append]
            exact .append (.append (by decide) (unbroken_quoted text)) (by decide)
        | _ => decide
      simp only [logDetail, String.toList_append]
      exact .append (.append (.append (.append (.append (unbroken_tag _) (by decide)) hlabel)
        (by decide)) (unbroken_quoted details)) (by decide)
  | _ => exact hquoted _ _

end Failure

namespace Store

theorem escapeBreaks_eq_self {s : List Char} (h : Unbroken s) : escapeBreaks s = s := by
  induction s with
  | nil => rfl
  | cons c s ih =>
      have hr : c ≠ '\r' := by
        rintro rfl
        exact absurd (h _ List.mem_cons_self (by decide)) (by decide)
      have hn : c ≠ '\n' := by
        rintro rfl
        exact absurd (h _ List.mem_cons_self (by decide)) (by decide)
      have hrest : escapeBreaks s = s := ih fun x hx => h x (.tail _ hx)
      rw [escapeBreaks, List.flatMap_cons, if_neg hr, if_neg hn, ← escapeBreaks, hrest]
      rfl

theorem shows_logEntry {operation id : String} (hp : p ' ' = false)
    (hid : Project.checkId id = .ok ()) (hop : '@' ∉ operation.toList) (t : Timestamp) (f : Failure) :
    Shows p (logEntry t operation id f.logDetail).toList ↔ Shows p f.logDetail.toList := by
  have hlead : IsLead (logHead t operation id).toList := by
    refine ⟨not_mem_logHead hid hop (by decide) (by decide), ?_⟩
    rw [logHead, String.toList_append, List.reverse_append]
    exact List.not_mem_nil
  rw [toList_logEntry, escapeBreaks_eq_self f.unbroken_logDetail]
  exact hlead.shows_framed hp (by decide)

end Store

theorem Project.shows_rejected {id : String} {r : Rejection} (hp : p ' ' = false)
    (h : Project.checkId id = .error r) : Shows p r.message.toList ↔ Shows p id.toList := by
  unfold Project.checkId at h
  split at h
  · next hempty =>
      obtain rfl := Except.error.inj h
      rw [String.isEmpty_iff.mp hempty]
      exact iff_of_false (not_shows_of_not_mem (not_mem_ofList (by decide))) (not_shows_of_not_mem nofun)
  split at h
  · obtain rfl := Except.error.inj h
    show Shows p (_ ++ id ++ "'").toList ↔ _
    exact shows_told hp (by decide +kernel) (by decide)
  split at h
  · cases h
  · obtain rfl := Except.error.inj h
    show Shows p (_ ++ id ++ "'").toList ↔ _
    exact shows_told hp (isLead_ofList (by decide)) (by decide)

theorem Repository.shows_rejected {url : String} {r : Rejection} (hp : p ' ' = false)
    (h : checkUrl url = .error r) : Shows p r.message.toList ↔ Shows p url.toList := by
  rw [← shows_trim (s := url.toList)]
  unfold checkUrl at h
  dsimp only at h
  split at h
  · next hempty =>
      obtain rfl := Except.error.inj h
      rw [List.isEmpty_iff.mp hempty]
      exact iff_of_false (not_shows_of_not_mem (not_mem_ofList (by decide))) (not_shows_of_not_mem nofun)
  split at h
  · cases h
  · obtain rfl := Except.error.inj h
    show Shows p (_ ++ String.ofList (trim url.toList) ++ "'").toList ↔ _
    rw [shows_told hp (isLead_ofList (by decide)) (by decide), String.toList_ofList]

theorem Diagnostic.chain_because (outer : String) (fault : Disk.Fault) :
    (because outer fault).chain = outer ++ (": " ++ fault.message) := by
  rw [← String.append_assoc]
  rfl

namespace Run

variable {σ : Type}

/-- Why a clone is given up once it has begun, and which of the texts it is given it tells then. -/
inductive Stops (order : CloneOrder) : Failure → String → Prop
  | address {r} : checkUrl order.url = .error r → Stops order (.invalidInput r.message) order.url
  | target (fault) : Stops order
      (.internal (.because ("Failed to prepare clone target " ++ order.target.text) fault))
      order.target.text
  | transport (e : Diagnostic) {details} : details = redactSecret order.token e.chain →
      Stops order (.cloneFailed (CloneFailure.classify details) details) details

section

variable {order : CloneOrder}

theorem resetTarget_stops : Ends (fun _ => True) (fun f => ∃ t, Stops order f t)
    (Job.resetTarget order.target : Job σ Unit) := by
  intro w _
  rw [Job.resetTarget, Job.ofTask_run, toTask, run_bind, run_get]
  dsimp only
  rw [run_edit]
  rcases (Disk.emptyFolder order.target).run w.disk with ⟨fault | _, d⟩
  · exact ⟨_, .target fault⟩
  · trivial

theorem giveUp_stops {α : Type} (e : Diagnostic) {details : String}
    (h : details = redactSecret order.token e.chain) :
    Ends (fun _ => True) (fun f => ∃ t, Stops order f t)
      (Job.giveUp order (.classify details) details : Job σ α) := by
  intro w _
  rw [Job.giveUp, run_bind, Job.notice_run]
  dsimp only
  rw [run_bind, run_get]
  dsimp only
  rcases (Job.resetTarget order.target : Job σ Unit).run _ with ⟨_ | _, w'⟩
  · exact ⟨_, .transport e h⟩
  · exact ⟨_, .transport e h⟩

theorem attempts_stops (transport : Transport σ) (policy : RetryPolicy) (timeout left k : Nat) :
    Ends (fun _ => True) (fun f => ∃ t, Stops order f t)
      (Job.attempts transport policy order timeout left k) := by
  induction left, k using Job.attempts.induct with
  | case1 left k ih =>
      rw [Job.attempts]
      refine .bind resetTarget_stops fun _ => .bind (fun _ _ => trivial) fun x => ?_
      cases x with
      | ok _ => exact .bind (fun _ _ => trivial) fun _ => .pure _
      | error e =>
          refine .bind (fun _ _ => trivial) fun _ => ?_
          cases left with
          | zero => exact giveUp_stops e rfl
          | succ left =>
              dsimp only
              split
              · exact .bind (fun _ _ => trivial) fun _ => .bind (fun _ _ => trivial) fun _ => ih
              · exact giveUp_stops e rfl

theorem clone_stops (transport : Transport σ) (policy : RetryPolicy) (timeout : Nat) :
    Ends (fun _ => True) (fun f => ∃ t, Stops order f t) (Job.clone transport policy timeout order) := by
  unfold Job.clone
  split
  · next r h => exact .throw ⟨_, .address h⟩
  · exact .bind (fun _ _ => trivial) fun _ => attempts_stops transport policy timeout _ _

end

theorem not_exposes_redacted (secret : Option String) (s : String) :
    ¬ Exposes (redactSecret secret s).toList := by
  rw [redactSecret, String.toList_ofList]
  exact not_exposes_maskUserInfo _

theorem classify_cases (details : String) :
    (∀ text, CloneFailure.classify details ≠ .unknown text) ∨
      CloneFailure.classify details = .unknown (String.ofList (trim details.toList)) := by
  unfold CloneFailure.classify
  dsimp only
  split
  · next row hrow =>
      have hknown : ∀ row ∈ CloneFailure.signs, ∀ text, row.1 ≠ .unknown text := by
        simp [CloneFailure.signs]
      exact .inl (hknown row (List.mem_of_find?_eq_some hrow))
  · exact .inr rfl

theorem not_mem_known {failure : CloneFailure} (h : ∀ text, failure ≠ .unknown text) :
    '@' ∉ failure.message.toList ∧ '@' ∉ (Failure.cloneLabel failure).toList := by
  cases failure with
  | unknown text => exact absurd rfl (h text)
  | _ => exact ⟨not_mem_ofList (by decide), not_mem_ofList (by decide)⟩

theorem shows_message {details : String} (hp : p ' ' = false)
    (h : Shows p (CloneFailure.classify details).message.toList) : Shows p details.toList := by
  rcases classify_cases details with hknown | he
  · exact absurd h (not_shows_of_not_mem (not_mem_known hknown).1)
  · have hlead : IsLead "Failed to clone repository: ".toList := isLead_ofList (by decide)
    rw [he] at h
    change Shows p ("Failed to clone repository: " ++ String.ofList (trim details.toList)).toList at h
    rw [String.toList_append, hlead.shows hp, String.toList_ofList, shows_trim] at h
    exact h

theorem exposes_label {details : String}
    (h : Exposes (Failure.cloneLabel (CloneFailure.classify details)).toList) :
    Loosely details.toList := by
  rcases classify_cases details with hknown | he
  · exact absurd h (not_shows_of_not_mem (not_mem_known hknown).2)
  · rw [he] at h
    change Exposes ("Unknown(" ++ quoted (String.ofList (trim details.toList)) ++ ")").toList at h
    have hquoted := exposes_quoted.mp ((shows_told (by decide) (by decide) (by decide)).mp h)
    rwa [String.toList_ofList, Loosely, shows_trim] at hquoted

namespace Stops

variable {order : CloneOrder} {f : Failure} {t : String}

theorem told (h : Stops order f t) : (∃ s ∈ f.told, Exposes s.toList) ↔ Exposes t.toList := by
  have hp : isUserInfoChar ' ' = false := by decide
  cases h with
  | @address r hr =>
      exact (Failure.told_invalidInput _).trans (Repository.shows_rejected hp hr)
  | target fault =>
      have hlead : IsLead "Failed to prepare clone target ".toList := isLead_ofList (by decide)
      refine (Failure.told_internal _).trans ?_
      show Exposes ("Failed to prepare clone target " ++ order.target.text).toList ↔ _
      rw [String.toList_append]
      exact hlead.shows hp
  | transport e he =>
      rw [Failure.exists_told]
      have hnot : ¬ Exposes t.toList := he ▸ not_exposes_redacted _ _
      have hmessage := fun h => hnot (shows_message hp h)
      have hkind : ∀ failure : CloneFailure, IsLead (failure.kind ++ ": ").toList := by
        intro failure
        cases failure with
        | unknown _ => exact (by decide : IsLead ("UNKNOWN" ++ ": ").toList)
        | _ => decide
      refine iff_of_false ?_ hnot
      rintro (h | h | ⟨s, hs, h⟩)
      · exact hmessage h
      · exact hmessage h
      · obtain rfl := Option.mem_some_iff.mp hs
        rw [String.toList_append] at h
        exact hnot (((hkind _).shows hp).mp h)

theorem logged (h : Stops order f t) : Exposes f.logDetail.toList ↔ Loosely t.toList := by
  cases h with
  | @address r hr =>
      exact (Failure.exposes_quotedIn "InvalidInput" (by decide)).trans
        (Repository.shows_rejected (by decide) hr)
  | target fault =>
      have hfault : '@' ∉ (": " ++ fault.message).toList := by
        rw [String.toList_append, List.mem_append, not_or]
        exact ⟨by decide, by cases fault <;> exact not_mem_ofList (by decide)⟩
      refine (Failure.exposes_quotedIn "Internal" (by decide)).trans ?_
      rw [Diagnostic.chain_because]
      exact shows_told (by decide) (isLead_ofList (by decide)) hfault
  | transport e he =>
      refine (Failure.shows_label_details (by decide)).trans ?_
      rw [← Exposes, ← Exposes, exposes_quoted]
      exact or_iff_right_of_imp exposes_label

theorem masked (h : Stops order f t) {kind : CloneFailure} {details : String}
    (hf : f = .cloneFailed kind details) : ¬ Exposes t.toList := by
  cases h with
  | transport e he => exact he ▸ not_exposes_redacted _ _
  | _ => cases hf

end Stops

section

variable {a : Analyzer σ} {id url : String} {token : Option String} {f : Failure}
  {w w' : Workspace σ}

theorem refused_told (h : (a.start id).run w = (.error f, w')) :
    (∃ s ∈ f.told, Exposes s.toList) ↔ Exposes id.toList := by
  have hp : isUserInfoChar ' ' = false := by decide
  rw [a.start_run] at h
  split at h
  · next r hr =>
      cases h
      exact (Failure.told_invalidInput _).trans (Project.shows_rejected hp hr)
  · split at h
    · cases h
      have hlead : IsLead "Failed to lock project ".toList := isLead_ofList (by decide)
      refine (Failure.told_internal _).trans ?_
      show Exposes ("Failed to lock project " ++ id).toList ↔ _
      rw [String.toList_append]
      exact hlead.shows hp
    · cases h
      have hmessage : Exposes (Failure.alreadyRunning id).message.toList ↔ Exposes id.toList :=
        shows_told hp (isLead_ofList (by decide)) (not_mem_ofList (by decide))
      rw [Failure.exists_told]
      show _ ∨ Exposes (Failure.alreadyRunning id).message.toList ∨ (∃ s ∈ none, _) ↔ _
      simp [hmessage]
    · cases h

theorem cloneJob_stops (a : Analyzer σ) (id url : String) (token : Option String) :
    Ends (fun _ => True) (fun f => ∃ t, Stops ⟨id, url, token, a.settings.projectDir id⟩ f t)
      (a.cloneJob id url token) := by
  unfold Analyzer.cloneJob
  exact .bind (fun _ _ => trivial) fun _ => .bind (clone_stops _ _ _) fun _ => .pure _

/-- A clone that is refused tells its caller the id as it is, and nothing is written down. One that
fails later tells the text that is at fault: the address, the path of the target, or what the transport
says, in which logins have been masked. Its caller is shown a login just if there is one in that text,
and so is who reads the log, where it may also be one with blanks in it that are no spaces. -/
theorem clone_shows (h : (a.clone id url token).run w = (.error f, w')) :
    ((a.start id).run w = (.error f, w') ∧
      ((∃ s ∈ f.told, Exposes s.toList) ↔ Exposes id.toList)) ∨
    ∃ t d, Stops ⟨id, url, token, a.settings.projectDir id⟩ f t ∧
      w'.disk = ((Store.recordFailure a.settings "Clone" id f).run d).2 ∧
      ((∃ s ∈ f.told, Exposes s.toList) ↔ Exposes t.toList) ∧
      (∀ {kind details}, f = .cloneFailed kind details → ¬ Exposes t.toList) ∧
      ∀ time, Exposes (Store.logEntry time "Clone" id f.logDetail).toList ↔ Loosely t.toList := by
  rcases hstart : (a.start id).run w with ⟨f' | lease, w₀⟩
  · rw [Analyzer.clone, Analyzer.leased, run_bind, hstart] at h
    cases h
    exact .inl ⟨rfl, refused_told hstart⟩
  · right
    rw [Analyzer.clone, Analyzer.leased_run hstart] at h
    have hends := cloneJob_stops a id url token w₀ trivial
    rcases hjob : (a.cloneJob id url token).run w₀ with ⟨f' | _, w₁⟩
    · rw [hjob] at h hends
      obtain ⟨t, ht⟩ := hends
      obtain ⟨ns, hreport⟩ := a.report_self "Clone" id f' w₁
      obtain ⟨hid, rfl, _⟩ := start_lease hstart
      cases h
      refine ⟨t, w₁.disk, ht, ?_, ht.told, ht.masked, fun time => ?_⟩
      · rw [Analyzer.finished_disk, hreport]
      · have hop : '@' ∉ "Clone".toList := by decide
        exact (Store.shows_logEntry (by decide) hid hop time _).trans ht.logged
    · rw [hjob] at h
      cases h

end

def grumbler : Analyzer Unit :=
  { clerk with transport := fun _ d m =>
      (.error (.ofText "Repository not found: https://u:p@h/x"), d, m) }

def grumbled : Except Failure Path × Workspace Unit :=
  (grumbler.clone "m" "https://h/x" none).run (.ofDisk .blank [] ())

theorem clone_shows_masked : ∃ details,
    grumbled.1 = .error (.cloneFailed .notFound details) ∧
    ∀ s ∈ (Failure.cloneFailed .notFound details).told, ¬ Exposes s.toList := by
  have hfails : grumbled.1 = .error (.cloneFailed .notFound "Repository not found: https://***@h/x") := by
    decide +kernel
  have hrun : (grumbler.clone "m" "https://h/x" none).run (.ofDisk .blank [] ()) =
      (.error (.cloneFailed .notFound "Repository not found: https://***@h/x"), grumbled.2) := by
    rw [← hfails]
    unfold grumbled
    exact Prod.mk.eta.symm
  refine ⟨_, hfails, fun s hs hshows => ?_⟩
  rcases clone_shows hrun with ⟨hstart, _⟩ | ⟨t, d, _, _, htold, hmasked, _⟩
  · have hbegins : ((grumbler.start "m").run (.ofDisk .blank [] ())).1.toOption.isSome = true := by
      decide +kernel
    rw [hstart] at hbegins
    cases hbegins
  · exact hmasked rfl (htold.mp ⟨s, hs, hshows⟩)

def shownToClerk : Except Failure Path × Workspace Unit :=
  (clerk.clone "m" "https://u:p@h/a b" none).run (.ofDisk .blank [] ())

def shownAddress : String := "Unsupported git URL: 'https://u:p@h/a b'"

def shownLine : String :=
  "[1970-01-01T00:00:00+00:00] Clone error for m: " ++
    "InvalidInput(\"Unsupported git URL: 'https://u:p@h/a b'\")\n"

theorem refused_address_shown : shownToClerk.1 = .error (.invalidInput shownAddress) ∧
    Exposes shownAddress.toList ∧
    shownToClerk.2.disk.bytesAt ["DEBUG_ERROR.txt"] = shownLine.toUTF8 ∧
    Exposes shownLine.toList := by
  have hlogin : IsLogin isUserInfoChar "https://u:p@".toList :=
    ⟨"https://".toList, by decide, "u:p".toList, by decide, by decide,
      List.all_eq_true.mp (by decide), by decide⟩
  refine ⟨by decide +kernel, ⟨_, hlogin, by decide +kernel⟩, by decide +kernel,
    ⟨_, hlogin, by decide +kernel⟩⟩

end Run

end SourceAtlas
