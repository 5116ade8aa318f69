import SourceAtlas.Proofs.Repository.Remote
import SourceAtlas.Proofs.Run.Attempts

namespace SourceAtlas.Run

open Work Repository Text

variable {σ : Type}

namespace Job

def Asks (url : String) (w : Workspace (σ × List Call)) : Prop := ∀ c ∈ w.memory.2, c.request.url = url

variable {α : Type} {order : CloneOrder} {url : String}

theorem asks_notice (id text : String) :
    Keeps (Asks url) (notice id text : Job (σ × List Call) Unit) := fun _ h => h

theorem asks_wait (s : Span) : Keeps (Asks url) (wait s : Job (σ × List Call) Unit) := fun _ h => h

theorem asks_ofTask (task : Task α) : Keeps (Asks url) (ofTask task : Job (σ × List Call) α) := by
  intro w h
  rw [ofTask_run]
  rcases task.run w.disk with ⟨_ | _, _⟩ <;> exact h

theorem asks_request (t : Transport σ) (order : CloneOrder) (timeout : Nat) :
    Keeps (Asks (authenticated order.token order.url)) (request t.recorded order timeout) := by
  intro w h c hc
  rcases List.mem_append.mp hc with hc | hc
  · exact h c hc
  · rw [List.mem_singleton.mp hc]

theorem asks_giveUp (f : CloneFailure) (details : String) :
    Keeps (Asks url) (giveUp order f details : Job (σ × List Call) α) := by
  unfold giveUp
  refine .bind (asks_notice _ _) fun _ w h => ?_
  have hreset : Asks url ((resetTarget order.target).run w).2 := asks_ofTask _ w h
  rw [run_bind, run_get]
  dsimp only
  rcases hr : (resetTarget order.target : Job (σ × List Call) Unit).run w with ⟨_ | _, w'⟩
  all_goals
    rw [hr] at hreset
    exact hreset

theorem asks_attempts (t : Transport σ) (policy : RetryPolicy) (order : CloneOrder)
    (timeout left k : Nat) : Keeps (Asks (authenticated order.token order.url))
      (attempts t.recorded policy order timeout left k) := by
  induction left, k using attempts.induct with
  | case1 left k ih =>
      rw [attempts]
      refine .bind (asks_ofTask _) fun _ => .bind (asks_request t order timeout) fun x => ?_
      cases x with
      | ok _ => exact .bind (asks_notice _ _) fun _ => .pure _
      | error e =>
          refine .bind (asks_notice _ _) fun _ => ?_
          cases left with
          | zero => exact asks_giveUp _ _
          | succ left =>
              dsimp only
              split
              · exact .bind (asks_notice _ _) fun _ => .bind (asks_wait _) fun _ => ih
              · exact asks_giveUp _ _

def requests (t : Transport σ) (policy : RetryPolicy) (timeout : Nat) (order : CloneOrder)
    (w : Workspace σ) : List Call :=
  ((clone t.recorded policy timeout order).run (w.remember (w.memory, []))).2.memory.2

theorem mem_requests {t : Transport σ} {policy : RetryPolicy} {timeout : Nat} {w : Workspace σ}
    {c : Call} (hc : c ∈ requests t policy timeout order w) :
    checkUrl order.url = .ok () ∧ c.request.url = authenticated order.token order.url := by
  unfold requests clone at hc
  split at hc
  · cases hc
  · next hurl =>
      refine ⟨hurl, ?_⟩
      have hkeeps := Keeps.bind (asks_notice order.id ("Cloning " ++ redactUrl order.url ++ " (shallow)"))
        fun _ => asks_attempts t policy order timeout (policy.maxAttempts - 1) 1
      exact hkeeps (w.remember (w.memory, [])) nofun c hc

/-- A request carries the address that was given, with the blanks that the check does not see. So the
address that is asked for is acceptable itself just if there are none around it, and the token goes
to a known host just if there are none in front of it, or behind the host. -/
theorem requests_address (t : Transport σ) (policy : RetryPolicy) (timeout : Nat)
    (order : CloneOrder) (w : Workspace σ) (c : Call) (hc : c ∈ requests t policy timeout order w) :
    let url := order.url.toList
    IsRemote (trim url) ∧ (IsRemote (withoutToken order.token c.request.url) ↔ trim url = url) ∧
    ∀ token, order.token = some token → token ≠ "" → ∀ a, Address.ofUrl? (trim url) = some a →
      a.userInfo = none → IsKnownHost a.host → (Embeds token.toList c.request.url.toList ↔
        trimLeft url = url ∧ (a.path ≠ [] ∨ trimRight url = url)) := by
  obtain ⟨hcheck, hurl⟩ := mem_requests hc
  have hremote := checkUrl_ok_iff.mp hcheck
  rw [hurl]
  refine ⟨hremote, isRemote_withoutToken hremote, ?_⟩
  intro token htoken hne a ha hu hk
  rw [htoken, authenticated, String.toList_ofList]
  exact embeds_iff (mt String.toList_eq_nil_iff.mp hne) ha hu hk

def idle : Transport Unit := fun _ d m => (.ok (), d, m)

def idleRequests (url token : String) : List Call :=
  requests idle (.ofAttempts 1 ⟨0⟩) 60 ⟨"m", url, some token, ⟨["m"]⟩⟩ (.ofDisk .blank [] ())

theorem requests_address_clean :
    ∃ c ∈ idleRequests "https://github.com/a/b" "t",
      IsRemote (withoutToken (some "t") c.request.url) ∧ Embeds ['t'] c.request.url.toList := by
  have hlength : (idleRequests "https://github.com/a/b" "t").length = 1 := by decide +kernel
  obtain ⟨c, hc⟩ := List.exists_mem_of_length_pos (hlength ▸ Nat.one_pos)
  obtain ⟨_, hremote, htoken⟩ := requests_address idle _ 60 _ _ c hc
  refine ⟨c, hc, hremote.mpr (by decide), ?_⟩
  have ha : Address.ofUrl? (trim "https://github.com/a/b".toList) =
    some ⟨none, "github.com".toList, "/a/b".toList⟩ := by decide
  exact (htoken "t" rfl (by decide) _ ha rfl (.inl (by decide))).mpr
    ⟨by decide, .inl (by decide)⟩

theorem requests_blank_passed :
    checkUrl " https://github.com/a/b" = .ok () ∧
    Address.ofUrl? (trim " https://github.com/a/b".toList) =
      some ⟨none, "github.com".toList, "/a/b".toList⟩ ∧
    (idleRequests " https://github.com/a/b" "t").map (·.request.url) = [" https://github.com/a/b"] ∧
    ¬ IsRemote (withoutToken (some "t") " https://github.com/a/b") ∧
    ¬ Embeds ['t'] " https://github.com/a/b".toList := by
  refine ⟨by decide, by decide, by decide +kernel, fun h => ?_, by unfold Embeds; decide⟩
  exact absurd (h.2 ' ' (by decide)) (by decide)

end Job

end SourceAtlas.Run
