import SourceAtlas.Task

namespace SourceAtlas.Work

section

variable {ε σ α β : Type}

theorem run_pure (a : α) (s : σ) : (pure a : ExceptT ε (StateM σ) α).run s = (.ok a, s) := rfl

theorem run_throw (e : ε) (s : σ) : (throw e : ExceptT ε (StateM σ) α).run s = (.error e, s) := rfl

theorem run_get (s : σ) : (get : ExceptT ε (StateM σ) σ).run s = (.ok s, s) := rfl

theorem run_set (s s' : σ) : (set s' : ExceptT ε (StateM σ) PUnit).run s = (.ok ⟨⟩, s') := rfl

theorem run_modify (f : σ → σ) (s : σ) :
    (modify f : ExceptT ε (StateM σ) PUnit).run s = (.ok ⟨⟩, f s) := rfl

theorem run_map (f : α → β) (x : ExceptT ε (StateM σ) α) (s : σ) :
    (f <$> x).run s = match x.run s with
      | (.ok a, s') => (.ok (f a), s')
      | (.error e, s') => (.error e, s') := by
  rw [ExceptT.run_map]
  show (match x.run s with | (a, s') => (Except.map f a, s')) = _
  rcases x.run s with ⟨_ | _, s'⟩ <;> rfl

theorem run_discard (x : ExceptT ε (StateM σ) α) (s : σ) :
    (discard x).run s = match x.run s with
      | (.ok _, s') => (.ok ⟨⟩, s')
      | (.error e, s') => (.error e, s') := run_map (Function.const α PUnit.unit) x s

theorem run_discard_snd (x : ExceptT ε (StateM σ) α) (s : σ) :
    ((discard x).run s).2 = (x.run s).2 := by
  rw [run_discard]
  rcases x.run s with ⟨_ | _, s'⟩ <;> rfl

theorem run_discard_ok {x : ExceptT ε (StateM σ) α} {s s' : σ} {u : PUnit}
    (h : (discard x).run s = (.ok u, s')) : ∃ a, x.run s = (.ok a, s') := by
  rw [run_discard] at h
  rcases hx : x.run s with ⟨_ | a, s''⟩ <;> rw [hx] at h <;> cases h
  exact ⟨a, rfl⟩

theorem run_bind (x : ExceptT ε (StateM σ) α) (f : α → ExceptT ε (StateM σ) β) (s : σ) :
    (x >>= f).run s = match x.run s with
      | (.ok a, s') => (f a).run s'
      | (.error e, s') => (.error e, s') := by
  rcases h : x.run s with ⟨_ | _, s'⟩
  all_goals
    show (match x.run s with | (a, s') => ExceptT.bindCont f a s') = _
    rw [h]
    rfl

theorem run_bind_ok {x : ExceptT ε (StateM σ) α} {f : α → ExceptT ε (StateM σ) β} {s s'' : σ} {b : β}
    (h : (x >>= f).run s = (.ok b, s'')) :
    ∃ a s', x.run s = (.ok a, s') ∧ (f a).run s' = (.ok b, s'') := by
  rw [run_bind] at h
  rcases hx : x.run s with ⟨_ | a, s'⟩
  · rw [hx] at h
    cases h
  · rw [hx] at h
    exact ⟨a, s', rfl, h⟩

end

section

variable {ε α : Type} (d : Disk)

theorem run_edit (blame : Disk.Fault → ε) (e : Disk.Edit α) :
    (edit blame e).run d = match e.run d with
      | (.ok a, d') => (.ok a, d')
      | (.error f, d') => (.error (blame f), d') := by
  rcases h : e.run d with ⟨_ | _, d'⟩ <;>
    simp only [edit, run_bind, run_get, run_set, run_pure, run_throw, h]

theorem run_edit_ok {blame : Disk.Fault → ε} {e : Disk.Edit α} {d d' : Disk} {a : α}
    (h : (edit blame e).run d = (.ok a, d')) : e.run d = (.ok a, d') := by
  rw [run_edit] at h
  split at h
  · next hr =>
      cases h
      exact hr
  · cases h

theorem run_toTask_ok {w : Work Diagnostic α} {d d' : Disk} {a : α}
    (h : (toTask w).run d = (.ok a, d')) : w.run d = (.ok a, d') := by
  rw [toTask, run_bind, run_get] at h
  dsimp only at h
  rcases hw : w.run d with ⟨_ | _, d''⟩
  all_goals
    rw [hw] at h
    cases h
  rfl

theorem run_query (blame : Disk.Fault → ε) (f : Disk → Except Disk.Fault α) :
    (query blame f).run d = match f d with
      | .ok a => (.ok a, d)
      | .error e => (.error (blame e), d) := by
  rcases h : f d with _ | _ <;> simp only [query, run_bind, run_get, run_pure, run_throw, h]

theorem run_ofExcept (r : Except ε α) : (ofExcept r : Work ε α).run d = (r, d) := by
  cases r <;> rfl

end

def Keeps {ε σ α : Type} (P : σ → Prop) (w : ExceptT ε (StateM σ) α) : Prop :=
  ∀ s, P s → P (w.run s).2

namespace Keeps

section

variable {ε σ α β : Type} {P : σ → Prop}

theorem pure (a : α) : Keeps P (Pure.pure a : ExceptT ε (StateM σ) α) := fun _ h => h

theorem throw (e : ε) : Keeps P (MonadExcept.throw e : ExceptT ε (StateM σ) α) := fun _ h => h

theorem get : Keeps P (MonadState.get : ExceptT ε (StateM σ) σ) := fun _ h => h

theorem bind {x : ExceptT ε (StateM σ) α} {f : α → ExceptT ε (StateM σ) β} (hx : Keeps P x)
    (hf : ∀ a, Keeps P (f a)) : Keeps P (x >>= f) := by
  intro s hs
  rw [run_bind]
  have h := hx s hs
  rcases hr : x.run s with ⟨_ | a, s'⟩
  · rw [hr] at h
    exact h
  · rw [hr] at h
    exact hf a s' h

theorem discard {x : ExceptT ε (StateM σ) α} (hx : Keeps P x) : Keeps P (discard x) := by
  intro s hs
  rw [run_discard_snd]
  exact hx s hs

theorem foldlM {γ : Type} {f : β → γ → ExceptT ε (StateM σ) β} (hf : ∀ b c, Keeps P (f b c))
    (cs : List γ) (b : β) : Keeps P (cs.foldlM f b) := by
  induction cs generalizing b with
  | nil => exact .pure b
  | cons c cs ih =>
      rw [List.foldlM_cons]
      exact .bind (hf b c) ih

end

section

variable {ε α : Type} {P : Disk → Prop}

theorem edit {blame : Disk.Fault → ε} {e : Disk.Edit α} (h : Keeps P e) :
    Keeps P (edit blame e) := by
  intro d hd
  have := h d hd
  rw [run_edit]
  rcases hr : e.run d with ⟨_ | _, d'⟩
  all_goals
    rw [hr] at this
    exact this

theorem query (blame : Disk.Fault → ε) (f : Disk → Except Disk.Fault α) :
    Keeps P (query blame f) := by
  intro d hd
  rw [run_query]
  rcases f d with _ | _ <;> exact hd

theorem ofExcept (r : Except ε α) : Keeps P (ofExcept r : Work ε α) := by
  intro d hd
  rw [run_ofExcept]
  exact hd

end

end Keeps

/-- What is known of the answer and the state in which work ends, and of the failure if it fails. -/
def Comes {ε σ α : Type} (I : α → σ → Prop) (E : ε → σ → Prop) : Except ε α × σ → Prop
  | (.ok a, s) => I a s
  | (.error e, s) => E e s

theorem foldlM_comes {ε σ β γ : Type} {f : β → γ → ExceptT ε (StateM σ) β}
    {I : List γ → β → σ → Prop} {E : List γ → γ → ε → σ → Prop}
    (hstep : ∀ done c b s, I done b s → Comes (I (done ++ [c])) (E done c) ((f b c).run s))
    (cs : List γ) {b : β} {s : σ} (h : I [] b s) : Comes (I cs)
      (fun e s' => ∃ done c rest, cs = done ++ c :: rest ∧ E done c e s') ((cs.foldlM f b).run s) := by
  suffices hgen : ∀ (cs done : List γ) (b : β) (s : σ), I done b s → Comes (I (done ++ cs))
      (fun e s' => ∃ before c rest, done ++ cs = before ++ c :: rest ∧ E before c e s')
      ((cs.foldlM f b).run s) from hgen cs [] b s h
  intro cs
  induction cs with
  | nil =>
      intro done b s h
      rw [List.foldlM_nil, run_pure, List.append_nil]
      exact h
  | cons c cs ih =>
      intro done b s h
      have hc := hstep done c b s h
      rw [List.foldlM_cons, run_bind]
      rcases hr : (f b c).run s with ⟨e | b', s'⟩
      · rw [hr] at hc
        exact ⟨done, c, cs, rfl, hc⟩
      · rw [hr] at hc
        have hrest := ih (done ++ [c]) b' s' hc
        rw [List.append_assoc, List.singleton_append] at hrest
        exact hrest

/-- From a state with `P` the work leads to one with `P`, or it fails with what `Q` allows. -/
def Ends {ε σ α : Type} (P : σ → Prop) (Q : ε → Prop) (w : ExceptT ε (StateM σ) α) : Prop :=
  ∀ s, P s → match w.run s with
    | (.ok _, s') => P s'
    | (.error e, _) => Q e

namespace Ends

section

variable {ε σ α β : Type} {P : σ → Prop} {Q : ε → Prop}

theorem pure (a : α) : Ends P Q (Pure.pure a : ExceptT ε (StateM σ) α) := fun _ h => h

theorem throw {e : ε} (h : Q e) : Ends P Q (MonadExcept.throw e : ExceptT ε (StateM σ) α) := fun _ _ => h

theorem bind {x : ExceptT ε (StateM σ) α} {f : α → ExceptT ε (StateM σ) β} (hx : Ends P Q x)
    (hf : ∀ a, Ends P Q (f a)) : Ends P Q (x >>= f) := by
  intro s hs
  have h := hx s hs
  rw [run_bind]
  rcases hr : x.run s with ⟨e | a, s'⟩
  · rw [hr] at h
    exact h
  · rw [hr] at h
    exact hf a s' h

theorem foldlM {γ : Type} {f : β → γ → ExceptT ε (StateM σ) β} {cs : List γ}
    (hf : ∀ c ∈ cs, ∀ b, Ends P Q (f b c)) (b : β) : Ends P Q (cs.foldlM f b) := by
  induction cs generalizing b with
  | nil => exact .pure b
  | cons c cs ih =>
      rw [List.foldlM_cons]
      exact .bind (hf c (by simp) b) fun b => ih (fun c hc => hf c (.tail _ hc)) b

end

section

variable {ε α β : Type} {P : Disk → Prop} {Q : ε → Prop}

theorem ofExcept_bind {r : Except ε α} {f : α → Work ε β} (he : ∀ e, r = .error e → Q e)
    (ha : ∀ a, r = .ok a → Ends P Q (f a)) : Ends P Q (Work.ofExcept r >>= f) := by
  intro d hd
  rw [run_bind, run_ofExcept]
  cases r with
  | error e => exact he e rfl
  | ok a => exact ha a rfl d hd

theorem edit {blame : Disk.Fault → ε} {e : Disk.Edit α}
    (h : ∀ d, P d → ∃ a d', e.run d = (.ok a, d') ∧ P d') : Ends P Q (Work.edit blame e) := by
  intro d hd
  obtain ⟨a, d', hr, h'⟩ := h d hd
  rw [run_edit, hr]
  exact h'

end

end Ends

end SourceAtlas.Work
