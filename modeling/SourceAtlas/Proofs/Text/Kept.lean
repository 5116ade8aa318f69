import SourceAtlas.Proofs.Text.Redact

namespace SourceAtlas.Text

inductive Token where
  | kept (c : Char)
  | masked (hidden : List Char)
  deriving DecidableEq

namespace Token

def shown : Token → List Char
  | kept c => [c]
  | masked _ => mask

def origin : Token → List Char
  | kept c => [c]
  | masked hidden => hidden

def isInfo (t : Token) : Bool := t.shown.all isUserInfoChar

end Token

def shown (ts : List Token) : List Char := ts.flatMap Token.shown

def origin (ts : List Token) : List Char := ts.flatMap Token.origin

def keep (s : List Char) : List Token := s.map .kept

def IsMaskedIn (ts : List Token) (i j : Nat) : Prop :=
  ∃ us hidden vs, ts = us ++ .masked hidden :: vs ∧ (shown us).length < j ∧
    i < (shown us).length + mask.length

variable {ts us : List Token} {needle s r w : List Char} {c : Char}

@[simp] theorem shown_nil : shown [] = [] := rfl

@[simp] theorem shown_cons (t : Token) (ts : List Token) : shown (t :: ts) = t.shown ++ shown ts :=
  List.flatMap_cons ..

@[simp] theorem shown_append (ts us : List Token) : shown (ts ++ us) = shown ts ++ shown us :=
  List.flatMap_append

@[simp] theorem shown_keep (s : List Char) : shown (keep s) = s := by
  simp [shown, keep, List.flatMap_map, Token.shown]

@[simp] theorem origin_nil : origin [] = [] := rfl

@[simp] theorem origin_cons (t : Token) (ts : List Token) :
    origin (t :: ts) = t.origin ++ origin ts := List.flatMap_cons ..

@[simp] theorem origin_append (ts us : List Token) : origin (ts ++ us) = origin ts ++ origin us :=
  List.flatMap_append

@[simp] theorem origin_keep (s : List Char) : origin (keep s) = s := by
  simp [origin, keep, List.flatMap_map, Token.origin]

theorem IsMaskedIn.cons {i j : Nat} (t : Token) (h : IsMaskedIn ts i j) :
    IsMaskedIn (t :: ts) (t.shown.length + i) (t.shown.length + j) := by
  obtain ⟨us, hidden, vs, rfl, hj, hi⟩ := h
  refine ⟨t :: us, hidden, vs, rfl, ?_, ?_⟩ <;> rw [shown_cons, List.length_append] <;> omega

theorem masked_or_kept_of_prefix (h : w <+: shown ts) :
    IsMaskedIn ts 0 w.length ∨ keep w <+: ts := by
  induction w generalizing ts with
  | nil => exact .inr (List.nil_prefix ..)
  | cons c w ih =>
      cases ts with
      | nil => exact absurd (List.prefix_nil.mp h) (by simp)
      | cons t ts =>
          cases t with
          | masked hidden => exact .inl ⟨[], hidden, ts, rfl, by simp, by decide⟩
          | kept c' =>
              obtain ⟨rfl, h'⟩ := List.cons_prefix_cons.mp h
              rcases ih h' with hm | hk
              · obtain ⟨us, hidden, vs, rfl, hj, _⟩ := hm
                refine .inl ⟨.kept c :: us, hidden, vs, rfl, ?_, by simp [mask]⟩
                simpa [Token.shown] using hj
              · exact .inr (List.cons_prefix_cons.mpr ⟨rfl, hk⟩)

theorem masked_or_kept {a b : List Char} (hw : w ≠ []) (h : shown ts = a ++ w ++ b) :
    IsMaskedIn ts a.length (a.length + w.length) ∨ keep w <:+: ts := by
  induction ts generalizing a with
  | nil => simp [hw] at h
  | cons t ts ih =>
      rw [shown_cons, List.append_assoc] at h
      -- what is found begins behind the first token, or within it
      rcases List.append_eq_append_iff.mp h with ⟨a', rfl, h'⟩ | ⟨x, hx, hxs⟩
      · rw [← List.append_assoc] at h'
        rcases ih h' with hm | hk
        · refine .inl ?_
          rw [List.length_append, Nat.add_assoc]
          exact hm.cons t
        · exact .inr (hk.trans (List.suffix_cons ..).isInfix)
      · by_cases hnil : x = []
        · subst hnil
          rw [List.append_nil] at hx
          rw [List.nil_append] at hxs
          rcases ih (a := []) hxs.symm with hm | hk
          · refine .inl ?_
            have := hm.cons t
            rwa [hx, List.length_nil, Nat.add_zero, Nat.zero_add] at this
          · exact .inr (hk.trans (List.suffix_cons ..).isInfix)
        · have hlt : a.length < t.shown.length := by
            rw [hx, List.length_append]
            have := List.length_pos_iff.mpr hnil
            omega
          cases t with
          | masked hidden =>
              have hpos := List.length_pos_iff.mpr hw
              refine .inl ⟨[], hidden, ts, rfl, ?_, ?_⟩
              · rw [shown_nil, List.length_nil]
                omega
              · rw [shown_nil, List.length_nil, Nat.zero_add]
                exact hlt
          | kept c =>
              have ha : a = [] := List.eq_nil_of_length_eq_zero (Nat.lt_one_iff.mp hlt)
              subst ha
              have hpre : w <+: shown (.kept c :: ts) := ⟨b, by rw [shown_cons]; exact h.symm⟩
              rcases masked_or_kept_of_prefix hpre with hm | hk
              · exact .inl (by simpa using hm)
              · exact .inr hk.isInfix

theorem star_mem_of_masked {a b : List Char} (hw : w ≠ []) (h : shown ts = a ++ w ++ b)
    (hm : IsMaskedIn ts a.length (a.length + w.length)) : '*' ∈ w := by
  obtain ⟨us, hidden, vs, rfl, hj, hi⟩ := hm
  have hmask : ∀ k (hk : k < mask.length), mask[k] = '*' := by decide
  have hpos : 0 < mask.length := by decide
  have hwpos := List.length_pos_iff.mpr hw
  simp only [shown_append, shown_cons, Token.shown] at h
  obtain ⟨k, hk, hkw, hke⟩ : ∃ k, k < mask.length ∧ a.length ≤ (shown us).length + k ∧
      (shown us).length + k < a.length + w.length :=
    ⟨a.length - (shown us).length, by omega, by omega, by omega⟩
  have hget := congrArg (·[(shown us).length + k]?) h
  simp only [List.append_assoc] at hget
  rw [List.getElem?_append_right (by omega), List.getElem?_append_left (by omega),
    List.getElem?_append_right (by omega), List.getElem?_append_left (by omega),
    Nat.add_sub_cancel_left, List.getElem?_eq_getElem hk, hmask k hk] at hget
  exact List.mem_of_getElem? hget.symm

def hideSecret (needle : List Char) (s : List Char) : List Token :=
  match s with
  | [] => []
  | c :: r =>
      if 0 < needle.length && needle.isPrefixOf (c :: r) then
        .masked needle :: hideSecret needle (r.drop (needle.length - 1))
      else .kept c :: hideSecret needle r
termination_by s.length
decreasing_by all_goals simp only [List.length_drop, List.length_cons]; omega

theorem shown_hideSecret (needle s : List Char) :
    shown (hideSecret needle s) = replaceAll needle mask s := by
  induction s using hideSecret.induct needle with
  | case1 => rw [hideSecret, replaceAll, shown_nil]
  | case2 c r h ih => rw [hideSecret, replaceAll, if_pos h, if_pos h, shown_cons, ih]; rfl
  | case3 c r h ih => rw [hideSecret, replaceAll, if_neg h, if_neg h, shown_cons, ih]; rfl

theorem origin_hideSecret (needle s : List Char) : origin (hideSecret needle s) = s := by
  induction s using hideSecret.induct needle with
  | case1 => rw [hideSecret, origin_nil]
  | case2 c r h ih =>
      rw [hideSecret, if_pos h, origin_cons, ih]
      rw [Bool.and_eq_true, decide_eq_true_eq, List.isPrefixOf_iff_prefix] at h
      obtain ⟨hpos, t, ht⟩ := h
      obtain ⟨x, needle, rfl⟩ := List.exists_cons_of_ne_nil (List.length_pos_iff.mp hpos)
      obtain ⟨rfl, rfl⟩ := List.cons.inj ht
      simp [Token.origin]
  | case3 c r h ih => rw [hideSecret, if_neg h, origin_cons, ih]; rfl

theorem prefix_of_keep_prefix (h : keep w <+: hideSecret needle s) : w <+: s := by
  induction w generalizing s with
  | nil => exact List.nil_prefix ..
  | cons x w ih =>
      cases s with
      | nil =>
          rw [hideSecret] at h
          exact absurd (List.prefix_nil.mp h) (by simp [keep])
      | cons c r =>
          rw [hideSecret] at h
          split at h
          · cases (List.cons_prefix_cons.mp h).1
          · obtain ⟨hc, h'⟩ := List.cons_prefix_cons.mp h
            cases hc
            exact List.cons_prefix_cons.mpr ⟨rfl, ih h'⟩

theorem not_keep_secret (hne : needle ≠ []) : ¬ keep needle <:+: hideSecret needle s := by
  have hpos := List.length_pos_iff.mpr hne
  have hkeep : keep needle ≠ [] := by simpa [keep] using hne
  induction s using hideSecret.induct needle with
  | case1 =>
      rw [hideSecret, List.infix_nil]
      exact hkeep
  | case2 c r h ih =>
      rw [hideSecret, if_pos h, List.infix_cons_iff]
      rintro (hpre | hin)
      · obtain ⟨x, needle, rfl⟩ := List.exists_cons_of_ne_nil hne
        cases (List.cons_prefix_cons.mp hpre).1
      · exact ih hin
  | case3 c r h ih =>
      rw [hideSecret, if_neg h, List.infix_cons_iff]
      rintro (hpre | hin)
      · -- kept at the beginning, it would stand there in the text and give way
        refine h ?_
        have hs : keep needle <+: hideSecret needle (c :: r) := by rwa [hideSecret, if_neg h]
        simpa [hpos] using prefix_of_keep_prefix hs
      · exact ih hin

theorem splitUserInfo?_of_ne (h : c ≠ 'h') : splitUserInfo? (c :: s) = none := by
  cases hs : splitUserInfo? (c :: s) with
  | none => rfl
  | some x =>
      obtain ⟨scheme, after⟩ := x
      obtain ⟨hscheme, info, he, _⟩ := splitUserInfo?_eq_some hs
      obtain ⟨tail, htail, _⟩ := scheme_cons hscheme
      rw [htail] at he
      exact absurd (List.cons.inj he).1 h

theorem maskUserInfo_shown_append (t : Token) (s : List Char)
    (h : ∀ c, t = .kept c → splitUserInfo? (c :: s) = none) :
    maskUserInfo (t.shown ++ s) = t.shown ++ maskUserInfo s := by
  cases t with
  | kept c => exact maskUserInfo_cons_none (h c rfl)
  | masked hidden =>
      have hstar : ∀ s, maskUserInfo ('*' :: s) = '*' :: maskUserInfo s := fun s =>
        maskUserInfo_cons_none (splitUserInfo?_of_ne (by decide))
      show maskUserInfo ('*' :: '*' :: '*' :: s) = _
      rw [hstar, hstar, hstar]
      rfl

def hideUserInfo (ts : List Token) : List Token :=
  match ts with
  | [] => []
  | t :: r =>
      match _h : splitUserInfo? (shown (t :: r)) with
      | some (scheme, _) =>
          let rest := (t :: r).drop scheme.length
          keep scheme ++ .masked (origin (rest.takeWhile Token.isInfo)) ::
            hideUserInfo (rest.dropWhile Token.isInfo)
      | none => t :: hideUserInfo r
termination_by ts.length
decreasing_by
  · obtain ⟨tail, htail, _⟩ := scheme_cons (splitUserInfo?_eq_some _h).1
    have hlen := (List.dropWhile_suffix Token.isInfo (l := (t :: r).drop scheme.length)).length_le
    rw [List.length_drop, htail] at hlen
    simp only [List.length_cons] at hlen ⊢
    rw [htail]
    simp only [List.length_cons]
    omega
  · simp

theorem keep_of_shown {x : List Char} (hw : '*' ∉ w) (h : shown ts = w ++ x) :
    ∃ us, ts = keep w ++ us ∧ shown us = x := by
  induction w generalizing ts with
  | nil => exact ⟨ts, rfl, h⟩
  | cons c w ih =>
      rw [List.mem_cons, not_or] at hw
      cases ts with
      | nil => cases h
      | cons t ts =>
          cases t with
          | masked hidden => exact absurd (List.cons.inj h).1.symm (Ne.symm hw.1)
          | kept c' =>
              obtain ⟨rfl, h'⟩ := List.cons.inj h
              obtain ⟨us, rfl, hus⟩ := ih hw.2 h'
              exact ⟨us, rfl, hus⟩

theorem split_info {info after : List Char} (hinfo : ∀ c ∈ info, isUserInfoChar c = true)
    (h : shown ts = info ++ '@' :: after) :
    ∃ vs, ts.takeWhile Token.isInfo ++ .kept '@' :: vs = ts ∧
      ts.dropWhile Token.isInfo = .kept '@' :: vs ∧ shown vs = after := by
  induction ts generalizing info with
  | nil => simp at h
  | cons t ts ih =>
      -- a mask consists of such characters, so that it is part of the info as a whole
      obtain ⟨ht, he⟩ | ⟨info', hinfo', ht, he⟩ : t = .kept '@' ∧ shown ts = after ∨
          ∃ info', (∀ c ∈ info', isUserInfoChar c = true) ∧ t.isInfo = true ∧
            shown ts = info' ++ '@' :: after := by
        cases t with
        | kept c =>
            cases info with
            | nil =>
                obtain ⟨rfl, h'⟩ := List.cons.inj h
                exact .inl ⟨rfl, h'⟩
            | cons x info =>
                obtain ⟨rfl, h'⟩ := List.cons.inj h
                refine .inr ⟨info, fun x hx => hinfo x (.tail _ hx), ?_, h'⟩
                simpa [Token.isInfo, Token.shown] using hinfo c List.mem_cons_self
        | masked hidden =>
            have hstar : '*' ≠ '@' := by decide
            obtain _ | ⟨x, _ | ⟨y, _ | ⟨z, info⟩⟩⟩ := info <;>
              simp only [shown_cons, Token.shown, mask, List.cons_append, List.nil_append,
                List.cons.injEq, hstar, false_and, and_false] at h
            exact .inr ⟨info, fun x hx => hinfo x (by simp [hx]), rfl, h.2.2.2⟩
      · subst ht
        refine ⟨ts, ?_, ?_, he⟩
        · rw [List.takeWhile_cons_of_neg (by decide), List.nil_append]
        · rw [List.dropWhile_cons_of_neg (by decide)]
      · obtain ⟨vs, htake, hdrop, hvs⟩ := ih hinfo' he
        refine ⟨vs, ?_, ?_, hvs⟩
        · rw [List.takeWhile_cons_of_pos ht, List.cons_append, htake]
        · rw [List.dropWhile_cons_of_pos ht, hdrop]

theorem split_login {scheme after : List Char}
    (h : splitUserInfo? (shown ts) = some (scheme, after)) :
    ∃ us vs, ts = keep scheme ++ us ∧ ts.drop scheme.length = us ∧
      us.takeWhile Token.isInfo ++ .kept '@' :: vs = us ∧
      us.dropWhile Token.isInfo = .kept '@' :: vs ∧ shown vs = after := by
  obtain ⟨hscheme, info, he, _, hinfo⟩ := splitUserInfo?_eq_some h
  have hstar : ∀ scheme ∈ webSchemes, '*' ∉ scheme := by decide
  rw [List.append_assoc] at he
  obtain ⟨us, rfl, hus⟩ := keep_of_shown (hstar scheme hscheme) he
  obtain ⟨vs, htake, hdrop, hvs⟩ := split_info hinfo hus
  refine ⟨us, vs, rfl, ?_, htake, hdrop, hvs⟩
  rw [show scheme.length = (keep scheme).length by simp [keep], List.drop_left]

section

variable {t : Token} {scheme after : List Char}

theorem hideUserInfo_cons_none (h : splitUserInfo? (shown (t :: ts)) = none) :
    hideUserInfo (t :: ts) = t :: hideUserInfo ts := by
  rw [hideUserInfo]
  split
  · next h' =>
      rw [h] at h'
      cases h'
  · rfl

theorem hideUserInfo_cons_some (h : splitUserInfo? (shown (t :: ts)) = some (scheme, after)) :
    hideUserInfo (t :: ts) =
      keep scheme ++ .masked (origin (((t :: ts).drop scheme.length).takeWhile Token.isInfo)) ::
        hideUserInfo (((t :: ts).drop scheme.length).dropWhile Token.isInfo) := by
  rw [hideUserInfo]
  split
  · next h' =>
      rw [h] at h'
      cases h'
      rfl
  · next h' =>
      rw [h] at h'
      cases h'

end

theorem shown_hideUserInfo (ts : List Token) :
    shown (hideUserInfo ts) = maskUserInfo (shown ts) := by
  induction ts using hideUserInfo.induct with
  | case1 => rw [hideUserInfo, shown_nil, maskUserInfo]
  | case2 t r scheme after h rest ih =>
      obtain ⟨us, vs, hts, hdrop, _, hat, hvs⟩ := split_login h
      rw [hideUserInfo_cons_some h, shown_append, shown_keep, shown_cons, ih]
      rw [show rest = us from hdrop, hat, shown_cons, hvs]
      have hnone : splitUserInfo? ('@' :: after) = none := splitUserInfo?_of_ne (by decide)
      show scheme ++ (mask ++ maskUserInfo ('@' :: after)) = _
      rw [maskUserInfo_cons_none hnone]
      obtain ⟨c, s, hs⟩ : ∃ c s, shown (t :: r) = c :: s := by
        cases t with
        | kept c => exact ⟨c, _, rfl⟩
        | masked hidden => exact ⟨'*', _, rfl⟩
      rw [hs] at h ⊢
      rw [maskUserInfo_cons_some h, List.append_assoc]
  | case3 t r h ih =>
      rw [hideUserInfo_cons_none h, shown_cons, shown_cons, ih,
        maskUserInfo_shown_append t (shown r)]
      rintro c rfl
      exact h

theorem origin_hideUserInfo (ts : List Token) : origin (hideUserInfo ts) = origin ts := by
  induction ts using hideUserInfo.induct with
  | case1 => rw [hideUserInfo]
  | case2 t r scheme after h rest ih =>
      obtain ⟨us, vs, hts, hdrop, _⟩ := split_login h
      rw [hideUserInfo_cons_some h, origin_append, origin_keep, origin_cons, ih]
      rw [show rest = us from hdrop, hdrop]
      show scheme ++ (origin (us.takeWhile Token.isInfo) ++ _) = _
      rw [← origin_append, List.takeWhile_append_dropWhile, hts, origin_append, origin_keep]
  | case3 t r h ih => rw [hideUserInfo_cons_none h, origin_cons, origin_cons, ih]

theorem keep_prefix_append_masked {hidden : List Char}
    (h : keep w <+: keep s ++ .masked hidden :: ts) :
    keep w <+: keep s := by
  induction w generalizing s with
  | nil => exact List.nil_prefix ..
  | cons c w ih =>
      cases s with
      | nil => cases (List.cons_prefix_cons.mp h).1
      | cons x s =>
          obtain ⟨hc, h⟩ := List.cons_prefix_cons.mp h
          exact List.cons_prefix_cons.mpr ⟨hc, ih h⟩

theorem keep_infix_append_masked {hidden : List Char} (hw : w ≠ [])
    (h : keep w <:+: keep s ++ .masked hidden :: ts) : keep w <:+: keep s ∨ keep w <:+: ts := by
  induction s with
  | nil =>
      obtain ⟨c, w, rfl⟩ := List.exists_cons_of_ne_nil hw
      rcases List.infix_cons_iff.mp h with h | h
      · cases (List.cons_prefix_cons.mp h).1
      · exact .inr h
  | cons x s ih =>
      rcases List.infix_cons_iff.mp h with h | h
      · exact .inl (keep_prefix_append_masked h).isInfix
      · exact (ih h).imp_left fun h => h.trans (List.suffix_cons ..).isInfix

theorem keep_prefix_of_hideUserInfo (h : keep w <+: hideUserInfo ts) : keep w <+: ts := by
  induction ts using hideUserInfo.induct generalizing w with
  | case1 => rwa [hideUserInfo] at h
  | case2 t r scheme after hs =>
      obtain ⟨us, vs, hts, _⟩ := split_login hs
      rw [hideUserInfo_cons_some hs] at h
      rw [hts]
      exact (keep_prefix_append_masked h).trans (List.prefix_append ..)
  | case3 t r hs ih =>
      rw [hideUserInfo_cons_none hs] at h
      cases w with
      | nil => exact List.nil_prefix ..
      | cons c w =>
          obtain ⟨hc, h⟩ := List.cons_prefix_cons.mp h
          exact List.cons_prefix_cons.mpr ⟨hc, ih h⟩

theorem keep_infix_of_hideUserInfo (hw : w ≠ []) (h : keep w <:+: hideUserInfo ts) :
    keep w <:+: ts := by
  induction ts using hideUserInfo.induct with
  | case1 => rwa [hideUserInfo] at h
  | case2 t r scheme after hs rest ih =>
      obtain ⟨us, vs, hts, hdrop, _⟩ := split_login hs
      rw [hideUserInfo_cons_some hs] at h
      rw [hts]
      rcases keep_infix_append_masked hw h with h | h
      · exact h.trans (List.prefix_append ..).isInfix
      · have hrest : keep w <:+: us.dropWhile Token.isInfo := by
          have := ih h
          rwa [show rest = us from hdrop] at this
        exact hrest.trans ((List.dropWhile_suffix _).isInfix.trans (List.suffix_append ..).isInfix)
  | case3 t r hs ih =>
      rw [hideUserInfo_cons_none hs] at h
      rcases List.infix_cons_iff.mp h with hpre | hin
      · have hall : keep w <+: hideUserInfo (t :: r) := by rwa [hideUserInfo_cons_none hs]
        exact (keep_prefix_of_hideUserInfo hall).isInfix
      · exact (ih hin).trans (List.suffix_cons ..).isInfix

def redaction (secret s : List Char) : List Token := hideUserInfo (hideSecret secret s)

theorem shown_redaction (hne : needle ≠ []) :
    shown (redaction needle s) = redact (some needle) s := by
  obtain ⟨c, needle, rfl⟩ := List.exists_cons_of_ne_nil hne
  rw [redaction, shown_hideUserInfo, shown_hideSecret]
  rfl

theorem toList_redactSecret (secret text : String) :
    (redactSecret (some secret) text).toList = redact (some secret.toList) text.toList := by
  rw [redactSecret, String.toList_ofList]
  rfl

/-- A masked text consists of runs of the text as it was, with masks between them, and the secret is
in none of the runs. So where it is still found there is a mask in it, and without a star in it it
is not found. -/
theorem secret_not_kept (secret text : String) (hne : secret ≠ "") :
    let ts := redaction secret.toList text.toList
    let masked := (redactSecret (some secret) text).toList
    shown ts = masked ∧ origin ts = text.toList ∧
    (∀ run, keep run <:+: ts → ¬ secret.toList <:+: run) ∧
    (∀ a b, masked = a ++ secret.toList ++ b →
      IsMaskedIn ts a.length (a.length + secret.toList.length)) ∧
    ('*' ∉ secret.toList → ¬ secret.toList <:+: masked) := by
  intro ts masked
  have hne' : secret.toList ≠ [] := by simpa using hne
  have hshown : shown ts = masked :=
    (shown_redaction hne').trans (toList_redactSecret secret text).symm
  have hkept : ∀ run, keep run <:+: ts → ¬ secret.toList <:+: run := by
    intro run hrun hin
    have hkeep : keep secret.toList <:+: ts := (hin.map _).trans hrun
    exact not_keep_secret hne' (keep_infix_of_hideUserInfo hne' hkeep)
  have hmasked : ∀ a b, masked = a ++ secret.toList ++ b →
      IsMaskedIn ts a.length (a.length + secret.toList.length) := by
    intro a b hab
    rcases masked_or_kept hne' (hshown.trans hab) with h | h
    · exact h
    · exact absurd (List.infix_refl _) (hkept _ h)
  refine ⟨hshown, ?_, hkept, hmasked, ?_⟩
  · exact (origin_hideUserInfo _).trans (origin_hideSecret _ _)
  · rintro hstar ⟨a, b, hab⟩
    exact hstar (star_mem_of_masked hne' (hshown.trans hab.symm) (hmasked a b hab.symm))

theorem secret_not_kept_joined : "/@h" ≠ "" ∧
    redactSecret (some "/@h") "https://u@h/ and /@h" = "https://***@h/ and ***" ∧
    ¬ "/@h".toList <:+: (redactSecret (some "/@h") "https://u@h/ and /@h").toList := by
  have h := secret_not_kept "/@h" "https://u@h/ and /@h" (by decide)
  exact ⟨by decide, by decide +kernel, h.2.2.2.2 (by decide)⟩

end SourceAtlas.Text
