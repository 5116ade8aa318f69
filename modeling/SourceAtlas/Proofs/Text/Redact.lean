import Mathlib.Data.List.Infix
import SourceAtlas.Proofs.Text.Runs
import SourceAtlas.Text.Redact

namespace SourceAtlas.Text

variable {p : Char → Bool} {s t u w : List Char} {c : Char}

def IsLogin (p : Char → Bool) (w : List Char) : Prop :=
  ∃ scheme ∈ webSchemes, ∃ info, w = scheme ++ info ++ ['@'] ∧ info ≠ [] ∧
    (∀ c ∈ info, p c = true) ∧ info ≠ mask

/-- There is a login in the text. -/
def Shows (p : Char → Bool) (s : List Char) : Prop := ∃ w, IsLogin p w ∧ w <:+: s

/-- There is a login in the text as it is looked for when logins are masked. -/
abbrev Exposes (s : List Char) : Prop := Shows isUserInfoChar s

theorem scheme_cons {scheme : List Char} (h : scheme ∈ webSchemes) :
    ∃ r, scheme = 'h' :: r ∧ 'h' ∉ r ∧ '@' ∉ scheme ∧ '/' ∈ scheme ∧ ' ' ∉ scheme ∧ '\\' ∉ r := by
  rcases List.mem_cons.mp h with rfl | h
  · exact ⟨"ttps://".toList, rfl, by decide⟩
  · rw [List.mem_singleton.mp h]
    exact ⟨"ttp://".toList, rfl, by decide⟩

theorem eq_of_append_eq {scheme scheme' : List Char} (hs : scheme ∈ webSchemes)
    (hs' : scheme' ∈ webSchemes) (h : scheme ++ s = scheme' ++ t) : scheme = scheme' := by
  have hall : ∀ x ∈ webSchemes, ∀ y ∈ webSchemes, x <+: y → x = y := by decide
  rcases List.prefix_or_prefix_of_prefix (List.prefix_append scheme s)
    (h ▸ List.prefix_append scheme' t) with hp | hp
  · exact hall _ hs _ hs' hp
  · exact (hall _ hs' _ hs hp).symm

namespace IsLogin

theorem cons (h : IsLogin p w) : ∃ r, w = 'h' :: r := by
  obtain ⟨scheme, hs, info, rfl, _⟩ := h
  obtain ⟨r, rfl, _⟩ := scheme_cons hs
  exact ⟨_, rfl⟩

theorem concat (h : IsLogin p w) : ∃ r, w = r ++ ['@'] := by
  obtain ⟨scheme, _, info, rfl, _⟩ := h
  exact ⟨_, rfl⟩

theorem not_mem_of_concat (hp : p '@' = false) (h : IsLogin p (w ++ ['@'])) : '@' ∉ w := by
  obtain ⟨scheme, hs, info, hw, _, hinfo, _⟩ := h
  obtain ⟨_, _, _, hat, _⟩ := scheme_cons hs
  obtain rfl := List.append_cancel_right hw
  intro hm
  rcases List.mem_append.mp hm with hm | hm
  · exact hat hm
  · rw [hinfo _ hm] at hp
    cases hp

theorem no_blank (hp : p ' ' = false) (h : IsLogin p w) : ' ' ∉ w := by
  obtain ⟨scheme, hs, info, rfl, _, hinfo, _⟩ := h
  obtain ⟨_, _, _, _, _, hblank, _⟩ := scheme_cons hs
  intro hm
  rcases List.mem_append.mp hm with hm | hm
  · rcases List.mem_append.mp hm with hm | hm
    · exact hblank hm
    · rw [hinfo _ hm] at hp
      cases hp
  · exact absurd (List.mem_singleton.mp hm) (by decide)

end IsLogin

theorem Shows.of_isInfix (h : Shows p s) (hs : s <:+: t) : Shows p t := by
  obtain ⟨w, hw, hin⟩ := h
  exact ⟨w, hw, hin.trans hs⟩

theorem not_shows_of_not_mem (h : '@' ∉ s) : ¬ Shows p s := by
  rintro ⟨w, hw, hin⟩
  obtain ⟨r, rfl⟩ := hw.concat
  exact h (hin.subset (by simp))

theorem shows_append_of_not_mem (h : '@' ∉ t) : Shows p (s ++ t) ↔ Shows p s := by
  refine ⟨?_, fun h => h.of_isInfix List.infix_append_left⟩
  rintro ⟨w, hw, hin⟩
  obtain ⟨r, rfl⟩ := hw.concat
  rcases List.infix_append_iff_ne_nil.mp hin with hin | hin | ⟨a, b, _, hb, hab, _, hbt⟩
  · exact ⟨_, hw, hin⟩
  · exact absurd (hin.subset (by simp)) h
  · have hlast : b.getLast? = some '@' := by
      rw [← List.getLast?_append_of_ne_nil a hb, ← hab, List.getLast?_concat]
    exact absurd (hbt.subset (List.mem_of_getLast? hlast)) h

theorem append_shows_of_not_mem (h : 'h' ∉ s) : Shows p (s ++ t) ↔ Shows p t := by
  refine ⟨?_, fun h => h.of_isInfix List.infix_append_right⟩
  rintro ⟨w, hw, hin⟩
  obtain ⟨r, rfl⟩ := hw.cons
  rcases List.infix_append_iff_ne_nil.mp hin with hin | hin | ⟨a, b, ha, _, hab, has, _⟩
  · exact absurd (hin.subset (by simp)) h
  · exact ⟨_, hw, hin⟩
  · obtain ⟨c, a, rfl⟩ := List.exists_cons_of_ne_nil ha
    obtain ⟨rfl, _⟩ := List.cons.inj hab
    exact absurd (has.subset (by simp)) h

theorem shows_append_at (hp : p '@' = false) (h : '@' ∉ s) :
    Shows p (s ++ '@' :: t) ↔ (∃ w, IsLogin p w ∧ w <:+ s ++ ['@']) ∨ Shows p t := by
  rw [List.append_cons]
  constructor
  · rintro ⟨w, hw, hin⟩
    obtain ⟨r, rfl⟩ := hw.concat
    rcases List.infix_append_iff_ne_nil.mp hin with hin | hin | ⟨a, b, ha, hb, hab, has, _⟩
    · rcases List.infix_concat_iff.mp hin with hin | hin
      · exact .inl ⟨_, hw, hin⟩
      · exact absurd (hin.subset (by simp)) h
    · exact .inr ⟨_, hw, hin⟩
    · obtain ⟨a', rfl⟩ : ∃ a', a = a' ++ ['@'] :=
        (List.suffix_concat_iff.mp has).resolve_left ha |>.imp fun _ h => h.1
      rcases List.prefix_concat_iff.mp ⟨b, hab.symm⟩ with he | hpre
      · rw [he] at hab
        exact absurd (List.self_eq_append_right.mp hab) hb
      · exact absurd (hpre.subset (by simp)) (hw.not_mem_of_concat hp)
  · rintro (⟨w, hw, hin⟩ | h)
    · exact ⟨w, hw, hin.isInfix.trans List.infix_append_left⟩
    · exact h.of_isInfix List.infix_append_right

theorem shows_append_blank (hp : p ' ' = false) : Shows p (s ++ ' ' :: t) ↔ Shows p s ∨ Shows p t := by
  constructor
  · rintro ⟨w, hw, hin⟩
    rcases List.infix_append_iff_ne_nil.mp hin with hin | hin | ⟨a, b, _, hb, rfl, _, hbt⟩
    · exact .inl ⟨w, hw, hin⟩
    · rcases List.infix_cons_iff.mp hin with hin | hin
      · obtain ⟨r, rfl⟩ := hw.cons
        cases (List.cons_prefix_cons.mp hin).1
      · exact .inr ⟨w, hw, hin⟩
    · obtain ⟨c, b, rfl⟩ := List.exists_cons_of_ne_nil hb
      obtain ⟨rfl, _⟩ := List.cons_prefix_cons.mp hbt
      exact absurd (List.mem_append_right a List.mem_cons_self) (hw.no_blank hp)
  · rintro (h | h)
    · exact h.of_isInfix List.infix_append_left
    · exact h.of_isInfix ((List.suffix_cons ..).isInfix.trans List.infix_append_right)

theorem Shows.mono {q : Char → Bool} (hpq : ∀ c, p c = true → q c = true) (h : Shows p s) :
    Shows q s := by
  obtain ⟨w, ⟨scheme, hs, info, rfl, hne, hinfo, hmask⟩, hin⟩ := h
  exact ⟨_, ⟨scheme, hs, info, rfl, hne, fun c hc => hpq c (hinfo c hc), hmask⟩, hin⟩

def IsLead (s : List Char) : Prop := '@' ∉ s ∧ 'h' ∉ s.reverse.takeWhile (· != ' ')

instance : Decidable (IsLead s) := inferInstanceAs (Decidable (_ ∧ _))

theorem IsLead.shows (hp : p ' ' = false) (h : IsLead s) : Shows p (s ++ t) ↔ Shows p t := by
  have hsplit := split_last_run (· != ' ') s
  cases hd : s.reverse.dropWhile (· != ' ') with
  | nil =>
      rw [hd, List.reverse_nil, List.nil_append] at hsplit
      refine append_shows_of_not_mem fun hm => h.2 ?_
      rwa [← hsplit, List.mem_reverse] at hm
  | cons c r =>
      have hc : c = ' ' := by simpa [hd, Ends] using ends_dropWhile (· != ' ') s.reverse
      rw [hd, hc, List.reverse_cons] at hsplit
      have hat : '@' ∉ r.reverse := fun hm => h.1 (by
        rw [← hsplit]
        exact List.mem_append_left _ (List.mem_append_left _ hm))
      rw [← hsplit, List.append_assoc, List.append_assoc, List.singleton_append,
        shows_append_blank hp, append_shows_of_not_mem (by simpa using h.2)]
      exact or_iff_right (not_shows_of_not_mem hat)

theorem isLead_ofList (h : IsLead s) : IsLead (String.ofList s).toList := by
  rwa [String.toList_ofList]

theorem not_mem_ofList (h : c ∉ s) : c ∉ (String.ofList s).toList := by
  rwa [String.toList_ofList]

theorem IsLead.shows_framed (hp : p ' ' = false) (h : IsLead s) (hu : '@' ∉ u) :
    Shows p (s ++ t ++ u) ↔ Shows p t := (shows_append_of_not_mem hu).trans (h.shows hp)

theorem shows_told {lead text closing : String} (hp : p ' ' = false) (hl : IsLead lead.toList)
    (hc : '@' ∉ closing.toList) :
    Shows p (lead ++ text ++ closing).toList ↔ Shows p text.toList := by
  rw [String.toList_append, String.toList_append]
  exact hl.shows_framed hp hc

theorem shows_trim : Shows p (trim s) ↔ Shows p s := by
  obtain ⟨before, after, hs, _, hbefore, hafter⟩ := trim_split s
  have hh : 'h' ∉ before := fun hm => absurd (hbefore _ hm) (by decide)
  have hat : '@' ∉ after := fun hm => absurd (hafter _ hm) (by decide)
  conv => rhs; rw [hs]
  rw [shows_append_of_not_mem hat, append_shows_of_not_mem hh]

section

variable {scheme after : List Char}

theorem splitUserInfo?_eq_some (h : splitUserInfo? s = some (scheme, after)) :
    scheme ∈ webSchemes ∧ ∃ info, s = scheme ++ info ++ '@' :: after ∧ info ≠ [] ∧
      ∀ c ∈ info, isUserInfoChar c = true := by
  obtain ⟨_, sc, _, hl, h, _⟩ := List.findSome?_eq_some_iff.mp h
  obtain ⟨rest, hrest, h⟩ := Option.bind_eq_some_iff.mp h
  split at h
  · next hi ha =>
      cases h
      refine ⟨hl ▸ by simp, rest.takeWhile isUserInfoChar, ?_, by simp [hi],
        fun c => List.mem_takeWhile_imp⟩
      rw [List.append_assoc, ← ha, List.takeWhile_append_dropWhile]
      exact stripPrefix?_eq_some.mp hrest
  · cases h

theorem splitUserInfo?_ne_none {info : List Char} (hs : scheme ∈ webSchemes) (hne : info ≠ [])
    (hinfo : ∀ c ∈ info, isUserInfoChar c = true) :
    splitUserInfo? (scheme ++ (info ++ '@' :: after)) ≠ none := by
  intro h
  have hnone := List.findSome?_eq_none_iff.mp h scheme hs
  have hstop : Ends isUserInfoChar ('@' :: after) := Ends.cons (by decide) _
  have htake := takeWhile_run hinfo hstop
  have hdrop := dropWhile_run hinfo hstop
  obtain ⟨x, info, rfl⟩ := List.exists_cons_of_ne_nil hne
  rw [stripPrefix?_eq_some.mpr rfl, Option.bind_some, htake, hdrop] at hnone
  cases hnone

theorem maskUserInfo_cons_none (h : splitUserInfo? (c :: s) = none) :
    maskUserInfo (c :: s) = c :: maskUserInfo s := by
  rw [maskUserInfo]
  split
  · next h' =>
      rw [h] at h'
      cases h'
  · rfl

theorem maskUserInfo_cons_some (h : splitUserInfo? (c :: s) = some (scheme, after)) :
    maskUserInfo (c :: s) = scheme ++ mask ++ '@' :: maskUserInfo after := by
  rw [maskUserInfo]
  split
  · next h' =>
      rw [h] at h'
      cases h'
      rfl
  · next h' =>
      rw [h] at h'
      cases h'

end

theorem maskUserInfo_eq_cons (h : maskUserInfo s = c :: t) :
    (∃ s', s = c :: s' ∧ maskUserInfo s' = t) ∨
      ∃ scheme ∈ webSchemes, ∃ u, c :: t = scheme ++ (mask ++ '@' :: u) := by
  cases s with
  | nil =>
      rw [maskUserInfo] at h
      cases h
  | cons x s =>
      rcases hsplit : splitUserInfo? (x :: s) with _ | ⟨scheme, after⟩
      · rw [maskUserInfo_cons_none hsplit] at h
        cases h
        exact .inl ⟨s, rfl, rfl⟩
      · rw [maskUserInfo_cons_some hsplit, List.append_assoc] at h
        exact .inr ⟨scheme, (splitUserInfo?_eq_some hsplit).1, _, h.symm⟩

theorem maskUserInfo_eq_append {lit : List Char} (hlit : 'h' ∉ lit) (h : maskUserInfo s = lit ++ t) :
    ∃ s', s = lit ++ s' ∧ maskUserInfo s' = t := by
  induction lit generalizing s with
  | nil => exact ⟨s, rfl, h⟩
  | cons x lit ih =>
      rw [List.mem_cons, not_or] at hlit
      rcases maskUserInfo_eq_cons h with ⟨s, rfl, hs⟩ | ⟨scheme, hscheme, u, hu⟩
      · obtain ⟨s', rfl, hs'⟩ := ih hlit.2 hs
        exact ⟨s', rfl, hs'⟩
      · obtain ⟨r, rfl, _⟩ := scheme_cons hscheme
        exact absurd (List.cons.inj hu).1.symm hlit.1

theorem maskUserInfo_eq_info {info : List Char} (hinfo : '/' ∉ info)
    (h : maskUserInfo s = info ++ '@' :: t) : ∃ t', s = info ++ '@' :: t' := by
  induction info generalizing s with
  | nil =>
      rcases maskUserInfo_eq_cons h with ⟨s, rfl, _⟩ | ⟨scheme, hscheme, u, hu⟩
      · exact ⟨s, rfl⟩
      · obtain ⟨r, rfl, _⟩ := scheme_cons hscheme
        cases (List.cons.inj hu).1
  | cons x info ih =>
      rcases maskUserInfo_eq_cons h with ⟨s, rfl, hs⟩ | ⟨scheme, hscheme, u, hu⟩
      · obtain ⟨t', rfl⟩ := ih (fun hm => hinfo (.tail _ hm)) hs
        exact ⟨t', rfl⟩
      · -- a scheme, with its slashes, cannot reach the next `@`
        obtain ⟨_, _, _, hat, hslash, _⟩ := scheme_cons hscheme
        have hu : (x :: info) ++ '@' :: t = scheme ++ (mask ++ '@' :: u) := hu
        rcases List.append_eq_append_iff.mp hu with ⟨b, hb, hb'⟩ | ⟨b, hb, _⟩
        · cases b with
          | nil =>
              rw [List.append_nil] at hb
              exact absurd (hb ▸ hslash) hinfo
          | cons y b =>
              obtain ⟨rfl, _⟩ := List.cons.inj hb'
              exact absurd (hb ▸ List.mem_append_right (x :: info) List.mem_cons_self) hat
        · exact absurd (hb ▸ List.mem_append_left b hslash) hinfo

theorem IsLogin.not_suffix_mask {scheme : List Char} (hs : scheme ∈ webSchemes) (hw : IsLogin p w) :
    ¬ w <:+ scheme ++ mask ++ ['@'] := by
  rintro ⟨pre, hpre⟩
  obtain ⟨scheme', hs', info, rfl, _, _, hne⟩ := hw
  obtain ⟨tail, rfl, htail, _⟩ := scheme_cons hs
  obtain ⟨tail', rfl, _⟩ := scheme_cons hs'
  rw [← List.append_assoc] at hpre
  have hpre := List.append_cancel_right hpre
  -- there is no other `h` than that of the scheme
  cases pre with
  | cons x pre =>
      simp only [List.cons_append, List.cons.injEq] at hpre
      have hm : 'h' ∈ tail ++ mask := by
        rw [← hpre.2]
        simp
      exact (List.mem_append.mp hm).elim htail (by decide)
  | nil =>
      rw [List.nil_append] at hpre
      rw [eq_of_append_eq hs' hs hpre] at hpre
      exact hne (List.append_cancel_left hpre)

theorem IsLogin.splits (hw : IsLogin isUserInfoChar w) (h : w <+: c :: maskUserInfo s) :
    splitUserInfo? (c :: s) ≠ none := by
  obtain ⟨scheme, hs, info, rfl, hne, hinfo, _⟩ := hw
  obtain ⟨post, hpost⟩ := h
  obtain ⟨tail, rfl, htail, _⟩ := scheme_cons hs
  simp only [List.cons_append, List.append_assoc, List.nil_append] at hpost
  injection hpost with hc hpost
  subst hc
  have hslash : '/' ∉ info := fun hm => absurd (hinfo _ hm) (by decide)
  obtain ⟨s', rfl, hs'⟩ := maskUserInfo_eq_append htail hpost.symm
  obtain ⟨after, rfl⟩ := maskUserInfo_eq_info hslash hs'
  exact splitUserInfo?_ne_none hs hne hinfo

theorem not_exposes_maskUserInfo (s : List Char) : ¬ Exposes (maskUserInfo s) := by
  induction s using maskUserInfo.induct with
  | case1 =>
      rw [maskUserInfo]
      exact not_shows_of_not_mem nofun
  | case2 c r scheme after h ih =>
      obtain ⟨hs, _⟩ := splitUserInfo?_eq_some h
      obtain ⟨_, _, _, hat, _⟩ := scheme_cons hs
      have hu : '@' ∉ scheme ++ mask := fun hm => (List.mem_append.mp hm).elim hat (by decide)
      rw [maskUserInfo_cons_some h, Exposes, shows_append_at (by decide) hu]
      rintro (⟨w, hw, hin⟩ | hin)
      · exact hw.not_suffix_mask hs hin
      · exact ih hin
  | case3 c r h ih =>
      rw [maskUserInfo_cons_none h]
      rintro ⟨w, hw, hin⟩
      rcases List.infix_cons_iff.mp hin with hin | hin
      · exact hw.splits hin h
      · exact ih ⟨w, hw, hin⟩

theorem exposes_iff_masked : Exposes s ↔ maskUserInfo s ≠ s := by
  refine ⟨fun h he => not_exposes_maskUserInfo s (by rwa [he]), fun h => by_contra fun hnot => h ?_⟩
  clear h
  induction s using maskUserInfo.induct with
  | case1 => rw [maskUserInfo]
  | case2 c r scheme after h ih =>
      obtain ⟨hs, info, hsplit, hne, hinfo⟩ := splitUserInfo?_eq_some h
      rw [maskUserInfo_cons_some h, hsplit]
      rw [hsplit] at hnot
      have hmask : info = mask := by_contra fun hm =>
        hnot ⟨_, ⟨scheme, hs, info, rfl, hne, hinfo, hm⟩, [], after, by simp⟩
      rw [hmask, ih fun hafter => hnot (hafter.of_isInfix ?_)]
      exact (List.suffix_cons ..).isInfix.trans List.infix_append_right
  | case3 c r h ih =>
      rw [maskUserInfo_cons_none h, ih fun hr => hnot (hr.of_isInfix (List.suffix_cons ..).isInfix)]

/-- In a masked text what stands between a scheme and an `@` is the mask. Masking it again changes
nothing, and at all it changes just the texts that show a login. -/
theorem redactUrl_settles (s : String) :
    (∀ scheme ∈ webSchemes, ∀ info, scheme ++ info ++ ['@'] <:+: (redactUrl s).toList → info ≠ [] →
      (∀ c ∈ info, isUserInfoChar c = true) → info = mask) ∧
    redactUrl (redactUrl s) = redactUrl s ∧ (redactUrl s = s ↔ ¬ Exposes s.toList) := by
  have htext : ∀ s, (redactUrl s).toList = maskUserInfo s.toList := fun s => String.toList_ofList
  have hhidden : ∀ s, ¬ Exposes (redactUrl s).toList := fun s => by
    rw [htext]
    exact not_exposes_maskUserInfo s.toList
  have hchanged : ∀ s, redactUrl s = s ↔ ¬ Exposes s.toList := fun s => by
    rw [exposes_iff_masked, not_not, ← String.toList_inj, htext]
  refine ⟨fun scheme hs info hin hne hinfo => ?_, (hchanged _).mpr (hhidden s), hchanged s⟩
  by_contra hmask
  exact hhidden s ⟨_, ⟨scheme, hs, info, rfl, hne, hinfo, hmask⟩, hin⟩

end SourceAtlas.Text
