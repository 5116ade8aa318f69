import SourceAtlas.Proofs.Repository.Remote
import SourceAtlas.Proofs.Text.Lower
import SourceAtlas.Repository.Retry

namespace SourceAtlas

namespace Text

variable {p s t : List Char} {x : Char}

theorem infix_append_cons_iff (h : x ∉ p) : p <:+: s ++ x :: t ↔ p <:+: s ∨ p <:+: t := by
  constructor
  · intro hin
    rcases List.infix_append_iff_ne_nil.mp hin with hin | hin | ⟨a, b, _, hb, rfl, _, hbt⟩
    · exact .inl hin
    · rcases List.infix_cons_iff.mp hin with hpre | hin
      · cases p with
        | nil => exact .inr ⟨[], t, rfl⟩
        | cons c p =>
            obtain ⟨rfl, _⟩ := List.cons_prefix_cons.mp hpre
            exact absurd List.mem_cons_self h
      · exact .inr hin
    · obtain ⟨c, b, rfl⟩ := List.exists_cons_of_ne_nil hb
      obtain ⟨rfl, _⟩ := List.cons_prefix_cons.mp hbt
      exact absurd (List.mem_append_right a List.mem_cons_self) h
  · rintro (h | h)
    · exact h.trans (List.prefix_append ..).isInfix
    · exact h.trans ((List.suffix_cons ..).trans (List.suffix_append ..)).isInfix

theorem ends_of_any {f : Char → Bool} (h : s.head?.any f = false) : Ends f s := by
  intro c hc
  rwa [Option.mem_def.mp hc] at h

theorem infix_of_blanks_append (hp : Ends isBlank p) (hne : p ≠ []) (hs : ∀ c ∈ s, isBlank c = true)
    (h : p <:+: s ++ t) : p <:+: t := by
  induction s with
  | nil => exact h
  | cons c s ih =>
      rcases List.infix_cons_iff.mp h with hpre | hin
      · obtain ⟨x, p, rfl⟩ := List.exists_cons_of_ne_nil hne
        obtain ⟨rfl, _⟩ := List.cons_prefix_cons.mp hpre
        have := hp x rfl
        rw [hs x List.mem_cons_self] at this
        cases this
      · exact ih (fun x hx => hs x (.tail _ hx)) hin

theorem infix_of_append_blanks (hp : Ends isBlank p.reverse) (hne : p ≠ [])
    (ht : ∀ c ∈ t, isBlank c = true) (h : p <:+: s ++ t) : p <:+: s := by
  rw [← List.reverse_infix, List.reverse_append] at h
  rw [← List.reverse_infix]
  exact infix_of_blanks_append hp (by simpa using hne) (fun c hc => ht c (List.mem_reverse.mp hc)) h

theorem not_isInfix_lower (hblank : ∀ c ∈ trim s, isBlank c = false) (hp : Ends isBlank p)
    (hpr : Ends isBlank p.reverse) (hspace : ' ' ∈ p) : ¬ p <:+: lower s := by
  intro h
  have hne : p ≠ [] := List.ne_nil_of_mem hspace
  obtain ⟨before, after, hs, _, hbefore, hafter⟩ := trim_split s
  have hsigma : 'Σ' ∉ before := fun hm => absurd (hbefore _ hm) (by decide +kernel)
  rw [hs, List.append_assoc, lower, lowerFrom_append fun hm => absurd hm hsigma,
    lowerFrom_append fun _ => nextIsCased_blanks hafter, lowerFrom_blanks hbefore,
    lowerFrom_blanks hafter] at h
  have hcore := infix_of_append_blanks hpr hne hafter (infix_of_blanks_append hp hne hbefore h)
  have hclean := hblank _ (mem_of_blank_lowerFrom (hcore.subset hspace) (by decide))
  exact absurd hclean (by decide)

theorem contains_iff_isInfix : contains p s = true ↔ p <:+: s := by
  rw [contains_iff]
  exact ⟨fun ⟨a, b, h⟩ => ⟨a, b, h.symm⟩, fun ⟨a, b, h⟩ => ⟨a, b, h.symm⟩⟩

end Text

namespace Repository.CloneFailure

open Text

theorem findIdx_or {α : Type} {f g h : α → Bool} {l : List α}
    (hl : ∀ a ∈ l, h a = (f a || g a)) : l.findIdx h = min (l.findIdx f) (l.findIdx g) := by
  induction l with
  | nil => rfl
  | cons a l ih =>
      rw [List.findIdx_cons, List.findIdx_cons, List.findIdx_cons, hl a List.mem_cons_self,
        ih fun b hb => hl b (.tail _ hb)]
      cases f a <;> cases g a <;> simp [Nat.succ_min_succ]

/-- The place of the first sign that a text shows; if it shows none, the one after the last. -/
def rank (text : String) : Nat := signs.findIdx (shows (lower text.toList) text.toList)

def kindAt (k : Nat) : String := (signs[k]?.map (·.1.kind)).getD "UNKNOWN"

theorem kind_classify (text : String) : (classify text).kind = kindAt (rank text) := by
  unfold classify kindAt rank
  dsimp only
  rw [← List.find?_eq_getElem?_findIdx]
  cases signs.find? (shows (lower text.toList) text.toList) <;> rfl

theorem rank_le (text : String) : rank text ≤ signs.length := List.findIdx_le_length

theorem kind_eq_iff {text text' : String} :
    (classify text).kind = (classify text').kind ↔ rank text = rank text' := by
  rw [kind_classify, kind_classify]
  have hinj : ∀ k ≤ signs.length, ∀ l ≤ signs.length, kindAt k = kindAt l ↔ k = l := by decide
  exact hinj _ (rank_le text) _ (rank_le text')

theorem isTransient_classify (text : String) :
    (classify text).isTransient = !(rank text == 2 || rank text == 3) := by
  have hrank : ∀ k ≤ signs.length, ((signs[k]?.map (·.1.isTransient)).getD true) =
      !(k == 2 || k == 3) := by decide
  rw [← hrank _ (rank_le text)]
  unfold classify rank
  dsimp only
  rw [← List.find?_eq_getElem?_findIdx]
  cases signs.find? (shows (lower text.toList) text.toList) <;> rfl

def unreachable (url cause : String) : String :=
  "fatal: unable to access '" ++ url ++ "/': " ++ cause

/-- No sign of a failure is a word of the address. -/
def IsNeutral (url : String) : Prop :=
  contains "timeout".toList (lower url.toList) = false ∧ contains "404".toList url.toList = false ∧
    contains "403".toList url.toList = false

def opening : List Char := "fatal: unable to access ".toList

def closing : List Char := ['/', '\'', ':', ' ']

theorem toList_before : "fatal: unable to access '".toList = opening ++ ['\''] := rfl

theorem toList_after : "/': ".toList = closing := rfl

theorem toList_unreachable (url cause : String) : (unreachable url cause).toList =
    (opening ++ ['\'']) ++ (url.toList ++ (closing ++ cause.toList)) := by
  unfold unreachable
  rw [String.toList_append, String.toList_append, String.toList_append, toList_before, toList_after]
  rw [List.append_assoc (opening ++ ['\'']), List.append_assoc (opening ++ ['\'']),
    List.append_assoc url.toList]

theorem lower_unreachable (url cause : String) : lower (unreachable url cause).toList =
    (opening ++ ['\'']) ++ (lower url.toList ++ (closing ++ lower cause.toList)) := by
  have hopen : 'Σ' ∉ opening ++ ['\''] := by decide
  have hclose : 'Σ' ∉ closing := by decide
  have hslash : isCaseIgnorable '/' = false ∧ isCased '/' = false := by decide +kernel
  have hspace : isCaseIgnorable ' ' = false ∧ isCased ' ' = false := by decide +kernel
  have hquote : nextIsCased (opening ++ ['\'']).reverse = nextIsCased [] := by decide +kernel
  have hafter : nextIsCased (closing ++ cause.toList) = false := by
    rw [closing, List.cons_append, nextIsCased_cons, hslash.1, hslash.2]
    rfl
  have hbefore : ∀ b, nextIsCased (closing.reverse ++ b) = nextIsCased [] := by
    intro b
    rw [show closing.reverse ++ b = ' ' :: (['/', '\'', ':'].reverse ++ b) from rfl,
      nextIsCased_cons, hspace.1, hspace.2]
    rfl
  have hopening : lowerFrom [] (opening ++ ['\'']) = opening ++ ['\''] := by decide +kernel
  have hclosing : lowerFrom [] closing = closing := by decide +kernel
  rw [toList_unreachable, lower, lowerFrom_append fun hm => absurd hm hopen,
    lowerFrom_append fun _ => hafter, lowerFrom_append fun hm => absurd hm hclose,
    lowerFrom_congr (s := cause.toList) fun _ => hbefore _,
    (lowerFrom_congr fun hm => absurd hm hclose : lowerFrom _ closing = lowerFrom [] closing),
    List.append_nil, lowerFrom_congr (s := url.toList) fun _ => hquote, hopening, hclosing]
  rfl

theorem contains_framed {p : List Char} (hne : p ≠ []) (hquote : '\'' ∉ p) (hslash : '/' ∉ p)
    (url cause : List Char) :
    contains p ((opening ++ ['\'']) ++ (url ++ (closing ++ cause))) =
      (contains p url || contains p ((opening ++ ['\'']) ++ ([] ++ (closing ++ cause)))) := by
  have hframe : ∀ url : List Char,
      contains p ((opening ++ ['\'']) ++ (url ++ (closing ++ cause))) = true ↔
        p <:+: opening ∨ p <:+: url ∨ p <:+: ['\'', ':', ' '] ++ cause := by
    intro url
    rw [contains_iff_isInfix, closing, ← List.append_cons, infix_append_cons_iff hquote,
      List.cons_append, infix_append_cons_iff hslash]
  rw [Bool.eq_iff_iff, Bool.or_eq_true, hframe, hframe, contains_iff_isInfix, List.infix_nil]
  simp only [hne, false_or]
  exact or_left_comm

theorem signs_plain : ∀ row ∈ signs, ∀ p ∈ row.2.1 ++ row.2.2,
    p.toList ≠ [] ∧ '\'' ∉ p.toList ∧ '/' ∉ p.toList := by decide

theorem any_or_of {α : Type} {f g h : α → Bool} {l : List α} (hl : ∀ a ∈ l, h a = (f a || g a)) :
    l.any h = (l.any f || l.any g) := by
  induction l with
  | nil => rfl
  | cons a l ih =>
      rw [List.any_cons, List.any_cons, List.any_cons, hl a List.mem_cons_self,
        ih fun b hb => hl b (.tail _ hb)]
      cases f a <;> cases g a <;> simp

theorem shows_unreachable (url cause : String) : ∀ row ∈ signs,
    shows (lower (unreachable url cause).toList) (unreachable url cause).toList row =
      (shows (lower url.toList) url.toList row ||
        shows (lower (unreachable "" cause).toList) (unreachable "" cause).toList row) := by
  intro row hrow
  have hlowered := any_or_of (l := row.2.1) fun p hp => by
    obtain ⟨hne, hquote, hslash⟩ := signs_plain row hrow p (List.mem_append_left _ hp)
    exact contains_framed hne hquote hslash (lower url.toList) (lower cause.toList)
  have hplain := any_or_of (l := row.2.2) fun p hp => by
    obtain ⟨hne, hquote, hslash⟩ := signs_plain row hrow p (List.mem_append_right _ hp)
    exact contains_framed hne hquote hslash url.toList cause.toList
  unfold shows
  rw [lower_unreachable, lower_unreachable, toList_unreachable, toList_unreachable]
  rw [show lower "".toList = [] from rfl, show "".toList = [] from rfl, hlowered, hplain]
  simp only [Bool.or_assoc, Bool.or_left_comm]

theorem rank_unreachable (url cause : String) :
    rank (unreachable url cause) = min (rank url) (rank (unreachable "" cause)) :=
  findIdx_or (shows_unreachable url cause)

theorem shows_eq_false_iff {lowered plain : List Char}
    {row : CloneFailure × List String × List String} :
    shows lowered plain row = false ↔ (∀ p ∈ row.2.1, contains p.toList lowered = false) ∧
      ∀ p ∈ row.2.2, contains p.toList plain = false := by
  simp only [shows, Bool.or_eq_false_iff, List.any_eq_false, Bool.not_eq_true]

theorem rank_eq_length_iff {text : String} : rank text = signs.length ↔
    ∀ row ∈ signs, shows (lower text.toList) text.toList row = false :=
  List.findIdx_eq_length

theorem phrase_absent {url : String} (h : checkUrl url = .ok ()) {row} (hrow : row ∈ signs)
    {p : String} (hp : p ∈ row.2.1) (htimeout : p ≠ "timeout") :
    contains p.toList (lower url.toList) = false := by
  have hphrases : ∀ row ∈ signs, ∀ p ∈ row.2.1, p ≠ "timeout" →
      ' ' ∈ p.toList ∧ p.toList.head?.any isBlank = false ∧
        p.toList.reverse.head?.any isBlank = false := by
    decide
  obtain ⟨hspace, hfirst, hlast⟩ := hphrases row hrow p hp htimeout
  rw [← Bool.not_eq_true, contains_iff_isInfix]
  exact not_isInfix_lower (checkUrl_ok_iff.mp h).2 (ends_of_any hfirst) (ends_of_any hlast) hspace

theorem isNeutral_iff {url : String} (h : checkUrl url = .ok ()) :
    IsNeutral url ↔ rank url = signs.length := by
  have hplain : ∀ row ∈ signs, ∀ p ∈ row.2.2, p = "404" ∨ p = "403" := by decide
  rw [rank_eq_length_iff]
  constructor
  · rintro ⟨htimeout, hmissing, hforbidden⟩ row hrow
    rw [shows_eq_false_iff]
    constructor
    · intro p hp
      by_cases hword : p = "timeout"
      · exact hword ▸ htimeout
      · exact phrase_absent h hrow hp hword
    · intro p hp
      rcases hplain row hrow p hp with rfl | rfl
      · exact hmissing
      · exact hforbidden
  · intro hnone
    have hrow := fun row hr => shows_eq_false_iff.mp (hnone row hr)
    refine ⟨(hrow (.timedOut, ["timeout", "timed out"], []) (by decide)).1 _ (by decide),
      (hrow (.notFound, ["repository not found"], ["404"]) (by decide)).2 _ (by decide),
      (hrow (.authFailed, ["authentication failed"], ["403"]) (by decide)).2 _ (by decide)⟩

theorem rank_ne_reset {url : String} (h : checkUrl url = .ok ()) : rank url ≠ 4 := by
  intro hrank
  have hshows := ((List.findIdx_eq (by decide : 4 < signs.length)).mp hrank).1
  have hword : ∀ p ∈ signs[4].2.1, p ≠ "timeout" := by decide
  have hnone : shows (lower url.toList) url.toList signs[4] = false := shows_eq_false_iff.mpr
    ⟨fun p hp => phrase_absent h (List.getElem_mem _) hp (hword p hp), fun _ => nofun⟩
  exact absurd hshows (ne_true_of_eq_false hnone)

theorem kind_unreachable_iff (url cause : String) :
    (classify (unreachable url cause)).kind = (classify (unreachable "" cause)).kind ↔
      rank (unreachable "" cause) ≤ rank url := by
  rw [kind_eq_iff, rank_unreachable]
  omega

theorem shouldRetry_classify (limit : Nat) (base : Span) (k : Nat) (text : String) :
    (RetryPolicy.ofAttempts limit base).shouldRetry k (classify text) =
      (decide (k < max limit 1) && !(rank text == 2 || rank text == 3)) := by
  rw [RetryPolicy.shouldRetry, ← isTransient_classify]
  rfl

/-- What a failure is taken for, and whether another attempt is made, is independent of the address
that the transport quotes just for the addresses without a word that is a sign of a failure. In any
case it is the first sign that decides, of those in the address and those in what else is said. -/
theorem kind_independent_iff {url : String} (h : checkUrl url = .ok ()) :
    ((∀ cause, (classify (unreachable url cause)).kind = (classify (unreachable "" cause)).kind) ↔
      IsNeutral url) ∧
    ((∀ cause limit base k,
      (RetryPolicy.ofAttempts limit base).shouldRetry k (classify (unreachable url cause)) =
        (RetryPolicy.ofAttempts limit base).shouldRetry k (classify (unreachable "" cause))) ↔
      IsNeutral url) ∧
    ∀ cause, rank (unreachable url cause) = min (rank url) (rank (unreachable "" cause)) ∧
      ((classify (unreachable url cause)).kind = (classify (unreachable "" cause)).kind ↔
        rank (unreachable "" cause) ≤ rank url) := by
  have hsilent : rank (unreachable "" "") = signs.length := by decide +kernel
  have hmissing : rank (unreachable "" "Repository not found") = 2 := by decide +kernel
  have hneutral : IsNeutral url → ∀ cause,
      rank (unreachable url cause) = rank (unreachable "" cause) := by
    intro hu cause
    rw [rank_unreachable, (isNeutral_iff h).mp hu]
    exact min_eq_right (rank_le _)
  refine ⟨⟨fun hall => ?_, fun hu cause => kind_eq_iff.mpr (hneutral hu cause)⟩,
    ⟨fun hall => ?_, fun hu cause limit base k => ?_⟩,
    fun cause => ⟨rank_unreachable url cause, kind_unreachable_iff url cause⟩⟩
  · have hle := (kind_unreachable_iff url "").mp (hall "")
    rw [hsilent] at hle
    exact (isNeutral_iff h).mpr (le_antisymm (rank_le url) hle)
  · have hsame : ∀ cause, (rank (unreachable url cause) == 2 || rank (unreachable url cause) == 3) =
        (rank (unreachable "" cause) == 2 || rank (unreachable "" cause) == 3) := by
      intro cause
      have := hall cause 2 ⟨0⟩ 1
      rw [shouldRetry_classify, shouldRetry_classify] at this
      exact Bool.not_inj this
    have h1 := hsame ""
    have h2 := hsame "Repository not found"
    rw [rank_unreachable, hsilent] at h1
    rw [rank_unreachable, hmissing] at h2
    refine (isNeutral_iff h).mpr ?_
    -- with the two causes only silence and the sign of a reset are left, and no address shows that
    have hranks : ∀ k ≤ signs.length, k ≠ 4 →
        (min k signs.length == 2 || min k signs.length == 3) =
          (signs.length == 2 || signs.length == 3) →
        (min k 2 == 2 || min k 2 == 3) = (2 == 2 || 2 == 3) → k = signs.length := by decide
    exact hranks _ (rank_le url) (rank_ne_reset h) h1 h2
  · rw [shouldRetry_classify, shouldRetry_classify, hneutral hu]

theorem kind_independent_iff_each :
    (∀ cause, (classify (unreachable "https://github.com/a/b" cause)).kind =
      (classify (unreachable "" cause)).kind) ∧
    ¬ ∀ cause, (classify (unreachable "https://github.com/a/TimeOut" cause)).kind =
      (classify (unreachable "" cause)).kind := by
  have hplain : checkUrl "https://github.com/a/b" = .ok () := by decide +kernel
  have htimeout : checkUrl "https://github.com/a/TimeOut" = .ok () := by decide +kernel
  refine ⟨(kind_independent_iff hplain).1.mpr ⟨?_, ?_, ?_⟩,
    fun hall => absurd ((kind_independent_iff htimeout).1.mp hall).1 ?_⟩ <;> decide +kernel

theorem number_in_address :
    checkUrl "https://github.com/a/404" = .ok () ∧
    (classify (unreachable "https://github.com/a/404" "Recv failure: Connection was reset")).kind =
      "NOT_FOUND" ∧
    (classify (unreachable "" "Recv failure: Connection was reset")).kind = "CONNECTION_FAILED" ∧
    (RetryPolicy.ofAttempts 3 ⟨0⟩).shouldRetry 1
      (classify (unreachable "https://github.com/a/404" "Recv failure: Connection was reset")) =
        false ∧
    (RetryPolicy.ofAttempts 3 ⟨0⟩).shouldRetry 1
      (classify (unreachable "" "Recv failure: Connection was reset")) = true := by
  decide +kernel

end Repository.CloneFailure

end SourceAtlas
