import SourceAtlas.Proofs.Repository.Address

namespace SourceAtlas.Repository

open Text

/-- A remote form, and no blank anywhere. -/
def IsRemote (url : List Char) : Prop :=
  (∃ scheme ∈ schemes, scheme <+: url) ∧ ∀ c ∈ url, isBlank c = false

def login (token user : List Char) : List Char := secureScheme ++ (user ++ ':' :: token ++ ['@'])

def Embeds (token url : List Char) : Prop := ∃ user ∈ tokenUsers, login token user <+: url

def withoutLogin (token url : List Char) : List Char :=
  match tokenUsers.findSome? fun user => stripPrefix? (login token user) url with
  | some rest => secureScheme ++ rest
  | none => url

def withoutToken (token : Option String) (url : String) : List Char :=
  match token with
  | some t => withoutLogin t.toList url.toList
  | none => url.toList

variable {token url rest user : List Char} {a : Address}

theorem isAccepted_iff : isAccepted url = true ↔ IsRemote url := by
  simp [isAccepted, IsRemote]

theorem checkUrl_ok_iff {url : String} : checkUrl url = .ok () ↔ IsRemote (trim url.toList) := by
  rw [← isAccepted_iff]
  unfold checkUrl
  dsimp only
  constructor
  · intro h
    split at h
    · cases h
    · split at h
      · next ha => exact ha
      · cases h
  · intro h
    obtain ⟨⟨scheme, hs, hpre⟩, _⟩ := isAccepted_iff.mp h
    have hne : (trim url.toList).isEmpty = false := by
      rw [List.isEmpty_eq_false_iff]
      rintro hnil
      rw [hnil, List.prefix_nil] at hpre
      subst hpre
      exact absurd hs (by decide)
    rw [hne, h]
    rfl

theorem IsRemote.trim (h : IsRemote url) : Text.trim url = url :=
  trim_eq_self (ends_of_forall h.2) (ends_of_forall fun c hc => h.2 c (List.mem_reverse.mp hc))

theorem isRemote_iff (h : IsRemote (Text.trim url)) : IsRemote url ↔ Text.trim url = url :=
  ⟨IsRemote.trim, fun he => he ▸ h⟩

theorem withoutLogin_cases (token url : List Char) :
    (∃ user ∈ tokenUsers, ∃ rest, url = login token user ++ rest ∧
      withoutLogin token url = secureScheme ++ rest) ∨
    withoutLogin token url = url ∧ ¬ Embeds token url := by
  unfold withoutLogin
  cases h : tokenUsers.findSome? fun user => stripPrefix? (login token user) url with
  | some rest =>
      obtain ⟨user, hm, hstrip⟩ := List.exists_of_findSome?_eq_some h
      exact .inl ⟨user, hm, rest, stripPrefix?_eq_some.mp hstrip, rfl⟩
  | none =>
      refine .inr ⟨rfl, ?_⟩
      rintro ⟨user, hm, rest, rfl⟩
      have := List.findSome?_eq_none_iff.mp h user hm
      rw [stripPrefix?_eq_some.mpr rfl] at this
      cases this

theorem login_append (token user rest : List Char) :
    login token user ++ rest = secureScheme ++ (user ++ ':' :: (token ++ '@' :: rest)) := by
  simp [login]

theorem login_inj {user' rest' : List Char} (hu : user ∈ tokenUsers) (hu' : user' ∈ tokenUsers)
    (h : login token user ++ rest = login token user' ++ rest') : rest = rest' := by
  have hcolon : ∀ user ∈ tokenUsers, ':' ∉ user := by decide
  rw [login_append, login_append] at h
  have hr := List.append_cancel_left h
  have huser := congrArg (List.takeWhile (· != ':')) hr
  rw [takeWhile_run (bne_of_not_mem (hcolon user hu)) (Ends.cons rfl _),
    takeWhile_run (bne_of_not_mem (hcolon user' hu')) (Ends.cons rfl _)] at huser
  subst huser
  simpa using hr

theorem withoutLogin_login (hu : user ∈ tokenUsers) :
    withoutLogin token (login token user ++ rest) = secureScheme ++ rest := by
  rcases withoutLogin_cases token (login token user ++ rest) with ⟨user', hm, rest', he, hw⟩ | ⟨_, hn⟩
  · rw [hw, login_inj hu hm he]
  · exact absurd ⟨user, hu, List.prefix_append ..⟩ hn

theorem withToken_login (ht : token ≠ []) (ha : Address.ofUrl? url = some a)
    (hu : a.userInfo = none) (hk : IsKnownHost a.host) :
    ∃ user ∈ tokenUsers, withToken token url = login token user ++ (a.host ++ a.path) := by
  obtain ⟨user, hm, htext⟩ := withToken_of_takes ht ha hu hk
  refine ⟨user, hm, ?_⟩
  rw [htext, login_append]
  simp [Address.text, Address.authority]

theorem withoutLogin_withToken (h : withToken token url ≠ url) :
    withoutLogin token (withToken token url) = url := by
  obtain ⟨ht, a, ha, hu, hk⟩ := withToken_ne_iff.mp h
  obtain ⟨user, hm, hlogin⟩ := withToken_login ht ha hu hk
  rw [hlogin, withoutLogin_login hm, (Address.ofUrl?_eq_some.mp ha).1, Address.text,
    Address.authority, hu]

theorem isRemote_withoutLogin (h : IsRemote (trim url)) :
    IsRemote (withoutLogin token url) ↔ trim url = url := by
  rcases withoutLogin_cases token url with ⟨user, hm, rest, rfl, hw⟩ | ⟨hw, _⟩
  · rw [hw]
    constructor
    · intro hr
      refine trim_eq_self (Ends.cons (by decide) _) fun c hc => ?_
      rw [List.reverse_append, login, ← List.append_assoc, List.reverse_concat] at hc
      cases hrev : rest.reverse with
      | nil =>
          rw [hrev] at hc
          cases hc
          decide
      | cons x r =>
          rw [hrev] at hc
          cases hc
          exact hr.2 c (List.mem_append_right _ (List.mem_reverse.mp (hrev ▸ List.mem_cons_self)))
    · intro he
      rw [he] at h
      refine ⟨⟨secureScheme, by decide, List.prefix_append ..⟩, fun c hc => h.2 c ?_⟩
      rw [login_append]
      simp only [List.mem_append, List.mem_cons] at hc ⊢
      rcases hc with hc | hc
      · exact .inl hc
      · exact .inr (.inr (.inr (.inr (.inr hc))))
  · rw [hw]
    exact isRemote_iff h

theorem isRemote_withoutToken {tok : Option String} {url : String}
    (h : IsRemote (trim url.toList)) :
    IsRemote (withoutToken tok (authenticated tok url)) ↔ trim url.toList = url.toList := by
  cases tok with
  | none => exact isRemote_iff h
  | some t =>
      rw [withoutToken, authenticated, String.toList_ofList]
      by_cases he : withToken t.toList url.toList = url.toList
      · rw [he]
        exact isRemote_withoutLogin h
      · rw [withoutLogin_withToken he]
        exact isRemote_iff h

theorem IsKnownHost.letter {host : List Char} (h : IsKnownHost host) :
    ∃ c r, host = c :: r ∧ c.toLower = 'g' := by
  cases host with
  | nil => exact absurd h (by simp [IsKnownHost])
  | cons c r =>
      refine ⟨c, r, rfl, ?_⟩
      rcases h with h | h
      all_goals exact (List.cons.inj h).1

theorem isBlank_toLower {c : Char} (h : isBlank c = true) : c.toLower = c := by
  refine dif_neg ?_
  rintro ⟨hA, hZ⟩
  have hlow : 0x41 ≤ c.toNat := hA
  have hhigh : c.toNat ≤ 0x5a := hZ
  obtain ⟨r, hm, hr⟩ := inRanges_iff.mp h
  have houtside : ∀ r ∈ blankRanges, r.2 < 0x41 ∨ 0x5a < r.1 := by decide
  have := houtside r hm
  omega

theorem IsKnownHost.not_blank {host : List Char} (h : IsKnownHost host) :
    ∀ c ∈ host, isBlank c = false := by
  intro c hc
  cases hb : isBlank c with
  | false => rfl
  | true =>
      have hm := List.mem_map_of_mem (f := Char.toLower) hc
      rw [isBlank_toLower hb] at hm
      have hin : c ∈ "github.com".toList ++ "gitlab.com".toList :=
        h.elim (fun h => List.mem_append_left _ (h ▸ hm)) (fun h => List.mem_append_right _ (h ▸ hm))
      have hnames : ("github.com".toList ++ "gitlab.com".toList).all (!isBlank ·) := by decide
      have hnot : (!isBlank c) = true := List.all_eq_true.mp hnames c hin
      rw [hb] at hnot
      cases hnot

namespace Address

theorem ofUrl?_append_path (ha : ofUrl? url = some a) (hp : a.path ≠ []) (s : List Char) :
    ofUrl? (url ++ s) = some { a with path := a.path ++ s } := by
  obtain ⟨rfl, h⟩ := ofUrl?_eq_some.mp ha
  refine ofUrl?_eq_some.mpr ⟨?_, h.slash, h.host, ?_⟩
  · rw [text, List.append_assoc, List.append_assoc]
    rfl
  · obtain ⟨c, r, hr⟩ := List.exists_cons_of_ne_nil hp
    have := h.path
    rw [hr] at this
    show Ends _ (a.path ++ s)
    rw [hr]
    exact Ends.cons (p := (· != '/')) (this c rfl) _

theorem ofUrl?_append_host (ha : ofUrl? url = some a) (hu : a.userInfo = none) (hp : a.path = [])
    {s : List Char} (hslash : '/' ∉ s) (hat : '@' ∉ s) :
    ofUrl? (url ++ s) = some ⟨none, a.host ++ s, []⟩ := by
  obtain ⟨rfl, h⟩ := ofUrl?_eq_some.mp ha
  have hs := h.slash
  rw [authority, hu] at hs
  refine ofUrl?_eq_some.mpr ⟨?_, ?_, ?_, Ends.nil _⟩
  · simp [text, authority, hu, hp]
  · exact fun hm => (List.mem_append.mp hm).elim hs hslash
  · exact fun hm => (List.mem_append.mp hm).elim h.host hat

end Address

theorem Embeds.secure (h : Embeds token (withToken token url)) : secureScheme <+: url := by
  by_cases htakes : TakesToken url
  · obtain ⟨a, ha, _⟩ := htakes
    exact ⟨_, (Address.ofUrl?_eq_some.mp ha).1.symm⟩
  · rw [withToken_of_not_takes fun h => htakes h.2] at h
    obtain ⟨user, _, rest, he⟩ := h
    exact ⟨_, (login_append ..).symm.trans he⟩

theorem not_embeds_of_letter (ha : Address.ofUrl? url = some a) (hu : a.userInfo = none) {c : Char}
    {r : List Char} (hhost : a.host = c :: r) (hc : c.toLower = 'g') : ¬ Embeds token url := by
  rintro ⟨user, hm, rest, he⟩
  rw [(Address.ofUrl?_eq_some.mp ha).1, login_append, Address.text, Address.authority, hu, hhost] at he
  have hletter : ∀ user ∈ tokenUsers, user ≠ [] ∧ user.head?.map Char.toLower ≠ some 'g' := by decide
  have hhead := congrArg List.head? (List.append_cancel_left he)
  obtain ⟨hne, hg⟩ := hletter user hm
  cases user with
  | nil => exact hne rfl
  | cons x user =>
      cases hhead
      exact hg (congrArg some hc)

theorem embeds_iff (ht : token ≠ []) (ha : Address.ofUrl? (trim url) = some a)
    (hu : a.userInfo = none) (hk : IsKnownHost a.host) : Embeds token (withToken token url) ↔
      trimLeft url = url ∧ (a.path ≠ [] ∨ trimRight url = url) := by
  obtain ⟨_, after, _, hleft, _, hafter⟩ := trim_split url
  have hblank : ∀ x, isBlank x = false → x ∉ after := fun x hx hm =>
    absurd (hafter x hm) (by rw [hx]; nofun)
  constructor
  · intro h
    have hurl : trimLeft url = url := by
      obtain ⟨r, rfl⟩ := h.secure
      exact dropWhile_eq_self (Ends.cons (by decide) _)
    rw [hurl] at hleft
    refine ⟨hurl, ?_⟩
    by_contra hn
    rw [not_or, not_not] at hn
    -- the blanks behind the address have become part of its host
    have hb := Address.ofUrl?_append_host ha hu hn.1 (hblank _ (by decide)) (hblank _ (by decide))
    rw [← hleft] at hb
    by_cases hk' : IsKnownHost (a.host ++ after)
    · have hnil : after = [] := List.eq_nil_iff_forall_not_mem.mpr fun c hc =>
        hblank c (hk'.not_blank c (List.mem_append_right _ hc)) hc
      rw [hnil, List.append_nil, trim, hurl] at hleft
      exact hn.2 hleft.symm
    · have hnot : ¬ TakesToken url := by
        rintro ⟨b, hb', _, hkb⟩
        cases hb.symm.trans hb'
        exact hk' hkb
      rw [withToken_of_not_takes fun h => hnot h.2] at h
      obtain ⟨c, r, hhost, hc⟩ := hk.letter
      exact not_embeds_of_letter hb rfl (by rw [hhost, List.cons_append]) hc h
  · rintro ⟨hurl, hpath⟩
    rw [hurl] at hleft
    have hb : ∃ b, Address.ofUrl? url = some b ∧ b.userInfo = none ∧ IsKnownHost b.host := by
      rcases hpath with hpath | hright
      · have := Address.ofUrl?_append_path ha hpath after
        rw [← hleft] at this
        exact ⟨_, this, hu, hk⟩
      · rw [trim, hurl, hright] at ha
        exact ⟨a, ha, hu, hk⟩
    obtain ⟨b, hb, hub, hkb⟩ := hb
    obtain ⟨user, hm, hlogin⟩ := withToken_login ht hb hub hkb
    exact ⟨user, hm, hlogin ▸ List.prefix_append ..⟩

end SourceAtlas.Repository
