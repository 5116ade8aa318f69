import Mathlib.Data.List.Infix
import SourceAtlas.Proofs.Text.Runs
import SourceAtlas.Repository.Url

namespace SourceAtlas

namespace Repository

open Text

structure Address where
  -- up to the last `@` in front of the path
  userInfo : Option (List Char)
  host : List Char
  -- from the first slash on
  path : List Char
  deriving DecidableEq

namespace Address

def ofAuthority (authority path : List Char) : Address :=
  match authority.reverse.dropWhile (· != '@') with
  | [] => ⟨none, authority, path⟩
  | _ :: info => ⟨some info.reverse, (authority.reverse.takeWhile (· != '@')).reverse, path⟩

def ofUrl? (url : List Char) : Option Address :=
  (stripPrefix? secureScheme url).map fun rest =>
    ofAuthority (rest.takeWhile (· != '/')) (rest.dropWhile (· != '/'))

def authority (a : Address) : List Char :=
  match a.userInfo with
  | some info => info ++ '@' :: a.host
  | none => a.host

def text (a : Address) : List Char := secureScheme ++ (a.authority ++ a.path)

structure IsProper (a : Address) : Prop where
  slash : '/' ∉ a.authority
  host : '@' ∉ a.host
  path : Ends (· != '/') a.path

variable {a : Address} {url authority' path' : List Char}

theorem ofAuthority_authority (s p : List Char) : (ofAuthority s p).authority = s ∧
    '@' ∉ (ofAuthority s p).host ∧ (ofAuthority s p).path = p := by
  have hsplit := split_last_run (· != '@') s
  have hat := not_mem_takeWhile '@' s.reverse
  have hends := ends_dropWhile (· != '@') s.reverse
  unfold ofAuthority
  cases h : s.reverse.dropWhile (· != '@') with
  | nil =>
      rw [h, List.reverse_nil, List.nil_append] at hsplit
      refine ⟨rfl, ?_, rfl⟩
      rw [← hsplit]
      simpa using hat
  | cons c info =>
      obtain rfl : c = '@' := by simpa [h, Ends] using hends
      rw [h, List.reverse_cons, List.append_assoc, List.singleton_append] at hsplit
      exact ⟨hsplit, by simpa using hat, rfl⟩

theorem ofAuthority_self (h : '@' ∉ a.host) : ofAuthority a.authority a.path = a := by
  obtain ⟨_ | info, host, path⟩ := a
  all_goals have hrun := bne_of_not_mem (mt List.mem_reverse.mp h)
  · have hd := dropWhile_run hrun (Ends.nil _)
    rw [List.append_nil] at hd
    simp only [ofAuthority, authority, hd]
  · have hr : (info ++ '@' :: host).reverse = host.reverse ++ '@' :: info.reverse := by simp
    have hat : Ends (· != '@') ('@' :: info.reverse) := Ends.cons rfl _
    simp only [ofAuthority, authority, hr, dropWhile_run hrun hat, takeWhile_run hrun hat,
      List.reverse_reverse]

theorem ofUrl?_eq_some : ofUrl? url = some a ↔ url = a.text ∧ a.IsProper := by
  constructor
  · intro h
    obtain ⟨rest, hrest, rfl⟩ := Option.map_eq_some_iff.mp h
    obtain ⟨hauth, hhost, hpath⟩ :=
      ofAuthority_authority (rest.takeWhile (· != '/')) (rest.dropWhile (· != '/'))
    refine ⟨?_, ?_, hhost, ?_⟩
    · rw [text, hauth, hpath, List.takeWhile_append_dropWhile]
      exact stripPrefix?_eq_some.mp hrest
    · rw [hauth]
      exact not_mem_takeWhile '/' rest
    · rw [hpath]
      exact ends_dropWhile _ rest
  · rintro ⟨rfl, h⟩
    have hrun := bne_of_not_mem h.slash
    rw [ofUrl?, text, stripPrefix?_eq_some.mpr rfl, Option.map_some, takeWhile_run hrun h.path,
      dropWhile_run hrun h.path, ofAuthority_self h.host]

theorem exists_ofUrl? (rest : List Char) : ∃ a, ofUrl? (secureScheme ++ rest) = some a ∧
    a.authority = Repository.authority rest ∧ rest = a.authority ++ a.path := by
  obtain ⟨hauth, _, hpath⟩ :=
    ofAuthority_authority (rest.takeWhile (· != '/')) (rest.dropWhile (· != '/'))
  refine ⟨_, by rw [ofUrl?, stripPrefix?_eq_some.mpr rfl, Option.map_some], hauth, ?_⟩
  rw [hauth, hpath, List.takeWhile_append_dropWhile]

theorem userInfo_eq_none (h : '@' ∉ a.host) : a.userInfo = none ↔ '@' ∉ a.authority := by
  obtain ⟨_ | info, host, path⟩ := a
  · simpa [authority] using h
  · simp [authority]

end Address

def IsKnownHost (host : List Char) : Prop :=
  host.map Char.toLower = "github.com".toList ∨ host.map Char.toLower = "gitlab.com".toList

/-- The address of a known host that names no user. -/
def TakesToken (url : List Char) : Prop :=
  ∃ a, Address.ofUrl? url = some a ∧ a.userInfo = none ∧ IsKnownHost a.host

/-- The second address asks for what the first one asks for, of the same host, and has the token at
the end of its user info. -/
def Delivers (token url url' : List Char) : Prop :=
  ∃ a b info, Address.ofUrl? url = some a ∧ Address.ofUrl? url' = some b ∧ b.host = a.host ∧
    b.path = a.path ∧ IsKnownHost b.host ∧ b.userInfo = some info ∧ ':' :: token <:+ info

variable {token url : List Char}

def tokenUsers : List (List Char) := ["x-access-token".toList, "oauth2".toList]

theorem tokenUser?_cases (host : List Char) :
    (∃ user ∈ tokenUsers, tokenUser? host = some user ∧ IsKnownHost host) ∨
    tokenUser? host = none ∧ ¬ IsKnownHost host := by
  unfold tokenUser? IsKnownHost
  dsimp only
  by_cases hhub : host.map Char.toLower = "github.com".toList
  · rw [if_pos (by simpa using hhub)]
    exact .inl ⟨_, by simp [tokenUsers], rfl, .inl hhub⟩
  · rw [if_neg (by simpa using hhub)]
    by_cases hlab : host.map Char.toLower = "gitlab.com".toList
    · rw [if_pos (by simpa using hlab)]
      exact .inl ⟨_, by simp [tokenUsers], rfl, .inr hlab⟩
    · rw [if_neg (by simpa using hlab)]
      exact .inr ⟨rfl, fun h => h.elim hhub hlab⟩

theorem withToken_of_takes (ht : token ≠ []) {a : Address} (ha : Address.ofUrl? url = some a)
    (hu : a.userInfo = none) (hk : IsKnownHost a.host) : ∃ user ∈ tokenUsers,
      withToken token url = Address.text ⟨some (user ++ ':' :: token), a.host, a.path⟩ := by
  obtain ⟨c, token, rfl⟩ := List.exists_cons_of_ne_nil ht
  obtain ⟨rfl, hp⟩ := Address.ofUrl?_eq_some.mp ha
  have hauth : authority (a.authority ++ a.path) = a.host := by
    rw [authority, takeWhile_run (bne_of_not_mem hp.slash) hp.path, Address.authority, hu]
  obtain ⟨user, hm, huser, _⟩ := (tokenUser?_cases a.host).resolve_right fun h => h.2 hk
  refine ⟨user, hm, ?_⟩
  have hrest : stripPrefix? secureScheme a.text = some (a.authority ++ a.path) :=
    stripPrefix?_eq_some.mpr rfl
  simp only [withToken, hrest]
  rw [hauth, if_neg (by simpa using hp.host), huser]
  simp [Address.text, Address.authority, hu]

theorem withToken_of_not_takes (h : ¬ (token ≠ [] ∧ TakesToken url)) : withToken token url = url := by
  unfold withToken
  split
  · next c token rest hrest =>
      obtain rfl := stripPrefix?_eq_some.mp hrest
      obtain ⟨a, ha, hauth, _⟩ := Address.exists_ofUrl? rest
      rw [← hauth]
      split
      · rfl
      · next hat =>
          have hp := (Address.ofUrl?_eq_some.mp ha).2
          have hu : a.userInfo = none :=
            (Address.userInfo_eq_none hp.host).mpr (by simpa using hat)
          have hhost : a.authority = a.host := by rw [Address.authority, hu]
          rw [hhost]
          rcases tokenUser?_cases a.host with ⟨_, _, _, hk⟩ | ⟨hn, _⟩
          · exact absurd ⟨nofun, a, ha, hu, hk⟩ h
          · rw [hn]
  · rfl

theorem withToken_ne_iff : withToken token url ≠ url ↔ token ≠ [] ∧ TakesToken url := by
  constructor
  · exact fun h => by_contra fun hn => h (withToken_of_not_takes hn)
  · rintro ⟨ht, a, ha, hu, hk⟩ he
    obtain ⟨user, _, htext⟩ := withToken_of_takes ht ha hu hk
    have hlen := congrArg List.length (htext.symm.trans (he.trans (Address.ofUrl?_eq_some.mp ha).1))
    simp [Address.text, Address.authority, hu] at hlen
    omega

theorem delivers_withToken (ht : token ≠ []) (h : TakesToken url) (hs : '/' ∉ token) :
    Delivers token url (withToken token url) := by
  obtain ⟨a, ha, hu, hk⟩ := h
  obtain ⟨user, hm, htext⟩ := withToken_of_takes ht ha hu hk
  have hp := (Address.ofUrl?_eq_some.mp ha).2
  have huser : ∀ user ∈ tokenUsers, '/' ∉ user := by decide
  have hslash := hp.slash
  rw [Address.authority, hu] at hslash
  refine ⟨a, _, _, ha, Address.ofUrl?_eq_some.mpr ⟨htext, ?_, hp.host, hp.path⟩, rfl, rfl, hk, rfl,
    List.suffix_append ..⟩
  simp [Address.authority, huser user hm, hs, hslash]

theorem Delivers.slash {url' : List Char} (h : Delivers token url url') : '/' ∉ token := by
  obtain ⟨_, b, info, _, hb, _, _, _, hinfo, hsuf⟩ := h
  have hslash := (Address.ofUrl?_eq_some.mp hb).2.slash
  rw [Address.authority, hinfo] at hslash
  exact fun hm => hslash (List.mem_append_left _ (hsuf.subset (.tail _ hm)))

/-- A token is put just into the addresses of known hosts that name no user, and it then goes to that
host and nowhere else just if there is no slash in it. -/
theorem token_delivered (token url : String) :
    (authenticated (some token) url ≠ url ↔ token ≠ "" ∧ TakesToken url.toList) ∧
    (authenticated (some token) url = url ∨
        Delivers token.toList url.toList (authenticated (some token) url).toList ↔
      '/' ∉ token.toList ∨ ¬ TakesToken url.toList) := by
  have htext : (authenticated (some token) url).toList = withToken token.toList url.toList := by
    rw [authenticated, String.toList_ofList]
  have heq : authenticated (some token) url = url ↔ withToken token.toList url.toList = url.toList := by
    rw [← String.toList_inj, htext]
  have hempty : token.toList ≠ [] ↔ token ≠ "" := not_congr String.toList_eq_nil_iff
  rw [htext, heq, Ne, heq, ← hempty]
  refine ⟨withToken_ne_iff, ?_, ?_⟩
  · rintro (h | h)
    · by_cases ht : token.toList = []
      · rw [ht]
        exact .inl nofun
      · exact .inr fun hn => withToken_ne_iff.mpr ⟨ht, hn⟩ h
    · exact .inl h.slash
  · intro h
    by_cases ht : token.toList ≠ [] ∧ TakesToken url.toList
    · exact .inr (delivers_withToken ht.1 ht.2 (h.resolve_right (not_not_intro ht.2)))
    · exact .inl (withToken_of_not_takes ht)

theorem token_misdirected :
    authenticated (some "t@h/") "https://github.com/a" = "https://x-access-token:t@h/@github.com/a" ∧
    Address.ofUrl? "https://x-access-token:t@h/@github.com/a".toList =
      some ⟨some "x-access-token:t".toList, "h".toList, "/@github.com/a".toList⟩ ∧
    ¬ Delivers "t@h/".toList "https://github.com/a".toList
      "https://x-access-token:t@h/@github.com/a".toList := by
  refine ⟨by decide, by decide, fun h => ?_⟩
  exact absurd h.slash (by decide)

end Repository

end SourceAtlas
