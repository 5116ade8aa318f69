import SourceAtlas.Text.Blank
import SourceAtlas.Text.Search

namespace SourceAtlas.Text

def mask : List Char := ['*', '*', '*']

def webSchemes : List (List Char) := ["https://".toList, "http://".toList]

def isUserInfoChar (c : Char) : Bool := c != '/' && c != '@' && !isBlank c

def splitUserInfo? (s : List Char) : Option (List Char × List Char) :=
  webSchemes.findSome? fun scheme =>
    (stripPrefix? scheme s).bind fun rest =>
      match rest.takeWhile isUserInfoChar, rest.dropWhile isUserInfoChar with
      | _ :: _, '@' :: after => some (scheme, after)
      | _, _ => none

theorem length_of_splitUserInfo? {s scheme after : List Char}
    (h : splitUserInfo? s = some (scheme, after)) : after.length < s.length := by
  simp only [splitUserInfo?, List.findSome?_eq_some_iff] at h
  obtain ⟨_, sc, _, _, h, _⟩ := h
  simp only [Option.bind_eq_some_iff, stripPrefix?] at h
  obtain ⟨rest, hr, h⟩ := h
  split at hr
  · cases hr
    split at h
    · next hd =>
        cases h
        have h1 := (List.dropWhile_suffix isUserInfoChar (l := s.drop scheme.length)).length_le
        rw [hd, List.length_drop, List.length_cons] at h1
        omega
    · cases h
  · cases hr

def maskUserInfo (s : List Char) : List Char :=
  match s with
  | [] => []
  | c :: r =>
      match _h : splitUserInfo? (c :: r) with
      | some (scheme, after) => scheme ++ mask ++ '@' :: maskUserInfo after
      | none => c :: maskUserInfo r
termination_by s.length
decreasing_by
  · have := length_of_splitUserInfo? _h; simpa using this
  · simp

def maskSecret (secret : Option (List Char)) (s : List Char) : List Char :=
  match secret with
  | some (k :: ks) => replaceAll (k :: ks) mask s
  | _ => s

def redact (secret : Option (List Char)) (s : List Char) : List Char :=
  maskUserInfo (maskSecret secret s)

def redactUrl (s : String) : String := String.ofList (maskUserInfo s.toList)

def redactSecret (secret : Option String) (s : String) : String :=
  String.ofList (redact (secret.map String.toList) s.toList)

def truncate (limit : Nat) (s : String) : String := String.ofList (s.toList.take limit)

end SourceAtlas.Text
