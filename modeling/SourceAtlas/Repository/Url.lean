import SourceAtlas.Rejection
import SourceAtlas.Text.Redact

namespace SourceAtlas.Repository

def schemes : List (List Char) :=
  ["git@".toList, "https://".toList, "http://".toList, "ssh://".toList]

def isAccepted (url : List Char) : Bool :=
  schemes.any (·.isPrefixOf url) && !url.any Text.isBlank

def checkUrl (url : String) : Except Rejection Unit :=
  let u := Text.trim url.toList
  if u.isEmpty then .error .emptyRepositoryUrl
  else if isAccepted u then .ok ()
  else .error (.unsupportedRepositoryUrl (String.ofList u))

def secureScheme : List Char := "https://".toList

def authority (rest : List Char) : List Char := rest.takeWhile (· != '/')

def tokenUser? (host : List Char) : Option (List Char) :=
  let h := host.map Char.toLower
  if h == "github.com".toList then some "x-access-token".toList
  else if h == "gitlab.com".toList then some "oauth2".toList
  else none

/-- The address with the token in it; unchanged if it already names a user or the host is another. -/
def withToken (token : List Char) (url : List Char) : List Char :=
  match token, Text.stripPrefix? secureScheme url with
  | _ :: _, some rest =>
      if (authority rest).contains '@' then url
      else match tokenUser? (authority rest) with
        | some user => secureScheme ++ user ++ ':' :: token ++ '@' :: rest
        | none => url
  | _, _ => url

def authenticated (token : Option String) (url : String) : String :=
  match token with
  | some t => String.ofList (withToken t.toList url.toList)
  | none => url

end SourceAtlas.Repository
