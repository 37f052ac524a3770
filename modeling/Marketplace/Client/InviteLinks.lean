import Marketplace.Lib.Uri
import Marketplace.Database
import Marketplace.Wire.Messages

/-!
# Invite links

`invite_link.dart` and `_build_invite_response` build links from a base URL, `_extractInviteToken`
takes the token out of one. It only looks at the first two segments of the path, so that of the
links to a public base those of the app are recognised where the base has neither a path nor a
fragment, and those of the server are not recognised at all.
-/

namespace Marketplace

open Lib

/-! ### `Uri` -/

/-- The bytes of an escaped text. -/
def unescape : List Char → Option Bytes
  | '%' :: high :: low :: rest => do
    let h ← Uri.hexValue high
    let l ← Uri.hexValue low
    return UInt8.ofNat (16 * h + l) :: (← unescape rest)
  | '%' :: _ => none
  | c :: rest => do
    guard (c.toNat ≤ 127)
    return UInt8.ofNat c.toNat :: (← unescape rest)
  | [] => some []

/-- `Uri.decodeComponent`: `none` where it throws. -/
def decodeComponent (text : List Char) : Option String :=
  if text.all fun c => c.toNat ≤ 127 ∧ c ≠ '%' then some (String.ofList text)
  else (unescape text).bind utf8Decode

/-- `Uri`. -/
structure ParsedUri where
  scheme : String
  host : String
  path : List Char
deriving DecidableEq, Repr

namespace ParsedUri

/-- The host of an authority. -/
def hostOf (authority : List Char) : List Char :=
  let hostAndPort :=
    match authority.dropWhile (· ≠ '@') with
    | _ :: rest => rest
    | [] => authority
  match hostAndPort with
  | '[' :: rest => rest.takeWhile (· ≠ ']')
  | hostAndPort => (hostAndPort.takeWhile (· ≠ ':')).map Char.toLower

/-- `Uri.parse`, for a URI that has a scheme and only characters of URIs. -/
def parse (uri : String) : ParsedUri :=
  let parts := Uri.split uri.toList
  { scheme := String.ofList (parts.scheme.map Char.toLower)
    host := String.ofList (hostOf (parts.authority.getD []))
    path := Uri.removeDotSegments (Uri.normalizeEscapes parts.path) }

/-- `pathSegments`: `none` where it throws. -/
def pathSegments (uri : ParsedUri) : Option (List String) :=
  (Uri.segmentsOf uri.path).mapM decodeComponent

end ParsedUri

/-! ### The links -/

/-- `_extractInviteToken`: `none` where it throws. -/
def DeepLinkHandler.extractInviteToken (uri : ParsedUri) : Option (Option String) :=
  if uri.scheme = "marketplace" ∧ uri.host = "invite" then do
    let seg ← uri.pathSegments
    return seg.head?
  else if uri.scheme = "https" ∨ uri.scheme = "http" then do
    let seg ← uri.pathSegments
    return if 2 ≤ seg.length ∧ seg[0]? = some "invite" then seg[1]? else none
  else return none

/-- A text without a slash at its end. -/
def dropSlash (text : List Char) : List Char :=
  if text.getLast? = some '/' then text.dropLast else text

/-- `InviteLink.forToken`, of the app. -/
def InviteLink.forToken (base token : String) : String :=
  if base = "" then "marketplace://invite/" ++ token
  else String.ofList (dropSlash base.toList) ++ "/invite/" ++ token

/-- `InviteResponse`. -/
structure InviteResponse where
  id : Id
  type : InviteLinkType
  token : Option String
  roleTarget : Option UserRole
  maxUses : Option ℤ
  usedCount : ℤ
  expiresAt : Option Time
  revokedAt : Option Time
  createdAt : Time
  inviteUrl : Option String
deriving DecidableEq, Repr

/-- The text, if it is there and not empty. -/
def given (text : Option String) : Option String := text.filter (· ≠ "")

/-- `_build_invite_response`. -/
def buildInviteResponse (invite : InviteLink) (tokenPlaintext frontendBaseUrl : Option String) :
    InviteResponse :=
  { id := invite.id, type := invite.type, token := tokenPlaintext, roleTarget := invite.roleTarget,
    maxUses := invite.maxUses, usedCount := invite.usedCount, expiresAt := invite.expiresAt,
    revokedAt := invite.revokedAt, createdAt := invite.createdAt,
    inviteUrl := do
      let base ← given frontendBaseUrl
      let token ← given tokenPlaintext
      return base ++ "/invite?token=" ++ token }

/-! ### What is to hold -/

/-- A token as `token_urlsafe` draws it. -/
structure InviteToken where
  text : String
  ne_empty : text ≠ ""
  urlSafe : ∀ c ∈ text.toList, c.isAlphanum ∨ c = '-' ∨ c = '_'

def IsSubDelim (c : Char) : Prop :=
  c ∈ ['!', '$', '&', Char.ofNat 0x27, '(', ')', '*', '+', ',', ';', '=']

instance (c : Char) : Decidable (IsSubDelim c) := inferInstanceAs (Decidable (_ ∈ _))

/-- The characters of a segment of a path. -/
def IsSegmentChar (c : Char) : Prop := Uri.IsUnreserved c ∨ IsSubDelim c ∨ c = ':' ∨ c = '@'

instance (c : Char) : Decidable (IsSegmentChar c) := inferInstanceAs (Decidable (_ ∨ _ ∨ _ ∨ _))

/-- A name, or an address in brackets. -/
def IsHost (ipv6 : List Char → Prop) (host : List Char) : Prop :=
  host ≠ [] ∧ Uri.WellFormed (fun c => Uri.IsUnreserved c ∨ IsSubDelim c) host ∨
    ∃ address, ipv6 address ∧ (∀ c ∈ address, (Uri.hexValue c).isSome ∨ c = ':' ∨ c = '.') ∧
      host = '[' :: address ++ [']']

/-- `[userinfo "@"] host [":" port]`. -/
def IsAuthority (ipv6 : List Char → Prop) (authority : List Char) : Prop :=
  ∃ userInfo host port, authority = userInfo ++ (host ++ port) ∧
    (userInfo = [] ∨ ∃ user, userInfo = user ++ ['@'] ∧
      Uri.WellFormed (fun c => Uri.IsUnreserved c ∨ IsSubDelim c ∨ c = ':') user) ∧
    IsHost ipv6 host ∧
    (port = [] ∨ ∃ digits, port = ':' :: digits ∧ digits.length ≤ 5 ∧ ∀ c ∈ digits, c.isDigit)

/-- An absolute URL of the web, with or without a path and a fragment; `ipv6` tells which texts are
addresses. -/
structure BaseUrl (ipv6 : List Char → Prop) where
  scheme : List Char
  authority : List Char
  path : List Char
  fragment : Option (List Char)
  isWeb : String.ofList (scheme.map Char.toLower) = "https" ∨
    String.ofList (scheme.map Char.toLower) = "http"
  isAuthority : IsAuthority ipv6 authority
  isRooted : Uri.Rooted path
  isPath : Uri.WellFormed (fun c => IsSegmentChar c ∨ c = '/') path
  isFragment : ∀ f ∈ fragment, Uri.WellFormed (fun c => IsSegmentChar c ∨ c = '/' ∨ c = '?') f

namespace BaseUrl

variable {ipv6 : List Char → Prop} (b : BaseUrl ipv6)

/-- A URL of the same site. -/
def site (path : List Char) (query fragment : Option (List Char)) : String :=
  String.ofList
    (Uri.Parts.text { scheme := b.scheme, authority := some b.authority, path, query, fragment })

def text : String := b.site b.path none b.fragment

/-- The path of the base itself is the one of a link. -/
def IsLinkOf (token : String) : Prop :=
  ∃ segs, (ParsedUri.parse b.text).pathSegments = some segs ∧ ["invite", token] <+: segs

/-- The links of the app are recognised. -/
def RecognisedOfApp (token : String) : Prop :=
  match b.fragment with
  | none => ∃ segs, (Uri.resolved (dropSlash b.path)).mapM decodeComponent = some segs ∧
      (segs = [] ∨ segs = ["invite"] ∧ token = "invite" ∨ ["invite", token] <+: segs)
  | some _ => b.IsLinkOf token

/-- The links of the server are recognised. -/
def RecognisedOfServer (token : String) : Prop :=
  match b.fragment with
  | none => ∃ segs, (Uri.resolved b.path).mapM decodeComponent = some segs ∧
      (segs = ["invite"] ∧ token = "invite" ∨ ["invite", token] <+: segs)
  | some _ => b.IsLinkOf token

end BaseUrl

/-- The link of the app, and that of the server if there is one, lead back to the token. -/
structure RoundTrips {ipv6 : List Char → Prop} (base : Option (BaseUrl ipv6)) (invite : InviteLink)
    (token : InviteToken) : Prop where
  ofApp : DeepLinkHandler.extractInviteToken
    (ParsedUri.parse (InviteLink.forToken (base.elim "" BaseUrl.text) token.text)) =
      some (some token.text)
  ofServer : ∀ link ∈
    (buildInviteResponse invite (some token.text) (base.map BaseUrl.text)).inviteUrl,
      DeepLinkHandler.extractInviteToken (ParsedUri.parse link) = some (some token.text)

/-! ### Texts -/

/-- Dropping a trailing slash leaves what stands before the end. -/
theorem dropSlash_append {front : List Char} (hlast : front.getLast? ≠ some '/')
    (cs : List Char) : dropSlash (front ++ cs) = front ++ dropSlash cs := by
  cases cs with
  | nil =>
    rw [List.append_nil, dropSlash, if_neg hlast]
    simp [dropSlash]
  | cons c cs =>
    have hcs : c :: cs ≠ [] := List.cons_ne_nil c cs
    rw [dropSlash, dropSlash, List.getLast?_append_of_ne_nil _ hcs,
      List.dropLast_append_of_ne_nil hcs]
    split
    · rfl
    · rfl

/-- What is left keeps its form. -/
theorem dropSlash_wellFormed {allowed : Char → Prop} {cs : List Char}
    (h : Uri.WellFormed allowed cs) :
    Uri.WellFormed allowed (dropSlash cs) := by
  unfold dropSlash
  split
  · next hlast =>
    have hcs : cs.dropLast ++ ['/'] = cs := List.dropLast_append_getLast? '/' hlast
    exact Uri.WellFormed.of_concat (c := '/') (by decide) (hcs.symm ▸ h)
  · exact h

/-- A rooted path stays rooted. -/
theorem dropSlash_rooted {cs : List Char} (h : Uri.Rooted cs) : Uri.Rooted (dropSlash cs) := by
  unfold dropSlash
  split
  · cases cs with
    | nil => exact h
    | cons c cs =>
      cases cs with
      | nil => nofun
      | cons d cs => exact h
  · exact h

/-- A plain text decodes to itself. -/
theorem decodeComponent_plain {text : List Char} (h : ∀ c ∈ text, c.toNat ≤ 127 ∧ c ≠ '%') :
    decodeComponent text = some (String.ofList text) :=
  if_pos (List.all_eq_true.mpr fun c hc => decide_eq_true (h c hc))

/-- No path contains what ends one. -/
theorem not_mem_path {path : List Char}
    (hpath : Uri.WellFormed (fun c => IsSegmentChar c ∨ c = '/') path) {c : Char}
    (hc : c ∈ ['?', '#']) : c ∉ path := by
  obtain ⟨hpercent, hhex, hchar⟩ : c ≠ '%' ∧ Uri.hexValue c = none ∧
      ¬((Uri.IsUnreserved c ∨ IsSubDelim c ∨ c = ':' ∨ c = '@') ∨ c = '/') := by
    simp only [List.mem_cons, List.not_mem_nil, or_false] at hc
    rcases hc with rfl | rfl
    · decide
    · decide
  exact hpath.not_mem hpercent hhex hchar

namespace InviteToken

variable (token : InviteToken)

/-- A token's characters are ASCII. -/
theorem toNat_le {c : Char} (hc : c ∈ token.text.toList) : c.toNat ≤ 127 := by
  rcases token.urlSafe c hc with h | rfl | rfl
  · change (decide (c.val ≥ 'A'.val ∧ c.val ≤ 'Z'.val) || c.val ≥ 'a'.val && c.val ≤ 'z'.val ||
      c.val ≥ '0'.val && c.val ≤ '9'.val) = true at h
    simp [UInt32.le_iff_toNat_le] at h
    have hval : c.toNat = c.val.toNat := rfl
    omega
  · decide
  · decide

/-- A token has letters, digits, hyphens and underscores only. -/
theorem not_mem {c : Char} (halphanum : c.isAlphanum = false) (hc : c ≠ '-' ∧ c ≠ '_') :
    c ∉ token.text.toList := by
  rintro hmem
  rcases token.urlSafe c hmem with h | h | h
  · exact absurd (halphanum.symm.trans h) (by decide)
  · exact hc.1 h
  · exact hc.2 h

/-- A token needs no escaping in a path. -/
theorem plain : Uri.Plain token.text.toList where
  ne_nil h := token.ne_empty (String.toList_eq_nil_iff.mp h)
  not_dot h := by
    have hdot : '.' ∈ token.text.toList := by
      rcases h with h | h
      · rw [h]
        exact List.mem_cons_self
      · rw [h]
        exact List.mem_cons_self
    exact token.not_mem (by decide) (by decide) hdot
  slash := token.not_mem (by decide) (by decide)
  percent := token.not_mem (by decide) (by decide)

/-- A token ends neither the path nor the query. -/
theorem clean : ∀ c ∈ token.text.toList, c ∉ ['?', '#'] := by
  rintro c hmem hc
  rcases List.mem_cons.mp hc with rfl | hc
  · exact token.not_mem (by decide) (by decide) hmem
  · obtain rfl := List.mem_singleton.mp hc
    exact token.not_mem (by decide) (by decide) hmem

/-- A token decodes to itself. -/
theorem decode : decodeComponent token.text.toList = some token.text := by
  rw [decodeComponent_plain, String.ofList_toList]
  rintro c hc
  refine ⟨token.toNat_le hc, ?_⟩
  rintro rfl
  exact token.plain.percent hc

end InviteToken

/-! ### The parts of the links -/

namespace BaseUrl

variable {ipv6 : List Char → Prop} (b : BaseUrl ipv6)

/-- The scheme is `https` or `http` in any case. -/
theorem scheme_lower : b.scheme.map Char.toLower = ['h', 't', 't', 'p', 's'] ∨
    b.scheme.map Char.toLower = ['h', 't', 't', 'p'] := by
  refine b.isWeb.imp (fun h => ?_) fun h => ?_
  · rw [← String.toList_ofList (l := b.scheme.map Char.toLower), h]
    decide
  · rw [← String.toList_ofList (l := b.scheme.map Char.toLower), h]
    decide

/-- The scheme has no delimiter in it. -/
theorem not_mem_scheme {c : Char} (hc : c ∈ [':', '/', '?', '#']) : c ∉ b.scheme := by
  rintro hmem
  have hlower : c.toLower ∈ b.scheme.map Char.toLower := List.mem_map_of_mem hmem
  have hnot : c.toLower ∉ ['h', 't', 't', 'p', 's'] := by
    simp only [List.mem_cons, List.not_mem_nil, or_false] at hc
    rcases hc with rfl | rfl | rfl | rfl
    · decide
    · decide
    · decide
    · decide
  rcases b.scheme_lower with h | h
  · exact hnot (h ▸ hlower)
  · exact hnot (List.mem_append_left ['s'] (h ▸ hlower : c.toLower ∈ ['h', 't', 't', 'p']))

/-- No authority contains what ends one. -/
theorem not_mem_authority {c : Char} (hc : c ∈ ['/', '?', '#']) : c ∉ b.authority := by
  obtain ⟨userInfo, host, port, hauthority, huserInfo, hhost, hport⟩ := b.isAuthority
  obtain ⟨hpercent, hhex, hdigit, hunreserved, hsubDelim, hother⟩ :
    c ≠ '%' ∧ Uri.hexValue c = none ∧
      c.isDigit = false ∧ ¬Uri.IsUnreserved c ∧ ¬IsSubDelim c ∧ c ∉ ['@', ':', '.', '[', ']'] := by
    simp only [List.mem_cons, List.not_mem_nil, or_false] at hc
    rcases hc with rfl | rfl | rfl
    · decide
    · decide
    · decide
  simp only [List.mem_cons, List.not_mem_nil, or_false, not_or] at hother
  obtain ⟨hat, hcolon, hdot, hopen, hclose⟩ := hother
  have hinUserInfo : c ∉ userInfo := by
    rcases huserInfo with rfl | ⟨user, rfl, huser⟩
    · exact List.not_mem_nil
    · rw [List.mem_append, List.mem_singleton, not_or]
      exact ⟨huser.not_mem hpercent hhex (by simp [hunreserved, hsubDelim, hcolon]), hat⟩
  have hinHost : c ∉ host := by
    rcases hhost with ⟨-, hname⟩ | ⟨address, -, haddress, rfl⟩
    · exact hname.not_mem hpercent hhex (by simp [hunreserved, hsubDelim])
    · have hinAddress : c ∉ address := by
        rintro hmem
        rcases haddress c hmem with h | h | h
        · rw [hhex] at h
          cases h
        · exact hcolon h
        · exact hdot h
      simp [hopen, hclose, hinAddress]
  have hinPort : c ∉ port := by
    rcases hport with rfl | ⟨digits, rfl, -, hdigits⟩
    · exact List.not_mem_nil
    · rw [List.mem_cons, not_or]
      refine ⟨hcolon, fun hmem => ?_⟩
      rw [hdigits c hmem] at hdigit
      cases hdigit
  rw [hauthority, List.mem_append, List.mem_append, not_or, not_or]
  exact ⟨hinUserInfo, hinHost, hinPort⟩

/-- The base URL names a host. -/
theorem authority_ne_nil : b.authority ≠ [] := by
  obtain ⟨userInfo, host, port, hauthority, -, hhost, -⟩ := b.isAuthority
  have hne : host ≠ [] := by
    rcases hhost with ⟨hne, -⟩ | ⟨address, -, -, rfl⟩
    · exact hne
    · simp
  simp [hauthority, hne]

/-- What `Uri.parse` makes of a URL of the site. -/
theorem parse_site {path : List Char} {query fragment : Option (List Char)}
    (hpath : ∀ c ∈ path, c ∉ ['?', '#']) (hroot : Uri.Rooted path) (hquery : ∀ q ∈ query, '#' ∉ q) :
    ParsedUri.parse (b.site path query fragment) =
      { scheme := String.ofList (b.scheme.map Char.toLower)
        host := String.ofList (ParsedUri.hostOf b.authority)
        path := Uri.removeDotSegments (Uri.normalizeEscapes path) } := by
  rw [ParsedUri.parse, site, String.toList_ofList, Uri.split_text]
  · rfl
  · exact {
      scheme := fun c hmem hc => b.not_mem_scheme hc hmem
      authority := ⟨b.authority, rfl, fun c hmem hc => b.not_mem_authority hc hmem⟩
      path := hpath
      root := hroot
      query := hquery }

end BaseUrl

/-- The segment `invite` needs no escaping. -/
theorem invite_plain : Uri.Plain "invite".toList where
  ne_nil := by decide
  not_dot := by decide
  slash := by decide
  percent := by decide

/-- The segment `invite` ends neither the path nor the query. -/
theorem invite_clean : ∀ c ∈ "invite".toList, c ∉ ['?', '#'] := by
  simp

/-- The segment `invite` decodes to itself. -/
theorem decodeComponent_invite : decodeComponent "invite".toList = some "invite" := by
  decide +kernel

/-- The token of a URL of the web. -/
theorem extractInviteToken_web {uri : ParsedUri} (hweb : uri.scheme = "https" ∨ uri.scheme = "http")
    (token : String) : DeepLinkHandler.extractInviteToken uri = some (some token) ↔
      ∃ segs, uri.pathSegments = some segs ∧ ["invite", token] <+: segs := by
  have hscheme : ¬(uri.scheme = "marketplace" ∧ uri.host = "invite") := by
    rintro ⟨h, -⟩
    rw [h] at hweb
    exact absurd hweb (by decide)
  rw [DeepLinkHandler.extractInviteToken, if_neg hscheme, if_pos hweb]
  cases uri.pathSegments with
  | none => simp
  | some segs =>
    match segs with
    | [] => simp
    | [a] => simp
    | a :: b :: rest =>
      have hswap : a = "invite" ∧ b = token ↔ "invite" = a ∧ token = b :=
        and_congr eq_comm eq_comm
      simp [hswap]

/-- The first two segments of a path to which those of a link have been appended. -/
theorem isPrefix_append_link {segs : List String} {token : String} :
    ["invite", token] <+: segs ++ ["invite", token] ↔
      segs = [] ∨ segs = ["invite"] ∧ token = "invite" ∨ ["invite", token] <+: segs := by
  match segs with
  | [] => simp
  | [a] => simp [eq_comm]
  | a :: b :: rest => simp

/-- A path with a last segment `invite` begins with an invitation in one more case. -/
theorem isPrefix_append_invite {segs : List String} {token : String} :
    ["invite", token] <+: segs ++ ["invite"] ↔
      segs = ["invite"] ∧ token = "invite" ∨ ["invite", token] <+: segs := by
  match segs with
  | [] => simp
  | [a] => simp [eq_comm]
  | a :: b :: rest => simp

namespace BaseUrl

variable {ipv6 : List Char → Prop} (b : BaseUrl ipv6)

/-- A link whose path continues that of the base. -/
theorem extractInviteToken_append {path : List Char}
    (hpath : Uri.WellFormed (fun c => IsSegmentChar c ∨ c = '/') path) (hroot : Uri.Rooted path)
    {more : List (List Char)} {texts : List String} (hne : more ≠ [])
    (hplain : ∀ s ∈ more, Uri.Plain s) (hclean : ∀ s ∈ more, ∀ c ∈ s, c ∉ ['?', '#'])
    (htexts : more.mapM decodeComponent = some texts) {query : Option (List Char)}
    (hquery : ∀ q ∈ query, '#' ∉ q) (token : String) :
    DeepLinkHandler.extractInviteToken
        (ParsedUri.parse (b.site (path ++ '/' :: ['/'].intercalate more) query none)) =
      some (some token) ↔
    ∃ segs, (Uri.resolved path).mapM decodeComponent = some segs ∧
      ["invite", token] <+: segs ++ texts := by
  have hchars : ∀ c ∈ path ++ '/' :: ['/'].intercalate more, c ∉ ['?', '#'] := by
    rintro c hmem hc
    rcases List.mem_append.mp hmem with hmem | hmem
    · exact not_mem_path hpath hc hmem
    · rcases List.mem_cons.mp hmem with rfl | hmem
      · exact absurd hc (by decide)
      · rcases Uri.mem_intercalate hmem with rfl | ⟨s, hs, hmem⟩
        · exact absurd hc (by decide)
        · exact hclean s hs c hmem hc
  have hrooted : Uri.Rooted (path ++ '/' :: ['/'].intercalate more) := by
    cases path with
    | nil => exact fun c hc => (Option.some.inj hc).symm
    | cons d path => exact hroot
  rw [b.parse_site hchars hrooted hquery, extractInviteToken_web b.isWeb, ParsedUri.pathSegments,
    Uri.segmentsOf_append hpath hroot hne hplain, List.mapM_append, htexts]
  cases (Uri.resolved path).mapM decodeComponent with
  | none => simp
  | some segs => simp

/-- A link whose fragment continues that of the base. -/
theorem extractInviteToken_fragment (fragment : List Char) (token : String) :
    DeepLinkHandler.extractInviteToken
        (ParsedUri.parse (b.site b.path none (some fragment))) = some (some token) ↔
      b.IsLinkOf token := by
  have hchars : ∀ c ∈ b.path, c ∉ ['?', '#'] := fun c hmem hc => not_mem_path b.isPath hc hmem
  rw [IsLinkOf, text, b.parse_site hchars b.isRooted (by simp),
    b.parse_site hchars b.isRooted (by simp),
    extractInviteToken_web b.isWeb]

/-- A URL of the site up to its path. -/
def front : List Char := b.scheme ++ ':' :: '/' :: '/' :: b.authority

/-- The text of an address on the site, in its parts. -/
theorem toList_site (path : List Char) (query fragment : Option (List Char)) :
    (b.site path query fragment).toList =
      b.front ++ (path ++ (Uri.led ['?'] query ++ Uri.led ['#'] fragment)) := by
  simp [site, Uri.Parts.text, Uri.led, front]

/-- The part before the path does not end in a slash. -/
theorem getLast?_front : b.front.getLast? ≠ some '/' := by
  have hsplit : b.front = (b.scheme ++ [':', '/', '/']) ++ b.authority := by simp [front]
  rw [hsplit, List.getLast?_append_of_ne_nil _ b.authority_ne_nil]
  exact fun h => b.not_mem_authority (by decide) (List.mem_of_getLast? h)

/-- The base URL is not empty. -/
theorem text_ne_empty : b.text ≠ "" := by
  rintro h
  have hnil := congrArg String.toList h
  rw [text, toList_site] at hnil
  simp [front] at hnil

/-- The link of the app to a base without a fragment. -/
theorem forToken_path (hfragment : b.fragment = none) (token : String) :
    InviteLink.forToken b.text token =
      b.site (dropSlash b.path ++ '/' :: ['/'].intercalate ["invite".toList, token.toList]) none
        none := by
  have htext : b.text.toList = b.front ++ b.path := by
    rw [text, toList_site, hfragment]
    simp [Uri.led]
  rw [InviteLink.forToken, if_neg b.text_ne_empty]
  refine String.toList_injective ?_
  rw [toList_site, htext, dropSlash_append b.getLast?_front]
  simp [Uri.led]

/-- The link of the app to a base with a fragment. -/
theorem forToken_fragment {f : List Char} (hfragment : b.fragment = some f) (token : String) :
    InviteLink.forToken b.text token =
      b.site b.path none (some (dropSlash f ++ "/invite/".toList ++ token.toList)) := by
  have htext : b.text.toList = (b.front ++ b.path ++ ['#']) ++ f := by
    rw [text, toList_site, hfragment]
    simp [Uri.led]
  rw [InviteLink.forToken, if_neg b.text_ne_empty]
  refine String.toList_injective ?_
  rw [toList_site, htext, dropSlash_append (by simp)]
  simp [Uri.led]

/-- The link of the server to a base without a fragment. -/
theorem inviteUrl_path (hfragment : b.fragment = none) (token : String) :
    b.text ++ "/invite?token=" ++ token =
      b.site (b.path ++ '/' :: ['/'].intercalate ["invite".toList])
        (some ("token=".toList ++ token.toList)) none := by
  refine String.toList_injective ?_
  rw [String.toList_append, String.toList_append, text, toList_site, toList_site, hfragment]
  simp [Uri.led]

/-- The link of the server to a base with a fragment. -/
theorem inviteUrl_fragment {f : List Char} (hfragment : b.fragment = some f) (token : String) :
    b.text ++ "/invite?token=" ++ token =
      b.site b.path none (some (f ++ "/invite?token=".toList ++ token.toList)) := by
  refine String.toList_injective ?_
  rw [String.toList_append, String.toList_append, text, toList_site, toList_site, hfragment]
  simp [Uri.led]

/-- When the app recognises the link that it built itself. -/
theorem recognisedOfApp_iff (token : InviteToken) :
    DeepLinkHandler.extractInviteToken (ParsedUri.parse (InviteLink.forToken b.text token.text)) =
      some (some token.text) ↔ b.RecognisedOfApp token.text := by
  cases hfragment : b.fragment with
  | none =>
    have hplain : ∀ s ∈ ["invite".toList, token.text.toList], Uri.Plain s := by
      simpa using ⟨invite_plain, token.plain⟩
    have hclean : ∀ s ∈ ["invite".toList, token.text.toList], ∀ c ∈ s, c ∉ ['?', '#'] := by
      rintro s hs
      rcases List.mem_cons.mp hs with rfl | hs
      · exact invite_clean
      · exact List.mem_singleton.mp hs ▸ token.clean
    have htexts : ["invite".toList, token.text.toList].mapM decodeComponent =
        some ["invite", token.text] := by
      rw [List.mapM_cons, List.mapM_cons, decodeComponent_invite, token.decode]
      rfl
    rw [b.forToken_path hfragment, b.extractInviteToken_append (dropSlash_wellFormed b.isPath)
      (dropSlash_rooted b.isRooted) (List.cons_ne_nil _ _) hplain hclean htexts (by simp)]
    simp only [RecognisedOfApp, hfragment, isPrefix_append_link]
  | some f =>
    rw [b.forToken_fragment hfragment, b.extractInviteToken_fragment]
    simp only [RecognisedOfApp, hfragment]

/-- When the app recognises the link that the server built. -/
theorem recognisedOfServer_iff (token : InviteToken) :
    DeepLinkHandler.extractInviteToken
        (ParsedUri.parse (b.text ++ "/invite?token=" ++ token.text)) = some (some token.text) ↔
      b.RecognisedOfServer token.text := by
  cases hfragment : b.fragment with
  | none =>
    have hplain : ∀ s ∈ ["invite".toList], Uri.Plain s := by
      simpa using invite_plain
    have hclean : ∀ s ∈ ["invite".toList], ∀ c ∈ s, c ∉ ['?', '#'] := fun s hs =>
      List.mem_singleton.mp hs ▸ invite_clean
    have htexts : ["invite".toList].mapM decodeComponent = some ["invite"] := by
      rw [List.mapM_cons, decodeComponent_invite]
      rfl
    have hquery : ∀ q ∈ some ("token=".toList ++ token.text.toList), '#' ∉ q := by
      rintro q hq
      obtain rfl := Option.some.inj hq
      rw [List.mem_append, not_or]
      exact ⟨by decide, fun hmem => token.clean _ hmem (by decide)⟩
    rw [b.inviteUrl_path hfragment, b.extractInviteToken_append b.isPath b.isRooted
      (List.cons_ne_nil _ _) hplain hclean htexts hquery]
    simp only [RecognisedOfServer, hfragment, isPrefix_append_invite]
  | some f =>
    rw [b.inviteUrl_fragment hfragment, b.extractInviteToken_fragment]
    simp only [RecognisedOfServer, hfragment]

end BaseUrl

/-- At the root of a site the links of the app are recognised, and those of the server are not. -/
theorem BaseUrl.recognised_root {ipv6 : List Char → Prop} (b : BaseUrl ipv6)
    (hpath : b.path = [] ∨ b.path = ['/']) (hfragment : b.fragment = none) (token : String) :
    b.RecognisedOfApp token ∧ ¬b.RecognisedOfServer token := by
  have hdrop : dropSlash b.path = [] := by
    rcases hpath with h | h
    · rw [h]
      decide
    · rw [h]
      decide
  have hsegs : (Uri.resolved b.path).mapM decodeComponent = some [] ∨
      (Uri.resolved b.path).mapM decodeComponent = some [""] := by
    refine hpath.imp (fun h => ?_) fun h => ?_
    · rw [h]
      decide +kernel
    · rw [h]
      decide +kernel
  simp only [RecognisedOfApp, RecognisedOfServer, hfragment, hdrop]
  refine ⟨⟨[], rfl, .inl rfl⟩, ?_⟩
  rintro ⟨segs, hsome, hlink⟩
  rcases hsegs with h | h
  · obtain rfl := Option.some.inj (h.symm.trans hsome)
    simp at hlink
  · obtain rfl := Option.some.inj (h.symm.trans hsome)
    simp at hlink

/-- The link of the app without a base. -/
theorem extractInviteToken_marketplace (token : InviteToken) :
    DeepLinkHandler.extractInviteToken (ParsedUri.parse (InviteLink.forToken "" token.text)) =
      some (some token.text) := by
  have htext : (InviteLink.forToken "" token.text).toList =
      Uri.Parts.text { scheme := "marketplace".toList, authority := some "invite".toList
                       path := [] ++ '/' :: ['/'].intercalate [token.text.toList] } := by
    rw [InviteLink.forToken, if_pos rfl, String.toList_append]
    simp [Uri.Parts.text, Uri.led]
  have hparse : ParsedUri.parse (InviteLink.forToken "" token.text) =
      { scheme := "marketplace", host := "invite"
        path := Uri.removeDotSegments
          (Uri.normalizeEscapes ([] ++ '/' :: ['/'].intercalate [token.text.toList])) } := by
    rw [ParsedUri.parse, htext, Uri.split_text]
    · have hscheme : String.ofList ("marketplace".toList.map Char.toLower) = "marketplace" := by
        decide
      have hhost : String.ofList (ParsedUri.hostOf "invite".toList) = "invite" := by decide
      simp only [hscheme, Option.getD_some, hhost]
    · exact {
        scheme := by simp
        authority := ⟨_, rfl, by simp⟩
        path := by
          rw [List.nil_append, List.intercalate_singleton]
          rintro c hmem hc
          rcases List.mem_cons.mp hmem with rfl | hmem
          · exact absurd hc (by decide)
          · exact token.clean c hmem hc
        root := fun c hc => (Option.some.inj hc).symm
        query := by simp }
  have hplain : ∀ s ∈ [token.text.toList], Uri.Plain s := by simpa using token.plain
  have hsegments : Uri.segmentsOf (Uri.removeDotSegments
      (Uri.normalizeEscapes ([] ++ '/' :: ['/'].intercalate [token.text.toList]))) =
        [token.text.toList] := by
    have hempty : Uri.WellFormed IsSegmentChar [] := by simp [Uri.WellFormed]
    rw [Uri.segmentsOf_append hempty (by simp [Uri.Rooted]) (List.cons_ne_nil _ _) hplain]
    rfl
  rw [hparse, DeepLinkHandler.extractInviteToken, if_pos ⟨rfl, rfl⟩, ParsedUri.pathSegments,
    hsegments]
  simp [token.decode]

/-- A setting that is not empty counts as given. -/
theorem given_of_ne {text : String} (h : text ≠ "") : given (some text) = some text := by
  simp [given, Option.filter, h]

/-- The links lead back to the token if there is no base, or one whose links are recognised. -/
theorem invite_links_iff {ipv6 : List Char → Prop} (base : Option (BaseUrl ipv6))
    (invite : InviteLink) (token : InviteToken) : RoundTrips base invite token ↔
      ∀ b ∈ base, b.RecognisedOfApp token.text ∧ b.RecognisedOfServer token.text := by
  cases base with
  | none =>
    refine ⟨fun _ => by simp, fun _ => ⟨extractInviteToken_marketplace token, ?_⟩⟩
    simp [buildInviteResponse, given]
  | some b =>
    have hurl : (buildInviteResponse invite (some token.text) (some b.text)).inviteUrl =
        some (b.text ++ "/invite?token=" ++ token.text) := by
      simp only [buildInviteResponse, given_of_ne b.text_ne_empty, given_of_ne token.ne_empty]
      rfl
    constructor
    · rintro ⟨happ, hserver⟩ b' hb
      obtain rfl := Option.some.inj hb
      refine ⟨(b.recognisedOfApp_iff token).mp happ, (b.recognisedOfServer_iff token).mp ?_⟩
      exact hserver _ hurl
    · rintro h
      obtain ⟨happ, hserver⟩ := h b rfl
      refine ⟨(b.recognisedOfApp_iff token).mpr happ, fun link hlink => ?_⟩
      obtain rfl := Option.some.inj (hurl.symm.trans hlink)
      exact (b.recognisedOfServer_iff token).mpr hserver

namespace Sample

/-- `https://demo/app/index.html#` -/
def hashBase : BaseUrl fun _ => False where
  scheme := "https".toList
  authority := "demo".toList
  path := "/app/index.html".toList
  fragment := some []
  isWeb := .inl (by decide)
  isAuthority := ⟨[], "demo".toList, [], by decide, .inl rfl,
    .inl ⟨by decide, by simp [Uri.WellFormed]; decide⟩, .inl rfl⟩
  isRooted := by simp [Uri.Rooted]
  isPath := by simp [Uri.WellFormed]; decide
  isFragment := by simp [Uri.WellFormed]

def inviteToken : InviteToken where
  text := "Zx8"
  ne_empty := by decide
  urlSafe := by simp

def inviteLink : InviteLink where
  id := 1
  issuerId := 1
  type := .adminInvite
  token := "hash"

end Sample

/-- A link whose token is in the fragment is not recognised. -/
theorem invite_links_hash :
    ¬RoundTrips (some Sample.hashBase) Sample.inviteLink Sample.inviteToken := by
  rintro ⟨happ, -⟩
  have hlost : DeepLinkHandler.extractInviteToken
      (ParsedUri.parse "https://demo/app/index.html#/invite/Zx8") = some none := by
    decide +kernel
  have htext : InviteLink.forToken ((some Sample.hashBase).elim "" BaseUrl.text)
      Sample.inviteToken.text = "https://demo/app/index.html#/invite/Zx8" := by
    decide +kernel
  rw [htext, hlost] at happ
  cases happ

end Marketplace
