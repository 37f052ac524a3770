import Marketplace.Auth.Service
import Marketplace.Lib.Run

/-!
# The keys of the access tokens

`core/config.py` picks the keys that sign and verify access tokens out of three secrets,
`core/security.py` signs and decodes with them, and the rotation runbook says how the
secrets change. What `jose` does is a parameter, with what its documentation promises.
-/

namespace Marketplace

open Lib Err

/-! ### The settings -/

/-- `_INSECURE_JWT_DEFAULT`. -/
def insecureJwtDefault : String := "change_me_phase_3"

/-- `Settings.environment`. -/
inductive Environment
  | dev
  | test
  | prod
deriving DecidableEq, Repr

def Environment.label : Environment → String
  | dev => "dev"
  | test => "test"
  | prod => "prod"

/-- The fields of `Settings` that access tokens depend on. -/
structure Settings where
  environment : Environment := .dev
  jwtSecret : String := insecureJwtDefault
  jwtSecretPrimary : String := ""
  jwtSecretSecondary : String := ""
  jwtAlgorithm : String := "HS256"
  jwtAccessTokenExpireMinutes : ℤ := 15
deriving DecidableEq, Repr

namespace Settings

variable (s : Settings)

/-- `jwt_signing_key`. -/
def jwtSigningKey : String :=
  if s.jwtSecretPrimary ≠ "" then s.jwtSecretPrimary else s.jwtSecret

/-- The loop of `jwt_verification_keys`; `seen` holds what the list holds. -/
def collectKeys (keys : List String) : List String → List String
  | [] => keys
  | candidate :: candidates =>
    if candidate ≠ "" ∧ candidate ∉ keys then collectKeys (keys ++ [candidate]) candidates
    else collectKeys keys candidates

/-- `jwt_verification_keys`. -/
def jwtVerificationKeys : List String :=
  let keys := collectKeys [] [s.jwtSecretPrimary, s.jwtSecret, s.jwtSecretSecondary]
  if keys = [] then [s.jwtSecret] else keys

/-- `_validate_jwt_secret`: the settings, or the text of the `RuntimeError` that stops the
construction. -/
def validateJwtSecret : Except String Settings :=
  if s.jwtSecret = insecureJwtDefault then
    if s.environment = .dev ∨ s.environment = .test then .ok s
    else .error ("APP_JWT_SECRET must not equal the insecure default value '" ++
      insecureJwtDefault ++ "' in environment '" ++ s.environment.label ++
      "'. Set APP_JWT_SECRET to a strong random value before starting the application in " ++
      "production.")
  else .ok s

/-- Settings that construct in production. -/
structure Production : Prop where
  prod : s.environment = .prod
  constructs : s.validateJwtSecret = .ok s

variable {s}

/-- In production the legacy secret is not the insecure default. -/
theorem Production.jwtSecret_ne (h : s.Production) : s.jwtSecret ≠ insecureJwtDefault := by
  intro hdefault
  have hvalid := h.constructs
  rw [validateJwtSecret, if_pos hdefault, h.prod, if_neg (by decide)] at hvalid
  cases hvalid

/-- The keys collected are the old ones and the candidates that are not empty. -/
theorem mem_collectKeys {keys candidates : List String} {key : String} :
    key ∈ collectKeys keys candidates ↔ key ∈ keys ∨ key ≠ "" ∧ key ∈ candidates := by
  induction candidates generalizing keys with
  | nil => simp [collectKeys]
  | cons candidate candidates ih =>
    rw [collectKeys]
    split
    · rename_i hnew
      rw [ih, List.mem_append, List.mem_singleton, List.mem_cons, or_assoc]
      have hcandidate : key = candidate → key ≠ "" := fun h => h ▸ hnew.1
      tauto
    · rename_i hold
      rw [ih, List.mem_cons]
      have hcandidate : key ≠ "" → key = candidate → key ∈ keys := fun hne h => by
        by_contra hnot
        exact hold ⟨h ▸ hne, h ▸ hnot⟩
      tauto

/-- The secrets that are set verify. -/
theorem mem_jwtVerificationKeys_of_ne {key : String} (hne : key ≠ "")
    (hkey : key = s.jwtSecretPrimary ∨ key = s.jwtSecret ∨ key = s.jwtSecretSecondary) :
    key ∈ s.jwtVerificationKeys := by
  have hmem : key ∈ collectKeys [] [s.jwtSecretPrimary, s.jwtSecret, s.jwtSecretSecondary] :=
    mem_collectKeys.mpr (.inr ⟨hne, by simpa using hkey⟩)
  rw [jwtVerificationKeys]
  split
  · rename_i hnil
    rw [hnil] at hmem
    cases hmem
  · exact hmem

/-- A key that verifies is one of the secrets, and set if any of the first two is. -/
theorem of_mem_jwtVerificationKeys {key : String} (hkey : key ∈ s.jwtVerificationKeys)
    (hset : s.jwtSecretPrimary ≠ "" ∨ s.jwtSecret ≠ "") :
    key ≠ "" ∧ (key = s.jwtSecretPrimary ∨ key = s.jwtSecret ∨ key = s.jwtSecretSecondary) := by
  rw [jwtVerificationKeys] at hkey
  split at hkey
  · rename_i hnil
    have hempty (k : String) (hk : k = s.jwtSecretPrimary ∨ k = s.jwtSecret) (hne : k ≠ "") :
        False := by
      have hmem : k ∈ collectKeys [] [s.jwtSecretPrimary, s.jwtSecret, s.jwtSecretSecondary] :=
        mem_collectKeys.mpr (.inr ⟨hne, by simp only [List.mem_cons]; tauto⟩)
      rw [hnil] at hmem
      cases hmem
    cases hset with
    | inl h => exact (hempty _ (.inl rfl) h).elim
    | inr h => exact (hempty _ (.inr rfl) h).elim
  · obtain hkeys | ⟨hne, hmem⟩ := mem_collectKeys.mp hkey
    · cases hkeys
    · exact ⟨hne, by simpa using hmem⟩

/-- The signing key is the primary secret or the legacy one. -/
theorem jwtSigningKey_eq_or (s : Settings) :
    s.jwtSigningKey = s.jwtSecretPrimary ∨ s.jwtSigningKey = s.jwtSecret := by
  unfold jwtSigningKey
  split
  · exact .inl rfl
  · exact .inr rfl

/-- There is a signing key when one of the secrets is set. -/
theorem jwtSigningKey_ne : s.jwtSigningKey ≠ "" ↔ s.jwtSecretPrimary ≠ "" ∨ s.jwtSecret ≠ "" := by
  unfold jwtSigningKey
  split
  · rename_i h
    exact ⟨fun _ => .inl h, fun _ => h⟩
  · rename_i h
    exact ⟨.inr, fun hor => hor.resolve_left h⟩

/-- The signing key is a verification key. -/
theorem signing_mem_verification (h : s.jwtSigningKey ≠ "") :
    s.jwtSigningKey ∈ s.jwtVerificationKeys := by
  apply mem_jwtVerificationKeys_of_ne h
  cases s.jwtSigningKey_eq_or with
  | inl h => exact .inl h
  | inr h => exact .inr (.inl h)

end Settings

/-! ### Signing and decoding -/

/-- The decoded payload of a token, as `jose` hands it out. -/
structure JwtClaims where
  sub : Option Id := none
  role : Option UserRole := none
  jti : Option String := none
  exp : Option Time := none
  iat : Option Time := none
deriving DecidableEq, Repr

/-- `jose.jwt`: `encode` with a key and an algorithm, and `decode` at a time, with a key and the
allowed algorithms. An error carries the text of its exception. -/
structure Jose (Token : Type) where
  encode : AccessTokenPayload → (key algorithm : String) → Except String Token
  decode : Time → Token → (key : String) → (algorithms : List String) → Except String JwtClaims

/-- `"expired" in str(exc).lower()`. -/
def mentionsExpired (text : String) : Bool :=
  decide ("expired".toList <:+: text.toList.map Char.toLower)

variable {Token : Type}

/-- What `jose` documents: a token decodes, until it expires, with the key that signed it, to
what was signed; with any other key its signature does not verify. -/
structure Jose.Documented (jose : Jose Token) : Prop where
  accepts : ∀ {payload key algorithm token} {now : Time},
    jose.encode payload key algorithm = .ok token → now ≤ payload.exp →
      ∃ exp iat, jose.decode now token key [algorithm] =
        .ok { sub := some payload.sub, role := some payload.role, jti := some payload.jti,
              exp := some exp, iat := some iat }
  rejects : ∀ {payload key key' algorithm token} {now : Time},
    jose.encode payload key algorithm = .ok token → key' ≠ key →
      ∃ text, jose.decode now token key' [algorithm] = .error text ∧ mentionsExpired text = false

namespace Settings

variable (jose : Jose Token) (s : Settings)

/-- `create_access_token`, at the time `now`. -/
def createAccessToken (env : AuthEnv) (now : Time) (userId : Id) (role : UserRole) :
    Except String (Token × Time) :=
  let exp := now + minutes s.jwtAccessTokenExpireMinutes
  let payload := { sub := userId, role, jti := env.tokenHex, exp, iat := now }
  match jose.encode payload s.jwtSigningKey s.jwtAlgorithm with
  | .ok token => .ok (token, exp)
  | .error text => .error text

/-- The loop of `decode_access_token` over the verification keys. -/
def tryKeys (algorithm : String) (now : Time) (token : Token) : List String → Except Err JwtClaims
  | [] => .error invalidTokenError
  | key :: keys =>
    match jose.decode now token key [algorithm] with
    | .ok claims => .ok claims
    | .error text =>
      if mentionsExpired text = true then .error tokenExpired
      else tryKeys algorithm now token keys

/-- `decode_access_token`, at the time `now`. -/
def decodeAccessToken (now : Time) (token : Token) : Except Err AccessTokenPayload :=
  match tryKeys jose s.jwtAlgorithm now token s.jwtVerificationKeys with
  | .error e => .error e
  | .ok claims =>
    match claims.sub, claims.role, claims.jti, claims.exp, claims.iat with
    | some sub, some role, some jti, some exp, some iat => .ok { sub, role, jti, exp, iat }
    | _, _, _, _, _ => .error (invalidTokenError "Token payload is malformed.")

/-- The token is accepted, for the user, role and identifier that it was issued with. -/
def Accepts (now : Time) (token : Token) (payload : AccessTokenPayload) : Prop :=
  ∃ exp iat, s.decodeAccessToken jose now token = .ok { payload with exp, iat }

/-- Every unexpired token that the key signs is accepted. -/
def AcceptsKey (key : String) : Prop :=
  ∀ payload token now, jose.encode payload key s.jwtAlgorithm = .ok token → now ≤ payload.exp →
    s.Accepts jose now token payload

/-- No token that the key signs is accepted, at any time. -/
def RejectsKey (key : String) : Prop :=
  ∀ payload token now, jose.encode payload key s.jwtAlgorithm = .ok token →
    ∀ p, s.decodeAccessToken jose now token ≠ .ok p

variable {jose s}

/-- The loop passes by the keys that did not sign the token. -/
theorem tryKeys_accepts (hjose : jose.Documented) {payload : AccessTokenPayload}
    {key algorithm : String} {token : Token} {now : Time}
    (hencode : jose.encode payload key algorithm = .ok token) (hnow : now ≤ payload.exp)
    {keys : List String} (hkey : key ∈ keys) :
    ∃ exp iat, tryKeys jose algorithm now token keys =
      .ok { sub := some payload.sub, role := some payload.role, jti := some payload.jti,
            exp := some exp, iat := some iat } := by
  induction keys with
  | nil => cases hkey
  | cons k keys ih =>
    by_cases heq : k = key
    · obtain ⟨exp, iat, hdecode⟩ := hjose.accepts hencode hnow
      refine ⟨exp, iat, ?_⟩
      rw [tryKeys, heq, hdecode]
    · obtain ⟨text, hdecode, htext⟩ :
          ∃ text, jose.decode now token k [algorithm] = .error text ∧
            mentionsExpired text = false :=
        hjose.rejects hencode heq
      obtain ⟨exp, iat, hkeys⟩ := ih ((List.mem_cons.mp hkey).resolve_left (Ne.symm heq))
      refine ⟨exp, iat, ?_⟩
      rw [tryKeys, hdecode]
      simpa only [htext, Bool.false_eq_true, if_false] using hkeys

/-- A token that no key of the list signed is rejected. -/
theorem tryKeys_rejects (hjose : jose.Documented) {payload : AccessTokenPayload}
    {key algorithm : String} {token : Token} {now : Time}
    (hencode : jose.encode payload key algorithm = .ok token) {keys : List String}
    (hkey : key ∉ keys) : tryKeys jose algorithm now token keys = .error invalidTokenError := by
  induction keys with
  | nil => rfl
  | cons k keys ih =>
    have hne : k ≠ key := fun h => hkey (h ▸ List.mem_cons_self)
    obtain ⟨text, hdecode, htext⟩ :
        ∃ text, jose.decode now token k [algorithm] = .error text ∧ mentionsExpired text = false :=
      hjose.rejects hencode hne
    rw [tryKeys, hdecode]
    simpa only [htext, Bool.false_eq_true, if_false] using
      ih fun h => hkey (List.mem_cons_of_mem k h)

/-- The verification keys are the ones whose tokens are accepted. -/
theorem acceptsKey_of_mem (hjose : jose.Documented) {key : String}
    (hkey : key ∈ s.jwtVerificationKeys) : s.AcceptsKey jose key := by
  intro payload token now hencode hnow
  obtain ⟨exp, iat, hkeys⟩ := tryKeys_accepts hjose hencode hnow hkey
  refine ⟨exp, iat, ?_⟩
  rw [decodeAccessToken, hkeys]

/-- What a key outside the verification keys signed is rejected. -/
theorem rejectsKey_of_not_mem (hjose : jose.Documented) {key : String}
    (hkey : key ∉ s.jwtVerificationKeys) : s.RejectsKey jose key := by
  intro payload token now hencode p
  rw [decodeAccessToken, tryKeys_rejects hjose hencode hkey]
  intro h
  cases h

/-- What `create_access_token` issues is signed with the signing key. -/
theorem createAccessToken_ok {env : AuthEnv} {now exp : Time} {userId : Id} {role : UserRole}
    {token : Token} (h : s.createAccessToken jose env now userId role = .ok (token, exp)) :
    jose.encode { sub := userId, role, jti := env.tokenHex, exp, iat := now } s.jwtSigningKey
      s.jwtAlgorithm = .ok token := by
  unfold createAccessToken at h
  simp only at h
  split at h
  · rename_i t hencode
    cases h
    exact hencode
  · cases h

end Settings

/-! ### What is asked of the keys -/

namespace Settings

variable (jose : Jose Token) (s : Settings)

/-- No key is empty or the insecure default, and what `create_access_token` issues is accepted
until it expires. -/
structure KeySafe : Prop where
  keys : ∀ key ∈ s.jwtSigningKey :: s.jwtVerificationKeys, key ≠ "" ∧ key ≠ insecureJwtDefault
  accepts : ∀ env issuedAt now userId role token exp,
    s.createAccessToken jose env issuedAt userId role = .ok (token, exp) → now ≤ exp →
      s.Accepts jose now token { sub := userId, role, jti := env.tokenHex, exp, iat := issuedAt }

/-- One of the signing secrets is set, and the secrets that the startup check passes over are
not the insecure default. -/
structure KeysSet : Prop where
  signing : s.jwtSecretPrimary ≠ "" ∨ s.jwtSecret ≠ ""
  primary : s.jwtSecretPrimary ≠ insecureJwtDefault
  secondary : s.jwtSecretSecondary ≠ insecureJwtDefault

variable {jose s}

/-- Safe settings name their keys. -/
theorem KeySafe.keysSet (h : s.KeySafe jose) : s.KeysSet := by
  have hsigning := h.keys _ List.mem_cons_self
  refine ⟨jwtSigningKey_ne.mp hsigning.1, fun hprimary => ?_, fun hsecondary => ?_⟩
  · apply hsigning.2
    rw [jwtSigningKey, hprimary, if_pos (by decide)]
  · have hmem : s.jwtSecretSecondary ∈ s.jwtVerificationKeys :=
      mem_jwtVerificationKeys_of_ne (by rw [hsecondary]; decide) (.inr (.inr rfl))
    exact (h.keys _ (List.mem_cons_of_mem _ hmem)).2 hsecondary

/-- Settings that name their keys are safe in production. -/
theorem KeysSet.keySafe (hjose : jose.Documented) (hs : s.Production) (h : s.KeysSet) :
    s.KeySafe jose := by
  have hsigning : s.jwtSigningKey ∈ s.jwtVerificationKeys :=
    signing_mem_verification (jwtSigningKey_ne.mpr h.signing)
  refine ⟨fun key hkey => ?_, fun env issuedAt now userId role token exp hcreate hnow => ?_⟩
  · have hmem : key ∈ s.jwtVerificationKeys := by
      cases List.mem_cons.mp hkey with
      | inl heq => exact heq ▸ hsigning
      | inr hmem => exact hmem
    obtain ⟨hne, rfl | rfl | rfl⟩ := of_mem_jwtVerificationKeys hmem h.signing
    · exact ⟨hne, h.primary⟩
    · exact ⟨hne, hs.jwtSecret_ne⟩
    · exact ⟨hne, h.secondary⟩
  · exact acceptsKey_of_mem hjose hsigning _ _ _ (createAccessToken_ok hcreate) hnow

end Settings

/-! ### Rotation -/

/-- What the rotation runbook changes in the settings. -/
inductive RotationStep
  /-- Steps 1 to 4: the primary becomes the secondary, and a new key the primary. -/
  | rotate (new : String)
  /-- Steps 6 and 7: the secondary is cleared. -/
  | finish
  /-- The emergency rotation: a new primary, and no secondary. -/
  | emergency (new : String)
deriving DecidableEq, Repr

/-- The settings in force, and the signing keys that were replaced, the last one first. -/
structure Deployment where
  settings : Settings
  retired : List String := []
deriving DecidableEq, Repr

namespace RotationStep

def applyTo (s : Settings) : RotationStep → Settings
  | rotate new => { s with jwtSecretPrimary := new, jwtSecretSecondary := s.jwtSecretPrimary }
  | finish => { s with jwtSecretSecondary := "" }
  | emergency new => { s with jwtSecretPrimary := new, jwtSecretSecondary := "" }

/-- The key that the step puts in the place of the signing key. -/
def newKey : RotationStep → Option String
  | rotate new => some new
  | finish => none
  | emergency new => some new

end RotationStep

namespace Deployment

def step (d : Deployment) (r : RotationStep) : Deployment :=
  { settings := r.applyTo d.settings
    retired := match r.newKey with
      | some _ => d.settings.jwtSigningKey :: d.retired
      | none => d.retired }

/-- The new key is one that `openssl rand` has not drawn before. -/
def Fresh (d : Deployment) (r : RotationStep) : Prop :=
  ∀ new ∈ r.newKey, new ≠ "" ∧ new ∉ d.settings.jwtSigningKey :: d.retired

variable (jose : Jose Token) (d : Deployment)

/-- The tokens of the signing key are accepted, the tokens of the one before it while the
secondary is set, and once it is cleared no token of a retired key is. -/
structure RotationSafe : Prop where
  current : d.settings.AcceptsKey jose d.settings.jwtSigningKey
  previous : d.settings.jwtSecretSecondary ≠ "" →
    ∀ key ∈ d.retired.head?, d.settings.AcceptsKey jose key
  retired : d.settings.jwtSecretSecondary = "" →
    ∀ key ∈ d.retired, d.settings.RejectsKey jose key

/-- What rotations keep of the settings `s` that they start from. -/
structure Rotated (s : Settings) (d : Deployment) : Prop where
  jwtSecret : d.settings.jwtSecret = s.jwtSecret
  jwtAlgorithm : d.settings.jwtAlgorithm = s.jwtAlgorithm
  signing : d.settings.jwtSigningKey ≠ ""
  unretired : d.settings.jwtSigningKey ∉ d.retired
  retired : "" ∉ d.retired
  secondary : d.settings.jwtSecretSecondary ≠ "" →
    ∀ key ∈ d.retired.head?, key = d.settings.jwtSecretSecondary

variable {jose d} {s : Settings}

/-- The history starts with the keys of the settings. -/
theorem Rotated.start (h : s.KeysSet) : Rotated s { settings := s } where
  jwtSecret := rfl
  jwtAlgorithm := rfl
  signing := Settings.jwtSigningKey_ne.mpr h.signing
  unretired := List.not_mem_nil
  retired := List.not_mem_nil
  secondary _ key hkey := by cases hkey

/-- The signing key after a primary was set. -/
theorem jwtSigningKey_of_primary {new : String} (hnew : s.jwtSecretPrimary = new)
    (hne : new ≠ "") : s.jwtSigningKey = new := by
  rw [Settings.jwtSigningKey, hnew, if_pos hne]

/-- A fresh rotation keeps the record of the keys. -/
theorem Rotated.of_step (h : Rotated s d) {r : RotationStep} (hfresh : d.Fresh r) :
    Rotated s (d.step r) := by
  have hretired : "" ∉ d.settings.jwtSigningKey :: d.retired := fun hmem =>
    (List.mem_cons.mp hmem).elim (fun heq => h.signing heq.symm) h.retired
  cases r with
  | rotate new =>
    obtain ⟨hne, hnew⟩ := hfresh new rfl
    have hsigning : (d.step (.rotate new)).settings.jwtSigningKey = new :=
      jwtSigningKey_of_primary rfl hne
    refine ⟨h.jwtSecret, h.jwtAlgorithm, ?_, ?_, hretired, fun hset key hkey => ?_⟩
    · rwa [hsigning]
    · rwa [hsigning]
    · have hkey : d.settings.jwtSigningKey = key := Option.some.inj hkey
      rw [← hkey]
      exact jwtSigningKey_of_primary rfl hset
  | finish =>
    exact ⟨h.jwtSecret, h.jwtAlgorithm, h.signing, h.unretired, h.retired,
      fun hset => (hset rfl).elim⟩
  | emergency new =>
    obtain ⟨hne, hnew⟩ := hfresh new rfl
    have hsigning : (d.step (.emergency new)).settings.jwtSigningKey = new :=
      jwtSigningKey_of_primary rfl hne
    refine ⟨h.jwtSecret, h.jwtAlgorithm, ?_, ?_, hretired, fun hset => (hset rfl).elim⟩
    · rwa [hsigning]
    · rwa [hsigning]

/-- Fresh rotations keep the record of the keys. -/
theorem rotated_after (h : s.KeysSet) {history : List RotationStep}
    (hfresh : EachStep step Fresh { settings := s } history) :
    Rotated s (after step { settings := s } history) :=
  hfresh.invariant (fun _ _ hd hr => hd.of_step hr) (.start h)

/-- Rotations are safe unless a retired key lives on as the legacy secret. -/
theorem Rotated.safe_iff (hjose : jose.Documented) (h : Rotated s d) :
    d.RotationSafe jose ↔ (d.settings.jwtSecretSecondary = "" → s.jwtSecret ∈ d.retired →
      ∀ payload token, jose.encode payload s.jwtSecret s.jwtAlgorithm ≠ .ok token) := by
  constructor
  · intro hsafe hcleared hretired payload token hencode
    have hne : s.jwtSecret ≠ "" := fun hempty => h.retired (hempty ▸ hretired)
    have hmem : s.jwtSecret ∈ d.settings.jwtVerificationKeys :=
      Settings.mem_jwtVerificationKeys_of_ne hne (.inr (.inl h.jwtSecret.symm))
    rw [← h.jwtAlgorithm] at hencode
    obtain ⟨exp, iat, haccept⟩ :=
      Settings.acceptsKey_of_mem hjose hmem _ _ payload.exp hencode (Int.le_refl _)
    exact hsafe.retired hcleared _ hretired _ _ payload.exp hencode _ haccept
  · intro hlegacy
    refine ⟨Settings.acceptsKey_of_mem hjose (Settings.signing_mem_verification h.signing),
      fun hset key hkey => ?_, fun hcleared key hkey => ?_⟩
    · rw [h.secondary hset key hkey]
      exact Settings.acceptsKey_of_mem hjose
        (Settings.mem_jwtVerificationKeys_of_ne hset (.inr (.inr rfl)))
    · by_cases hverifies : key ∈ d.settings.jwtVerificationKeys
      · have hset : d.settings.jwtSecretPrimary ≠ "" ∨ d.settings.jwtSecret ≠ "" :=
          Settings.jwtSigningKey_ne.mp h.signing
        obtain ⟨hne, rfl | rfl | rfl⟩ := Settings.of_mem_jwtVerificationKeys hverifies hset
        · have hsigning := jwtSigningKey_of_primary (s := d.settings) rfl hne
          exact (h.unretired (by rwa [hsigning])).elim
        · rw [h.jwtSecret] at hkey
          intro payload token _ hencode
          rw [h.jwtSecret, h.jwtAlgorithm] at hencode
          exact (hlegacy hcleared hkey payload token hencode).elim
        · exact (hne hcleared).elim
      · exact Settings.rejectsKey_of_not_mem hjose hverifies

end Deployment

section Main

variable {jose : Jose Token} {s : Settings}

/-- Settings that construct in production, and every rotation history from them, are safe if and
only if a signing secret is set, no other secret than the checked one is the default, and no
retired key lives on as `jwt_secret`. -/
theorem signing_keys_safe (hjose : jose.Documented) (hs : s.Production)
    {history : List RotationStep}
    (hfresh : EachStep Deployment.step Deployment.Fresh { settings := s } history) :
    (s.KeySafe jose ∧ (after Deployment.step { settings := s } history).RotationSafe jose) ↔
      s.KeysSet ∧
        ((after Deployment.step { settings := s } history).settings.jwtSecretSecondary = "" →
          s.jwtSecret ∈ (after Deployment.step { settings := s } history).retired →
            ∀ payload token, jose.encode payload s.jwtSecret s.jwtAlgorithm ≠ .ok token) := by
  constructor
  · rintro ⟨hkeys, hrotation⟩
    have hset := hkeys.keysSet
    exact ⟨hset, ((Deployment.rotated_after hset hfresh).safe_iff hjose).mp hrotation⟩
  · rintro ⟨hset, hlegacy⟩
    exact ⟨hset.keySafe hjose hs,
      ((Deployment.rotated_after hset hfresh).safe_iff hjose).mpr hlegacy⟩

end Main

/-! ### A small signer -/

namespace Sample

/-- Tokens that carry what was signed, with the key and the algorithm. -/
def signer : Jose (AccessTokenPayload × String × String) where
  encode payload key algorithm := .ok (payload, key, algorithm)
  decode now token key algorithms :=
    if token.2.2 ∉ algorithms then .error "The specified alg value is not allowed"
    else if key ≠ token.2.1 then .error "Signature verification failed."
    else if token.1.exp < now then .error "Signature has expired."
    else .ok { sub := some token.1.sub, role := some token.1.role, jti := some token.1.jti,
               exp := some token.1.exp, iat := some token.1.iat }

/-- The sample signer behaves as the library documents. -/
theorem signer_documented : signer.Documented where
  accepts := by
    intro payload key algorithm token now hencode hnow
    cases hencode
    refine ⟨payload.exp, payload.iat, ?_⟩
    simp [signer, Int.not_lt.mpr hnow]
  rejects := by
    intro payload key key' algorithm token now hencode hne
    cases hencode
    exact ⟨"Signature verification failed.", by simp [signer, hne], by decide +kernel⟩

/-- A deployment that set a primary next to the legacy secret. -/
def secrets : Settings :=
  { environment := .prod, jwtSecret := "legacy", jwtSecretPrimary := "first" }

/-- A deployment that knows the legacy secret only. -/
def legacySecrets : Settings := { environment := .prod, jwtSecret := "legacy" }

/-- A deployment whose secrets were all cleared but the secondary. -/
def clearedSecrets : Settings :=
  { environment := .prod, jwtSecret := "", jwtSecretSecondary := "old" }

end Sample

open Sample in
/-- A rotation and its end, next to a legacy secret that signs nothing. -/
theorem signing_keys_safe_rotated :
    secrets.KeySafe signer ∧
      (after Deployment.step { settings := secrets }
        [.rotate "second", .finish]).RotationSafe signer :=
  (signing_keys_safe signer_documented ⟨rfl, by decide⟩
    (by simp only [eachStep_cons, eachStep_nil, Deployment.Fresh]; decide)).mpr
    ⟨⟨.inl (by decide), by decide, by decide⟩, fun _ hretired => absurd hretired (by decide)⟩

open Sample in
/-- Settings without a signing secret construct and sign with the empty key, which no key
verifies; and the legacy secret is accepted after the rotation that retires it has ended. -/
theorem retired_key_accepted :
    signer.Documented ∧ (clearedSecrets.Production ∧ ¬clearedSecrets.KeySafe signer) ∧
      legacySecrets.Production ∧
      EachStep Deployment.step Deployment.Fresh { settings := legacySecrets }
        [.rotate "second", .finish] ∧
      ¬(after Deployment.step { settings := legacySecrets }
        [.rotate "second", .finish]).RotationSafe signer := by
  refine ⟨signer_documented, ⟨⟨rfl, by decide⟩, fun h => ?_⟩, ⟨rfl, by decide⟩, ?_, fun h => ?_⟩
  · exact (h.keys _ List.mem_cons_self).1 rfl
  · simp only [eachStep_cons, eachStep_nil, Deployment.Fresh]
    decide
  · have hrejects := h.retired rfl "legacy" List.mem_cons_self
    let payload : AccessTokenPayload :=
      { sub := 1, role := .customer, jti := "jti", exp := 900, iat := 0 }
    exact hrejects payload (payload, "legacy", "HS256") 0 rfl payload (by decide +kernel)

end Marketplace
