import BymaxAuth.Edge.Proxy

/-!
# Whom the edge proxy admits

A request goes on to a page if the page is public, or if its access cookie is a verified access token that passes
the gates of the proxy. The headers that name the user are written by the proxy, from the verified claims; whatever
the caller wrote there is gone.
-/

namespace BymaxAuth.Edge

open Option

variable (rt : Runtime)

/-! ### What the verifier accepts -/

/-- The token is one the verifier accepts, with these claims: signed under the secret, and bound to the issuer
and the audience where they are configured. -/
structure Accepts (config : ResolvedAuthProxyConfig) (clock : Clock) (token secret : String) (payload : Payload) :
    Prop where
  /-- The verifier returned them. -/
  verified : verifyJwtHs256 rt token secret none clock.verifier config.expectedIssuer config.expectedAudience none =
    some payload
  /-- The tag is the one of the secret. -/
  signed : Hs256.SignedUnder rt.primitives (Hs256.textBytes secret) token
  /-- The issuer is the configured one. -/
  issuer : ∀ iss, config.expectedIssuer = some iss → payload.iss = some iss
  /-- So is the audience. -/
  audience : ∀ aud, config.expectedAudience = some aud → payload.aud = some aud

section Verifier

variable {rt} {config : ResolvedAuthProxyConfig} {clock : Clock} {token secret : String} {payload : Payload}

/-- What `verify` returns is signed and bound. -/
theorem of_verify {C : Type} {codec : Hs256.ClaimsCodec C} {key : List UInt8} {opts : Hs256.VerifyOptions} {c : C}
    (h : (Hs256.verify rt.primitives codec token key opts).toOption = some c) :
    Hs256.SignedUnder rt.primitives key token ∧ (∀ iss, opts.expectedIss = some iss → codec.iss c = some iss) ∧
      ∀ aud, opts.expectedAud = some aud → codec.aud c = some aud := by
  obtain ⟨hsigned, hadm⟩ := Hs256.verify_ok_iff.mp (Hs256.toOption_eq_some.mp h)
  have hbinding := hadm.binding
  unfold Hs256.validateBinding at hbinding
  split_ifs at hbinding with hb
  rw [Bool.and_eq_true, all_eq_true, all_eq_true] at hb
  exact ⟨hsigned, fun iss hiss => of_decide_eq_true (hb.1 iss hiss), fun aud haud => of_decide_eq_true (hb.2 aud haud)⟩

/-- What the verifier returns is accepted. -/
theorem Accepts.of_verified
    (h : verifyJwtHs256 rt token secret none clock.verifier config.expectedIssuer config.expectedAudience none =
      some payload) : Accepts rt config clock token secret payload := by
  have hverified := h
  unfold verifyJwtHs256 verifyClaimsJson at h
  cases hkind : peekKind rt token with
  | none => simp [hkind] at h
  | some kind =>
    simp only [hkind, any_none, Bool.false_eq_true, if_false] at h
    cases kind
    all_goals
      obtain ⟨claims, hv, rfl⟩ := map_eq_some_iff.mp h
      obtain ⟨hsigned, hiss, haud⟩ := of_verify hv
      exact ⟨hverified, hsigned, hiss, haud⟩

end Verifier

/-! ### Who is admitted -/

/-- The request is admitted for these claims. Of the request only the path and the cookies count. -/
structure Admits (config : ResolvedAuthProxyConfig) (clock : Clock) (pathname : String) (cookies : Option String)
    (payload : Payload) : Prop where
  /-- The access cookie is a token the verifier accepts under a secret that is not empty. -/
  token : ∃ token secret, rt.cookie cookies "access_token" = some token ∧
    config.accessTokenSecret = some secret ∧ secret ≠ "" ∧ Accepts rt config clock token secret payload
  /-- It is an access token. -/
  access : payload.tokenType = "dashboard" ∨ payload.tokenType = "platform"
  /-- It has not expired. -/
  fresh : clock.proxy < payload.exp
  /-- The account is not blocked. -/
  status : ∀ status, payload.status = some status → status ∉ config.blockedStatuses
  /-- The first rule of the path allows the role. -/
  role : ∀ rule, config.roleRules.find? (fun candidate => startsWith pathname candidate.pathPrefix) = some rule →
    payload.role.getD "" ∈ rule.roles

/-- The user of a set of claims. -/
def Payload.user (payload : Payload) : User :=
  { id := payload.sub, role := payload.role.getD "", tenantId := payload.tenantId, status := payload.status }

/-- The headers that name the user. -/
def userHeaderNames : List String := ["x-user-id", "x-user-role", "x-user-tenant-id", "x-user-status"]

/-- What such a header says of a user. -/
def User.header (user : User) (name : String) : Option String :=
  if name = "x-user-id" then some user.id
  else if name = "x-user-role" then some user.role
  else if name = "x-user-tenant-id" then user.tenantId
  else if name = "x-user-status" then user.status
  else none

section Proxy

variable {rt} {config : ResolvedAuthProxyConfig} {clock : Clock} {request : NextRequest} {headers : Headers}
  {payload : Payload}

theorem redirectToPath_ne_next (path : String) (params : List (String × String)) :
    redirectToPath rt path params ≠ .next headers := by
  unfold redirectToPath
  split <;> nofun

theorem redirectToLogin_ne_next (loginPath reason : String) :
    redirectToLogin rt request loginPath reason ≠ .next headers := by
  unfold redirectToLogin
  split_ifs
  · nofun
  · exact redirectToPath_ne_next _ _

theorem handleUnauthenticated_ne_next : handleUnauthenticated rt request config ≠ .next headers := by
  unfold handleUnauthenticated
  split_ifs
  · nofun
  · dsimp only
    split_ifs
    · exact redirectToPath_ne_next _ _
    · exact redirectToLogin_ne_next _ _

theorem forwardWithUserHeaders_eq_next {user : User} :
    forwardWithUserHeaders rt request user = .next headers ↔ userHeaders rt request.headers user = some headers := by
  unfold forwardWithUserHeaders
  cases userHeaders rt request.headers user <;> simp

/-- The token of a request is refused, or verified under the secret. -/
theorem decodeAccess_cases (rt : Runtime) (config : ResolvedAuthProxyConfig) (clock : Clock) (request : NextRequest) :
    decodeAccess rt config clock request = .invalid ∨
      ∃ payload, decodeAccess rt config clock request = ⟨true, true, some payload⟩ := by
  unfold decodeAccess
  split
  · split_ifs with hempty
    · exact .inl rfl
    · simp only [verifyJwtToken, hempty, Bool.false_eq_true, if_false]
      split
      · exact .inl rfl
      · exact .inr ⟨_, rfl⟩
  · exact .inl rfl

/-- It is verified exactly when the verifier accepts it under a secret that is not empty. -/
theorem decodeAccess_eq_iff : decodeAccess rt config clock request = ⟨true, true, some payload⟩ ↔
      ∃ token secret, rt.cookie (request.headers "cookie") "access_token" = some token ∧
        config.accessTokenSecret = some secret ∧ secret ≠ "" ∧ Accepts rt config clock token secret payload := by
  constructor
  · intro h
    unfold decodeAccess NextRequest.cookie at h
    split at h
    · next token secret htoken hsecret =>
      split_ifs at h with hempty
      · cases h
      · simp only [verifyJwtToken, hempty, Bool.false_eq_true, if_false] at h
        split at h
        · cases h
        · next found hfound =>
          cases h
          exact ⟨token, secret, htoken, hsecret, fun he => hempty (by rw [he]; rfl), .of_verified hfound⟩
    · cases h
  · rintro ⟨token, secret, htoken, hsecret, hne, haccepts⟩
    have hempty : secret.isEmpty = false := by
      rw [Bool.eq_false_iff]
      exact fun h => hne (String.isEmpty_iff.mp h)
    simp [decodeAccess, NextRequest.cookie, htoken, hsecret, verifyJwtToken, hempty, haccepts.verified]

/-- What else is asked of claims that were verified. -/
theorem admits_iff (pathname : String) {cookies : Option String}
    (htoken : ∃ token secret, rt.cookie cookies "access_token" = some token ∧
      config.accessTokenSecret = some secret ∧ secret ≠ "" ∧ Accepts rt config clock token secret payload) :
    Admits rt config clock pathname cookies payload ↔ isTokenExpired ⟨true, true, some payload⟩ clock.proxy = false ∧
        isAccessToken ⟨true, true, some payload⟩ = true ∧
        (payload.status.any fun status => config.blockedStatuses.contains status) = false ∧
        ((config.roleRules.find? fun candidate => startsWith pathname candidate.pathPrefix).any
          fun rule => !rule.roles.contains (payload.role.getD "")) = false := by
  constructor
  · rintro ⟨-, haccess, hfresh, hstatus, hrole⟩
    refine ⟨by simpa [isTokenExpired] using hfresh, by simpa [isAccessToken, accessTokenTypes] using haccess, ?_, ?_⟩
    · cases h : payload.status with
      | none => rfl
      | some status => simpa using hstatus status h
    · cases h : config.roleRules.find? fun candidate => startsWith pathname candidate.pathPrefix with
      | none => rfl
      | some rule => simpa using hrole rule h
  · rintro ⟨hfresh, haccess, hstatus, hrole⟩
    refine ⟨htoken, by simpa [isAccessToken, accessTokenTypes] using haccess, by simpa [isTokenExpired] using hfresh,
      fun status h => ?_, fun rule h => ?_⟩
    · simpa [h] using hstatus
    · simpa [h] using hrole

/-- Which requests are forwarded, and with which headers. -/
theorem proxy_next_iff : proxy rt config clock request = .next headers ↔
      (isPublicPath request.nextUrl.pathname config.publicPaths = true ∧ headers = stripUserHeaders request.headers) ∨
      (isPublicPath request.nextUrl.pathname config.publicPaths = false ∧
        ∃ payload, Admits rt config clock request.nextUrl.pathname (request.headers "cookie") payload ∧
          userHeaders rt request.headers payload.user = some headers) := by
  unfold proxy
  cases hpublic : isPublicPath request.nextUrl.pathname config.publicPaths with
  | true => simp [eq_comm]
  | false =>
    simp only [Bool.false_eq_true, if_false, false_and, false_or, true_and]
    rcases decodeAccess_cases rt config clock request with hdec | ⟨payload, hdec⟩
    · simp only [hdec, DecodedToken.invalid, Bool.not_false, Bool.true_or, if_true]
      refine ⟨fun h => absurd h handleUnauthenticated_ne_next, ?_⟩
      rintro ⟨payload, hadmits, -⟩
      rw [decodeAccess_eq_iff.mpr hadmits.token] at hdec
      cases hdec
    · have hadmits := admits_iff request.nextUrl.pathname (decodeAccess_eq_iff.mp hdec)
      have hunique : ∀ payload', Admits rt config clock request.nextUrl.pathname (request.headers "cookie") payload' →
          payload' = payload := by
        intro payload' hadmits
        rw [decodeAccess_eq_iff.mpr hadmits.token] at hdec
        cases hdec
        rfl
      -- A gate that refuses is one the claims would have to have passed.
      have hrefused : ¬Admits rt config clock request.nextUrl.pathname (request.headers "cookie") payload →
          ¬∃ payload, Admits rt config clock request.nextUrl.pathname (request.headers "cookie") payload ∧
            userHeaders rt request.headers payload.user = some headers := by
        rintro hnot ⟨payload', h, -⟩
        exact hnot (hunique payload' h ▸ h)
      simp only [hdec, Bool.not_true, Bool.false_or, bind_some, getUserRole]
      split_ifs with hgate hblocked hforbidden
      · refine iff_of_false handleUnauthenticated_ne_next (hrefused fun h => ?_)
        obtain ⟨hfresh, haccess, -⟩ := hadmits.mp h
        simp [hfresh, haccess] at hgate
      · refine iff_of_false (redirectToLogin_ne_next _ _) (hrefused fun h => ?_)
        rw [(hadmits.mp h).2.2.1] at hblocked
        cases hblocked
      · refine iff_of_false (redirectToLogin_ne_next _ _) (hrefused fun h => ?_)
        rw [(hadmits.mp h).2.2.2] at hforbidden
        cases hforbidden
      · rw [Bool.or_eq_true, not_or, Bool.not_eq_true, Bool.not_eq_true, Bool.not_eq_false'] at hgate
        have hadmitted := hadmits.mpr
          ⟨hgate.1, hgate.2, Bool.eq_false_iff.mpr hblocked, Bool.eq_false_iff.mpr hforbidden⟩
        refine forwardWithUserHeaders_eq_next.trans ⟨fun h => ⟨payload, hadmitted, h⟩, ?_⟩
        rintro ⟨payload', h, hheaders⟩
        rwa [hunique payload' h] at hheaders

/-! ### The headers that name the user -/

variable {name : String} {out : Headers}

/-- None of them is left. -/
theorem stripUserHeaders_eq_none (hname : name ∈ userHeaderNames) (headers : Headers) :
    stripUserHeaders headers name = none := by
  simp only [userHeaderNames, List.mem_cons, List.not_mem_nil, or_false] at hname
  rcases hname with rfl | rfl | rfl | rfl <;> simp [stripUserHeaders, Headers.delete]

theorem setSome_self {value : Option String} (h : headers.setSome rt name value = some out)
    (hnone : headers name = none) : out name = value.bind rt.headerValue := by
  cases value with
  | none =>
    cases h
    exact hnone
  | some value =>
    obtain ⟨v, hv, rfl⟩ := map_eq_some_iff.mp h
    rw [Function.update_self, bind_some, hv]

theorem setSome_of_ne {other : String} {value : Option String} (h : headers.setSome rt name value = some out)
    (hne : other ≠ name) : out other = headers other := by
  cases value with
  | none =>
    cases h
    rfl
  | some value =>
    obtain ⟨v, hv, rfl⟩ := map_eq_some_iff.mp h
    exact Function.update_of_ne hne _ _

/-- Each of them is what the user's claims say. -/
theorem userHeaders_eq {user : User} (h : userHeaders rt headers user = some out) (hname : name ∈ userHeaderNames) :
    out name = (user.header name).bind rt.headerValue := by
  obtain ⟨h₁, hid, h⟩ := bind_eq_some_iff.mp h
  obtain ⟨h₂, hrole, h⟩ := bind_eq_some_iff.mp h
  obtain ⟨h₃, htenant, hstatus⟩ := bind_eq_some_iff.mp h
  have hid : (stripUserHeaders headers).setSome rt "x-user-id" (some user.id) = some h₁ := hid
  have hrole : h₁.setSome rt "x-user-role" (some user.role) = some h₂ := hrole
  have hnone := stripUserHeaders_eq_none hname headers
  simp only [userHeaderNames, List.mem_cons, List.not_mem_nil, or_false] at hname
  rcases hname with rfl | rfl | rfl | rfl
  · rw [setSome_of_ne hstatus (by decide), setSome_of_ne htenant (by decide), setSome_of_ne hrole (by decide),
      setSome_self hid hnone]
    rfl
  · rw [setSome_of_ne hstatus (by decide), setSome_of_ne htenant (by decide), setSome_self hrole]
    · rfl
    · rwa [setSome_of_ne hid (by decide)]
  · rw [setSome_of_ne hstatus (by decide), setSome_self htenant]
    · rfl
    · rwa [setSome_of_ne hrole (by decide), setSome_of_ne hid (by decide)]
  · rw [setSome_self hstatus]
    · rfl
    · rwa [setSome_of_ne htenant (by decide), setSome_of_ne hrole (by decide), setSome_of_ne hid (by decide)]

theorem setSome_isSome (headers : Headers) (name : String) (value : Option String) :
    (headers.setSome rt name value).isSome = value.all fun v => (rt.headerValue v).isSome := by
  cases value <;> simp [Headers.setSome, Headers.set]

theorem isSome_bind_const {α β : Type} {x : Option α} {f : α → Option β} {c : Bool} (h : ∀ a, (f a).isSome = c) :
    (x.bind f).isSome = (x.isSome && c) := by
  cases x <;> simp [h]

/-- Whether they can be set depends on the user alone. -/
theorem userHeaders_isSome (headers : Headers) (user : User) : (userHeaders rt headers user).isSome =
      ((rt.headerValue user.id).isSome && ((rt.headerValue user.role).isSome &&
        ((user.tenantId.all fun v => (rt.headerValue v).isSome) &&
          user.status.all fun v => (rt.headerValue v).isSome))) := by
  refine (isSome_bind_const fun h₁ => ?_).trans (congrArg (· && _) isSome_map)
  refine (isSome_bind_const fun h₂ => ?_).trans (congrArg (· && _) isSome_map)
  exact (isSome_bind_const fun h₃ => setSome_isSome h₃ _ _).trans (congrArg (· && _) (setSome_isSome h₂ _ _))

/-- The headers that mark a request as a background one. -/
def backgroundHeaderNames : List String :=
  ["rsc", "next-router-prefetch", "next-router-state-tree", "purpose", "x-purpose", "x-moz", "sec-purpose"]

/-- The requests differ at most in headers that anyone may write. -/
structure SameButForged (request request' : NextRequest) : Prop where
  /-- They ask for one page. -/
  nextUrl : request.nextUrl = request'.nextUrl
  /-- Every other header is the same. -/
  headers : ∀ name, name ∉ userHeaderNames → name ∉ backgroundHeaderNames →
    request.headers name = request'.headers name

/-- The answer to such a request has the same headers for the user. -/
theorem SameButForged.next {request' : NextRequest} (hsame : SameButForged request request')
    (h : proxy rt config clock request = .next headers) :
    ∃ headers', proxy rt config clock request' = .next headers' ∧
      ∀ name ∈ userHeaderNames, headers name = headers' name := by
  have hcookie := hsame.headers "cookie" (by decide) (by decide)
  rcases proxy_next_iff.mp h with ⟨hpublic, rfl⟩ | ⟨hpublic, payload, hadmits, huser⟩
  · refine ⟨_, proxy_next_iff.mpr (.inl ⟨hsame.nextUrl ▸ hpublic, rfl⟩), fun name hname => ?_⟩
    rw [stripUserHeaders_eq_none hname, stripUserHeaders_eq_none hname]
  · obtain ⟨headers', huser'⟩ : ∃ headers', userHeaders rt request'.headers payload.user = some headers' := by
      rw [← isSome_iff_exists, userHeaders_isSome, ← userHeaders_isSome request.headers, huser]
      rfl
    refine ⟨headers', proxy_next_iff.mpr (.inr ⟨hsame.nextUrl ▸ hpublic, payload, ?_, huser'⟩), fun name hname => ?_⟩
    · rwa [← hsame.nextUrl, ← hcookie]
    · rw [userHeaders_eq huser hname, userHeaders_eq huser' hname]

theorem SameButForged.symm {request' : NextRequest} (h : SameButForged request request') :
    SameButForged request' request :=
  ⟨h.nextUrl.symm, fun name hu hb => (h.headers name hu hb).symm⟩

end Proxy

/-- A request is forwarded only if its path is public, and then nothing names a user, or if it is admitted, and
then the headers that name the user are those of the verified claims. A request that differs in headers anyone
may write is forwarded with the same, or refused like it. -/
theorem proxy_vouches (config : AuthProxyConfig) (clock : Clock) (request : NextRequest) :
    (∀ headers, createAuthProxy rt config clock request = .next headers →
      (isPublicPath request.nextUrl.pathname (resolveConfig config).publicPaths = true ∧
        ∀ name ∈ userHeaderNames, headers name = none) ∨
      ∃ payload, Admits rt (resolveConfig config) clock request.nextUrl.pathname (request.headers "cookie") payload ∧
        ∀ name ∈ userHeaderNames, headers name = (payload.user.header name).bind rt.headerValue) ∧
    ∀ request', SameButForged request request' →
      (∃ headers headers', createAuthProxy rt config clock request = .next headers ∧
        createAuthProxy rt config clock request' = .next headers' ∧
        ∀ name ∈ userHeaderNames, headers name = headers' name) ∨
      (∀ headers, createAuthProxy rt config clock request ≠ .next headers) ∧
        ∀ headers, createAuthProxy rt config clock request' ≠ .next headers := by
  refine ⟨fun headers h => ?_, fun request' hsame => ?_⟩
  · rcases proxy_next_iff.mp h with ⟨hpublic, rfl⟩ | ⟨-, payload, hadmits, huser⟩
    · exact .inl ⟨hpublic, fun name hname => stripUserHeaders_eq_none hname _⟩
    · exact .inr ⟨payload, hadmits, fun name hname => userHeaders_eq huser hname⟩
  · by_cases h : ∃ headers, createAuthProxy rt config clock request = .next headers
    · obtain ⟨headers, h⟩ := h
      obtain ⟨headers', h', hnames⟩ := hsame.next h
      exact .inl ⟨headers, headers', h, h', hnames⟩
    · refine .inr ⟨fun headers hn => h ⟨headers, hn⟩, fun headers hn => h ?_⟩
      obtain ⟨headers', h', -⟩ := hsame.symm.next hn
      exact ⟨headers', h'⟩

end BymaxAuth.Edge
