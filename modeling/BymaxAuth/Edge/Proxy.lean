import BymaxAuth.Token.Jwt

/-!
# The edge proxy

`nextjs/proxy.ts` and `nextjs/jwt.ts` with the verifier they call (`jwt_edge.rs`, `bymax-auth-wasm`): the
middleware that lets a request through to a page, with headers that name the user, or refuses it.

## The model

* What the runtime gives is a parameter (`Runtime`): URLs, header values, cookies, `Number.parseInt`; and the
  primitives of the HS256 codec and the reading of claims. What `JSON.parse` reads of the claims that `serde_json`
  wrote is the claims.
* Header names are in lower case, and a name has one value, as `Headers` has it.
* The verifier and the proxy read the clock one after the other (`Clock`).
* A call that throws is a refusal (`Response.threw`).
-/

namespace BymaxAuth.Edge

open Hs256

/-! ### The runtime -/

/-- `String.prototype.startsWith` -/
def startsWith (text start : String) : Bool := start.toList.isPrefixOf text.toList

/-- `String.prototype.endsWith` -/
def endsWith (text ending : String) : Bool := ending.toList.isSuffixOf text.toList

/-- A parsed URL of the site. -/
structure Url where
  pathname : String
  /-- `search`: empty, or the query with its question mark. -/
  search : String
  /-- `searchParams` -/
  params : List (String × String)
  /-- `hash`: empty, or the fragment with its number sign. -/
  hash : String
  deriving DecidableEq

/-- `DashboardClaims` -/
structure DashboardClaims where
  /-- The user. -/
  sub : String
  /-- The token. -/
  jti : String
  tenantId : String
  role : String
  /-- The account's status. -/
  status : String
  /-- Whether the account has a second factor. -/
  mfaEnabled : Bool
  /-- Whether the session has passed it. -/
  mfaVerified : Bool
  /-- When it was issued. -/
  iat : ℤ
  /-- When it expires. -/
  exp : ℤ
  /-- The token epoch at issuance. -/
  epoch : ℕ
  /-- The issuer. -/
  iss : Option String
  /-- The audience. -/
  aud : Option String

/-- `PlatformClaims` -/
structure PlatformClaims where
  /-- The administrator. -/
  sub : String
  /-- The token. -/
  jti : String
  role : String
  /-- Whether the account has a second factor. -/
  mfaEnabled : Bool
  /-- Whether the session has passed it. -/
  mfaVerified : Bool
  /-- When it was issued. -/
  iat : ℤ
  /-- When it expires. -/
  exp : ℤ
  /-- The token epoch at issuance. -/
  epoch : ℕ
  /-- The issuer. -/
  iss : Option String
  /-- The audience. -/
  aud : Option String

/-- `MfaTempClaims` -/
structure MfaTempClaims where
  /-- The user or administrator. -/
  sub : String
  /-- The token. -/
  jti : String
  /-- The plane of the challenge. -/
  context : SessionKind
  /-- The tenant, on the dashboard plane. -/
  tenantId : Option String
  /-- The token epoch at issuance. -/
  epoch : ℕ
  /-- When it was issued. -/
  iat : ℤ
  /-- When it expires. -/
  exp : ℤ
  /-- The issuer. -/
  iss : Option String
  /-- The audience. -/
  aud : Option String

/-- How a set of claims is written and read. -/
structure Serde (C : Type) where
  /-- `serde_json::to_vec` -/
  write : C → List UInt8
  /-- `serde_json::from_slice` -/
  read : List UInt8 → Option C

/-- What the proxy's surroundings do. -/
structure Runtime where
  /-- The origin of the site. -/
  origin : String
  /-- `new URL(text, origin)`: the origin that is named, and the URL; `none` is an exception. -/
  resolve : String → Option (String × Url)
  /-- The query of a list of parameters. -/
  serialize : List (String × String) → String
  /-- The value of a cookie in a `Cookie` header. -/
  cookie : Option String → String → Option String
  /-- What `Headers.set` makes of a value; `none` is an exception. -/
  headerValue : String → Option String
  /-- `Number.parseInt(text, 10)`, if it is finite. -/
  parseInt : String → Option ℤ
  /-- What the codec is built over. -/
  primitives : Hs256.Primitives
  /-- The `type` of a payload. -/
  typeOf : List UInt8 → Option String
  /-- The dashboard's claims. -/
  dashboard : Serde DashboardClaims
  /-- The platform's claims. -/
  platform : Serde PlatformClaims
  /-- A challenge's claims. -/
  mfaTemp : Serde MfaTempClaims

variable (rt : Runtime)

/-! ### The verifier -/

/-- `AuthJwtPayload` -/
inductive Payload where
  /-- An access token of the dashboard. -/
  | dashboard (claims : DashboardClaims)
  /-- An access token of the platform. -/
  | platform (claims : PlatformClaims)
  /-- A challenge for the second factor. -/
  | mfaTemp (claims : MfaTempClaims)

namespace Payload

/-- `type` -/
def tokenType : Payload → String
  | dashboard _ => "dashboard"
  | platform _ => "platform"
  | mfaTemp _ => "mfa_challenge"

/-- `sub` -/
def sub : Payload → String
  | dashboard claims => claims.sub
  | platform claims => claims.sub
  | mfaTemp claims => claims.sub

/-- `exp` -/
def exp : Payload → ℤ
  | dashboard claims => claims.exp
  | platform claims => claims.exp
  | mfaTemp claims => claims.exp

/-- `role`, if there is one. -/
def role : Payload → Option String
  | dashboard claims => some claims.role
  | platform claims => some claims.role
  | mfaTemp _ => none

/-- `tenantId`, if there is one. -/
def tenantId : Payload → Option String
  | dashboard claims => some claims.tenantId
  | platform _ => none
  | mfaTemp claims => claims.tenantId

/-- `status`, if there is one. -/
def status : Payload → Option String
  | dashboard claims => some claims.status
  | platform _ | mfaTemp _ => none

/-- `iss`, if there is one. -/
def iss : Payload → Option String
  | dashboard claims => claims.iss
  | platform claims => claims.iss
  | mfaTemp claims => claims.iss

/-- `aud`, if there is one. -/
def aud : Payload → Option String
  | dashboard claims => claims.aud
  | platform claims => claims.aud
  | mfaTemp claims => claims.aud

end Payload

/-- `TokenKind` -/
inductive TokenKind where
  | dashboard
  | platform
  | mfaTemp

/-- `TokenKind::as_str` -/
def TokenKind.asStr : TokenKind → String
  | dashboard => "dashboard"
  | platform => "platform"
  | mfaTemp => "mfa_challenge"

/-- `peek_kind`: the type, not yet verified. -/
def peekKind (token : String) : Option TokenKind := do
  let segments ← splitSegments token
  let payload ← rt.primitives.decode segments.2.1
  match ← rt.typeOf payload with
  | "dashboard" => some .dashboard
  | "platform" => some .platform
  | "mfa_challenge" => some .mfaTemp
  | _ => none

/-- What the codec looks at in the dashboard's claims. -/
def dashboardCodec : Hs256.ClaimsCodec DashboardClaims :=
  { write := rt.dashboard.write, read := rt.dashboard.read, exp := (·.exp), iat := (·.iat), iss := (·.iss),
    aud := (·.aud) }

/-- What the codec looks at in the platform's claims. -/
def platformCodec : Hs256.ClaimsCodec PlatformClaims :=
  { write := rt.platform.write, read := rt.platform.read, exp := (·.exp), iat := (·.iat), iss := (·.iss),
    aud := (·.aud) }

/-- What the codec looks at in a challenge's claims. -/
def mfaTempCodec : Hs256.ClaimsCodec MfaTempClaims :=
  { write := rt.mfaTemp.write, read := rt.mfaTemp.read, exp := (·.exp), iat := (·.iat), iss := (·.iss),
    aud := (·.aud) }

/-- `verify_claims_json` -/
def verifyClaimsJson (token secret : String) (leewaySecs : ℕ) (now : ℤ) (expectedIss expectedAud : Option String)
    (expectedType : Option String) : Option Payload :=
  let key := textBytes secret
  let opts : Hs256.VerifyOptions := { leewaySecs, now, expectedIss, expectedAud }
  match peekKind rt token with
  | none => none
  | some kind =>
    if expectedType.any fun expected => kind.asStr ≠ expected then none
    else
      match kind with
      | .dashboard => (verify rt.primitives (dashboardCodec rt) token key opts).toOption.map .dashboard
      | .platform => (verify rt.primitives (platformCodec rt) token key opts).toOption.map .platform
      | .mfaTemp => (verify rt.primitives (mfaTempCodec rt) token key opts).toOption.map .mfaTemp

/-- `DEFAULT_EDGE_LEEWAY_SECS` -/
def defaultEdgeLeewaySecs : ℕ := 30

/-- `MAX_EDGE_LEEWAY_SECS` -/
def maxEdgeLeewaySecs : ℕ := 300

/-- `verify_jwt_hs256` -/
def verifyJwtHs256 (token secret : String) (leewaySecs : Option ℕ) (now : ℤ)
    (expectedIss expectedAud expectedType : Option String) : Option Payload :=
  verifyClaimsJson rt token secret (min (leewaySecs.getD defaultEdgeLeewaySecs) maxEdgeLeewaySecs) now expectedIss
    expectedAud expectedType

/-! ### `jwt.ts` -/

/-- `DecodedToken` -/
structure DecodedToken where
  /-- Whether it decoded or verified. -/
  isValid : Bool
  /-- Whether its signature was checked. -/
  signatureVerified : Bool
  /-- The claims. -/
  payload : Option Payload

/-- What every failure resolves to. -/
def DecodedToken.invalid : DecodedToken := ⟨false, false, none⟩

/-- `verifyJwtToken` -/
def verifyJwtToken (token : String) (secret : Option String) (issuer audience : Option String) (now : ℤ)
    (expectedType : Option String) : DecodedToken :=
  match secret with
  | none => .invalid
  | some secret =>
    if secret.isEmpty then .invalid
    else
      match verifyJwtHs256 rt token secret none now issuer audience expectedType with
      | none => .invalid
      | some payload => ⟨true, true, some payload⟩

/-- `isTokenExpired` -/
def isTokenExpired (token : DecodedToken) (now : ℤ) : Bool := token.payload.all fun payload => payload.exp ≤ now

/-- `getUserId` -/
def getUserId (token : DecodedToken) : String := token.payload.elim "" (·.sub)

/-- `getUserRole` -/
def getUserRole (token : DecodedToken) : String := (token.payload.bind (·.role)).getD ""

/-- `getTenantId` -/
def getTenantId (token : DecodedToken) : Option String := token.payload.bind (·.tenantId)

/-! ### Requests and responses -/

/-- `Headers` -/
abbrev Headers := String → Option String

/-- `NextRequest` -/
structure NextRequest where
  nextUrl : Url
  headers : Headers

/-- `request.cookies.get(name)?.value` -/
def NextRequest.cookie (request : NextRequest) (name : String) : Option String :=
  rt.cookie (request.headers "cookie") name

/-- `NextResponse` -/
inductive Response where
  /-- `NextResponse.next`: the request goes on to the page, with these headers. -/
  | next (headers : Headers)
  | redirect (location : Url)
  /-- A bare status that is not to be stored. -/
  | refused (status : ℕ)
  /-- An exception. -/
  | threw

/-- `Headers.set` -/
def Headers.set (headers : Headers) (name value : String) : Option Headers :=
  (rt.headerValue value).map fun v => Function.update headers name (some v)

/-- `Headers.set` of a value that is defined. -/
def Headers.setSome (headers : Headers) (name : String) : Option String → Option Headers
  | some value => headers.set rt name value
  | none => some headers

/-- `Headers.delete` -/
def Headers.delete (headers : Headers) (name : String) : Headers := Function.update headers name none

/-- `URLSearchParams.get` -/
def getParam (params : List (String × String)) (name : String) : Option String := params.lookup name

/-- `URLSearchParams.set`: the first of the name gets the value, and the others go. -/
def setParam (name value : String) : List (String × String) → List (String × String)
  | [] => [(name, value)]
  | (key, old) :: rest =>
    if key = name then (name, value) :: rest.filter fun param => param.1 ≠ name
    else (key, old) :: setParam name value rest

/-- `url.searchParams.set` for each of a list of parameters. -/
def Url.setParams (url : Url) (params : List (String × String)) : Url :=
  if params.isEmpty then url
  else
    let set := params.foldl (fun set param => setParam param.1 param.2 set) url.params
    { url with params := set, search := rt.serialize set }

/-! ### The configuration -/

/-- `AuthProxyRoleRule` -/
structure RoleRule where
  /-- The paths it guards. -/
  pathPrefix : String
  /-- Who may see them. -/
  roles : List String

/-- `AuthProxyConfig` -/
structure AuthProxyConfig where
  loginPath : Option String := none
  accessTokenSecret : Option String := none
  expectedIssuer : Option String := none
  expectedAudience : Option String := none
  publicPaths : Option (List String) := none
  roleRules : Option (List RoleRule) := none
  blockedStatuses : Option (List String) := none
  silentRefreshPath : Option String := none
  maxRedirects : Option ℕ := none

/-- `ResolvedAuthProxyConfig`, but for the prefix that is reserved. -/
structure ResolvedAuthProxyConfig where
  /-- Where unauthenticated users are sent. -/
  loginPath : String
  /-- The HS256 secret. -/
  accessTokenSecret : Option String
  /-- The issuer a token must name. -/
  expectedIssuer : Option String
  /-- The audience a token must name. -/
  expectedAudience : Option String
  /-- The paths that need no token. -/
  publicPaths : List String
  /-- Who may see which paths. -/
  roleRules : List RoleRule
  /-- The statuses that are kept out. -/
  blockedStatuses : List String
  /-- Where a silent refresh is tried. -/
  silentRefreshPath : String
  /-- How many bounces are tried. -/
  maxRedirects : ℕ

/-- `DEFAULT_LOGIN_PATH` -/
def defaultLoginPath : String := "/login"

/-- `DEFAULT_MAX_REDIRECTS` -/
def defaultMaxRedirects : ℕ := 3

/-- `SILENT_REFRESH_ROUTE` -/
def silentRefreshRoute : String := "/api/auth/silent-refresh"

/-- `resolveConfig` -/
def resolveConfig (config : AuthProxyConfig) : ResolvedAuthProxyConfig where
  loginPath := config.loginPath.getD defaultLoginPath
  accessTokenSecret := config.accessTokenSecret
  expectedIssuer := config.expectedIssuer
  expectedAudience := config.expectedAudience
  publicPaths := config.publicPaths.getD []
  roleRules := config.roleRules.getD []
  blockedStatuses := config.blockedStatuses.getD []
  silentRefreshPath := config.silentRefreshPath.getD silentRefreshRoute
  maxRedirects := config.maxRedirects.getD defaultMaxRedirects

/-! ### Refusals -/

/-- `FORBIDDEN_IN_PATH` -/
def isForbiddenInPath (c : Char) : Bool := c.toNat ≤ 0x1f || c.toNat = 0x7f

/-- `toSameOriginPath` -/
def toSameOriginPath (path : String) : String :=
  if !startsWith path "/" then "/"
  else if startsWith path "//" || startsWith path "/\\" then "/"
  else if path.toList.any isForbiddenInPath then "/"
  else path

/-- `resolveSafeDestination` -/
def resolveSafeDestination (raw : Option String) (loginPath : String) : String :=
  match raw with
  | none => loginPath
  | some raw =>
    if raw.isEmpty then loginPath
    else if !startsWith raw "/" || startsWith raw "//" || startsWith raw "/\\" then loginPath
    else
      match rt.resolve raw with
      | none => loginPath
      | some (origin, candidate) =>
        if origin ≠ rt.origin then loginPath
        else
          let resolved := candidate.pathname ++ candidate.search ++ candidate.hash
          if toSameOriginPath resolved = resolved then resolved else loginPath

/-- `redirectToPath` -/
def redirectToPath (path : String) (params : List (String × String)) : Response :=
  match rt.resolve (toSameOriginPath path) with
  | none => .threw
  | some (_, url) => .redirect (url.setParams rt params)

/-- `isBackgroundRequest`: every signal is a header the client may forge. -/
def isBackgroundRequest (request : NextRequest) : Bool :=
  request.headers "rsc" = some "1" || request.headers "next-router-prefetch" = some "1" ||
    (request.headers "next-router-state-tree").any (fun stateTree => !stateTree.isEmpty) ||
    ((request.headers "purpose").or ((request.headers "x-purpose").or (request.headers "x-moz"))) = some "prefetch" ||
    (request.headers "sec-purpose").any fun secPurpose => "prefetch".toList <:+: secPurpose.toList

/-- `redirectToLogin`: a background request is refused with a status. -/
def redirectToLogin (request : NextRequest) (loginPath reason : String) : Response :=
  if isBackgroundRequest request then .refused 403
  else
    redirectToPath rt loginPath
      [("reason", reason), ("redirectTo",
          resolveSafeDestination rt (some (request.nextUrl.pathname ++ request.nextUrl.search)) loginPath)]

/-- `REDIRECT_COUNT_PARAM` -/
def redirectCountParam : String := "_r"

/-- `redirectCount` -/
def redirectCount (request : NextRequest) : ℕ :=
  match getParam request.nextUrl.params redirectCountParam with
  | none => 0
  | some raw => ((rt.parseInt raw).getD 0).toNat

/-- Whether the request carries the `has_session` signal. -/
def hasSession (request : NextRequest) : Bool := request.cookie rt "has_session" = some "1"

/-- `handleUnauthenticated` -/
def handleUnauthenticated (request : NextRequest) (config : ResolvedAuthProxyConfig) : Response :=
  if isBackgroundRequest request then .refused 401
  else
    let bounces := redirectCount rt request
    if hasSession rt request && bounces < config.maxRedirects then
      redirectToPath rt config.silentRefreshPath
        [("redirectTo", request.nextUrl.pathname ++ request.nextUrl.search),
          (redirectCountParam, toString (bounces + 1))]
    else redirectToLogin rt request config.loginPath "expired"

/-! ### The proxy -/

/-- `stripUserHeaders` -/
def stripUserHeaders (headers : Headers) : Headers :=
  (((headers.delete "x-user-id").delete "x-user-role").delete "x-user-tenant-id").delete "x-user-status"

/-- What the headers say about the user. -/
structure User where
  id : String
  role : String
  /-- The tenant, if there is one. -/
  tenantId : Option String
  /-- The status, if there is one. -/
  status : Option String

/-- The headers of `forwardWithUserHeaders`. -/
def userHeaders (headers : Headers) (user : User) : Option Headers := do
  let headers := stripUserHeaders headers
  let headers ← headers.set rt "x-user-id" user.id
  let headers ← headers.set rt "x-user-role" user.role
  let headers ← headers.setSome rt "x-user-tenant-id" user.tenantId
  headers.setSome rt "x-user-status" user.status

/-- `forwardWithUserHeaders` -/
def forwardWithUserHeaders (request : NextRequest) (user : User) : Response :=
  match userHeaders rt request.headers user with
  | some headers => .next headers
  | none => .threw

/-- `isPublicPath`: the prefix ends at a segment boundary. -/
def isPublicPath (pathname : String) (publicPaths : List String) : Bool :=
  publicPaths.any fun start =>
    pathname = start || startsWith pathname (if endsWith start "/" then start else start ++ "/")

/-- `ACCESS_TOKEN_TYPES` -/
def accessTokenTypes : List String := ["dashboard", "platform"]

/-- `isAccessToken` -/
def isAccessToken (token : DecodedToken) : Bool :=
  token.payload.any fun payload => accessTokenTypes.contains payload.tokenType

/-- The seconds the clock showed. -/
structure Clock where
  verifier : ℤ
  /-- To `isTokenExpired`, afterwards. -/
  proxy : ℤ

/-- The token of a request, verified if there is a secret to do it with. -/
def decodeAccess (config : ResolvedAuthProxyConfig) (clock : Clock) (request : NextRequest) : DecodedToken :=
  match request.cookie rt "access_token", config.accessTokenSecret with
  | some token, some secret =>
    if secret.isEmpty then .invalid
    else verifyJwtToken rt token (some secret) config.expectedIssuer config.expectedAudience clock.verifier none
  | _, _ => .invalid

/-- The middleware of `createAuthProxy`. -/
def proxy (config : ResolvedAuthProxyConfig) (clock : Clock) (request : NextRequest) : Response :=
  if isPublicPath request.nextUrl.pathname config.publicPaths then .next (stripUserHeaders request.headers)
  else
    let decoded := decodeAccess rt config clock request
    if !decoded.signatureVerified || isTokenExpired decoded clock.proxy || !isAccessToken decoded then
      handleUnauthenticated rt request config
    else
      let status := decoded.payload.bind (·.status)
      if status.any fun status => config.blockedStatuses.contains status then
        redirectToLogin rt request config.loginPath "blocked"
      else
        let role := getUserRole decoded
        let rule := config.roleRules.find? fun candidate =>
          startsWith request.nextUrl.pathname candidate.pathPrefix
        if rule.any fun rule => !rule.roles.contains role then
          redirectToLogin rt request config.loginPath "forbidden"
        else
          forwardWithUserHeaders rt request
            { id := getUserId decoded, role, tenantId := getTenantId decoded, status }

/-- `createAuthProxy` -/
def createAuthProxy (config : AuthProxyConfig) : Clock → NextRequest → Response := proxy rt (resolveConfig config)

/-! ### A site to compute with -/

namespace Demo

/-- The pairs of a query, none of whose characters is escaped. -/
def params (query : List Char) : List (String × String) :=
  (query.splitOn '&').map fun pair =>
    (.ofList (pair.takeWhile (· ≠ '=')), .ofList ((pair.dropWhile (· ≠ '=')).drop 1))

/-- A path on the site, with its query. -/
def resolve (text : String) : String × Url :=
  let search := text.toList.dropWhile (· ≠ '?')
  ("https://app.example",
    { pathname := .ofList (text.toList.takeWhile (· ≠ '?')), search := .ofList search,
      params := if search.isEmpty then [] else params (search.drop 1), hash := "" })

/-- The value of a cookie. -/
def cookie (header : Option String) (name : String) : Option String :=
  ((header.getD "").toList.splitOn ';').findSome? fun pair =>
    let pair := pair.dropWhile (· = ' ')
    if (name ++ "=").toList.isPrefixOf pair then some (.ofList (pair.drop (name.length + 1))) else none

/-- A number in decimal. -/
def parseInt (text : String) : Option ℤ :=
  if text.isEmpty || !text.toList.all Char.isDigit then none
  else some (text.toList.foldl (fun n c => 10 * n + (c.toNat - 48)) 0)

/-- The claims of a member. -/
def claims : DashboardClaims :=
  { sub := "u1", jti := "j1", tenantId := "t1", role := "MEMBER", status := "ACTIVE", mfaEnabled := false,
    mfaVerified := false, iat := 0, exp := 900, epoch := 0, iss := none, aud := none }

/-- A site whose tokens have these claims. -/
def site : Runtime where
  origin := "https://app.example"
  resolve text := some (resolve text)
  serialize params := "?" ++ "&".intercalate (params.map fun param => param.1 ++ "=" ++ param.2)
  cookie := cookie
  headerValue value := if value.toList.all fun c => 32 ≤ c.toNat && c.toNat < 127 then some value else none
  parseInt := parseInt
  primitives := Hs256.Demo.jws
  typeOf _ := some "dashboard"
  dashboard := ⟨fun _ => [], fun _ => some claims⟩
  platform := ⟨fun _ => [], fun _ => none⟩
  mfaTemp := ⟨fun _ => [], fun _ => none⟩

end Demo

end BymaxAuth.Edge
