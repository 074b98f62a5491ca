import Mathlib.Data.List.DropRight

/-!
# The requests of the fetch wrapper

`createAuthFetch` of `client/index.ts` is a `fetch` that adds a session to the requests of a page: a base URL, the
headers and the credentials mode of a configuration, and one refresh on a 401. This module is about what it sends; when
it sends is in `Client.AuthFetch`.

## The model

`platformFetch` is what the platform's `fetch` sends for an input and an init: the steps of the `Request` constructor
that determine the method, the headers, the body and the credentials mode. It is the caller's measure, and also what the
wrapper itself calls in the end, with a URL it has resolved and an init it has merged. Header names are in lower case. A
body is a value that can be read any number of times, or a stream, which can be read once.

Left out are the timeout and the signals, which change none of this, and the parts of a request that the wrapper hands
on as they are in the init.
-/

namespace BymaxAuth.Client

/-! ### The platform -/

/-- Headers, by name. -/
abbrev Headers := String → Option String

/-- `new Headers(pairs)`: the values of one name are joined. -/
def Headers.ofPairs (pairs : List (String × String)) : Headers := fun name =>
  match (pairs.filter fun pair => pair.1.toLower = name).map Prod.snd with
  | [] => none
  | values => some (", ".intercalate values)

/-- A body of a request. -/
inductive Body where
  /-- A value, with the content type it stands for: a text, a form, a blob. -/
  | value (content : String) (type : Option String)
  | stream (id : ℕ)
  deriving DecidableEq

/-- The content type of a body. -/
def Body.type : Body → Option String
  | value _ type => type
  | stream _ => none

/-- Whether a body can be read once only. -/
def Body.isStream : Body → Bool
  | stream _ => true
  | value .. => false

/-- A `Request` object. -/
structure Request where
  /-- Its URL, which is absolute. -/
  url : String
  method : String
  headers : Headers
  body : Option Body
  /-- Its credentials mode. -/
  credentials : String

/-- `RequestInfo | URL` -/
inductive FetchInput where
  /-- A string. -/
  | text (url : String)
  /-- A `URL` object, by its `toString()`. -/
  | urlObject (href : String)
  /-- A `Request` object. -/
  | request (request : Request)

/-- `RequestInit` -/
structure RequestInit where
  method : Option String := none
  headers : Option Headers := none
  body : Option Body := none
  credentials : Option String := none

/-- What is sent. -/
structure Sent where
  url : String
  method : String
  headers : Headers
  body : Option Body
  /-- The credentials mode. -/
  credentials : String

/-- The methods that are normalised. -/
def normalizedMethods : List String := ["DELETE", "GET", "HEAD", "OPTIONS", "POST", "PUT"]

/-- Normalising a method. -/
def normalizeMethod (method : String) : String :=
  if normalizedMethods.contains method.toUpper then method.toUpper else method

/-- The methods that `fetch` refuses. -/
def forbiddenMethods : List String := ["CONNECT", "TRACE", "TRACK"]

/-- What an input stands for when there is no init. -/
def FetchInput.base : FetchInput → Request
  | .text target | .urlObject target =>
    { url := target, method := "GET", headers := fun _ => none, body := none, credentials := "same-origin" }
  | .request carried => carried

/-- The content type that the body of an init brings, where the headers have none. -/
def RequestInit.derived (init : RequestInit) : Headers := fun name =>
  if name = "content-type" then init.body.bind Body.type else none

/-- The method of an input and an init. -/
def platformMethod (input : FetchInput) (init : RequestInit) : String :=
  (init.method.map normalizeMethod).getD input.base.method

/-- The body of an input and an init. -/
def platformBody (input : FetchInput) (init : RequestInit) : Option Body := init.body.or input.base.body

/-- The headers of an input and an init, without the content type of the body. -/
def callerHeaders (input : FetchInput) (init : RequestInit) : Headers := init.headers.getD input.base.headers

/-- What `fetch(input, init)` sends; `none` is a `TypeError`. -/
def platformFetch (input : FetchInput) (init : RequestInit) : Option Sent :=
  if init.method.any fun method => forbiddenMethods.contains method.toUpper then none
  else if (platformBody input init).isSome ∧ (platformMethod input init = "GET" ∨ platformMethod input init = "HEAD") then
    none
  else
    some
      { url := input.base.url
        method := platformMethod input init
        headers := fun name => (callerHeaders input init name).or (init.derived name)
        body := platformBody input init
        credentials := init.credentials.getD input.base.credentials }

/-! ### URLs -/

/-- `trimLeadingSlashes` -/
def trimLeadingSlashes (value : String) : String := String.ofList (value.toList.dropWhile (· = '/'))

/-- `trimTrailingSlashes` -/
def trimTrailingSlashes (value : String) : String := String.ofList (value.toList.rdropWhile (· = '/'))

/-- `trimSlashes` -/
def trimSlashes (value : String) : String := trimTrailingSlashes (trimLeadingSlashes value)

/-- A character of a scheme after its first one: `[a-z0-9+.-]`. -/
def isSchemeChar (c : Char) : Bool := c.isAlphanum || c = '+' || c = '.' || c = '-'

/-- What comes after the scheme of a URL and its colon, if it has one. -/
def afterScheme (url : String) : Option (List Char) :=
  match url.toList with
  | [] => none
  | c :: rest =>
    if c.isAlpha then
      match rest.dropWhile isSchemeChar with
      | ':' :: rest => some rest
      | _ => none
    else none

/-- Whether there are two slashes in front. -/
def startsWithSlashes : List Char → Bool
  | '/' :: '/' :: _ => true
  | _ => false

/-- `/^([a-z][a-z0-9+.-]*:)?\/\//i.test(url)` -/
def hasAuthority (url : String) : Bool :=
  startsWithSlashes url.toList || (afterScheme url).any startsWithSlashes

/-- A URL behind a base URL. -/
def prefixed (baseUrl url : String) : String := trimTrailingSlashes baseUrl ++ "/" ++ trimLeadingSlashes url

/-- `resolveUrl` -/
def resolveUrl (url baseUrl : String) : String :=
  if baseUrl = "" || hasAuthority url then url else prefixed baseUrl url

/-- `toUrlString` -/
def toUrlString : FetchInput → String
  | .text url => url
  | .urlObject href => href
  | .request request => request.url

/-! ### The wrapper -/

/-- `AuthFetchConfig`, as far as it is about requests, with its defaults. -/
structure AuthFetchConfig where
  baseUrl : String := ""
  /-- `refreshEndpoint`, by default `DEFAULT_REFRESH_ENDPOINT`. -/
  refreshEndpoint : String := "/api/auth/client-refresh"
  credentials : String := "include"
  /-- `defaultHeaders`, by default `DEFAULT_HEADERS`. -/
  defaultHeaders : List (String × String) := [("Content-Type", "application/json")]
  /-- Whether there is an `onSessionExpired`. -/
  onSessionExpired : Bool := false
  /-- `routePrefix`, by default `AUTH_ROUTE_PREFIX`. -/
  routePrefix : String := "auth"

variable (config : AuthFetchConfig)

/-- The default headers. -/
def AuthFetchConfig.headers : Headers := Headers.ofPairs config.defaultHeaders

/-- `mergeInit` -/
def mergeInit (init : RequestInit) : RequestInit :=
  { init with
    credentials := some (init.credentials.getD config.credentials)
    headers := some fun name => (init.headers.bind fun headers => headers name).or (config.headers name) }

/-- `resolvedUrl` -/
def resolvedUrl (input : FetchInput) : String := resolveUrl (toUrlString input) config.baseUrl

/-- `send`, for the first time or again: a stream that was sent cannot be sent again. -/
def send (input : FetchInput) (init : RequestInit) (again : Bool) : Option Sent :=
  if again ∧ (init.body.any Body.isStream) then none
  else platformFetch (.text (resolvedUrl config input)) (mergeInit config init)

/-- `resolveRefreshUrl` -/
def resolveRefreshUrl (refreshEndpoint baseUrl : String) : String :=
  if refreshEndpoint.toList.head? = some '/' || (afterScheme refreshEndpoint).any startsWithSlashes then refreshEndpoint
  else resolveUrl refreshEndpoint baseUrl

/-- The request of `performRefresh`. -/
def refreshRequest : Option Sent :=
  platformFetch (.text (resolveRefreshUrl config.refreshEndpoint config.baseUrl))
    { method := some "POST", credentials := some config.credentials, headers := some config.headers }

/-! ### The routes that trigger no refresh -/

/-- The replacement text of `String.prototype.replace`, where the match is in front: `$$` is a dollar, `$&` the match,
a dollar and an apostrophe what comes after it, a dollar and a grave accent what comes before it. -/
def expandReplacement (matched after : List Char) : List Char → List Char
  | '$' :: c :: rest =>
    if c = '$' then '$' :: expandReplacement matched after rest
    else if c = '&' then matched ++ expandReplacement matched after rest
    else if c = Char.ofNat 39 then after ++ expandReplacement matched after rest
    else if c = Char.ofNat 96 then expandReplacement matched after rest
    else '$' :: expandReplacement matched after (c :: rest)
  | c :: rest => c :: expandReplacement matched after rest
  | [] => []

/-- The paths of `SKIP_ROUTE_KEYS` in `AUTH_ROUTES`, behind their common `/auth`. -/
def skipRoutes : List String :=
  ["/login", "/register", "/refresh", "/logout", "/verify-email", "/resend-verification", "/mfa/challenge",
    "/password/forgot-password", "/password/reset-password", "/password/verify-otp", "/password/resend-otp",
    "/platform/login", "/platform/mfa/challenge", "/platform/refresh", "/platform/logout", "/invitations/accept"]

/-- `buildAuthRefreshSkipSuffixes` -/
def buildAuthRefreshSkipSuffixes (routePrefix : String) : List String :=
  skipRoutes.map fun route => String.ofList
    (expandReplacement "/auth".toList route.toList ("/" ++ trimSlashes routePrefix).toList ++ route.toList)

/-- The path of a URL: what comes before `?` and `#`. -/
def pathPart (url : String) : List Char := (url.toList.takeWhile (· ≠ '?')).takeWhile (· ≠ '#')

/-- `isRefreshSkipped` -/
def isRefreshSkipped (url : String) (skipSuffixes : List String) : Bool :=
  skipSuffixes.any fun suffix => suffix.toList.isSuffixOf (pathPart url)

/-- A path is skipped exactly when it ends with one of the suffixes. -/
theorem isRefreshSkipped_iff {url : String} {skipSuffixes : List String} :
    isRefreshSkipped url skipSuffixes = true ↔ ∃ suffix ∈ skipSuffixes, suffix.toList <:+ pathPart url := by
  simp [isRefreshSkipped]

end BymaxAuth.Client
