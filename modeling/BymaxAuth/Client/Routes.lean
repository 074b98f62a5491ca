import BymaxAuth.Client.CallersRequest

/-!
# Where the typed client sends its requests

`createAuthClient` of `client/index.ts` has eight operations, each on one route of the backend. A route is rebased onto
the prefix under which the backend is mounted, the fetch wrapper puts the base URL in front of it, and the wrapper knows
by the end of the path which routes trigger no refresh.

The prefix is rebased twice, by `rebaseRoute`, which slices, and by `buildAuthRefreshSkipSuffixes`, which calls `replace`
and so expands `$$`, `$&` and a dollar with an apostrophe in it. A prefix without a segment makes a route that begins
with two slashes, and such a URL passes `resolveUrl` as it is: its host is the first segment of the route.

## The model

`createAuthClient` is the wrapper of `Client.AuthFetch` with the inputs and inits of the operations. `RoutePrefix` is a
prefix with its outer slashes and its path. `Served` says what the client owes in every run.
-/

namespace BymaxAuth.Client

open List Bool

/-! ### The client -/

/-- The operations of `AuthClient`. -/
inductive Operation where
  /-- The sessions. -/
  | login | register | logout | refresh | getMe | mfaChallenge
  /-- The recovery of a password. -/
  | forgotPassword | resetPassword
  deriving DecidableEq

/-- The path of an operation, behind the prefix. -/
def Operation.path : Operation → String
  | login => "/login"
  | register => "/register"
  | logout => "/logout"
  | refresh => "/refresh"
  | getMe => "/me"
  | mfaChallenge => "/mfa/challenge"
  | forgotPassword => "/password/forgot-password"
  | resetPassword => "/password/reset-password"

/-- Its route in `AUTH_ROUTES`. -/
def Operation.route (op : Operation) : String := "/auth" ++ op.path

/-- `rebaseRoute` -/
def rebaseRoute (routePath routePrefix : String) : String :=
  if routePrefix = "auth" then routePath
  else if "/auth/".toList.isPrefixOf routePath.toList || routePath = "/auth" then
    "/" ++ trimSlashes routePrefix ++ String.ofList (routePath.toList.drop "/auth".length)
  else routePath

/-- `jsonPost`: a string is a body of plain text. -/
def jsonPost (payload : String) : RequestInit :=
  { method := some "POST", body := some (.value payload (some "text/plain;charset=UTF-8")) }

/-- The init of an operation, with its payload. -/
def Operation.init (payload : String) : Operation → RequestInit
  | getMe => { method := some "GET" }
  | logout | refresh => { method := some "POST" }
  | _ => jsonPost payload

/-- `createAuthClient` without a wrapper of its own, and the calls that are made of it. -/
def createAuthClient (config : AuthFetchConfig) (calls : ℕ → Operation × String) : Wrapper where
  config
  input c := .text (rebaseRoute (calls c).1.route config.routePrefix)
  init c := (calls c).1.init (calls c).2

/-! ### What it owes -/

/-- The authority of a URL: what is between `://` and the path, the query or the fragment. -/
def authority (url : List Char) : List Char :=
  ((url.dropWhile (· ≠ ':')).drop 3).takeWhile fun c => c ∉ ['/', '\\', '?', '#']

/-- An absolute URL of the scheme `http` or `https`. -/
structure HttpUrl (url : List Char) : Prop where
  /-- It has the scheme. -/
  scheme : ∃ scheme rest, url = scheme ++ ':' :: '/' :: '/' :: rest ∧
    scheme.map Char.toLower ∈ ["http".toList, "https".toList]
  /-- It has a host. -/
  host : authority url ≠ []

/-- The characters that a segment of a path can have. -/
def isPathChar (c : Char) : Bool := c.isAlphanum || "-._~%!$&'()*+,;=:@".toList.contains c

/-- A route prefix: segments, with slashes around them. -/
structure RoutePrefix where
  /-- The slashes in front. -/
  leading : ℕ
  /-- The slashes behind. -/
  trailing : ℕ
  /-- The segments, with a slash between two of them. -/
  path : List Char
  /-- Every character is allowed. -/
  allowed : ∀ c ∈ path, isPathChar c = true ∨ c = '/'
  /-- No slash is in front. -/
  first : path.head? ≠ some '/'
  /-- No slash is behind. -/
  last : path.getLast? ≠ some '/'

namespace RoutePrefix

variable (p : RoutePrefix)

/-- The prefix as it is configured. -/
def text : String := String.ofList (.replicate p.leading '/' ++ p.path ++ .replicate p.trailing '/')

/-- Its segments. -/
def segments : List (List Char) := if p.path = [] then [] else p.path.splitOn '/'

end RoutePrefix

/-- The base URL, the segments and the route. -/
def target (baseUrl : String) (p : RoutePrefix) (op : Operation) : List Char :=
  baseUrl.toList.rdropWhile (· = '/') ++ p.segments.flatMap ('/' :: ·) ++ op.path.toList

/-- What a client that is configured so owes, whatever calls are made of it. -/
structure Served (config : AuthFetchConfig) (p : RoutePrefix) : Prop where
  /-- Every request goes to the base URL, the segments and the route, so to the host of the base URL. -/
  sends : ∀ calls cfg, (createAuthClient config calls).Reaches cfg → ∀ c sent, .requested c sent ∈ cfg.log →
    ∃ request, sent = some request ∧ request.url.toList = target config.baseUrl p (calls c).1 ∧
      authority request.url.toList = authority config.baseUrl.toList
  /-- The public routes are recognised. -/
  skips : ∀ calls c, (calls c).1 ≠ .getMe → (createAuthClient config calls).skips c = true
  /-- So they start no refresh, and await none. -/
  calm : ∀ calls cfg, (createAuthClient config calls).Reaches cfg → ∀ c, (calls c).1 ≠ .getMe →
    (∀ r, .awaited c r ∉ cfg.log) ∧ ∀ r request, .refreshRequested r c request ∉ cfg.log

/-- Whether `replace` expands something: a dollar, and a dollar, an ampersand or an apostrophe behind it. -/
def hasPattern : List Char → Bool
  | '$' :: c :: rest => ['$', '&', Char.ofNat 39].contains c || hasPattern (c :: rest)
  | _ :: rest => hasPattern rest
  | [] => false

/-- The characters at which the path of a URL ends. -/
def endsPath (c : Char) : Bool := c = '?' || c = '#'

/-- The condition: there is a segment, and no pattern in the prefix; or the base URL has a query or a fragment, and its
own path is that of a public route. -/
def Mountable (config : AuthFetchConfig) (p : RoutePrefix) : Prop :=
  p.segments ≠ [] ∧
    if config.baseUrl.toList.any endsPath then
      isRefreshSkipped config.baseUrl (buildAuthRefreshSkipSuffixes config.routePrefix) = true
    else hasPattern p.path = false
deriving Decidable

/-! ### The prefix -/

/-- Trimming takes the outer slashes. -/
theorem trim_replicate {a : Char} {l : List Char} (hfirst : l.head? ≠ some a) (hlast : l.getLast? ≠ some a) (i j : ℕ) :
    ((List.replicate i a ++ l ++ .replicate j a).dropWhile (· = a)).rdropWhile (· = a) = l := by
  have hdrop : ∀ {m : List Char}, m.head? ≠ some a → m.dropWhile (· = a) = m := by
    intro m hm
    cases m with
    | nil => rfl
    | cons c m => exact dropWhile_cons_of_neg (by simpa using hm)
  rw [List.append_assoc, dropWhile_append_of_pos (by simp)]
  cases l with
  | nil => simp
  | cons c l =>
    rw [hdrop (by simpa using hfirst), List.rdropWhile, List.reverse_append, reverse_replicate,
      dropWhile_append_of_pos (by simp), hdrop (by rwa [List.head?_reverse]), reverse_reverse]

theorem trimSlashes_text (p : RoutePrefix) : trimSlashes p.text = String.ofList p.path := by
  simp only [trimSlashes, trimTrailingSlashes, trimLeadingSlashes, RoutePrefix.text, String.toList_ofList]
  rw [trim_replicate p.first p.last]

theorem cons_intercalate {a : Char} {l : List (List Char)} (h : l ≠ []) :
    a :: [a].intercalate l = l.flatMap (a :: ·) := by
  induction l with
  | nil => exact absurd rfl h
  | cons s l ih =>
    cases l with
    | nil => simp [List.intercalate]
    | cons t l => simp [← ih (by simp), List.intercalate]

variable {p : RoutePrefix}

theorem segments_eq_nil : p.segments = [] ↔ p.path = [] := by
  unfold RoutePrefix.segments
  split
  · simp [*]
  · simp [*]

/-- The prefix with a slash in front is the segments with one each. -/
theorem flatMap_segments (h : p.path ≠ []) : p.segments.flatMap ('/' :: ·) = '/' :: p.path := by
  rw [← cons_intercalate (mt segments_eq_nil.mp h), RoutePrefix.segments, if_neg h, intercalate_splitOn]

/-- A route, rebased. -/
theorem rebaseRoute_text (p : RoutePrefix) (op : Operation) :
    (rebaseRoute op.route p.text).toList = '/' :: p.path ++ op.path.toList := by
  have hroute : "/auth/".toList.isPrefixOf op.route.toList = true ∧
      op.route.toList.drop "/auth".length = op.path.toList ∧
      op.route.toList = '/' :: "auth".toList ++ op.path.toList := by
    cases op <;> decide +kernel
  unfold rebaseRoute
  split
  · next h =>
    have hpath : String.ofList p.path = "auth" := by
      rw [← trimSlashes_text, h]
      decide +kernel
    rw [hroute.2.2, ← hpath, String.toList_ofList]
  · rw [hroute.1, Bool.true_or, if_pos rfl, hroute.2.1, trimSlashes_text]
    simp

theorem exists_first (h : p.path ≠ []) : ∃ c rest, p.path = c :: rest ∧ c ≠ '/' := by
  have hfirst := p.first
  cases hp : p.path with
  | nil => exact absurd hp h
  | cons c rest => exact ⟨c, rest, rfl, by simpa [hp] using hfirst⟩

/-- With a segment in the prefix, an operation is sent to the base URL, the prefix and the route. -/
theorem request_url {baseUrl : String} (hbase : baseUrl ≠ "") (hp : p.path ≠ []) (op : Operation) :
    (resolveUrl (rebaseRoute op.route p.text) baseUrl).toList = target baseUrl p op := by
  have hrebased := rebaseRoute_text p op
  obtain ⟨c, rest, hpath, hc⟩ := exists_first hp
  have hrelative : hasAuthority (rebaseRoute op.route p.text) = false := by
    simp [hasAuthority, startsWithSlashes, afterScheme, hrebased, hpath, hc]
  rw [resolveUrl, hrelative, if_neg (by simpa using hbase), target, flatMap_segments hp]
  simp [prefixed, trimTrailingSlashes, trimLeadingSlashes, hrebased, hpath, hc]

/-- Without one, it is sent to the first segment of the route. -/
theorem request_url_bare {baseUrl : String} (hp : p.path = []) (op : Operation) :
    (resolveUrl (rebaseRoute op.route p.text) baseUrl).toList = '/' :: op.path.toList := by
  have hrebased := rebaseRoute_text p op
  rw [hp] at hrebased
  have hslashes : startsWithSlashes (rebaseRoute op.route p.text).toList = true := by
    rw [hrebased]
    cases op <;> decide +kernel
  rw [resolveUrl, hasAuthority, hslashes, Bool.true_or, Bool.or_true, if_pos rfl, hrebased]
  rfl

/-! ### The replacement text -/

/-- The characters of the patterns. -/
def isPatternChar (c : Char) : Bool := c = '$' || c = '&' || c = Char.ofNat 39

variable {matched after l : List Char}

/-- A text without a pattern stays as it is. -/
theorem expand_literal (h : hasPattern l = false) (hgrave : Char.ofNat 96 ∉ l) :
    expandReplacement matched after l = l := by
  fun_induction expandReplacement matched after l with
  | _ => simp_all [hasPattern]

/-- Expanding loses no slash, and takes a character away from every pattern. -/
theorem count_expand (hmatched : matched.countP isPatternChar = 0) (hafter : after.countP isPatternChar = 0)
    (hgrave : Char.ofNat 96 ∉ l) : l.count '/' ≤ (expandReplacement matched after l).count '/' ∧
      (expandReplacement matched after l).countP isPatternChar + (hasPattern l).toNat ≤ l.countP isPatternChar := by
  fun_induction expandReplacement matched after l with
  | _ =>
    simp_all only [hasPattern, isPatternChar, count_cons, countP_cons, count_append, countP_append, mem_cons]
    grind

/-! ### The public routes -/

theorem not_grave : Char.ofNat 96 ∉ '/' :: p.path := by
  intro hmem
  rcases mem_cons.mp hmem with h | h
  · exact absurd h (by decide)
  · exact absurd (p.allowed _ h) (by decide +kernel)

/-- A path is skipped if it ends with the path of a public route behind the expanded prefix. -/
theorem isRefreshSkipped_text {url : String} :
    isRefreshSkipped url (buildAuthRefreshSkipSuffixes p.text) = true ↔ ∃ route ∈ skipRoutes,
      expandReplacement "/auth".toList route.toList ('/' :: p.path) ++ route.toList <:+ pathPart url := by
  simp [isRefreshSkipped_iff, buildAuthRefreshSkipSuffixes, trimSlashes_text]

/-- Expanding a prefix with a pattern makes it end differently. -/
theorem not_suffix_of_hasPattern (h : hasPattern p.path = true) {route : List Char}
    (hroute : route.countP isPatternChar = 0) (base : List Char) :
    ¬ expandReplacement "/auth".toList route ('/' :: p.path) <:+ base ++ '/' :: p.path := by
  intro hsuffix
  have hmatched : "/auth".toList.countP isPatternChar = 0 := by decide
  obtain ⟨hslashes, hchars⟩ := count_expand hmatched hroute not_grave
  have hpattern : hasPattern ('/' :: p.path) = true := h
  rw [hpattern, toNat_true] at hchars
  generalize expandReplacement "/auth".toList route ('/' :: p.path) = expanded at *
  rcases suffix_or_suffix_of_suffix hsuffix (suffix_append base _) with ⟨front, hfront⟩ | hall
  · -- What is in front of it has no slash, so there is nothing in front.
    have hcount := congrArg (List.count '/') hfront
    rw [count_append] at hcount
    cases front with
    | nil =>
      rw [← hfront, nil_append] at hchars
      omega
    | cons c front =>
      obtain ⟨rfl, -⟩ := List.cons.inj hfront
      rw [count_cons_self] at hcount
      omega
  · have hle := hall.countP_le (p := isPatternChar)
    omega

/-- `pathPart`, in one go. -/
theorem pathPart_eq (url : String) : pathPart url = url.toList.takeWhile (! endsPath ·) := by
  rw [pathPart, takeWhile_takeWhile]
  congr 1
  funext c
  by_cases hq : c = '?' <;> by_cases hf : c = '#' <;> simp [endsPath, hq, hf]

theorem takeWhile_append_of_nil {q : Char → Bool} {l m : List Char} (h : l.any (! q ·) = true ∨ m.takeWhile q = []) :
    (l ++ m).takeWhile q = l.takeWhile q := by
  rw [takeWhile_append]
  split
  · next hlen =>
    have hpre : l.takeWhile q <+: l := takeWhile_prefix q
    have hself := hpre.eq_of_length hlen
    have hall := takeWhile_eq_self_iff.mp hself
    have hnot : l.any (! q ·) ≠ true := by simpa using hall
    rw [h.resolve_left hnot, append_nil, hself]
  · rfl

variable {baseUrl url : String} {op : Operation}

/-- A base URL without a query and a fragment: the path is the whole of it. -/
theorem pathPart_target (hbase : baseUrl.toList.any endsPath = false) (hp : p.path ≠ [])
    (hurl : url.toList = target baseUrl p op) : pathPart url = target baseUrl p op := by
  have hroute : op.path.toList.any endsPath = false := by cases op <;> decide +kernel
  rw [any_eq_false] at hbase hroute
  rw [pathPart_eq, hurl, takeWhile_eq_self_iff, target, flatMap_segments hp]
  intro c hc
  rw [not_eq_true', ← not_eq_true]
  simp only [mem_append, mem_cons] at hc
  rcases hc with (hc | rfl | hc) | hc
  · have hpre : baseUrl.toList.rdropWhile (· = '/') <+: baseUrl.toList := rdropWhile_prefix _ _
    exact hbase c (hpre.subset hc)
  · decide
  · intro hends
    have hallowed := p.allowed c hc
    rcases (by simpa [endsPath] using hends : c = '?' ∨ c = '#') with rfl | rfl <;>
      exact absurd hallowed (by decide +kernel)
  · exact hroute c hc

/-- One with a query or a fragment: the path is that of the base URL. -/
theorem pathPart_target_of_any (hbase : baseUrl.toList.any endsPath = true) (hurl : url.toList = target baseUrl p op) :
    pathPart url = pathPart baseUrl := by
  have hsplit := rdropWhile_append_rtakeWhile (p := (· = '/')) (l := baseUrl.toList)
  have htrimmed : (baseUrl.toList.rdropWhile (· = '/')).any (fun c => ! ! endsPath c) = true := by
    obtain ⟨c, hc, hends⟩ := any_eq_true.mp hbase
    rw [← hsplit] at hc
    rcases mem_append.mp hc with hc | hc
    · exact any_eq_true.mpr ⟨c, hc, by simpa using hends⟩
    · have hslash : c = '/' := by simpa using mem_rtakeWhile_imp hc
      rw [hslash] at hends
      cases hends
  rw [pathPart_eq, pathPart_eq, hurl, target, List.append_assoc, takeWhile_append_of_nil (.inl htrimmed)]
  conv_rhs => rw [← hsplit]
  exact (takeWhile_append_of_nil (.inl htrimmed)).symm

/-! ### The host -/

theorem authority_target (hurl : HttpUrl baseUrl.toList) (hp : p.path ≠ []) :
    authority (target baseUrl p op) = authority baseUrl.toList := by
  obtain ⟨scheme, rest, hbase, hscheme⟩ := hurl.scheme
  have hcolon : ∀ c ∈ scheme, c ≠ ':' := by
    rintro _ hc rfl
    have hmem := mem_map_of_mem (f := Char.toLower) hc
    rcases (by simpa using hscheme : _ = _ ∨ _ = _) with h | h <;> rw [h] at hmem <;> exact absurd hmem (by decide)
  have hauth : ∀ m, authority (scheme ++ ':' :: '/' :: '/' :: m) = m.takeWhile fun c => c ∉ ['/', '\\', '?', '#'] := by
    intro m
    rw [authority, dropWhile_append_of_pos (by simpa using hcolon)]
    simp
  have hhost := hurl.host
  rw [hbase, hauth] at hhost
  -- The host has a character that is no slash, so only slashes behind it are trimmed.
  have hrest : rest.rdropWhile (· = '/') ≠ [] := by
    intro hnil
    refine hhost (takeWhile_eq_nil_iff.mpr fun hpos => ?_)
    have hslash := rdropWhile_eq_nil_iff.mp hnil _ (getElem_mem hpos)
    simp [of_decide_eq_true hslash]
  have hsplit := rdropWhile_append_rtakeWhile (p := (· = '/')) (l := rest)
  have htrimmed : baseUrl.toList.rdropWhile (· = '/') = scheme ++ ':' :: '/' :: '/' :: rest.rdropWhile (· = '/') := by
    have hfront : scheme ++ ':' :: '/' :: '/' :: rest = (scheme ++ [':', '/', '/']) ++ rest := by simp
    have hsome : (rest.reverse.dropWhile (· = '/')).isEmpty = false := by simpa [List.rdropWhile] using hrest
    rw [hbase, hfront, List.rdropWhile, List.reverse_append, List.dropWhile_append, hsome, if_neg Bool.false_ne_true]
    simp [List.rdropWhile]
  rw [target, htrimmed, flatMap_segments hp, hbase, List.append_assoc, List.append_assoc, List.cons_append,
    List.cons_append, List.cons_append, hauth, hauth]
  rw [takeWhile_append_of_nil (.inr (by simp))]
  conv_rhs => rw [← hsplit]
  refine (takeWhile_append_of_nil (.inr (takeWhile_eq_nil_iff.mpr fun hpos => ?_))).symm
  have hslash := mem_rtakeWhile_imp (getElem_mem hpos)
  simp [of_decide_eq_true hslash]

/-! ### The guarantee -/

/-- Every request of the client is one that the platform sends. -/
theorem exists_send (config : AuthFetchConfig) (calls : ℕ → Operation × String) (c : ℕ) (again : Bool) :
    ∃ request, (createAuthClient config calls).send c again = some request ∧
      request.url = resolveUrl (rebaseRoute (calls c).1.route config.routePrefix) config.baseUrl := by
  have hinit : ∀ (op : Operation) (payload : String) input, ∃ request,
      send config input (op.init payload) again = some request ∧ request.url = resolvedUrl config input := by
    intro op payload input
    cases op <;> simp [send, platformFetch, Operation.init, jsonPost, mergeInit, platformBody, platformMethod,
      Body.isStream, FetchInput.base] <;> decide +kernel
  exact hinit _ _ _

theorem skips_eq {config : AuthFetchConfig} (hmount : config.routePrefix = p.text) {calls : ℕ → Operation × String}
    {c : ℕ} (hop : (calls c).1 = op) : (createAuthClient config calls).skips c =
      isRefreshSkipped (resolveUrl (rebaseRoute op.route p.text) config.baseUrl)
        (buildAuthRefreshSkipSuffixes p.text) := by
  rw [← hmount, ← hop]
  rfl

theorem isRefreshSkipped_congr {url url' : String} (h : pathPart url = pathPart url') (suffixes : List String) :
    isRefreshSkipped url suffixes = isRefreshSkipped url' suffixes := by
  rw [isRefreshSkipped, h, isRefreshSkipped]

/-- Only the route of `register` ends like it. -/
theorem register_of_suffix : ∀ route ∈ skipRoutes, route.toList <:+ "/register".toList ∨
    "/register".toList <:+ route.toList → route = "/register" := by
  decide +kernel

/-- **Where the typed client sends its requests.** -/
theorem client_served_iff (config : AuthFetchConfig) (p : RoutePrefix) (hurl : HttpUrl config.baseUrl.toList)
    (hmount : config.routePrefix = p.text) : Served config p ↔ Mountable config p := by
  have hne : config.baseUrl ≠ "" := by
    intro hnil
    rw [hnil] at hurl
    exact hurl.host rfl
  constructor
  · intro h
    have hpath : p.path ≠ [] := by
      intro hnil
      obtain ⟨cfg, hreach, hsent⟩ := reaches_first (createAuthClient config fun _ => (.register, "")) 0
      obtain ⟨request, hsend, -, hauth⟩ := h.sends _ cfg hreach 0 _ hsent
      obtain ⟨request', hsend', hrequest⟩ := exists_send config (fun _ => (.register, "")) 0 false
      cases hsend.symm.trans hsend'
      rw [hrequest, hmount, request_url_bare hnil] at hauth
      exact hurl.host hauth.symm
    refine ⟨mt segments_eq_nil.mp hpath, ?_⟩
    have hskips := h.skips (fun _ => (.register, "")) 0 nofun
    rw [skips_eq hmount (rfl : _ = Operation.register)] at hskips
    have hrequest := request_url hne hpath .register
    generalize resolveUrl (rebaseRoute Operation.register.route p.text) config.baseUrl = url at hskips hrequest
    split
    · next hbase =>
      rw [hmount, ← isRefreshSkipped_congr (pathPart_target_of_any hbase hrequest)]
      exact hskips
    · next hbase =>
      obtain ⟨route, hroute, hsuffix⟩ := isRefreshSkipped_text.mp hskips
      rw [pathPart_target (eq_false_iff.mpr hbase) hpath hrequest, target, flatMap_segments hpath] at hsuffix
      have heq := register_of_suffix route hroute
        (suffix_or_suffix_of_suffix ((suffix_append ..).trans hsuffix) (suffix_append ..))
      rw [heq] at hsuffix
      refine eq_false_iff.mpr fun hpattern => ?_
      exact not_suffix_of_hasPattern hpattern (by decide +kernel) _ (suffix_append_self_iff.mp hsuffix)
  · rintro ⟨hsegments, hcond⟩
    have hpath : p.path ≠ [] := mt segments_eq_nil.mpr hsegments
    have hskips : ∀ calls c, (calls c).1 ≠ .getMe → (createAuthClient config calls).skips c = true := by
      intro calls c hop
      have hrequest := request_url hne hpath (calls c).1
      rw [skips_eq hmount rfl]
      split at hcond
      · next hbase =>
        rw [hmount, ← isRefreshSkipped_congr (pathPart_target_of_any hbase hrequest)] at hcond
        exact hcond
      · next hbase =>
        have hmem : ∀ op : Operation, op ≠ .getMe → op.path ∈ skipRoutes := by
          intro op hop
          cases op <;> first | decide | exact absurd rfl hop
        refine isRefreshSkipped_text.mpr ⟨_, hmem _ hop, ?_⟩
        rw [pathPart_target (eq_false_iff.mpr hbase) hpath hrequest, target, flatMap_segments hpath,
          expand_literal (l := '/' :: p.path) hcond not_grave, List.append_assoc]
        exact suffix_append ..
    refine ⟨fun calls cfg hreach c sent hsent => ?_, hskips, fun calls _ hreach c hop => ?_⟩
    on_goal 2 => exact hreach.skipped (hskips calls c hop)
    have hcall : ∃ again, sent = (createAuthClient config calls).send c again := by
      rcases request_of_call hreach hsent with h | h
      · exact ⟨false, h⟩
      · exact ⟨true, h.1⟩
    obtain ⟨again, rfl⟩ := hcall
    obtain ⟨request, hsend, hrequest⟩ := exists_send config calls c again
    have hlist := request_url hne hpath (calls c).1
    rw [← hmount, ← hrequest] at hlist
    exact ⟨request, hsend, hlist, hlist ▸ authority_target hurl hpath⟩

/-- The prefix `/api/$auth/`. -/
def mounted : RoutePrefix where
  leading := 1
  trailing := 1
  path := "api/$auth".toList
  allowed := by simp; decide
  first := by decide +kernel
  last := by decide +kernel

/-- A client of a backend that is mounted there. -/
def mountedConfig : AuthFetchConfig := { baseUrl := "https://api.example.com//", routePrefix := "/api/$auth/" }

theorem httpUrl_mounted : HttpUrl mountedConfig.baseUrl.toList where
  scheme := ⟨"https".toList, "api.example.com//".toList, by decide +kernel⟩
  host := by decide +kernel

theorem client_served_mounted : mountedConfig.routePrefix = mounted.text ∧ HttpUrl mountedConfig.baseUrl.toList ∧
    Served mountedConfig mounted := by
  have hmount : mountedConfig.routePrefix = mounted.text := by decide +kernel
  exact ⟨hmount, httpUrl_mounted, (client_served_iff _ _ httpUrl_mounted hmount).mpr (by decide +kernel)⟩

/-- A client whose backend is mounted at the root sends a sign-in to the host `login`, and one whose prefix has two
dollars does not know its own `register`. -/
theorem client_not_served :
    (∃ cfg request, (createAuthClient { mountedConfig with routePrefix := "/" } fun _ => (.login, "")).Reaches cfg ∧
      .requested 0 (some request) ∈ cfg.log ∧ request.url = "//login") ∧
    (createAuthClient { mountedConfig with routePrefix := "us$$" } fun _ => (.register, "")).skips 0 = false := by
  obtain ⟨cfg, hreach, hsent⟩ := reaches_first
    (createAuthClient { mountedConfig with routePrefix := "/" } fun _ => (.login, "")) 0
  obtain ⟨request, hsend, hurl⟩ := exists_send { mountedConfig with routePrefix := "/" } (fun _ => (.login, "")) 0 false
  refine ⟨⟨cfg, request, hreach, hsend ▸ hsent, hurl.trans ?_⟩, ?_⟩ <;> decide +kernel

end BymaxAuth.Client
