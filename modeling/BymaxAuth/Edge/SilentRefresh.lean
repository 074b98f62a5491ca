import BymaxAuth.Edge.Proxy

/-!
# Silent refreshes

`createSilentRefreshHandler` of `nextjs/handlers.ts`, and what becomes of a browser that the proxy sends there. The
proxy answers a page it cannot admit with a redirect to the silent-refresh route, while the browser has a session
and the page's bounce counter (`_r`) is below a ceiling; the handler has the backend rotate the session and sends
the browser back to the page.

The counter is to end a loop in which the backend accepts a session whose tokens the edge rejects. It goes to the
handler, on the URL of the redirect, and no further: the handler sends the browser back to the page without it.
-/

namespace BymaxAuth.Edge

variable (rt : Runtime)

/-! ### The handler -/

/-- `SAFE_FETCH_SITES` -/
def safeFetchSites : List String := ["same-origin", "none"]

/-- `isCrossSiteRequest` -/
def isCrossSiteRequest (request : NextRequest) : Bool :=
  (request.headers "sec-fetch-site").any fun fetchSite => !safeFetchSites.contains fetchSite

/-- What a handler does to the session's cookies. -/
inductive Cookies where
  /-- Nothing. -/
  | untouched
  /-- They are cleared. -/
  | cleared
  /-- The backend's are relayed. -/
  | relayed
  deriving DecidableEq

/-- The answer of a handler that redirects. -/
inductive HandlerResponse where
  | redirect (location : Url) (cookies : Cookies)
  /-- An exception. -/
  | threw

/-- `buildLoginRedirect`, with `buildLoginUrl`. -/
def buildLoginRedirect (loginPath : String) (cookies : Cookies) : HandlerResponse :=
  match rt.resolve loginPath with
  | none => .threw
  | some (_, url) => .redirect (url.setParams rt [("reason", "expired")]) cookies

/-- The handler of `createSilentRefreshHandler`. `backend` is `callBackend` of the refresh route: whether the
response was a success, if there was one. -/
def silentRefresh (loginPath : String) (backend : NextRequest → Option Bool) (request : NextRequest) :
    HandlerResponse :=
  if isCrossSiteRequest request then buildLoginRedirect rt loginPath .untouched
  else
    let destination := resolveSafeDestination rt (getParam request.nextUrl.params "redirectTo") loginPath
    match backend request with
    | some true =>
      match rt.resolve (toSameOriginPath destination) with
      | none => .threw
      | some (_, url) => .redirect url .relayed
    | _ => buildLoginRedirect rt loginPath .cleared

/-! ### The browser -/

/-- A site: the proxy in front of its pages, and the handler at its silent-refresh route, with one sign-in path. -/
structure Site where
  /-- The proxy's configuration. -/
  config : ResolvedAuthProxyConfig
  /-- The backend's answer to a refresh. -/
  backend : NextRequest → Option Bool

/-- A browser that follows redirects. -/
structure Browser where
  /-- The headers of its requests, in the order it makes them. -/
  headers : ℕ → Headers
  /-- The clock at each of them. -/
  clock : ℕ → Clock

/-- What comes of a request. -/
inductive Step where
  /-- A page is shown. -/
  | shown
  /-- The request is refused. -/
  | stopped
  /-- The browser is sent on. -/
  | bounced (location : Url)
  /-- The browser is sent on after a silent refresh. -/
  | refreshed (location : Url)

section Browser

variable (site : Site) (browser : Browser)

/-- The browser's request for a page. -/
def Browser.request (n : ℕ) (url : Url) : NextRequest := ⟨url, browser.headers n⟩

/-- The site's answer to a request: the proxy's, and behind it the handler's or a page. -/
def step (n : ℕ) (url : Url) : Step :=
  let request := browser.request n url
  match proxy rt site.config (browser.clock n) request with
  | .redirect location => .bounced location
  | .next _ =>
    if url.pathname = site.config.silentRefreshPath then
      match silentRefresh rt site.config.loginPath site.backend request with
      | .redirect location .relayed => .refreshed location
      | .redirect location _ => .bounced location
      | .threw => .stopped
    else .shown
  | _ => .stopped

/-- The browser is sent to the sign-in page, after at most so many silent refreshes. -/
inductive Sent (login : Url) : ℕ → ℕ → Url → Prop where
  /-- At once. -/
  | bounced {n k : ℕ} {url location : Url} : step rt site browser n url = .bounced location →
      location.pathname = login.pathname → Sent login n k url
  /-- By way of another page. -/
  | bouncedOn {n k : ℕ} {url location : Url} : step rt site browser n url = .bounced location →
      Sent login (n + 1) k location → Sent login n k url
  /-- By a silent refresh. -/
  | refreshed {n k : ℕ} {url location : Url} : step rt site browser n url = .refreshed location →
      location.pathname = login.pathname → Sent login n (k + 1) url
  /-- By a silent refresh, and on. -/
  | refreshedOn {n k : ℕ} {url location : Url} : step rt site browser n url = .refreshed location →
      Sent login (n + 1) k location → Sent login n (k + 1) url

/-! ### A backend and an edge at odds -/

/-- How the site is put together. -/
structure Wired (login : Url) : Prop where
  /-- The silent-refresh route is a path of the site, … -/
  route : rt.resolve (toSameOriginPath site.config.silentRefreshPath) =
    some (rt.origin, ⟨site.config.silentRefreshPath, "", [], ""⟩)
  route_public : isPublicPath site.config.silentRefreshPath site.config.publicPaths = true
  /-- So is the sign-in path, … -/
  login_path : toSameOriginPath site.config.loginPath = site.config.loginPath
  /-- … which names this page. -/
  login_url : rt.resolve site.config.loginPath = some (rt.origin, login)
  /-- They are two. -/
  login_ne : login.pathname ≠ site.config.silentRefreshPath

/-- The proxy takes the request for one with no token. -/
def unauthenticated (config : ResolvedAuthProxyConfig) (clock : Clock) (request : NextRequest) : Bool :=
  let decoded := decodeAccess rt config clock request
  !decoded.signatureVerified || isTokenExpired decoded clock.proxy || !isAccessToken decoded

/-- The backend refreshes the browser's session whenever it is asked, and the edge rejects every token. -/
structure AtOdds (crossSite : Bool) : Prop where
  /-- The browser has a session, … -/
  session : ∀ n, rt.cookie (browser.headers n "cookie") "has_session" = some "1"
  /-- … whose tokens the edge rejects. -/
  rejected : ∀ n url, unauthenticated rt site.config (browser.clock n) (browser.request n url) = true
  /-- It navigates, … -/
  foreground : ∀ n url, isBackgroundRequest (browser.request n url) = false
  /-- … and every request of a navigation is marked alike. -/
  fetchSite : ∀ n url, isCrossSiteRequest (browser.request n url) = crossSite
  /-- The backend refreshes it. -/
  refreshes : ∀ n url, site.backend (browser.request n url) = some true

/-- A page of the site that is not public. Its path and query, read again, are the page's, unless they begin with two
slashes and so name another host. -/
structure Protected (page : Url) : Prop where
  /-- It is not public. -/
  guarded : isPublicPath page.pathname site.config.publicPaths = false
  /-- `new URL` reads what it wrote. -/
  read_again : startsWith (page.pathname ++ page.search) "//" = false →
    rt.resolve (page.pathname ++ page.search) = some (rt.origin, { page with hash := "" })

/-- The bounce counter of a page. -/
def bouncesOf (page : Url) : ℕ := redirectCount rt ⟨page, fun _ => none⟩

/-- The page a silent refresh would return to. -/
def returnPath (page : Url) : String :=
  resolveSafeDestination rt (some (page.pathname ++ page.search)) site.config.loginPath

/-- The silent-refresh route, as the proxy sends a page there. -/
def routeUrl (page : Url) : Url :=
  (⟨site.config.silentRefreshPath, "", [], ""⟩ : Url).setParams rt
    [("redirectTo", page.pathname ++ page.search), (redirectCountParam, toString (bouncesOf rt page + 1))]

/-- Such a page comes to the sign-in page only if it is there, if its counter is at the ceiling already, if the
navigation is marked as one from another site, or if the handler refuses to return to it. -/
def Escapes (login : Url) (crossSite : Bool) (page : Url) : Prop :=
  site.config.maxRedirects ≤ bouncesOf rt page ∨ crossSite = true ∨
    returnPath rt site page ≠ page.pathname ++ page.search ∨ page.pathname = login.pathname

section AtOdds

variable {rt site browser} {login page : Url} {crossSite : Bool} {n k : ℕ}

theorem not_slashes_of_same {path : String} (h : toSameOriginPath path = path) : startsWith path "//" = false := by
  by_contra hslashes
  rw [Bool.not_eq_false] at hslashes
  have hroot : toSameOriginPath path = "/" := by
    unfold toSameOriginPath
    split_ifs with _ hhost <;> simp_all
  rw [← h, hroot] at hslashes
  exact absurd hslashes (by decide)

/-- The path a silent refresh returns to is the page's, or the sign-in path. -/
theorem returnPath_cases (hp : Protected rt site page) : (returnPath rt site page = page.pathname ++ page.search ∧
        toSameOriginPath (page.pathname ++ page.search) = page.pathname ++ page.search) ∨
      returnPath rt site page = site.config.loginPath := by
  unfold returnPath resolveSafeDestination
  dsimp only
  split_ifs with _ hguard
  · exact .inr rfl
  · exact .inr rfl
  · simp only [Bool.or_eq_true, not_or, Bool.not_eq_true] at hguard
    rw [hp.read_again hguard.1.2]
    dsimp only
    rw [String.append_empty]
    split_ifs with _ hsame
    · exact .inr rfl
    · exact .inl ⟨rfl, hsame⟩
    · exact .inr rfl

theorem step_of_redirect {url location : Url}
    (h : proxy rt site.config (browser.clock n) (browser.request n url) = .redirect location) :
    step rt site browser n url = .bounced location := by
  simp only [step, h]

theorem step_of_next {url : Url} {headers : Headers}
    (h : proxy rt site.config (browser.clock n) (browser.request n url) = .next headers)
    (hpath : url.pathname = site.config.silentRefreshPath) :
    step rt site browser n url =
      match silentRefresh rt site.config.loginPath site.backend (browser.request n url) with
      | .redirect location .relayed => .refreshed location
      | .redirect location _ => .bounced location
      | .threw => .stopped := by
  simp only [step, h, hpath, if_true]

section Proxy

variable (hw : Wired rt site login) (ho : AtOdds rt site browser crossSite)
include hw ho

/-- A page that is not public is answered as if there were no token. -/
theorem proxy_protected (hp : isPublicPath page.pathname site.config.publicPaths = false) :
    proxy rt site.config (browser.clock n) (browser.request n page) =
      if bouncesOf rt page < site.config.maxRedirects then .redirect (routeUrl rt site page)
      else .redirect (login.setParams rt
        [("reason", "expired"), ("redirectTo", returnPath rt site page)]) := by
  have hforeground := ho.foreground n page
  have hsession : hasSession rt (browser.request n page) = true := decide_eq_true (ho.session n)
  have hunauthenticated : proxy rt site.config (browser.clock n) (browser.request n page) =
      handleUnauthenticated rt (browser.request n page) site.config := by
    unfold proxy
    rw [if_neg (by rw [Bool.not_eq_true]; exact hp)]
    exact if_pos (ho.rejected n page)
  rw [hunauthenticated]
  by_cases hlt : bouncesOf rt page < site.config.maxRedirects
  · have hcount : redirectCount rt (browser.request n page) < site.config.maxRedirects := hlt
    rw [if_pos hlt]
    simp only [handleUnauthenticated, hforeground, hsession, hcount, decide_true, Bool.and_self, Bool.false_eq_true,
      if_false, if_true, redirectToPath, hw.route]
    rfl
  · have hcount : ¬redirectCount rt (browser.request n page) < site.config.maxRedirects := hlt
    rw [if_neg hlt]
    simp only [handleUnauthenticated, hforeground, hcount, decide_false, Bool.and_false, Bool.false_eq_true, if_false,
      redirectToLogin, redirectToPath, hw.login_path, hw.login_url]
    rfl

/-- The handler refuses a navigation from another site, and returns to the page or to the sign-in page. -/
theorem step_route (hp : Protected rt site page) : (crossSite = true ∧ step rt site browser n (routeUrl rt site page) =
        .bounced (login.setParams rt [("reason", "expired")])) ∨
      (crossSite = false ∧ returnPath rt site page = page.pathname ++ page.search ∧
        step rt site browser n (routeUrl rt site page) = .refreshed { page with hash := "" }) ∨
      (crossSite = false ∧ returnPath rt site page = site.config.loginPath ∧
        step rt site browser n (routeUrl rt site page) = .refreshed login) := by
  have hproxy : proxy rt site.config (browser.clock n) (browser.request n (routeUrl rt site page)) =
      .next (stripUserHeaders (browser.headers n)) := if_pos hw.route_public
  have hcross := ho.fetchSite n (routeUrl rt site page)
  have hrefreshes := ho.refreshes n (routeUrl rt site page)
  rw [step_of_next hproxy rfl]
  cases crossSite with
  | true => exact .inl ⟨rfl, by simp only [silentRefresh, hcross, if_true, buildLoginRedirect, hw.login_url]⟩
  | false =>
    have hdestination : resolveSafeDestination rt
        (getParam (browser.request n (routeUrl rt site page)).nextUrl.params "redirectTo") site.config.loginPath =
          returnPath rt site page := rfl
    refine .inr ?_
    simp only [silentRefresh, hcross, Bool.false_eq_true, if_false, hrefreshes, hdestination]
    rcases returnPath_cases hp with ⟨hreturn, hsame⟩ | hreturn
    · exact .inl ⟨trivial, hreturn, by rw [hreturn, hsame, hp.read_again (not_slashes_of_same hsame)]⟩
    · exact .inr ⟨trivial, hreturn, by rw [hreturn, hw.login_path, hw.login_url]⟩

/-- The page a silent refresh returns to is not the sign-in page, if neither is the page. -/
theorem step_route_stuck (hp : Protected rt site page) (hcross : crossSite = false)
    (hreturn : returnPath rt site page = page.pathname ++ page.search) (hpage : page.pathname ≠ login.pathname) :
    step rt site browser n (routeUrl rt site page) = .refreshed { page with hash := "" } := by
  rcases step_route hw ho hp with ⟨h, -⟩ | ⟨-, -, h⟩ | ⟨-, hlogin, -⟩
  · exact absurd h (by rw [hcross]; decide)
  · exact h
  · -- The sign-in path would be the page's, and name the page.
    have hread := hp.read_again (not_slashes_of_same (by rw [← hreturn, hlogin, hw.login_path]))
    rw [← hreturn, hlogin, hw.login_url] at hread
    cases hread
    exact absurd rfl hpage

/-- A page that does not escape comes back to itself with each silent refresh, and never to the sign-in page. -/
theorem not_sent (hp : Protected rt site page) (hstuck : ¬Escapes rt site login crossSite page) :
    ¬Sent rt site browser login n k page := by
  obtain ⟨hbounces, hcross, hreturn, hpage⟩ : bouncesOf rt page < site.config.maxRedirects ∧ crossSite = false ∧
      returnPath rt site page = page.pathname ++ page.search ∧ page.pathname ≠ login.pathname := by
    simpa [Escapes] using hstuck
  induction k using Nat.strong_induction_on generalizing n page with
  | _ k ih =>
    have hstep : ∀ n, step rt site browser n page = .bounced (routeUrl rt site page) := fun n =>
      step_of_redirect ((proxy_protected hw ho hp.guarded).trans (if_pos hbounces))
    have hroute : ∀ n, step rt site browser n (routeUrl rt site page) = .refreshed { page with hash := "" } :=
      fun n => step_route_stuck hw ho hp hcross hreturn hpage
    rintro (⟨h, hlogin⟩ | ⟨h, hnext⟩ | ⟨h, -⟩ | ⟨h, -⟩)
    · cases (hstep n).symm.trans h
      exact hw.login_ne hlogin.symm
    · cases (hstep n).symm.trans h
      rcases hnext with ⟨h, -⟩ | ⟨h, -⟩ | ⟨h, hlogin⟩ | ⟨h, hback⟩
      · cases (hroute (n + 1)).symm.trans h
      · cases (hroute (n + 1)).symm.trans h
      · cases (hroute (n + 1)).symm.trans h
        exact hpage hlogin
      · -- The counter of the page it comes back to is the page's.
        cases (hroute (n + 1)).symm.trans h
        have hp' : Protected rt site { page with hash := "" } := ⟨hp.guarded, hp.read_again⟩
        exact ih _ (Nat.lt_succ_self _) hp' hstuck hbounces hreturn hpage hback
    · cases (hstep n).symm.trans h
    · cases (hstep n).symm.trans h

/-- A page that escapes does with one silent refresh at most. -/
theorem sent_of_escapes (hp : Protected rt site page) (hescapes : Escapes rt site login crossSite page)
    (hk : bouncesOf rt page < site.config.maxRedirects → 0 < k) : Sent rt site browser login n k page := by
  by_cases hbounces : bouncesOf rt page < site.config.maxRedirects
  · have hstep : step rt site browser n page = .bounced (routeUrl rt site page) :=
      step_of_redirect ((proxy_protected hw ho hp.guarded).trans (if_pos hbounces))
    obtain ⟨k, rfl⟩ := Nat.exists_eq_succ_of_ne_zero (hk hbounces).ne'
    refine .bouncedOn hstep ?_
    rcases step_route hw ho hp with ⟨-, h⟩ | ⟨hcross, hreturn, h⟩ | ⟨-, -, h⟩
    · exact .bounced h rfl
    · refine .refreshed h ?_
      rcases hescapes with he | he | he | he
      · exact absurd hbounces (Nat.not_lt.mpr he)
      · rw [hcross] at he
        cases he
      · exact absurd hreturn he
      · exact he
    · exact .refreshed h rfl
  · exact .bounced (step_of_redirect ((proxy_protected hw ho hp.guarded).trans (if_neg hbounces))) rfl

/-- From which pages the browser comes to the sign-in page within the ceiling. From any other it does not come
there at all. -/
theorem sent_iff (hp : Protected rt site page) :
    (Sent rt site browser login 0 site.config.maxRedirects page ↔ Escapes rt site login crossSite page) ∧
      (¬Escapes rt site login crossSite page → ∀ k, ¬Sent rt site browser login 0 k page) := by
  refine ⟨⟨fun hsent => ?_, fun hescapes => ?_⟩, fun hstuck k => not_sent hw ho hp hstuck⟩
  · by_contra hstuck
    exact not_sent hw ho hp hstuck hsent
  · exact sent_of_escapes hw ho hp hescapes fun h => (Nat.zero_le _).trans_lt h

end Proxy

end AtOdds

end Browser

/-! ### The default configuration -/

namespace Demo

/-- A site with no secret at the edge, so that it rejects every token, and a backend that refreshes. -/
def mistrusting : Site where
  config := resolveConfig { publicPaths := some ["/login", silentRefreshRoute] }
  backend _ := some true

/-- A browser with a session. -/
def visitor : Browser where
  headers _ name := if name = "cookie" then some "has_session=1" else none
  clock _ := ⟨0, 0⟩

theorem wired : Wired site mistrusting (resolve "/login").2 where
  route := by decide +kernel
  route_public := by decide +kernel
  login_path := by decide +kernel
  login_url := rfl
  login_ne := by decide +kernel

theorem atOdds : AtOdds site mistrusting visitor false where
  session n := by
    have hcookie : visitor.headers n "cookie" = some "has_session=1" := by simp [visitor]
    rw [hcookie]
    decide +kernel
  rejected n url := by
    have hinvalid : decodeAccess site mistrusting.config (visitor.clock n) (visitor.request n url) = .invalid := by
      unfold decodeAccess
      split
      · next hsecret => cases hsecret
      · rfl
    rw [unauthenticated, hinvalid]
    rfl
  foreground _ _ := rfl
  fetchSite _ _ := rfl
  refreshes _ _ := rfl

theorem dashboard_protected : Protected site mistrusting (resolve "/dashboard").2 :=
  ⟨by decide +kernel, by decide +kernel⟩

theorem bounced_protected : Protected site mistrusting (resolve "/dashboard?_r=3").2 :=
  ⟨by decide +kernel, by decide +kernel⟩

end Demo

open Edge.Demo

/-- With a ceiling of three bounces, a visitor of the dashboard is never sent to the sign-in page. -/
theorem refresh_unbounded : Wired site mistrusting (resolve "/login").2 ∧ AtOdds site mistrusting visitor false ∧
      Protected site mistrusting (resolve "/dashboard").2 ∧ mistrusting.config.maxRedirects = 3 ∧
      ¬∃ k, Sent site mistrusting visitor (resolve "/login").2 0 k (resolve "/dashboard").2 := by
  refine ⟨wired, atOdds, dashboard_protected, rfl, ?_⟩
  rintro ⟨k, hsent⟩
  refine not_sent wired atOdds dashboard_protected ?_ hsent
  rintro (h | h | h | h)
  · exact absurd h (by decide +kernel)
  · cases h
  · exact h (by decide +kernel)
  · exact absurd h (by decide +kernel)

/-- A page whose counter is at the ceiling is sent there. -/
theorem sent_at_ceiling :
    Sent site mistrusting visitor (resolve "/login").2 0 3 (resolve "/dashboard?_r=3").2 :=
  (sent_iff wired atOdds bounced_protected).1.mpr (.inl (by decide +kernel))

end BymaxAuth.Edge
