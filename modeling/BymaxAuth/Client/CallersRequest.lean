import BymaxAuth.Client.SingleFlight

/-!
# The caller's request

What the fetch wrapper sends for a call, against what the platform's `fetch` would send for the same input and init. The
wrapper is to add three things: the default headers where the caller set none, the credentials mode where the init has
none, and the base URL in front of a relative URL.

It resolves the URL of the input to a string and calls `fetch` with that string and the init. So of a `Request` object it
keeps the URL only. And its test for a relative URL asks for two slashes after the scheme.

## The model

`callersRequest` is the caller's measure: the request of `platformFetch` with the three additions. `isRelative` is about
what the URL parser makes of a string: it leaves out tabs and line breaks, and blanks in front, and takes a backslash for
a slash.
-/

namespace BymaxAuth.Client

open Concurrency.EventLoop List Wrapper

/-! ### What the caller asks for -/

/-- A URL as the URL parser reads it, without tabs and line breaks, and without blanks in front. -/
def cleaned (url : String) : List Char :=
  (url.toList.filter fun c => c ≠ '\t' ∧ c ≠ '\n' ∧ c ≠ '\r').dropWhile (· ≤ ' ')

/-- Whether the parser reads two slashes in front. -/
def isProtocolRelative : List Char → Bool
  | c :: d :: _ => (c = '/' || c = '\\') && (d = '/' || d = '\\')
  | _ => false

/-- A relative URL: one that has no scheme, and is not protocol-relative. -/
def isRelative (url : String) : Bool :=
  (afterScheme (String.ofList (cleaned url))).isNone && !isProtocolRelative (cleaned url)

variable (config : AuthFetchConfig) (input : FetchInput) (init : RequestInit)

/-- The URL of a call: a relative one is behind the base URL. -/
def callersUrl : String :=
  if config.baseUrl ≠ "" ∧ isRelative input.base.url then prefixed config.baseUrl input.base.url else input.base.url

/-- The headers of a call: what the caller set, then the defaults, then the content type of the body. -/
def callersHeaders : Headers := fun name =>
  ((callerHeaders input init name).or (config.headers name)).or (init.derived name)

/-- The request of a call: what the platform would send, with the defaults where the caller set none. -/
def callersRequest : Option Sent :=
  (platformFetch input init).map fun sent =>
    { sent with
      url := callersUrl config input
      headers := callersHeaders config input init
      credentials := init.credentials.getD config.credentials }

/-! ### What the wrapper hands on -/

/-- A call whose request the wrapper can hand on. -/
structure HandsOn : Prop where
  /-- The base URL does not get in front of a URL that is not relative. -/
  url : config.baseUrl = "" ∨ hasAuthority input.base.url = true ∨ isRelative input.base.url = true ∨
    prefixed config.baseUrl input.base.url = input.base.url
  /-- The method is in the init, or is the one of a call without a method. -/
  method : init.method.isSome = true ∨ input.base.method = "GET"
  /-- The headers are in the init, or are those of a call without headers. -/
  headers : init.headers.isSome = true ∨ ∀ name, input.base.headers name = none ∨
    input.base.headers name = (config.headers name).or (init.derived name)
  /-- The body is in the init, if there is one. -/
  body : init.body.isSome = true ∨ input.base.body = none

variable {config input init} {url : String}

theorem toUrlString_eq (input : FetchInput) : toUrlString input = input.base.url := by
  cases input <;> rfl

theorem cleaned_cons {c : Char} {rest : List Char} (hurl : url.toList = c :: rest) (hc : ' ' < c) :
    cleaned url = c :: rest.filter fun c => c ≠ '\t' ∧ c ≠ '\n' ∧ c ≠ '\r' := by
  have hkeep : c ≠ '\t' ∧ c ≠ '\n' ∧ c ≠ '\r' := by
    refine ⟨?_, ?_, ?_⟩ <;> rintro rfl <;> exact absurd hc (by decide)
  unfold cleaned
  rw [hurl, filter_cons_of_pos (by simpa using hkeep), dropWhile_cons_of_neg (by simpa using hc)]

/-- Dropping what is kept anyway, before or after a filter. -/
theorem dropWhile_filter {α : Type} {p q : α → Bool} (hpq : ∀ a, p a = true → q a = true) {l t : List α} {x : α}
    (h : l.dropWhile p = x :: t) (hx : q x = true) : (l.filter q).dropWhile p = x :: t.filter q := by
  induction l with
  | nil => cases h
  | cons a l ih =>
    by_cases ha : p a = true
    · rw [dropWhile_cons_of_pos ha] at h
      rw [filter_cons_of_pos (hpq a ha), dropWhile_cons_of_pos ha]
      exact ih h
    · rw [dropWhile_cons_of_neg ha] at h
      cases h
      rw [filter_cons_of_pos hx, dropWhile_cons_of_neg ha]

theorem blank_lt_of_isAlpha {c : Char} (h : c.isAlpha = true) : ' ' < c := by
  delta Char.isAlpha Char.isUpper Char.isLower at h
  simp only [Bool.or_eq_true, Bool.and_eq_true, decide_eq_true_eq] at h
  rcases h with ⟨h, -⟩ | ⟨h, -⟩
  · exact Char.lt_def.mpr (UInt32.lt_of_lt_of_le (by decide : ' '.val < 'A'.val) h)
  · exact Char.lt_def.mpr (UInt32.lt_of_lt_of_le (by decide : ' '.val < 'a'.val) h)

/-- What follows a scheme follows it in the cleaned URL. -/
theorem afterScheme_cleaned {rest : List Char} (h : afterScheme url = some rest) :
    (afterScheme (String.ofList (cleaned url))).isSome = true := by
  unfold afterScheme at h
  split at h
  · cases h
  · next c rest' hurl =>
    split at h
    · next halpha =>
      split at h
      · next hscheme =>
        cases h
        have hkept := dropWhile_filter (q := fun c => c ≠ '\t' ∧ c ≠ '\n' ∧ c ≠ '\r') (fun a ha => ?_) hscheme (by decide)
        · rw [cleaned_cons hurl (blank_lt_of_isAlpha halpha), afterScheme, String.toList_ofList]
          simp only [halpha, hkept]
          rfl
        · rw [decide_eq_true_eq]
          refine ⟨?_, ?_, ?_⟩ <;> rintro rfl <;> exact absurd ha (by decide)
      · cases h
    · cases h

/-- A URL that the wrapper takes for an absolute one is not relative. -/
theorem not_isRelative_of_hasAuthority (h : hasAuthority url = true) : isRelative url = false := by
  rw [hasAuthority, Bool.or_eq_true] at h
  rw [isRelative, Bool.and_eq_false_iff]
  rcases h with h | h
  · right
    unfold startsWithSlashes at h
    split at h
    · next rest hurl =>
      rw [cleaned_cons hurl (by decide), filter_cons_of_pos (by decide)]
      rfl
    · cases h
  · left
    cases hrest : afterScheme url with
    | none =>
      rw [hrest] at h
      cases h
    | some rest =>
      rw [← Option.not_isSome, afterScheme_cleaned hrest]
      rfl

theorem resolvedUrl_eq_iff : resolvedUrl config input = callersUrl config input ↔
    config.baseUrl = "" ∨ hasAuthority input.base.url = true ∨ isRelative input.base.url = true ∨
      prefixed config.baseUrl input.base.url = input.base.url := by
  unfold resolvedUrl resolveUrl callersUrl
  rw [toUrlString_eq]
  by_cases hbase : config.baseUrl = ""
  · simp [hbase]
  by_cases habs : hasAuthority input.base.url = true
  · simp [habs, not_isRelative_of_hasAuthority habs]
  · by_cases hrel : isRelative input.base.url = true <;> simp [hbase, habs, hrel]

theorem method_eq_iff :
    platformMethod (.text (resolvedUrl config input)) (mergeInit config init) = platformMethod input init ↔
      init.method.isSome = true ∨ input.base.method = "GET" := by
  unfold platformMethod mergeInit
  cases init.method <;> simp [FetchInput.base, eq_comm]

theorem body_eq_iff : platformBody (.text (resolvedUrl config input)) (mergeInit config init) = platformBody input init ↔
    init.body.isSome = true ∨ input.base.body = none := by
  unfold platformBody mergeInit
  cases init.body <;> simp [FetchInput.base, eq_comm]

theorem headers_eq_iff :
    (fun name => (callerHeaders (.text (resolvedUrl config input)) (mergeInit config init) name).or
      ((mergeInit config init).derived name)) = callersHeaders config input init ↔
      init.headers.isSome = true ∨ ∀ name, input.base.headers name = none ∨
        input.base.headers name = (config.headers name).or (init.derived name) := by
  unfold callersHeaders callerHeaders mergeInit RequestInit.derived
  rw [funext_iff]
  cases init.headers with
  | some headers => simp
  | none =>
    simp only [Option.getD_some, Option.getD_none, Option.bind_none, Option.none_or, Option.isSome_none,
      Bool.false_eq_true, false_or]
    refine forall_congr' fun name => ?_
    cases input.base.headers name <;> simp [eq_comm]

/-- The first request of a call is the caller's exactly when the wrapper hands it on. -/
theorem send_eq_iff (h : (platformFetch input init).isSome = true) :
    send config input init false = callersRequest config input init ↔ HandsOn config input init := by
  unfold platformFetch at h
  split at h
  · cases h
  next hallowed =>
  split at h
  · cases h
  next hbodyless =>
  have hmethod : (mergeInit config init).method = init.method := rfl
  rw [send, if_neg (by simp), callersRequest, platformFetch, platformFetch, hmethod, if_neg hallowed, if_neg hallowed,
    if_neg hbodyless, Option.map_some]
  constructor
  · intro heq
    split at heq
    · cases heq
    · rw [Option.some.injEq, Sent.mk.injEq] at heq
      obtain ⟨hurl, hmethod, hheaders, hbody, -⟩ := heq
      exact ⟨resolvedUrl_eq_iff.mp hurl, method_eq_iff.mp hmethod, headers_eq_iff.mp hheaders, body_eq_iff.mp hbody⟩
  · rintro ⟨hurl, hmethod, hheaders, hbody⟩
    rw [method_eq_iff.mpr hmethod, body_eq_iff.mpr hbody, if_neg hbodyless, headers_eq_iff.mpr hheaders]
    rw [← resolvedUrl_eq_iff.mpr hurl]
    rfl

/-- The second request is the first one again, unless its body is a stream. -/
theorem send_again (hstream : init.body.any Body.isStream = false) :
    send config input init true = send config input init false := by
  simp [send, hstream]

theorem send_stream (hstream : init.body.any Body.isStream = true) : send config input init true = none := by
  simp [send, hstream]

/-! ### Every request of a call -/

variable {W : Wrapper} {c : ℕ}

/-- What is seen of a call has its first request in it, and its second one if it has joined a refresh. -/
theorem requested_of_history {phase : Phase} {sent : Option Sent} (h : .requested c sent ∈ W.history c phase) :
    sent = W.send c false ∨ sent = W.send c true ∧ ∃ first r, phase.joined = some (first, r) := by
  revert h
  rcases phase with _ | (_ | ⟨first, r⟩) | ⟨_ | ⟨first, r⟩, reply⟩ | ⟨_ | ⟨first, r⟩, reply⟩ | ⟨first, r⟩ |
    (reply | ⟨first, r⟩ | ⟨first, r, reply⟩)
  all_goals simp +contextual [Phase.joined, history, upToRequest, upToWait]

/-- A request of a call is its first one, or the second one of a route that may trigger a refresh. -/
theorem request_of_call {cfg : Config State Job Mark} (h : W.Reaches cfg) {sent : Option Sent}
    (hsent : .requested c sent ∈ cfg.log) : sent = W.send c false ∨ sent = W.send c true ∧ W.skips c = false := by
  replace hsent := (h.recorded.mem_call c (by simp [Mark.ofCall])).mp hsent
  refine (requested_of_history hsent).imp_right ?_
  rintro ⟨hagain, first, r, hjoined⟩
  exact ⟨hagain, (h.ordered.joined c first r hjoined).2.2⟩

/-- A call can be made. -/
theorem reaches_first (W : Wrapper) (c : ℕ) : ∃ cfg, W.Reaches cfg ∧ .requested c (W.send c false) ∈ cfg.log := by
  have hrun : ∃ cfg, run W.loop [some (.call c)] (start initial) = some cfg ∧
      .requested c (W.send c false) ∈ cfg.log := by
    simp [run, advance, loop, event, start, initial, Effect.after]
  obtain ⟨cfg, hcfg, hsent⟩ := hrun
  exact ⟨cfg, reach_of_run hcfg, hsent⟩

/-- The call is answered with a 401, and its refresh succeeds. -/
def renewed (c : ℕ) : List (Option Event) :=
  [some (.call c), some (.reply c (.response ⟨401, ""⟩)), none, none, some (.refreshReply 0 (.response ⟨200, ""⟩)), none,
    none, none]

/-- A call of no skipped route can come to send its request again. -/
theorem reaches_again (hsend : (W.send c false).isSome = true) (hskips : W.skips c = false) :
    ∃ cfg, W.Reaches cfg ∧ .requested c (W.send c true) ∈ cfg.log := by
  have hrun : ∃ cfg, run W.loop (renewed c) (start initial) = some cfg ∧
      .requested c (W.send c true) ∈ cfg.log := by
    simp [run, advance, renewed, loop, event, job, canReply, start, initial,
      Effect.after, runRefresh, join, started, Refresh.await, Reply.ok, hsend, hskips]
  obtain ⟨cfg, hcfg, hsent⟩ := hrun
  exact ⟨cfg, reach_of_run hcfg, hsent⟩

/-- Whether a call is sent as its caller has it, in every run and whatever the replies are. -/
def SentAsAsked (W : Wrapper) (c : ℕ) : Prop :=
  ∀ cfg, W.Reaches cfg → ∀ sent, .requested c sent ∈ cfg.log → sent = callersRequest W.config (W.input c) (W.init c)

/-- **The wrapper sends the caller's request**, at first and again, exactly if it can hand it on, and its body is no
stream or its route triggers no refresh. -/
theorem sends_callers_request_iff (h : (platformFetch (W.input c) (W.init c)).isSome = true) :
    SentAsAsked W c ↔ HandsOn W.config (W.input c) (W.init c) ∧
      ((W.init c).body.any Body.isStream = true → W.skips c = true) := by
  rw [← send_eq_iff h]
  have hasked : (callersRequest W.config (W.input c) (W.init c)).isSome = true := by
    rw [callersRequest, Option.isSome_map, h]
  constructor
  · intro hall
    have hfirst : W.send c false = callersRequest W.config (W.input c) (W.init c) := by
      obtain ⟨cfg, hreach, hsent⟩ := reaches_first W c
      exact hall cfg hreach _ hsent
    refine ⟨hfirst, fun hstream => ?_⟩
    by_contra hskips
    obtain ⟨cfg, hreach, hsent⟩ := reaches_again (c := c) (hfirst ▸ hasked) (Bool.eq_false_iff.mpr hskips)
    rw [← hall cfg hreach _ hsent, Wrapper.send, send_stream hstream] at hasked
    cases hasked
  · rintro ⟨hfirst, hstream⟩ cfg hreach sent hsent
    rcases request_of_call hreach hsent with rfl | ⟨rfl, hskips⟩
    · exact hfirst
    · have hbody : (W.init c).body.any Body.isStream = false := by
        by_contra hbody
        cases hskips.symm.trans (hstream (Bool.not_eq_false _ ▸ hbody))
      exact (send_again hbody).trans hfirst

theorem sends_callers_request_page : (platformFetch (page.input 0) (page.init 0)).isSome = true ∧ SentAsAsked page 0 := by
  have haccepted : (platformFetch (page.input 0) (page.init 0)).isSome = true := by decide +kernel
  refine ⟨haccepted, (sends_callers_request_iff haccepted).mpr ⟨⟨?_, ?_, ?_, ?_⟩, nofun⟩⟩
  · exact .inr (.inr (.inl (by decide +kernel)))
  · exact .inr rfl
  · exact .inr fun _ => .inl rfl
  · exact .inr rfl

/-- A page that calls with a `Request` object. -/
def posting : Wrapper where
  config := {}
  input _ := .request
    { url := "https://api.example.com/orders"
      method := "POST"
      headers := fun _ => none
      body := some (.value "order" none)
      credentials := "same-origin" }
  init _ := {}

/-- A `POST` with a body, given as a `Request` object, is sent as a `GET` without one. -/
theorem request_object_dropped :
    (platformFetch (posting.input 0) (posting.init 0)).map (fun sent => (sent.method, sent.body)) =
      some ("POST", some (.value "order" none)) ∧
    (∃ cfg sent, posting.Reaches cfg ∧ .requested 0 (some sent) ∈ cfg.log ∧ sent.method = "GET" ∧ sent.body = none) ∧
    ¬ SentAsAsked posting 0 := by
  obtain ⟨cfg, hreach, hsent⟩ := reaches_first posting 0
  obtain ⟨sent, heq⟩ := Option.isSome_iff_exists.mp (by decide +kernel : (posting.send 0 false).isSome = true)
  have hget : (posting.send 0 false).map (fun sent => (sent.method, sent.body)) = some ("GET", none) := by decide +kernel
  have hpost : (callersRequest posting.config (posting.input 0) (posting.init 0)).map Sent.method = some "POST" := by
    decide +kernel
  rw [heq, Option.map_some, Option.some.injEq, Prod.mk.injEq] at hget
  rw [heq] at hsent
  refine ⟨by decide +kernel, ⟨cfg, sent, hreach, hsent, hget⟩, fun hall => ?_⟩
  rw [← hall cfg hreach _ hsent, Option.map_some, hget.1] at hpost
  exact absurd hpost (by decide)

end BymaxAuth.Client
