import Mathlib.Data.List.DropRight
import Mathlib.Data.List.Induction
import Mathlib.Logic.Nontrivial.Basic

/-!
# Relaying the backend's cookies

`forwardSetCookies` appends the backend's `Set-Cookie` headers to the answer of a handler, but first
`dedupeSetCookieHeaders` keeps one header for each name. A browser tells cookies apart by name, domain and path, and the
backend writes one set of session cookies for each configured domain (`write_scopes` of `delivery.rs`).

## The model

A header is its text. How a browser reads one is a parameter (`Browser`): under which name, domain and path it keeps the
cookie, if at all, and what it keeps.
-/

namespace BymaxAuth.Edge.Relay

open List Option

/-! ### The headers -/

/-- The white space of `String.prototype.trim`. -/
def isWhiteSpace (c : Char) : Bool :=
  c.val ∈ [0x9, 0xa, 0xb, 0xc, 0xd, 0x20, 0xa0, 0x1680, 0x2028, 0x2029, 0x202f, 0x205f, 0x3000, 0xfeff] ||
    (0x2000 ≤ c.val && c.val ≤ 0x200a)

/-- `String.prototype.trim` -/
def trim (s : List Char) : List Char := (s.dropWhile isWhiteSpace).rdropWhile isWhiteSpace

/-- `ParsedSetCookie`; `Number(value)` is kept as the text. -/
structure ParsedSetCookie where
  name : String
  value : Option String := none
  path : Option String := none
  domain : Option String := none
  maxAge : Option String := none
  expires : Option String := none
  secure : Bool := false
  httpOnly : Bool := false
  sameSite : Option String := none

/-- `splitAttribute` -/
def splitAttribute (segment : List Char) : List Char × String :=
  match segment.findIdx? (· = '=') with
  | none => (trim segment, "")
  | some index => (trim (segment.take index), String.ofList (trim (segment.drop (index + 1))))

/-- The `switch` of `parseSetCookieHeader`. -/
def ParsedSetCookie.withAttribute (parsed : ParsedSetCookie) (segment : List Char) : ParsedSetCookie :=
  let (key, value) := splitAttribute segment
  match String.ofList (key.map Char.toLower) with
  | "path" => { parsed with path := value }
  | "domain" => { parsed with domain := value }
  | "max-age" => { parsed with maxAge := value }
  | "expires" => { parsed with expires := value }
  | "secure" => { parsed with secure := true }
  | "httponly" => { parsed with httpOnly := true }
  | "samesite" => { parsed with sameSite := value }
  | _ => parsed

/-- `parseSetCookieHeader` -/
def parseSetCookieHeader (raw : String) : ParsedSetCookie :=
  let segments := ((raw.toList.splitOn ';').map trim).filter (· ≠ [])
  let pair := segments.headD []
  let eq := (pair.findIdx? (· = '=')).getD 0
  let name := String.ofList (trim (pair.take eq))
  if eq = 0 ∨ name = "" then { name := "" }
  else
    segments.tail.foldl ParsedSetCookie.withAttribute
      { name, value := String.ofList (trim (pair.drop (eq + 1))) }

/-- The key of a header in the map of `dedupeSetCookieHeaders`. -/
def relayKey (raw : String) : String :=
  if (parseSetCookieHeader raw).name = "" then raw else (parseSetCookieHeader raw).name

/-- `Map.prototype.set`: an entry keeps its place. -/
def mapSet (m : List (String × String)) (key value : String) : List (String × String) :=
  if m.any (·.1 = key) then m.map fun e => if e.1 = key then (key, value) else e else m ++ [(key, value)]

/-- The map of `dedupeSetCookieHeaders`. -/
def collapse (cookies : List String) : List (String × String) :=
  cookies.foldl (fun m raw => mapSet m (relayKey raw) raw) []

/-- `dedupeSetCookieHeaders`, and so what `forwardSetCookies` appends. -/
def dedupeSetCookieHeaders (cookies : List String) : List String := (collapse cookies).map (·.2)

/-- `scopes` of `delivery.rs`. -/
def scopes (domains : List String) : List (Option String) := if domains = [] then [none] else domains.map some

/-! ### The browser -/

/-- How a browser reads a header. -/
structure Browser (Value : Type) where
  /-- The name, the domain and the path it keeps the cookie under; `none` if it refuses it. -/
  identify : String → Option (String × String × String)
  /-- What it keeps; `none` if the cookie has expired. -/
  kept : String → Option Value

namespace Browser

variable {Value : Type} (browser : Browser Value)

/-- Of these headers it reads the names as the relay does. -/
def Named (cookies : List String) : Prop :=
  ∀ raw ∈ cookies, ∀ key, browser.identify raw = some key → relayKey raw = key.1

/-- The cookie store: by name, domain and path. -/
abbrev Store (Value : Type) : Type := String × String × String → Option Value

/-- One header. -/
def accept (store : Store Value) (raw : String) : Store Value :=
  match browser.identify raw with
  | none => store
  | some key => Function.update store key (browser.kept raw)

/-- The headers of an answer, in order. -/
def accepts (store : Store Value) (cookies : List String) : Store Value := cookies.foldl browser.accept store

end Browser

/-! ### What the relay keeps -/

/-- The last header of a list that is one of those. -/
def lastWhere (p : String → Bool) (cookies : List String) : Option String := (cookies.filter p).getLast?

variable {p : String → Bool} {cookies : List String} {raw : String}

theorem lastWhere_concat : lastWhere p (cookies ++ [raw]) = if p raw then some raw else lastWhere p cookies := by
  unfold lastWhere
  split
  · next h => simp [h]
  · next h => simp [h]

theorem lastWhere_eq_some (h : lastWhere p cookies = some raw) : raw ∈ cookies ∧ p raw = true :=
  mem_filter.mp (mem_of_getLast? h)

theorem lastWhere_isSome (hraw : raw ∈ cookies) (hp : p raw = true) : ∃ last, lastWhere p cookies = some last :=
  isSome_iff_exists.mp
    (List.getLast?_isSome.mpr (ne_nil_of_mem (mem_filter.mpr ⟨hraw, hp⟩)))

theorem lastWhere_of_imp {q : String → Bool} (himp : ∀ raw ∈ cookies, q raw = true → p raw = true)
    (h : lastWhere p cookies = some raw) (hq : q raw = true) : lastWhere q cookies = some raw := by
  induction cookies using List.reverseRecOn with
  | nil => exact h
  | append_singleton cookies last ih =>
    rw [lastWhere_concat] at h ⊢
    grind

theorem mem_mapSet_iff {m : List (String × String)} {key value key' value' : String} :
    (key', value') ∈ mapSet m key value ↔ if key = key' then value' = value else (key', value') ∈ m := by
  unfold mapSet
  split
  · next h =>
    obtain ⟨e, he, hkey⟩ := any_eq_true.mp h
    rw [List.mem_map]
    constructor
    · rintro ⟨e', he', heq⟩
      grind
    · intro hmem
      split at hmem
      · exact ⟨e, he, by grind⟩
      · exact ⟨_, hmem, by grind⟩
  · next h => grind

/-- The entry of a name is the last header of that name. -/
theorem mem_collapse_iff {key : String} :
    (key, raw) ∈ collapse cookies ↔ lastWhere (relayKey · = key) cookies = some raw := by
  induction cookies using List.reverseRecOn with
  | nil => simp [collapse, lastWhere]
  | append_singleton cookies last ih =>
    rw [collapse, foldl_concat, ← collapse, mem_mapSet_iff, lastWhere_concat]
    by_cases h : relayKey last = key
    · simp [h, eq_comm]
    · simpa [h] using ih

variable {Value : Type} (browser : Browser Value) {key : String × String × String}

/-- What a list of headers leaves under a key. -/
theorem Browser.accepts_apply (store : Store Value) : browser.accepts store cookies key =
    match lastWhere (browser.identify · = some key) cookies with
    | some raw => browser.kept raw
    | none => store key := by
  induction cookies using List.reverseRecOn with
  | nil => rfl
  | append_singleton cookies last ih =>
    rw [accepts, foldl_concat, ← accepts, lastWhere_concat, accept]
    cases hlast : browser.identify last with
    | none => simpa using ih
    | some key' =>
      by_cases h : key' = key
      · simp [h]
      · simpa [h, Ne.symm h] using ih

/-- Of the relayed headers for a key, the last is the last one of its name, if that is for the key. -/
theorem lastWhere_dedupe (hnamed : browser.Named cookies) :
    lastWhere (browser.identify · = some key) (dedupeSetCookieHeaders cookies) =
    (lastWhere (relayKey · = key.1) cookies).filter (browser.identify · = some key) := by
  have hiff : ∀ raw, (raw ∈ dedupeSetCookieHeaders cookies ∧ browser.identify raw = some key) ↔
      (lastWhere (relayKey · = key.1) cookies = some raw ∧ browser.identify raw = some key) := by
    refine fun raw => and_congr_left fun hid => ?_
    rw [← mem_collapse_iff, dedupeSetCookieHeaders, List.mem_map]
    constructor
    · rintro ⟨⟨name, raw⟩, hmem, rfl⟩
      obtain ⟨hraw, hname⟩ := lastWhere_eq_some (mem_collapse_iff.mp hmem)
      rw [decide_eq_true_eq, hnamed raw hraw key hid] at hname
      exact hname ▸ hmem
    · exact fun hmem => ⟨_, hmem, rfl⟩
  refine Option.ext fun raw => ?_
  rw [filter_eq_some_iff, decide_eq_true_eq, ← hiff]
  constructor
  · intro h
    simpa using lastWhere_eq_some h
  · rintro ⟨hmem, hid⟩
    obtain ⟨last, hlast⟩ := lastWhere_isSome (p := (browser.identify · = some key)) hmem (decide_eq_true hid)
    have hsame := (hiff last).mp (by simpa using lastWhere_eq_some hlast)
    rw [hlast, ← hsame.1, ((hiff raw).mp ⟨hmem, hid⟩).1]

/-- The relay changes nothing for a browser, whatever it has stored, exactly if the last header of a name is for the
domain and path of each other one of that name that the browser accepts. -/
theorem relay_changes_nothing_iff [Nonempty Value] (browser : Browser Value) {cookies : List String}
    (hnamed : browser.Named cookies) :
    (∀ store, browser.accepts store (dedupeSetCookieHeaders cookies) = browser.accepts store cookies) ↔
      ∀ raw ∈ cookies, (browser.identify raw).isSome = true →
        (lastWhere (relayKey · = relayKey raw) cookies).bind browser.identify = browser.identify raw := by
  constructor
  · intro h raw hraw hsome
    obtain ⟨key, hid⟩ := isSome_iff_exists.mp hsome
    obtain ⟨last, hlast⟩ := lastWhere_isSome (p := (browser.identify · = some key)) hraw (decide_eq_true hid)
    rw [hid, hnamed raw hraw key hid]
    -- a store that has something else under the key than the last header for it leaves
    obtain ⟨v, hv⟩ : ∃ v : Option Value, v ≠ browser.kept last := exists_ne _
    have hstore := congrFun (h fun _ => v) key
    rw [browser.accepts_apply, browser.accepts_apply, lastWhere_dedupe browser hnamed, hlast] at hstore
    cases hwhere : (lastWhere (relayKey · = key.1) cookies).filter (browser.identify · = some key) with
    | none => exact absurd (by rwa [hwhere] at hstore) hv
    | some x =>
      obtain ⟨hx, hxid⟩ := filter_eq_some_iff.mp hwhere
      rw [hx, bind_some, of_decide_eq_true hxid]
  · intro h store
    funext key
    rw [browser.accepts_apply, browser.accepts_apply, lastWhere_dedupe browser hnamed]
    cases hwhere : (lastWhere (relayKey · = key.1) cookies).filter (browser.identify · = some key) with
    | none =>
      cases hlast : lastWhere (browser.identify · = some key) cookies with
      | none => rfl
      | some last =>
        obtain ⟨hmem, hid⟩ := lastWhere_eq_some hlast
        rw [decide_eq_true_eq] at hid
        have hbind := h last hmem (by rw [hid, isSome_some])
        rw [hid, hnamed last hmem key hid, bind_eq_some_iff] at hbind
        obtain ⟨x, hx, hxid⟩ := hbind
        simp [hx, hxid] at hwhere
    | some x =>
      obtain ⟨hx, hxid⟩ := filter_eq_some_iff.mp hwhere
      have himp : ∀ raw ∈ cookies, decide (browser.identify raw = some key) = true →
          decide (relayKey raw = key.1) = true := by
        intro raw hraw hid
        exact decide_eq_true (hnamed raw hraw key (of_decide_eq_true hid))
      rw [lastWhere_of_imp himp hx hxid]

/-- A browser on `app.example.com` that keeps what a header says. -/
def plainBrowser : Browser String where
  identify raw :=
    let parsed := parseSetCookieHeader raw
    if parsed.name = "" then none
    else some (parsed.name, parsed.domain.getD "app.example.com", parsed.path.getD "/")
  kept raw := (parseSetCookieHeader raw).value

/-- It reads every name as the relay does. -/
theorem plainBrowser_named (cookies : List String) : plainBrowser.Named cookies := by
  intro raw _ key h
  simp only [plainBrowser] at h
  split at h
  · cases h
  · next hne =>
    cases h
    exact if_neg hne

/-- Where every name has one domain, a later header replaces an earlier one in the relay too. -/
theorem relay_changes_nothing_rotated : plainBrowser.accepts (fun _ => none)
        (dedupeSetCookieHeaders ["access_token=a", "has_session=1", "access_token=b"]) =
      plainBrowser.accepts (fun _ => none) ["access_token=a", "has_session=1", "access_token=b"] :=
  (relay_changes_nothing_iff plainBrowser (plainBrowser_named _)).mpr (by decide +kernel) _

/-- Of the cookies of two domains, the relay drops those of the first. -/
theorem relay_drops_domain : ∃ cookies, cookies = (scopes ["example.com", "app.example.com"]).map (fun scope =>
      "access_token=a" ++ scope.elim "" ("; Domain=" ++ ·)) ∧
    plainBrowser.accepts (fun _ => none) cookies ("access_token", "example.com", "/") = some "a" ∧
    plainBrowser.accepts (fun _ => none) (dedupeSetCookieHeaders cookies) ("access_token", "example.com", "/") = none :=
  ⟨_, rfl, by decide +kernel, by decide +kernel⟩

end BymaxAuth.Edge.Relay
