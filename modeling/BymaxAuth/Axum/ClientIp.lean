import Mathlib.Data.List.DropRight

/-!
# The client's address

`client_ip.rs`, with `rate_limit_bucket` and `client_ip` that read what it resolves: which address the
adapter takes for the client's. Behind a trusted proxy `X-Forwarded-For` is read from the right, and the first
hop that is not a trusted proxy is the client.

## The model

* A header value is a list of bytes, those HTTP allows. `to_str` reads it only if every byte is a visible
  ASCII character, a blank or a tab; so what it read is again a list of bytes.
* How an address is written and read is the standard library's (`IpText`).
* A proxy on the path writes its peer's address at the end of the last line it received, or on a line of its
  own (`Hop.forward`). The text it writes is one that reads as that address, with blanks around it or none.
-/

namespace BymaxAuth.Axum

open List Option

/-! ### Addresses -/

/-- `IpAddr` -/
inductive IpAddr where
  /-- Four octets. -/
  | v4 (a b c d : UInt8)
  /-- Eight segments. -/
  | v6 (a b c d e f g h : UInt16)
  deriving DecidableEq

/-- `Ipv6Addr::to_ipv4_mapped`, of the last two segments. -/
def IpAddr.ofMapped (g h : UInt16) : IpAddr := .v4 (g >>> 8).toUInt8 g.toUInt8 (h >>> 8).toUInt8 h.toUInt8

/-- `to_canonical`: an IPv4-mapped address is the IPv4 address. -/
def IpAddr.toCanonical : IpAddr → IpAddr
  | v6 0 0 0 0 0 0xffff g h => ofMapped g h
  | ip => ip

/-- `rate_limit_bucket`: an IPv4 address itself, the first four segments of any other. -/
def rateLimitBucket : IpAddr → IpAddr
  | .v4 a b c d => .v4 a b c d
  | .v6 0 0 0 0 0 0xffff g h => .ofMapped g h
  | .v6 a b c d _ _ _ _ => .v6 a b c d 0 0 0 0

/-! ### Header values -/

/-- ASCII text. -/
abbrev Text := List UInt8

/-- A byte HTTP allows in a header value: no control character but the tab. -/
def isValidByte (b : UInt8) : Bool := (32 ≤ b && b ≠ 127) || b = 9

/-- A byte `to_str` reads. -/
def isVisibleAscii (b : UInt8) : Bool := (32 ≤ b && b < 127) || b = 9

/-- `HeaderValue` -/
structure HeaderValue where
  bytes : List UInt8
  /-- HTTP allows them. -/
  valid : bytes.all isValidByte = true

/-- `HeaderValue::to_str` -/
def HeaderValue.toStr (v : HeaderValue) : Option Text := if v.bytes.all isVisibleAscii then some v.bytes else none

/-- The comma between two hops. -/
def comma : UInt8 := 44

/-- A line with another hop at its end. -/
def HeaderValue.extend (v w : HeaderValue) : HeaderValue where
  bytes := v.bytes ++ comma :: w.bytes
  valid := by
    rw [all_append, v.valid, all_cons, w.valid]
    rfl

/-- A blank or a tab; no other white space is visible to `to_str`. -/
def isBlank (b : UInt8) : Bool := b = 32 || b = 9

/-- `str::trim` -/
def trim (text : Text) : Text := (text.dropWhile isBlank).rdropWhile isBlank

/-- How addresses are read and written. -/
structure IpText where
  /-- `str::parse::<IpAddr>` -/
  parse : Text → Option IpAddr
  /-- `IpAddr::to_string` -/
  toString : IpAddr → String
  /-- The empty text is no address. -/
  parse_nil : parse [] = none

/-! ### The rule -/

/-- `ClientIpSource` -/
inductive ClientIpSource where
  /-- The socket's peer, and no header. -/
  | peerAddr
  /-- `X-Forwarded-For`, from a trusted peer. -/
  | trustedForwardedFor

/-- `ClientIpPolicy` -/
structure ClientIpPolicy where
  /-- Where the address comes from. -/
  source : ClientIpSource
  /-- `TrustedProxyFn`; `none` is a panic. -/
  isTrustedProxy : Option (IpAddr → Option Bool)

/-- `trusts`: a predicate that panics vouches for nobody. -/
def trusts (isTrusted : IpAddr → Option Bool) (ip : IpAddr) : Bool := (isTrusted ip).getD false

variable (texts : IpText)

/-- The loop of `resolve`, over the entries from the right. -/
def walk (isTrusted : IpAddr → Option Bool) (client : IpAddr) : List Text → IpAddr
  | [] => client
  | entry :: rest =>
    match texts.parse (trim entry) with
    | none => client
    | some hop =>
      if trusts isTrusted hop.toCanonical then walk isTrusted hop.toCanonical rest else hop.toCanonical

/-- The address a hop and the entries to its left stand for: the hop itself, unless it is trusted. -/
def visit (isTrusted : IpAddr → Option Bool) (hop : IpAddr) (entries : List Text) : IpAddr :=
  if trusts isTrusted hop.toCanonical then walk texts isTrusted hop.toCanonical entries else hop.toCanonical

/-- `ClientIpPolicy::resolve` -/
def ClientIpPolicy.resolve (policy : ClientIpPolicy) (peer : Option IpAddr) (forwardedFor : Text) : Option IpAddr :=
  match policy.source, policy.isTrustedProxy with
  | .trustedForwardedFor, some isTrusted =>
    peer.map fun peer => visit texts isTrusted peer (forwardedFor.splitOn comma).reverse
  | _, _ => peer.map IpAddr.toCanonical

/-- What the adapter reads of a request. -/
structure Request where
  /-- The socket's peer, if the transport reported one. -/
  peer : Option IpAddr
  /-- The `X-Forwarded-For` lines, in the order they arrived. -/
  forwardedFor : List HeaderValue

open HeaderValue

/-- `resolve_client_ip`: the address it stores. -/
def resolveClientIp (policy : ClientIpPolicy) (request : Request) : Option IpAddr :=
  policy.resolve texts request.peer ([comma].intercalate (request.forwardedFor.filterMap toStr))

/-- `ClientIpBucketKeyExtractor::extract`, behind `resolve_client_ip`. -/
def extractBucket (policy : ClientIpPolicy) (request : Request) : Option IpAddr :=
  ((resolveClientIp texts policy request).or request.peer).map rateLimitBucket

/-- `client_ip`, behind `resolve_client_ip`: the address the engine records. -/
def clientIp (policy : ClientIpPolicy) (request : Request) : String :=
  ((resolveClientIp texts policy request).or request.peer).elim "" texts.toString

/-! ### The path -/

/-- Where a proxy writes its peer's address. -/
inductive Joining where
  /-- At the end of the last line it received, if it received any. -/
  | lastLine
  /-- On a line of its own. -/
  | newLine
  deriving DecidableEq

/-- A proxy on the path. -/
structure Hop where
  /-- Its own address. -/
  addr : IpAddr
  /-- Where it writes. -/
  joining : Joining
  /-- What it writes. -/
  wrote : HeaderValue

/-- The lines a proxy sends on. -/
def Hop.forward (hop : Hop) (lines : List HeaderValue) : List HeaderValue :=
  match hop.joining, lines.getLast? with
  | .lastLine, some last => lines.dropLast ++ [last.extend hop.wrote]
  | _, _ => lines ++ [hop.wrote]

variable (lines : List HeaderValue)

/-- The lines that arrive, of those the client sent. -/
def arrive (hops : List Hop) : List HeaderValue :=
  hops.foldl (fun lines hop => hop.forward lines) lines

/-- The last on the path, which the next one sees as its peer. -/
def reached (client : IpAddr) (hops : List Hop) : IpAddr := (hops.getLast?.map Hop.addr).getD client

/-- A text that reads as this address, in canonical form. -/
structure Spells (text : HeaderValue) (ip : IpAddr) : Prop where
  /-- `to_str` reads it. -/
  visible : text.bytes.all isVisibleAscii = true
  /-- It is one entry. -/
  comma_notMem : comma ∉ text.bytes
  /-- It is the address. -/
  parses : ∃ hop, texts.parse (trim text.bytes) = some hop ∧ hop.toCanonical = ip.toCanonical

/-- Every proxy writes the address of its own peer. -/
def Reports : IpAddr → List Hop → Prop
  | _, [] => True
  | peer, hop :: rest => Spells texts hop.wrote peer ∧ Reports hop.addr rest

/-- `to_str` reads the last line, or there is none. -/
def lastReadable : Bool := lines.getLast?.all fun last => last.toStr.isSome

/-- The proxies whose entries stand on a line that cannot be read: while none opens a line of its own, they
write at the end of the client's last. -/
def lost (hops : List Hop) : List Hop :=
  if lastReadable lines then [] else hops.takeWhile fun hop => hop.joining = .lastLine

/-- The request that reaches the adapter. -/
def requestOf (client : IpAddr) (lines : List HeaderValue) (hops : List Hop) : Request :=
  { peer := some (reached client hops), forwardedFor := arrive lines hops }

/-! ### The entries the adapter reads -/

/-- The entries of the lines that can be read. -/
def entries : List Text :=
  (lines.filterMap toStr).flatMap (List.splitOn comma)

theorem entries_append (lines rest : List HeaderValue) : entries (lines ++ rest) = entries lines ++ entries rest := by
  simp [entries]

theorem splitOn_comma_append (a b : Text) : (a ++ comma :: b).splitOn comma = a.splitOn comma ++ b.splitOn comma :=
  splitOnP_append_cons a b (beq_self_eq_true _)

/-- The lines joined and split again. -/
theorem splitOn_joined (lines : List Text) (h : lines ≠ []) :
    ([comma].intercalate lines).splitOn comma = lines.flatMap (List.splitOn comma) := by
  induction lines with
  | nil => exact absurd rfl h
  | cons a rest ih =>
    cases rest with
    | nil => simp [List.intercalate]
    | cons b rest =>
      have hcons : [comma].intercalate (a :: b :: rest) = a ++ comma :: [comma].intercalate (b :: rest) := by
        simp [List.intercalate]
      rw [hcons, splitOn_comma_append, ih (cons_ne_nil _ _)]
      rfl

section Entries

variable {texts} {text line : HeaderValue} {ip : IpAddr}

theorem toStr_of_visible (h : text.bytes.all isVisibleAscii = true) : text.toStr = some text.bytes := if_pos h

/-- What a proxy writes on a line of its own is one entry. -/
theorem entries_of_spells (h : Spells texts text ip) : entries [text] = [text.bytes] := by
  have hsplit : text.bytes.splitOn comma = [text.bytes] := by
    refine splitOnP_eq_singleton fun b hb => ?_
    rw [beq_eq_false_iff_ne]
    rintro rfl
    exact h.comma_notMem hb
  simp [entries, toStr_of_visible h.visible, hsplit]

/-- A line that can be read can be read with an address at its end. -/
theorem toStr_extend (h : Spells texts text ip) :
    (line.extend text).toStr = line.toStr.map fun s => s ++ comma :: text.bytes := by
  have hall : (line.extend text).bytes.all isVisibleAscii = line.bytes.all isVisibleAscii := by
    rw [extend, all_append, all_cons, h.visible]
    simp [isVisibleAscii, comma]
  unfold toStr
  rw [hall]
  split_ifs <;> rfl

/-- What a proxy writes at the end of a line is an entry more, if the line can be read. -/
theorem entries_extend (h : Spells texts text ip) :
    entries [line.extend text] = if line.toStr.isSome then entries [line] ++ [text.bytes] else [] := by
  have htext := entries_of_spells h
  rw [entries, filterMap_cons_some (toStr_of_visible h.visible)] at htext
  cases hline : line.toStr with
  | none => simp [entries, toStr_extend h, hline]
  | some s =>
    simp only [filterMap_nil, flatMap_cons, flatMap_nil, append_nil] at htext
    simp [entries, toStr_extend h, hline, splitOn_comma_append, htext]

end Entries

/-! ### One proxy -/

section Forward

variable {texts} {hop : Hop} {lines : List HeaderValue} {peer : IpAddr}

theorem lastReadable_append_singleton (line : HeaderValue) :
    lastReadable (lines ++ [line]) = line.toStr.isSome := by simp [lastReadable]

/-- The cases of `forward`: the entry stands on a line of its own, or at the end of one. -/
theorem forward_cases (hop : Hop) (lines : List HeaderValue) :
    ((hop.joining = .newLine ∨ lines = []) ∧ hop.forward lines = lines ++ [hop.wrote]) ∨
      ∃ init last, hop.joining = .lastLine ∧ lines = init ++ [last] ∧
        hop.forward lines = init ++ [last.extend hop.wrote] := by
  rcases lines.eq_nil_or_concat' with rfl | ⟨init, last, rfl⟩
  · exact .inl ⟨.inr rfl, by cases h : hop.joining <;> simp [Hop.forward, h]⟩
  · cases h : hop.joining with
    | newLine => exact .inl ⟨.inl rfl, by simp [Hop.forward, h]⟩
    | lastLine => exact .inr ⟨init, last, rfl, rfl, by simp [Hop.forward, h]⟩

/-- A proxy that opens a line, or extends one that can be read, is heard, and so is the next. -/
theorem forward_heard (hs : Spells texts hop.wrote peer) (h : hop.joining = .newLine ∨ lastReadable lines = true) :
    entries (hop.forward lines) = entries lines ++ [hop.wrote.bytes] ∧ lastReadable (hop.forward lines) = true := by
  rcases forward_cases hop lines with ⟨-, hf⟩ | ⟨init, last, hj, rfl, hf⟩
  · rw [hf, entries_append, entries_of_spells hs, lastReadable_append_singleton, toStr_of_visible hs.visible]
    exact ⟨rfl, rfl⟩
  · have hlast : last.toStr.isSome = true := by
      rcases h with h | h
      · rw [hj] at h
        exact nomatch h
      · rwa [lastReadable_append_singleton] at h
    rw [hf, lastReadable_append_singleton, toStr_extend hs, isSome_map, entries_append, entries_append,
      entries_extend hs, if_pos hlast, append_assoc]
    exact ⟨rfl, hlast⟩

/-- A proxy that extends a line that cannot be read is not heard, and the line stays as unreadable. -/
theorem forward_lost (hs : Spells texts hop.wrote peer) (hj : hop.joining = .lastLine)
    (h : lastReadable lines = false) :
    entries (hop.forward lines) = entries lines ∧ lastReadable (hop.forward lines) = false := by
  rcases forward_cases hop lines with ⟨hn | rfl, -⟩ | ⟨init, last, -, rfl, hf⟩
  · rw [hj] at hn
    exact nomatch hn
  · exact nomatch h
  · rw [lastReadable_append_singleton] at h
    have hlast : last.toStr = none := by simpa using h
    have hentries : entries [last] = [] := by simp [entries, hlast]
    rw [hf, lastReadable_append_singleton, toStr_extend hs, isSome_map, entries_append, entries_append,
      entries_extend hs, hentries, hlast]
    exact ⟨rfl, rfl⟩

end Forward

/-! ### The whole path -/

section Path

variable {texts} {hops : List Hop} {lines : List HeaderValue} {peer client : IpAddr}
  {isTrusted : IpAddr → Option Bool}

theorem reached_cons (hop : Hop) : reached client (hop :: hops) = reached hop.addr hops := by
  cases hops with
  | nil => rfl
  | cons next rest => simp [reached, List.getLast?_eq_some_getLast]

theorem reached_append (front : List Hop) : reached client (front ++ hops) = reached (reached client front) hops := by
  induction front generalizing client with
  | nil => rfl
  | cons hop rest ih => rw [cons_append, reached_cons, reached_cons, ih]

theorem Reports.append {front : List Hop} (h : Reports texts peer (front ++ hops)) :
    Reports texts (reached peer front) hops := by
  induction front generalizing peer with
  | nil => exact h
  | cons hop rest ih =>
    rw [reached_cons]
    exact ih h.2

/-- Once one proxy is heard, so are all behind it. -/
theorem entries_arrive_heard (hr : Reports texts peer hops)
    (h : lastReadable lines = true ∨ ∃ hop rest, hops = hop :: rest ∧ hop.joining = .newLine) :
    entries (arrive lines hops) = entries lines ++ hops.map fun hop => hop.wrote.bytes := by
  induction hops generalizing lines peer with
  | nil => simp [arrive]
  | cons hop rest ih =>
    have hheard : hop.joining = .newLine ∨ lastReadable lines = true := by
      rcases h with h | ⟨hop', rest', heq, hj⟩
      · exact .inr h
      · cases heq
        exact .inl hj
    obtain ⟨hentries, hread⟩ := forward_heard hr.1 hheard
    have := ih hr.2 (.inl hread)
    rw [arrive, foldl_cons, ← arrive, this, hentries, append_assoc]
    rfl

/-- Proxies that extend a line that cannot be read are not heard. -/
theorem entries_arrive_lost (hr : Reports texts peer hops) (hj : ∀ hop ∈ hops, hop.joining = .lastLine)
    (h : lastReadable lines = false) :
    entries (arrive lines hops) = entries lines ∧ lastReadable (arrive lines hops) = false := by
  induction hops generalizing lines peer with
  | nil => exact ⟨rfl, h⟩
  | cons hop rest ih =>
    obtain ⟨hentries, hread⟩ := forward_lost hr.1 (hj hop mem_cons_self) h
    have := ih hr.2 (fun hop' h' => hj hop' (mem_cons_of_mem _ h')) hread
    rw [arrive, foldl_cons, ← arrive, ← hentries]
    exact this

theorem Reports.front {front : List Hop} (h : Reports texts peer (front ++ hops)) : Reports texts peer front := by
  induction front generalizing peer with
  | nil => trivial
  | cons hop rest ih => exact ⟨h.1, ih h.2⟩

/-- The entries that arrive: those of the client, then those of the proxies that are heard. -/
theorem exists_entries_arrive (lines : List HeaderValue) (hr : Reports texts client hops) :
    ∃ heard, hops = lost lines hops ++ heard ∧
      entries (arrive lines hops) = entries lines ++ heard.map fun hop => hop.wrote.bytes := by
  cases hread : lastReadable lines with
  | true => exact ⟨hops, by simp [lost, hread], entries_arrive_heard hr (.inl hread)⟩
  | false =>
    have hlost : lost lines hops = hops.takeWhile fun hop => hop.joining = .lastLine := by simp [lost, hread]
    have hsplit : hops = lost lines hops ++ hops.dropWhile fun hop => hop.joining = .lastLine := by
      rw [hlost, takeWhile_append_dropWhile]
    have hall : ∀ hop ∈ lost lines hops, hop.joining = .lastLine := fun hop hmem => by
      rw [hlost] at hmem
      simpa using mem_takeWhile_imp hmem
    refine ⟨_, hsplit, ?_⟩
    generalize hheard : (hops.dropWhile fun hop => hop.joining = .lastLine) = heard at hsplit
    rw [hsplit] at hr
    obtain ⟨hentries, hread'⟩ := entries_arrive_lost hr.front hall hread
    rw [hsplit, arrive, foldl_append, ← arrive, ← arrive, ← hentries]
    cases heard with
    | nil => simp [arrive]
    | cons hop rest =>
      have hhop := List.head?_dropWhile_not (fun hop : Hop => decide (hop.joining = .lastLine)) hops
      rw [hheard] at hhop
      refine entries_arrive_heard hr.append (.inr ⟨hop, rest, rfl, ?_⟩)
      cases hj : hop.joining with
      | newLine => rfl
      | lastLine => simp [hj] at hhop

/-- The walk goes past the trusted proxies, to whom the first of them named. -/
theorem visit_hops (ht : ∀ hop ∈ hops, trusts isTrusted hop.addr.toCanonical = true) (hr : Reports texts peer hops)
    (rest : List Text) :
    visit texts isTrusted (reached peer hops) ((hops.map fun hop => hop.wrote.bytes).reverse ++ rest) =
      visit texts isTrusted peer rest := by
  induction hops generalizing peer rest with
  | nil => rfl
  | cons hop others ih =>
    rw [reached_cons, map_cons, reverse_cons, append_assoc,
      ih (fun hop' h' => ht hop' (mem_cons_of_mem _ h')) hr.2, visit, if_pos (ht hop mem_cons_self)]
    obtain ⟨named, hparse, hcanonical⟩ := hr.1.parses
    simp only [singleton_append, walk, hparse, hcanonical]
    rfl

/-- The rule over the entries of the lines that can be read. -/
theorem resolveClientIp_eq (policy : ClientIpPolicy) (hsource : policy.source = .trustedForwardedFor)
    (htrusted : policy.isTrustedProxy = some isTrusted) (lines : List HeaderValue) :
    resolveClientIp texts policy ⟨some peer, lines⟩ = some (visit texts isTrusted peer (entries lines).reverse) := by
  simp only [resolveClientIp, ClientIpPolicy.resolve, hsource, htrusted, map_some, Option.some.injEq]
  cases h : lines.filterMap toStr with
  | nil =>
    -- No line can be read: the joined text is empty, and its one entry is no address.
    simp [entries, h, visit, walk, List.intercalate, trim, texts.parse_nil]
  | cons a rest => rw [splitOn_joined _ (cons_ne_nil _ _), entries, h]

/-- A line on which proxies are lost has no entries. -/
theorem entries_of_lost {bad : HeaderValue} (hlost : lost [bad] hops ≠ []) : entries [bad] = [] := by
  cases hbad : bad.toStr with
  | none => simp [entries, hbad]
  | some text => simp [lost, lastReadable, hbad] at hlost

/-- The address that is resolved: the walk enters the client's own entries from the last proxy that was not
heard, or from the client if all were. -/
theorem resolve_arrive (policy : ClientIpPolicy) (hsource : policy.source = .trustedForwardedFor)
    (htrusted : policy.isTrustedProxy = some isTrusted)
    (ht : ∀ hop ∈ hops, trusts isTrusted hop.addr.toCanonical = true) (hr : Reports texts client hops)
    (lines : List HeaderValue) :
    resolveClientIp texts policy (requestOf client lines hops) =
      some (visit texts isTrusted (reached client (lost lines hops)) (entries lines).reverse) := by
  obtain ⟨heard, hsplit, hentries⟩ := exists_entries_arrive lines hr
  have hheard : Reports texts (reached client (lost lines hops)) heard := by
    rw [hsplit] at hr
    exact hr.append
  have hreached : reached client hops = reached (reached client (lost lines hops)) heard := by
    rw [← reached_append, ← hsplit]
  rw [requestOf, resolveClientIp_eq policy hsource htrusted, hentries, reverse_append, hreached,
    visit_hops (fun hop h => ht hop (by rw [hsplit]; exact mem_append_right _ h)) hheard]

/-- The last proxy that is lost is a trusted one. -/
theorem trusts_reached_lost (ht : ∀ hop ∈ hops, trusts isTrusted hop.addr.toCanonical = true)
    (hlost : lost lines hops ≠ []) :
    trusts isTrusted (reached client (lost lines hops)).toCanonical = true := by
  obtain ⟨last, hlast⟩ := ne_none_iff_exists'.mp (mt List.getLast?_eq_none_iff.mp hlost)
  have hmem : last ∈ hops := by
    have hmem := mem_of_getLast? hlast
    unfold lost at hmem
    split_ifs at hmem
    · exact nomatch hmem
    · exact (takeWhile_sublist _).subset hmem
  rw [reached, hlast]
  exact ht last hmem

variable {policy : ClientIpPolicy} (hsource : policy.source = .trustedForwardedFor)
  (htrusted : policy.isTrustedProxy = some isTrusted)
  (ht : ∀ hop ∈ hops, trusts isTrusted hop.addr.toCanonical = true)
include hsource htrusted ht

/-- Where the proxies are lost, the client writes an address on a first line, and that is the address. -/
theorem resolve_lost {text bad : HeaderValue} {ip : IpAddr} (hr : Reports texts client hops)
    (hlost : lost [bad] hops ≠ []) (hs : Spells texts text ip) :
    resolveClientIp texts policy (requestOf client [text, bad] hops) = some ip.toCanonical := by
  have hlines : lost [text, bad] hops = lost [bad] hops := rfl
  have hentries : entries [text, bad] = [text.bytes] := by
    rw [← singleton_append, entries_append, entries_of_spells hs, entries_of_lost hlost, append_nil]
  obtain ⟨hop, hparse, hcanonical⟩ := hs.parses
  rw [resolve_arrive policy hsource htrusted ht hr, hlines, hentries, visit, if_pos (trusts_reached_lost ht hlost)]
  simp [walk, hparse, hcanonical]

variable (hclient : trusts isTrusted client.toCanonical = false)
include hclient

/-- A client whose one line cannot be read is taken for the last proxy that wrote on it. -/
theorem resolve_lost_alone {bad : HeaderValue} (hr : Reports texts client hops) (hlost : lost [bad] hops ≠ []) :
    resolveClientIp texts policy (requestOf client [bad] hops) ≠ some client.toCanonical := by
  have htrust : trusts isTrusted (reached client (lost [bad] hops)).toCanonical = true := trusts_reached_lost ht hlost
  rw [resolve_arrive policy hsource htrusted ht hr, entries_of_lost hlost, visit, if_pos htrust]
  intro heq
  rw [show (reached client (lost [bad] hops)).toCanonical = client.toCanonical from Option.some.inj heq] at htrust
  exact Bool.noConfusion (htrust.symm.trans hclient)

theorem resolve_heard (hr : Reports texts client hops) (hheard : lost lines hops = []) :
    resolveClientIp texts policy (requestOf client lines hops) = some client.toCanonical := by
  rw [resolve_arrive policy hsource htrusted ht hr, hheard]
  simp [reached, visit, hclient]

/-- The address that is resolved is the client's whatever lines the client sends, exactly if the first proxy opens a
line of its own; and whatever lines stand before a given last one, exactly if no proxy is lost on that one. Where none
is lost, the bucket and the recorded address are the client's too. -/
theorem resolved_client_iff (hr : Reports texts client hops) :
    ((∀ lines, resolveClientIp texts policy (requestOf client lines hops) = some client.toCanonical) ↔
      ∀ hop ∈ hops.head?, hop.joining = .newLine) ∧
    (∀ last, (∀ front, resolveClientIp texts policy (requestOf client (front ++ [last]) hops) =
      some client.toCanonical) ↔ lost [last] hops = []) ∧
    ∀ lines, lost lines hops = [] →
      resolveClientIp texts policy (requestOf client lines hops) = some client.toCanonical ∧
      extractBucket texts policy (requestOf client lines hops) = some (rateLimitBucket client.toCanonical) ∧
      clientIp texts policy (requestOf client lines hops) = texts.toString client.toCanonical := by
  refine ⟨⟨fun hall hop hhop => ?_, fun hfirst lines => ?_⟩, fun last => ⟨fun hall => ?_, fun hheard front => ?_⟩,
    fun lines hheard => ?_⟩
  · -- the client sends one byte above `0x7F`
    by_contra hjoin
    have hlost : lost [⟨[0xff], rfl⟩] hops ≠ [] := by
      obtain ⟨rest, rfl⟩ := List.head?_eq_some_iff.mp hhop
      cases h : hop.joining with
      | newLine => exact absurd h hjoin
      | lastLine => simp [lost, lastReadable, toStr, isVisibleAscii, h]
    exact resolve_lost_alone hsource htrusted ht hclient hr hlost (hall _)
  · refine resolve_heard hsource htrusted ht hclient hr ?_
    cases hops with
    | nil => simp [lost]
    | cons hop rest => simp [lost, hfirst hop rfl]
  · by_contra hlost
    exact resolve_lost_alone hsource htrusted ht hclient hr hlost (hall [])
  · refine resolve_heard hsource htrusted ht hclient hr ?_
    have hread : lastReadable (front ++ [last]) = lastReadable [last] := by simp [lastReadable]
    rwa [lost, hread]
  · have hresolve := resolve_heard hsource htrusted ht hclient hr hheard
    rw [extractBucket, clientIp, hresolve]
    exact ⟨rfl, rfl, rfl⟩

end Path

/-! ### A proxy that extends the last line -/

namespace Demo

/-- The bytes of an ASCII text. -/
def ascii (s : String) : Text := s.toList.map fun c => UInt8.ofNat c.toNat

/-- An octet, in decimal. -/
def octet (text : Text) : Option UInt8 :=
  if text ≠ [] ∧ text.length ≤ 3 ∧ text.all (fun b => 48 ≤ b && b ≤ 57) ∧ (text.head? = some 48 → text.length = 1) then
    let value := text.foldl (fun n b => 10 * n + (b.toNat - 48)) 0
    if value ≤ 255 then some (UInt8.ofNat value) else none
  else none

/-- Four octets with dots between them. -/
def parse (text : Text) : Option IpAddr :=
  match (text.splitOn 46).map octet with
  | [some a, some b, some c, some d] => some (.v4 a b c d)
  | _ => none

/-- The IPv4 half of how addresses are read and written. -/
def dotted : IpText where
  parse := parse
  toString
    | .v4 a b c d => s!"{a}.{b}.{c}.{d}"
    | .v6 .. => "::"
  parse_nil := by decide

/-- The deployment's proxies are those of `10.0.0.0/8`. -/
def isTrusted : IpAddr → Option Bool
  | .v4 a _ _ _ => some (a = 10)
  | .v6 .. => some false

/-- The policy behind them. -/
def policy : ClientIpPolicy := ⟨.trustedForwardedFor, some isTrusted⟩

/-- The client. -/
def client : IpAddr := .v4 198 51 100 7

/-- A proxy that appends the client's address to the last line. -/
def proxy : Hop := ⟨.v4 10 0 0 1, .lastLine, ⟨ascii " 198.51.100.7", by decide⟩⟩

/-- A line with an address the client likes. -/
def liked : HeaderValue := ⟨ascii "6.6.6.6", by decide⟩

/-- A line with a byte above `0x7F`. -/
def opaqueLine : HeaderValue := ⟨[0xff], by decide⟩

theorem reports : Reports dotted client [proxy] :=
  ⟨⟨by decide, by decide, client, by decide +kernel, rfl⟩, trivial⟩

theorem trusted : ∀ hop ∈ [proxy], trusts isTrusted hop.addr.toCanonical = true := by decide

end Demo

open Demo

/-- The client's two lines: the proxy's entry stands on the second, which cannot be read, so the first is
all there is. -/
theorem resolved_client_chosen :
    Reports dotted client [proxy] ∧ isTrusted client = some false ∧
      isTrusted proxy.addr = some true ∧
      resolveClientIp dotted policy (requestOf client [liked, opaqueLine] [proxy]) =
        some (.v4 6 6 6 6) ∧ IpAddr.v4 6 6 6 6 ≠ client.toCanonical :=
  ⟨reports, rfl, rfl, by decide +kernel, by decide⟩

/-- Whoever can have the proxy's entry lost is whom they like. -/
theorem resolve_lost_liked : lost [opaqueLine] [proxy] ≠ [] ∧
    resolveClientIp dotted policy (requestOf client [liked, opaqueLine] [proxy]) = some (.v4 6 6 6 6) := by
  have hs : Spells dotted liked (.v4 6 6 6 6) := ⟨by decide, by decide, _, by decide +kernel, rfl⟩
  exact ⟨by decide, resolve_lost rfl rfl trusted reports (by decide) hs⟩

/-- A client that writes an address is still the client; and whatever it writes, if the proxy opens a line. -/
theorem resolved_client_heard :
    resolveClientIp dotted policy (requestOf client [opaqueLine, liked] [proxy]) = some client ∧
      extractBucket dotted policy (requestOf client [opaqueLine, liked] [proxy]) = some client ∧
      ∀ lines, resolveClientIp dotted policy (requestOf client lines [{ proxy with joining := .newLine }]) =
        some client := by
  obtain ⟨-, -, hheard⟩ := @resolved_client_iff dotted [proxy] client isTrusted policy rfl rfl trusted rfl reports
  obtain ⟨hresolve, hbucket, -⟩ := hheard [opaqueLine, liked] rfl
  have hreports : Reports dotted client [{ proxy with joining := .newLine }] := ⟨reports.1, trivial⟩
  refine ⟨hresolve, hbucket, (resolved_client_iff rfl rfl ?_ rfl hreports).1.mpr ?_⟩
  · decide
  · rintro hop ⟨⟩
    rfl

end BymaxAuth.Axum
