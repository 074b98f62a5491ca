import BymaxAuth.History.Run
import BymaxAuth.Testing.Simulation

/-!
# Where the in-memory store answers as Redis does

`InMemoryStores` is documented to reproduce the Redis implementation. This module says for which sequences of
operations it does. Both stores begin empty, the operations are on either plane and run one after the other, every new
hash is new, and nothing lapses.

* A replayed token for which the in-memory store has a grace pointer is answered alike exactly if Redis has the pointer
  too and its successor is live. The in-memory store plants a pointer even when the grace window has no length, and it
  never looks at the successor.
* `create_recovered_session` is answered alike unless the account's last session was revoked: the empty index that the
  in-memory store keeps is no index for Redis.
* A listing is the same exactly if every session in the in-memory index is live: `revoke_family` leaves the entries
  behind when it is not told the owner.
-/

namespace BymaxAuth.Testing

open Redis Concurrency List Option Function InMemoryStores Seen

/-! ### The conditions -/

/-- The hash an operation stores a session under, if it does. -/
def StoreOp.newHash : StoreOp → Option String
  | .createSession _ hash _ _ | .createRecoveredSession _ hash _ _ => some hash
  | .rotate a => some a.newHash
  | _ => none

/-- The record an operation stores. -/
def StoreOp.record : StoreOp → Option SessionRecord
  | .createSession _ _ record _ | .createRecoveredSession _ _ record _ => some record
  | .rotate a => some a.newRecord
  | _ => none

/-- The lifetimes it gives to keys. -/
def StoreOp.ttls : StoreOp → List ℕ
  | .createSession _ _ _ ttl | .createRecoveredSession _ _ _ ttl => [ttl]
  | .rotate a => if 0 < a.graceTtl then [a.refreshTtl, a.graceTtl] else [a.refreshTtl]
  | _ => []

/-- Nothing the request writes lapses until the second `T`. -/
def Request.Lasts (T : ℕ) (q : Request) : Prop := q.now ≤ T ∧ ∀ ttl ∈ q.op.ttls, T < q.now + ttl
deriving Decidable

/-- The record can be written, and so can its detail. -/
def Writable (codec : Rfc3339) (record : SessionRecord) : Prop :=
  (record.toJson codec).isSome ∧ Listable record.createdAt

instance (codec : Rfc3339) (record : SessionRecord) : Decidable (Writable codec record) :=
  inferInstanceAs (Decidable (_ ∧ _ ∧ _))

/-- A rotation of a live session names an account that has an index, and the family the session has. -/
def aimed (m : InMemoryStores) : StoreOp → Bool
  | .rotate a => (m.sessions a.oldHash).all fun old =>
    a.newRecord.familyId = old.familyId && (m.sessionIndex a.subjectHash).isSome
  | _ => true

/-- The family of a record is there, if it names one. -/
def familyAlive (m : InMemoryStores) (record : SessionRecord) : Bool :=
  decide (record.familyId = "") || (m.families record.familyId).isSome

/-- Where the two stores agree: a consumed token that the in-memory store has a grace pointer for is presented only
while Redis has one too and its successor is live; a recovered session of a family that is alive is written only where
Redis has the account's index if the in-memory store has one; and an account's sessions are listed only when all of its
index is live. -/
def meets (m : InMemoryStores) (k : SessionKeys) : StoreOp → Bool
  | .rotate a => (m.sessions a.oldHash).isSome || (m.grace a.oldHash).all fun pointer =>
    (k.rp a.oldHash).isSome && (m.sessions pointer.successor).isSome
  | .createRecoveredSession subject _ record _ =>
    (m.sessionIndex subject).isNone || !familyAlive m record || (k.sess subject).isSome
  | .listSessions subject | .listSessionEntries subject =>
    (m.listSessions subject).all fun detail => (m.sessions detail.sessionHash).isSome
  | _ => true

/-! ### Taking away -/

/-- The two stores stand for the same sessions until the second `T`, all of them under used hashes. -/
structure Related (codec : Rfc3339) (T : ℕ) (used : List String) (m : InMemoryStores) (k : SessionKeys) : Prop where
  /-- They stand for the same sessions. -/
  sim : Sim codec m k
  /-- Nothing lapses. -/
  last : KeysLast T k
  /-- Every hash was used. -/
  within : Within used m

/-- A step of both stores that stores nothing. -/
structure Shrinks (m m' : InMemoryStores) (k k' : SessionKeys) : Prop where
  /-- A session stays, or goes with its detail. -/
  live : ∀ h, (m'.sessions h = m.sessions h ∧ val k'.rt h = val k.rt h ∧ val k'.sd h = val k.sd h) ∨
    (m'.sessions h = none ∧ val k'.rt h = none ∧ val k'.sd h = none)
  /-- The markers stay. -/
  consumed : m'.consumed = m.consumed
  /-- In Redis too. -/
  cf : val k'.cf = val k.cf
  /-- The families are the same. -/
  fam : val k'.fam = m'.families
  /-- The family of a session that stays is as it was. -/
  family : ∀ {h r}, m'.sessions h = some r → r.familyId ≠ "" → m'.families r.familyId = m.families r.familyId
  /-- The indexes name the same sessions. -/
  index : ∀ s, liveHashes (members k' s) = hashes m' s
  /-- An index that Redis has, the in-memory store has. -/
  entry : ∀ s, (val k'.sess s).isSome → (m'.sessionIndex s).isSome
  /-- No index gets a session. -/
  listed : ∀ s, m'.listSessions s ⊆ m.listSessions s
  /-- No grace pointer is new. -/
  grace : ∀ {h q}, m'.grace h = some q → m.grace h = some q
  /-- A pointer that Redis keeps, the in-memory store and the index keep. -/
  pointer : ∀ {h p}, val k'.rp h = some p → val k.rp h = some p ∧
    ∀ q, m.grace h = some q → Member.grace h ∈ members k q.subject →
      m'.grace h = some q ∧ Member.grace h ∈ members k' q.subject

section Shrink

variable {codec : Rfc3339} {T t : ℕ} {used : List String} {m m' : InMemoryStores} {k k' : SessionKeys}

theorem Shrinks.session (h : Shrinks m m' k k') {x : String} {r : SessionRecord} (hr : m'.sessions x = some r) :
    m.sessions x = some r := by
  obtain ⟨heq, -⟩ | ⟨hnone, -⟩ := h.live x
  · exact heq ▸ hr
  · rw [hnone] at hr
    cases hr

theorem Sim.shrink (hsim : Sim codec m k) (h : Shrinks m m' k k') : Sim codec m' k' where
  rt x := by
    obtain ⟨hm, hrt, -⟩ | ⟨hm, hrt, -⟩ := h.live x
    · rw [hm, hrt, hsim.rt]
    · rw [hm, hrt]
      rfl
  sd x := by
    obtain ⟨hm, -, hsd⟩ | ⟨hm, -, hsd⟩ := h.live x
    · rw [hm, hsd, hsim.sd]
    · rw [hm, hsd]
      rfl
  cf x := by rw [h.cf, h.consumed, hsim.cf]
  fam := congrFun h.fam
  index := h.index
  entry := h.entry
  detail s d hd r hr := hsim.detail s d (h.listed s hd) r (h.session hr)
  listable x r hr := hsim.listable x r (h.session hr)
  family x r hr hf := by
    rw [h.family hr hf]
    exact hsim.family x r (h.session hr) hf
  pointer x p hp := by
    obtain ⟨hp, hkeep⟩ := h.pointer hp
    obtain ⟨q, hq, hsucc, hrec, hmem⟩ := hsim.pointer x p hp
    obtain ⟨hq', hmem'⟩ := hkeep q hq hmem
    exact ⟨q, hq', hsucc, hrec, hmem'⟩
  marker x q hq := by rw [h.consumed, hsim.marker x q (h.grace hq)]
  unspent x r hr := by
    obtain ⟨hg, hc⟩ := hsim.unspent x r (h.session hr)
    refine ⟨eq_none_iff_forall_ne_some.mpr fun q hq => ?_, h.consumed ▸ hc⟩
    rw [h.grace hq] at hg
    cases hg

theorem Within.shrink (hused : Within used m) (h : Shrinks m m' k k') : Within used m' where
  session hr := hused.session (h.session hr)
  index {s x} hx := by
    obtain ⟨d, hd, rfl⟩ := List.mem_map.mp hx
    exact hused.index (mem_map_of_mem (h.listed s hd))
  grace hq := hused.grace (h.grace hq)
  consumed {x f} hf := hused.consumed (h.consumed ▸ hf)

theorem Within.mono (hused : Within used m) {used' : List String} (hsub : used ⊆ used') : Within used' m where
  session hr := hsub (hused.session hr)
  index hx := hsub (hused.index hx)
  grace hq := hsub (hused.grace hq)
  consumed hf := hsub (hused.consumed hf)

section

variable (h : Related codec T used m k)
include h

theorem Related.shrink (hs : Shrinks m m' k k') (hlast : KeysLast T k') :
    Related codec T used m' k' := ⟨h.sim.shrink hs, hlast, h.within.shrink hs⟩

theorem Related.mono {used' : List String} (hsub : used ⊆ used') :
    Related codec T used' m k := ⟨h.sim, h.last, h.within.mono hsub⟩

/-! ### Reading -/

theorem Related.get_rt (ht : t ≤ T) (x : String) :
    (get k.rt t x).map (SessionRecord.ofJson codec) = (m.sessions x).map some := by
  rw [h.last.rt.get ht, h.sim.rt]

theorem Related.has_rt (ht : t ≤ T) (x : String) : has k.rt t x = (m.sessions x).isSome := by
  rw [has_eq_isSome_get, ← isSome_map (f := SessionRecord.ofJson codec), h.get_rt ht, isSome_map]

theorem Related.has_fam (ht : t ≤ T) (f : String) : has k.fam t f = (m.families f).isSome := by
  rw [h.last.fam.has ht, h.sim.fam]

theorem Related.reuseReply (ht : t ≤ T) (x : String) : k.reuseReply t x = match m.consumed x with
      | some family => .reused family
      | none => .invalid := by
  cases hc : m.consumed x <;> simp only [SessionKeys.reuseReply, h.last.cf.get ht, h.sim.cf, hc]

/-! ### Grace pointers -/

/-- A step that changes nothing, for the fields that a step leaves alone. -/
theorem Related.shrinks : Shrinks m m k k where
  live _ := .inl ⟨rfl, rfl, rfl⟩
  consumed := rfl
  cf := rfl
  fam := funext h.sim.fam
  family _ _ := rfl
  index := h.sim.index
  entry := h.sim.entry
  listed _ := List.Subset.refl _
  grace hq := hq
  pointer hp := ⟨hp, fun _ hq hmem => ⟨hq, hmem⟩⟩

/-- Both stores drop a pointer. -/
theorem Related.deleteGracePointer (x : String) :
    Related codec T used (m.deleteGracePointer x) { k with rp := del k.rp x } := by
  refine h.shrink { h.shrinks with grace := ?_, pointer := ?_ } { h.last with rp := h.last.rp.del }
  · intro y q hq
    rw [InMemoryStores.deleteGracePointer] at hq
    grind [update_apply]
  · intro y p hp
    rw [val_del, update_apply] at hp
    split at hp
    · cases hp
    · next hne => exact ⟨hp, fun q hq hmem => ⟨(update_of_ne hne ..).trans hq, hmem⟩⟩

end

/-! ### Revocation -/

theorem members_srem (hk : KeysLast T k) (ht : t ≤ T) (subject : String) (x : Member) (s : String) :
    members { k with sess := srem k.sess t subject x } s =
      if s = subject then (members k s).filter (· ≠ x) else members k s := by
  rw [members, hk.sess.val_srem ht, update_apply]
  by_cases hs : s = subject
  · subst hs
    rw [if_pos rfl, if_pos rfl, getD_bind_ofMembers]
    rfl
  · rw [if_neg hs, if_neg hs]
    rfl

theorem isSome_of_srem (hk : KeysLast T k) (ht : t ≤ T) {subject s : String} {x : Member}
    (hs : (val (srem k.sess t subject x) s).isSome) : (val k.sess s).isSome := by
  rw [hk.sess.val_srem ht, update_apply] at hs
  split at hs
  · next heq =>
    subst heq
    cases hv : val k.sess s with
    | none =>
      rw [hv] at hs
      cases hs
    | some l => rfl
  · exact hs

theorem members_revokeMember (hk : KeysLast T k) (ht : t ≤ T) (owner : Option String) (x s : String) :
    members (k.revokeMember t owner x) s =
      if owner = some s then (members k s).filter (· ≠ .live x) else members k s := by
  cases owner with
  | none => rfl
  | some subject =>
    show members { k with sess := srem k.sess t subject (.live x) } s = _
    rw [members_srem hk ht]
    by_cases hs : s = subject
    · rw [if_pos hs, if_pos (congrArg some hs.symm)]
    · rw [if_neg hs, if_neg fun heq => hs (Option.some.inj heq).symm]

theorem listSessions_revokeMember (owner : Option String) (x s : String) :
    (InMemoryStores.revokeMember owner m x).listSessions s =
      if owner = some s then (m.listSessions s).filter (·.sessionHash ≠ x) else m.listSessions s := by
  cases owner with
  | none => rfl
  | some subject =>
    unfold InMemoryStores.listSessions InMemoryStores.revokeMember
    by_cases hs : subject = s
    · subst hs
      cases hi : m.sessionIndex subject <;> simp [hi]
    · simp [hs, Ne.symm hs]

theorem KeysLast.revokeMember (hk : KeysLast T k) (ht : t ≤ T) (owner : Option String) (x : String) :
    KeysLast T (k.revokeMember t owner x) := by
  refine { hk with rt := hk.rt.del, sd := hk.sd.del, sess := ?_ }
  cases owner with
  | none => exact hk.sess
  | some subject => exact hk.sess.srem ht _

/-- Both stores drop a session, and the entry of the owner's index if they are told the owner. -/
theorem Related.revokeMember (h : Related codec T used m k) (ht : t ≤ T) (owner : Option String) (x : String) :
    Related codec T used (InMemoryStores.revokeMember owner m x) (k.revokeMember t owner x) := by
  refine h.shrink { h.shrinks with
    live := ?_, family := fun _ _ => rfl, index := ?_, entry := ?_, listed := ?_, pointer := ?_ }
    (h.last.revokeMember ht owner x)
  · intro y
    simp only [InMemoryStores.revokeMember, SessionKeys.revokeMember, val_del, update_apply]
    grind
  · intro s
    rw [members_revokeMember h.last ht, hashes, listSessions_revokeMember]
    split
    · rw [liveHashes_filter_live, h.sim.index, hashes, List.filter_map]
      rfl
    · exact h.sim.index s
  · intro s hs
    cases owner with
    | none => exact h.sim.entry s hs
    | some subject =>
      have hentry := h.sim.entry s (isSome_of_srem h.last ht hs)
      simp only [InMemoryStores.revokeMember, update_apply]
      split <;> simp_all
  · intro s
    rw [listSessions_revokeMember]
    split <;> simp
  · intro y p hp
    refine ⟨hp, fun q hq hmem => ⟨hq, ?_⟩⟩
    rw [members_revokeMember h.last ht]
    split <;> simp [hmem]

/-- The loop of `revoke_family`, in both stores. -/
theorem Related.foldl_revokeMember (h : Related codec T used m k) (ht : t ≤ T) (owner : Option String)
    (hs : List String) :
    Related codec T used (hs.foldl (InMemoryStores.revokeMember owner) m)
      (hs.foldl (SessionKeys.revokeMember t owner) k) := by
  induction hs generalizing m k with
  | nil => exact h
  | cons x hs ih => exact ih (h.revokeMember ht owner x)

theorem sessions_foldl_revokeMember (owner : Option String) (hs : List String) (x : String) :
    (hs.foldl (revokeMember owner) m).sessions x = if x ∈ hs then none else m.sessions x := by
  induction hs generalizing m with
  | nil => simp
  | cons y hs ih =>
    rw [foldl_cons, ih]
    by_cases hy : x = y <;> simp [revokeMember, hy]

theorem foldl_revokeMember_families (owner : Option String) (hs : List String)
    (families : String → Option (List String)) :
    hs.foldl (revokeMember owner) { m with families } =
      { hs.foldl (revokeMember owner) m with families } := by
  induction hs generalizing m with
  | nil => rfl
  | cons x hs ih => exact ih (m := revokeMember owner m x)

/-- Both stores drop a family without a session. -/
theorem Related.dropFamily (h : Related codec T used m k) {family : String}
    (hgone : ∀ {x r}, m.sessions x = some r → r.familyId ≠ family) :
    Related codec T used { m with families := update m.families family none }
      { k with fam := del k.fam family } := by
  refine h.shrink { h.shrinks with fam := ?_, family := ?_ } { h.last with fam := h.last.fam.del }
  · rw [val_del, funext h.sim.fam]
  · exact fun hr _ => update_of_ne (hgone hr) ..

/-- `revoke_family`, in both stores. -/
theorem Related.revokeFamily (h : Related codec T used m k) (ht : t ≤ T) {family : String} (hfamily : family ≠ "")
    (owner : Option String) :
    Related codec T used (m.revokeFamily family owner) (k.revokeFamily t family owner).2 := by
  have hmembers : smembers k.fam t family = (m.families family).getD [] := by
    rw [h.last.fam.smembers ht, h.sim.fam]
  have hredis : (k.revokeFamily t family owner).2 =
      { ((m.families family).getD []).foldl (SessionKeys.revokeMember t owner) k with
        fam := del (((m.families family).getD []).foldl (SessionKeys.revokeMember t owner) k).fam family } := by
    rw [SessionKeys.revokeFamily, hmembers]
  rw [hredis, InMemoryStores.revokeFamily, if_neg hfamily]
  cases hf : m.families family with
  | none =>
    have hnone : ∀ {x r}, m.sessions x = some r → r.familyId ≠ family := by
      rintro x r hr rfl
      obtain ⟨hs, hsome, -⟩ := h.sim.family x r hr hfamily
      rw [hf] at hsome
      cases hsome
    have hdrop := h.dropFamily hnone
    rwa [show update m.families family none = m.families from hf ▸ update_eq_self ..] at hdrop
  | some hs =>
    have hloop := h.foldl_revokeMember ht owner hs
    have hgone : ∀ {x r}, (hs.foldl (InMemoryStores.revokeMember owner) m).sessions x = some r →
        r.familyId ≠ family := by
      rintro x r hr rfl
      rw [sessions_foldl_revokeMember] at hr
      split at hr
      · cases hr
      · next hx =>
        obtain ⟨hs', hsome, hmem⟩ := h.sim.family x r hr hfamily
        rw [hf, Option.some.injEq] at hsome
        exact hx (hsome ▸ hmem)
    have hfamilies : (hs.foldl (InMemoryStores.revokeMember owner) m).families = m.families :=
      (congrArg InMemoryStores.families (foldl_revokeMember_families (m := m) owner hs m.families) :)
    have hdrop := hloop.dropFamily hgone
    rw [hfamilies] at hdrop
    rw [Option.getD_some]
    dsimp only
    rw [foldl_revokeMember_families]
    exact hdrop

theorem revokeSession_eq (subject hash : String) : m.revokeSession subject hash =
      if hash ∈ hashes m subject then (.ok (), InMemoryStores.revokeMember (some subject) m hash)
      else (.error .sessionNotFound, m) := by
  unfold InMemoryStores.revokeSession hashes InMemoryStores.listSessions
  cases hi : m.sessionIndex subject with
  | none => rfl
  | some details =>
    have hkept : (details.filter (·.sessionHash ≠ hash)).length = details.length ↔
        hash ∉ details.map (·.sessionHash) := by
      rw [List.length_filter_eq_length_iff, List.mem_map]
      simp
    dsimp only [Option.getD_some]
    by_cases hmem : hash ∈ details.map (·.sessionHash)
    · rw [if_neg (mt hkept.mp (not_not_intro hmem)), if_pos hmem]
      simp only [InMemoryStores.revokeMember, hi, map_some]
    · rw [if_pos (hkept.mpr hmem), if_neg hmem]

theorem Related.sessionRevoke_eq (h : Related codec T used m k) (ht : t ≤ T) (subject hash : String) :
    k.sessionRevoke t subject hash =
      if hash ∈ hashes m subject then (true, k.revokeMember t (some subject) hash) else (false, k) := by
  have hmem : sismember k.sess t subject (.live hash) = decide (hash ∈ hashes m subject) := by
    rw [sismember, h.last.sess.smembers ht, ← h.sim.index, decide_eq_decide, mem_liveHashes]
    rfl
  rw [SessionKeys.sessionRevoke, hmem]
  by_cases hh : hash ∈ hashes m subject
  · rw [if_pos hh, if_neg (by simpa using hh)]
    rfl
  · rw [if_neg hh, if_pos (by simpa using hh)]

/-! ### Revocation of everything -/

theorem KeysLast.foldl_deleteMember (hk : KeysLast T k) (ms : List Member) :
    KeysLast T (ms.foldl SessionKeys.deleteMember k) := by
  induction ms generalizing k with
  | nil => exact hk
  | cons x ms ih =>
    refine ih ?_
    cases x with
    | live x => exact { hk with rt := hk.rt.del, sd := hk.sd.del }
    | grace x => exact { hk with rp := hk.rp.del }

theorem sd_foldl_deleteMember (ms : List Member) (k : SessionKeys) (x : String) :
    (ms.foldl SessionKeys.deleteMember k).sd x = if Member.live x ∈ ms then none else k.sd x := by
  induction ms generalizing k with
  | nil => simp
  | cons y ms ih =>
    rw [foldl_cons, ih]
    cases y with
    | live y => by_cases hy : x = y <;> simp [SessionKeys.deleteMember, hy, del]
    | grace y => simp [SessionKeys.deleteMember]

theorem sessions_foldl_revoked (details : List SessionDetail) (sessions : String → Option SessionRecord) (x : String) :
    details.foldl (fun (sessions : String → Option SessionRecord) detail =>
        update sessions detail.sessionHash none) sessions x =
      if x ∈ details.map (·.sessionHash) then none else sessions x := by
  induction details generalizing sessions with
  | nil => simp
  | cons d details ih =>
    rw [foldl_cons, ih]
    by_cases hd : x = d.sessionHash <;> simp [hd]

/-- `revoke_all`, in both stores. -/
theorem Related.revokeAll (h : Related codec T used m k) (ht : t ≤ T) (subject : String) :
    Related codec T used (m.revokeAll subject) (k.invalidateUserSessions t subject).2 := by
  have hmembers : smembers k.sess t subject = members k subject := h.last.sess.smembers ht subject
  have hredis : (k.invalidateUserSessions t subject).2 =
      { (members k subject).foldl SessionKeys.deleteMember k with
        sess := del ((members k subject).foldl SessionKeys.deleteMember k).sess subject } := by
    rw [SessionKeys.invalidateUserSessions, hmembers]
  have hfold := h.last.foldl_deleteMember (members k subject)
  obtain ⟨hrt, hrp, hcf, hfam, hsess⟩ := SessionKeys.foldl_deleteMember (members k subject) k
  have hlive : ∀ {x}, Member.live x ∈ members k subject ↔ x ∈ hashes m subject := by
    intro x
    rw [← h.sim.index, mem_liveHashes]
  have hsessions : ∀ x, (m.revokeAll subject).sessions x = if x ∈ hashes m subject then none else m.sessions x :=
    fun x => sessions_foldl_revoked ..
  have hindex : ∀ s, (m.revokeAll subject).sessionIndex s = if s = subject then none else m.sessionIndex s :=
    fun s => update_apply ..
  have hsess' : ∀ s, val (del ((members k subject).foldl SessionKeys.deleteMember k).sess subject) s =
      if s = subject then none else val k.sess s := by
    intro s
    rw [hsess, val_del, update_apply]
  have hlist : ∀ s, (m.revokeAll subject).listSessions s = if s = subject then [] else m.listSessions s := by
    intro s
    rw [InMemoryStores.listSessions, hindex]
    split <;> rfl
  rw [hredis]
  refine h.shrink ?_ { hfold with sess := hfold.sess.del }
  constructor
  case live =>
    intro x
    have hsd := sd_foldl_deleteMember (members k subject) k x
    by_cases hx : x ∈ hashes m subject
    · exact .inr (by simp [hsessions, val, hrt, hsd, hlive, hx])
    · exact .inl (by simp [hsessions, val, hrt, hsd, hlive, hx])
  case consumed => rfl
  case cf => exact congrArg val hcf
  case fam => exact (congrArg val hfam).trans (funext h.sim.fam)
  case family => exact fun _ _ => rfl
  case index =>
    intro s
    rw [members, hsess', hashes, hlist]
    split
    · rfl
    · exact h.sim.index s
  case entry =>
    intro s hs
    rw [hsess'] at hs
    rw [hindex]
    grind [h.sim.entry s]
  case listed =>
    intro s
    rw [hlist]
    split <;> simp
  case grace => exact fun hq => (filter_eq_some_iff.mp hq).1
  case pointer =>
    intro x p hp
    rw [val, hrp] at hp
    split at hp
    · cases hp
    · next hx =>
      refine ⟨hp, fun q hq hmem => ?_⟩
      have hne : q.subject ≠ subject := fun heq => hx (heq ▸ hmem)
      refine ⟨filter_eq_some_iff.mpr ⟨hq, by simpa using hne⟩, ?_⟩
      rw [members, hsess', if_neg hne]
      exact hmem

end Shrink

/-! ### Listing -/

section Listing

variable {env : Env} {i : Input} {codec : Rfc3339} {T t : ℕ} {used : List String} {m : InMemoryStores}
  {k : SessionKeys}

theorem Related.shown_readDetail (h : Related codec T used m k) (ht : t ≤ T) (x : String) :
    (readDetail x (get k.sd t x)).map shown = (m.sessions x).map fun r => (x, r.device, r.ip) := by
  rw [h.last.sd.get ht, h.sim.sd]
  cases hx : m.sessions x with
  | none => rfl
  | some r =>
    have hl : Listable r.createdAt := h.sim.listable x r hx
    rw [map_some, readDetail_toJson x (d := .atCreation r) hl hl]
    rfl

theorem Related.isSome_readDetail (h : Related codec T used m k) (ht : t ≤ T) (x : String) :
    (readDetail x (get k.sd t x)).isSome = (m.sessions x).isSome := by
  rw [← isSome_map (f := shown), h.shown_readDetail ht, isSome_map]

/-- What Redis lists: the sessions of the in-memory index that are live. -/
theorem Related.seen_entries (h : Related codec T used m k) (ht : t ≤ T) (subject : String) :
    (listedOf t k (smembers k.sess t subject)).map (fun entry => (entry.sessionHash, entry.detail.map shown)) =
      ((m.listSessions subject).filter fun detail => (m.sessions detail.sessionHash).isSome).map
        fun detail => (detail.sessionHash, some (shown detail)) := by
  -- An entry without a detail is of a session that is gone, so the script drops it.
  have hfilter : ∀ entry ∈ entriesOf t k (smembers k.sess t subject), (entry.detail.isSome ||
      !((staleOf t k (smembers k.sess t subject)).filter fun x => !k.memberExists t x).contains
        (.live entry.sessionHash)) = entry.detail.isSome := by
    intro entry hentry
    obtain ⟨x, hx, rfl⟩ := List.mem_map.mp hentry
    cases hd : (readDetail x (get k.sd t x)).isSome with
    | true => rfl
    | false =>
      have hdead : has k.rt t x = false := by rw [h.has_rt ht, ← h.isSome_readDetail ht, hd]
      have hstale : Member.live x ∈ staleOf t k (smembers k.sess t subject) :=
        mem_filter.mpr ⟨mem_liveHashes.mp hx, isSome_eq_false_iff.mp hd⟩
      simpa [SessionKeys.memberExists, hdead] using hstale
  rw [listedOf, filter_congr hfilter, entriesOf, h.last.sess.smembers ht]
  show ((((liveHashes (members k subject)).map _).filter _).map _) = _
  rw [h.sim.index, hashes, List.map_map, List.filter_map, List.map_map]
  have hlive : ∀ detail : SessionDetail, (readDetail detail.sessionHash (get k.sd t detail.sessionHash)).isSome =
      (m.sessions detail.sessionHash).isSome := fun detail => h.isSome_readDetail ht _
  simp only [comp_def, hlive]
  refine map_congr_left fun detail hmem => ?_
  obtain ⟨hmem, hsome⟩ := mem_filter.mp hmem
  obtain ⟨r, hr⟩ := isSome_iff_exists.mp hsome
  rw [h.shown_readDetail ht, hr, h.sim.detail subject detail hmem r hr]
  rfl

theorem coe_map_filter_eq_iff {A B : Type} (l : List A) (p : A → Bool) (f : A → B) :
    (((l.filter p).map f : List B) : Multiset B) = (l.map f : List B) ↔ l.all p = true := by
  constructor
  · intro heq
    have hlen := congrArg Multiset.card heq
    simp only [Multiset.coe_card, length_map] at hlen
    exact all_eq_true.mpr (List.length_filter_eq_length_iff.mp hlen)
  · intro hall
    rw [filter_eq_self.mpr (all_eq_true.mp hall)]

/-- Pruning the grace pointers that are gone from an index. -/
theorem Related.pruneDead (h : Related codec T used m k) (ht : t ≤ T) (subject : String) {l : List Member}
    (hl : ∀ x ∈ l, ∃ hash, x = .grace hash) : Related codec T used m (k.pruneDead t subject l).2 := by
  have hstep : ∀ {k hash}, Related codec T used m k → has k.rp t hash = false →
      Related codec T used m { k with sess := srem k.sess t subject (.grace hash) } := by
    intro k hash h hgone
    refine h.shrink { h.shrinks with index := ?_, entry := ?_, pointer := ?_ }
      { h.last with sess := h.last.sess.srem ht _ }
    · intro s
      rw [members_srem h.last ht, ← h.sim.index]
      split
      · exact liveHashes_filter_grace ..
      · rfl
    · exact fun s hs => h.sim.entry s (isSome_of_srem h.last ht hs)
    · intro x p hp
      refine ⟨hp, fun q hq hmem => ⟨hq, ?_⟩⟩
      rw [members_srem h.last ht]
      split
      · refine mem_filter.mpr ⟨hmem, ?_⟩
        rw [decide_eq_true_eq]
        rintro ⟨⟩
        simp [h.last.rp.has ht, hp] at hgone
      · exact hmem
  suffices hfold : ∀ acc : List Member × SessionKeys, Related codec T used m acc.2 →
      Related codec T used m (l.foldl (SessionKeys.pruneMember t subject) acc).2 from hfold ([], k) h
  induction l with
  | nil => exact fun _ hacc => hacc
  | cons x l ih =>
    intro acc hacc
    refine ih (fun y hy => hl y (mem_cons_of_mem x hy)) _ ?_
    obtain ⟨hash, rfl⟩ := hl x mem_cons_self
    cases hx : acc.2.memberExists t (.grace hash) with
    | true =>
      rw [SessionKeys.pruneMember, if_pos hx]
      exact hacc
    | false =>
      rw [SessionKeys.pruneMember, if_neg (by simp [hx])]
      exact hstep hacc hx

/-- If every session of an index is live, only pointers are offered to the pruning script. -/
theorem Related.grace_of_mem_staleOf (h : Related codec T used m k) (ht : t ≤ T) {subject : String}
    (hall : ∀ detail ∈ m.listSessions subject, (m.sessions detail.sessionHash).isSome = true) :
    ∀ x ∈ staleOf t k (smembers k.sess t subject), ∃ hash, x = .grace hash := by
  intro x hx
  obtain ⟨hmem, hstale⟩ := mem_filter.mp hx
  cases x with
  | grace hash => exact ⟨hash, rfl⟩
  | live hash =>
    rw [h.last.sess.smembers ht] at hmem
    obtain ⟨detail, hdetail, rfl⟩ := List.mem_map.mp (h.sim.index subject ▸ mem_liveHashes.mpr hmem)
    have hsome := h.isSome_readDetail ht detail.sessionHash
    rw [hall detail hdetail] at hsome
    rw [isNone_iff_eq_none.mp hstale] at hsome
    cases hsome

end Listing

/-! ### One operation -/

/-- The outcomes of an operation are the same exactly if it meets the condition, and then the stores are related
afterwards. -/
structure Agrees (env : Env) (i : Input) (T : ℕ) (used : List String) (t : ℕ) (m : InMemoryStores) (k : SessionKeys)
    (op : StoreOp) : Prop where
  /-- When the outcomes are the same. -/
  seen : (m.perform op).1.seen = (performRedis env i t k op).1.seen ↔ meets m k op = true
  /-- The stores afterwards. -/
  related : meets m k op = true →
    Related env.codec T (used ++ op.newHash.toList) (m.perform op).2 (performRedis env i t k op).2

section Operations

variable {env : Env} {i : Input} {T t : ℕ} {used : List String} {m : InMemoryStores} {k : SessionKeys}

theorem createRecoveredSession_eq (subject hash : String) (record : SessionRecord) :
    m.createRecoveredSession subject hash record =
      if (m.sessionIndex subject).isSome && familyAlive m record then (true, m.createSession subject hash record)
      else (false, m) := by
  unfold InMemoryStores.createRecoveredSession familyAlive
  by_cases hf : record.familyId = "" <;> cases m.sessionIndex subject <;> cases m.families record.familyId <;>
    simp [hf]

variable {op : StoreOp} {hash : String} {a : SessionRotation}

theorem Agrees.same (hmeets : meets m k op = true) (hseen : (m.perform op).1.seen = (performRedis env i t k op).1.seen)
    (hrel : Related env.codec T (used ++ op.newHash.toList) (m.perform op).2 (performRedis env i t k op).2) :
    Agrees env i T used t m k op := ⟨iff_of_true hseen hmeets, fun _ => hrel⟩

/-- An operation that leaves Redis and the in-memory store alone, or shrinks them. -/
theorem Agrees.kept {seen : Outcome} {k' : SessionKeys} (hmeets : meets m k op = true)
    (hredis : performRedis env i t k op = (seen, k')) (hseen : (m.perform op).1.seen = seen.seen)
    (hrel : Related env.codec T used (m.perform op).2 k') : Agrees env i T used t m k op :=
  .same hmeets (by rw [hredis, hseen]) (by rw [hredis]; exact hrel.mono (subset_append_left _ _))

theorem Agrees.differ (hmeets : meets m k op = false)
    (hseen : (m.perform op).1.seen ≠ (performRedis env i t k op).1.seen) : Agrees env i T used t m k op :=
  ⟨iff_of_false hseen (by simp [hmeets]), fun h => absurd h (by simp [hmeets])⟩

variable (h : Related env.codec T used m k) (ht : t ≤ T)

include h ht

theorem agrees_createSession {subject : String} {record : SessionRecord} {ttl : ℕ} (httl : T < t + ttl)
    (hw : Writable env.codec record) (hnew : hash ∉ used) :
    Agrees env i T used t m k (.createSession subject hash record ttl) := by
  obtain ⟨json, hjson⟩ := isSome_iff_exists.mp hw.1
  refine .same rfl ?_ ?_
  · rw [performRedis_createSession hjson]
    rfl
  · rw [performRedis_createSession hjson]
    exact ⟨sim_createSession h.sim h.within h.last ht hjson hw.2 hnew, keysLast_createSession h.last ht httl,
      within_createSession h.within⟩

omit ht in
theorem performRedis_recovered {subject hash : String} {record : SessionRecord} {json : Json} {ttl : ℕ}
    (hjson : record.toJson env.codec = some json) (ht : t ≤ T) :
    performRedis env i t k (.createRecoveredSession subject hash record ttl) =
      if (k.sess subject).isSome && familyAlive m record then
        (.wrote true, k.createSession t (newSession subject hash record json ttl))
      else (.wrote false, k) := by
  have hsess : has k.sess t subject = (k.sess subject).isSome := by
    rw [h.last.sess.has ht, val, isSome_map]
  rw [performRedis_createRecoveredSession hjson, SessionKeys.recoverGrace, newSession, hsess, h.has_fam ht, familyAlive]
  by_cases hs : (k.sess subject).isSome = true
  · by_cases hf : record.familyId = "" <;> cases (m.families record.familyId).isSome <;> simp [hs, hf]
  · simp [hs]

theorem agrees_createRecoveredSession {subject : String} {record : SessionRecord} {ttl : ℕ} (httl : T < t + ttl)
    (hw : Writable env.codec record) (hnew : hash ∉ used) :
    Agrees env i T used t m k (.createRecoveredSession subject hash record ttl) := by
  obtain ⟨json, hjson⟩ := isSome_iff_exists.mp hw.1
  have hredis : performRedis env i t k (.createRecoveredSession subject hash record ttl) = _ :=
    performRedis_recovered h hjson ht
  have hstays : Related env.codec T (used ++ [hash]) m k := h.mono (subset_append_left _ _)
  have hentry : (k.sess subject).isSome → (m.sessionIndex subject).isSome := by
    rw [← isSome_map (f := Cell.val)]
    exact h.sim.entry subject
  cases halive : familyAlive m record with
  | false =>
    refine .same ?_ ?_ ?_
    · simp [meets, halive]
    · simp [hredis, perform, createRecoveredSession_eq, halive]
    · simpa [hredis, perform, createRecoveredSession_eq, halive, StoreOp.newHash] using hstays
  | true =>
    cases hs : (k.sess subject).isSome with
    | true =>
      -- Both stores have the index, and write.
      have hs' := hentry hs
      refine .same ?_ ?_ ?_
      · simp [meets, hs]
      · simp [hredis, perform, createRecoveredSession_eq, halive, hs, hs']
      · simp only [hredis, perform, createRecoveredSession_eq, halive, hs, hs', Bool.and_self, if_true]
        exact ⟨sim_createSession h.sim h.within h.last ht hjson hw.2 hnew, keysLast_createSession h.last ht httl,
          within_createSession h.within⟩
    | false =>
      cases hs' : (m.sessionIndex subject).isSome with
      | true =>
        refine .differ ?_ ?_
        · simp [meets, halive, hs, isNone_eq_false_iff.mpr hs']
        · simp [hredis, perform, createRecoveredSession_eq, halive, hs, hs', Outcome.seen]
      | false =>
        refine .same ?_ ?_ ?_
        · simp [meets, isSome_eq_false_iff.mp hs']
        · simp [hredis, perform, createRecoveredSession_eq, hs, hs']
        · simpa [hredis, perform, createRecoveredSession_eq, hs, hs', StoreOp.newHash] using hstays

theorem agrees_findSession (hash : String) : Agrees env i T used t m k (.findSession hash) := by
  have hredis : performRedis env i t k (.findSession hash) = (.found (m.sessions hash), k) := by
    have hrt := h.get_rt ht hash
    rw [performRedis_findSession]
    cases hg : get k.rt t hash with
    | none =>
      rw [hg] at hrt
      rw [map_eq_none_iff.mp hrt.symm]
    | some json =>
      rw [hg] at hrt
      obtain ⟨r, hr, hjson⟩ := map_eq_some_iff.mp hrt.symm
      dsimp only
      rw [hr, ← hjson]
  exact .kept rfl hredis rfl h

theorem agrees_revokeSession (subject hash : String) : Agrees env i T used t m k (.revokeSession subject hash) := by
  have hredis : performRedis env i t k (.revokeSession subject hash) = _ := performRedis_revokeSession ..
  rw [h.sessionRevoke_eq ht] at hredis
  by_cases hmem : hash ∈ hashes m subject <;> simp only [hmem, if_true, if_false] at hredis
  · refine .kept rfl hredis ?_ ?_
    · simp [perform, revokeSession_eq, hmem, Outcome.of]
    · simpa [perform, revokeSession_eq, hmem] using h.revokeMember ht _ hash
  · refine .kept rfl hredis ?_ ?_
    · simp [perform, revokeSession_eq, hmem, Outcome.of]
    · simpa [perform, revokeSession_eq, hmem] using h

theorem agrees_revokeAll (subject : String) : Agrees env i T used t m k (.revokeAll subject) :=
  .kept rfl rfl rfl (h.revokeAll ht subject)

theorem agrees_revokeFamily (family : String) (owner : Option String) :
    Agrees env i T used t m k (.revokeFamily family owner) := by
  refine .kept rfl (performRedis_revokeFamily ..) rfl ?_
  by_cases hf : family = ""
  · simpa [InMemoryStores.perform, InMemoryStores.revokeFamily, hf] using h
  · simpa [InMemoryStores.perform, hf] using h.revokeFamily ht hf owner

omit ht in
theorem agrees_deleteGracePointer (hash : String) : Agrees env i T used t m k (.deleteGracePointer hash) :=
  .kept rfl rfl rfl (h.deleteGracePointer hash)

/-! ### Rotation -/

theorem agrees_rotate_live {old : SessionRecord} (hold : m.sessions a.oldHash = some old)
    (hrefresh : T < t + a.refreshTtl) (hgrace : 0 < a.graceTtl → T < t + a.graceTtl)
    (hw : Writable env.codec a.newRecord) (hnew : a.newHash ∉ used) (haimed : aimed m (.rotate a) = true) :
    Agrees env i T used t m k (.rotate a) := by
  obtain ⟨json, hjson⟩ := isSome_iff_exists.mp hw.1
  simp only [aimed, hold, all_some, Bool.and_eq_true, decide_eq_true_eq] at haimed
  obtain ⟨hfamily, hentry⟩ := haimed
  obtain ⟨details, hentry⟩ := isSome_iff_exists.mp hentry
  have hrt := h.get_rt ht a.oldHash
  rw [hold, map_some] at hrt
  obtain ⟨raw, hraw, hdecoded⟩ := map_eq_some_iff.mp hrt
  have hreply : k.refreshRotate t (a.command json) = (.rotated raw, k.rotateLive t (a.command json)) := by
    have hget : get k.rt t (a.command json).oldHash = some raw := hraw
    rw [SessionKeys.refreshRotate, hget]
  have hredis : performRedis env i t k (.rotate a) = (.rotated (.rotated old),
      (k.rotateLive t (a.command json)).moveSessionDetail t a.oldHash a.newHash
        (SessionDetailValue.atCreation a.newRecord).toJson a.refreshTtl) := by
    rw [performRedis_rotate hjson, hreply]
    dsimp only
    rw [hdecoded]
  have hmemory : m.rotate a = (.rotated old, m.rotateLive a old) := by rw [InMemoryStores.rotate, hold]
  have hlast := keysLast_rotateLive h.last ht (a := a.command json) hrefresh hgrace
  refine .same ?_ ?_ ?_
  · simp [meets, hold]
  · rw [hredis, InMemoryStores.perform, hmemory]
  · rw [hredis, InMemoryStores.perform, hmemory]
    exact ⟨sim_rotateLive h.sim h.within h.last ht hjson hw.2 hnew hold hfamily hentry,
      { hlast with sd := hlast.sd.del.setEx _ hrefresh }, within_rotateLive h.within hold hentry⟩

/-- What both stores say of a token that is neither live nor has a pointer. -/
def replayOutcome (m : InMemoryStores) (hash : String) : RotateOutcome :=
  match m.consumed hash with
  | some family => .reused family
  | none => .invalid

omit h ht in
/-- It is never what the in-memory store says of a token that has one. -/
theorem replayOutcome_ne {q : GracePointer}
    (hmarker : m.consumed hash = if q.record.familyId = "" then none else some q.record.familyId) :
    (if q.record.familyId = "" ∨ (m.families q.record.familyId).isSome then RotateOutcome.grace q.record else .invalid) ≠
      replayOutcome m hash := by
  rw [replayOutcome, hmarker]
  by_cases hf : q.record.familyId = ""
  · simp [hf]
  · rw [if_neg hf]
    split <;> nofun

theorem performRedis_of_reuse {json : Json} (hjson : a.newRecord.toJson env.codec = some json) {k' : SessionKeys}
    (hreply : k.refreshRotate t (a.command json) = (k.reuseReply t a.oldHash, k')) :
    performRedis env i t k (.rotate a) = (.rotated (replayOutcome m a.oldHash), k') := by
  rw [performRedis_rotate hjson, hreply, h.reuseReply ht, replayOutcome]
  cases m.consumed a.oldHash <;> rfl

theorem agrees_rotate_gone (hgone : m.sessions a.oldHash = none) (hw : Writable env.codec a.newRecord) :
    Agrees env i T used t m k (.rotate a) := by
  obtain ⟨json, hjson⟩ := isSome_iff_exists.mp hw.1
  have hrt : get k.rt t (a.command json).oldHash = none := by
    have hrt := h.get_rt ht a.oldHash
    rw [hgone] at hrt
    exact map_eq_none_iff.mp hrt
  have hrp : get k.rp t (a.command json).oldHash = val k.rp a.oldHash := h.last.rp.get ht _
  cases hg : m.grace a.oldHash with
  | none =>
    have hp : val k.rp a.oldHash = none := by
      refine eq_none_iff_forall_ne_some.mpr fun p hp => ?_
      obtain ⟨q, hq, -⟩ := h.sim.pointer _ p hp
      rw [hg] at hq
      cases hq
    have hredis : performRedis env i t k (.rotate a) = _ := performRedis_of_reuse h ht hjson (by
      rw [SessionKeys.refreshRotate, hrt, hrp, hp]
      rfl)
    have hmemory : m.rotate a = (replayOutcome m a.oldHash, m) := by
      rw [InMemoryStores.rotate, hgone, hg, replayOutcome]
      cases m.consumed a.oldHash <;> rfl
    refine .kept ?_ hredis ?_ ?_
    · simp [meets, hg]
    · rw [InMemoryStores.perform, hmemory]
    · rwa [InMemoryStores.perform, hmemory]
  | some q =>
    have hmemory : m.rotate a = (if q.record.familyId = "" ∨ (m.families q.record.familyId).isSome then .grace q.record
        else .invalid, m.deleteGracePointer a.oldHash) := by
      rw [InMemoryStores.rotate, hgone, hg]
      rfl
    -- Wherever Redis says that the token was used, the in-memory store says something else.
    have hdiffer : ∀ k', k.refreshRotate t (a.command json) = (k.reuseReply t a.oldHash, k') →
        (m.perform (.rotate a)).1.seen ≠ (performRedis env i t k (.rotate a)).1.seen := by
      intro k' hreply heq
      rw [performRedis_of_reuse h ht hjson hreply, InMemoryStores.perform, hmemory] at heq
      exact replayOutcome_ne (h.sim.marker _ q hg) (rotated.inj heq)
    have hpointer : (k.rp a.oldHash).isSome = (val k.rp a.oldHash).isSome := isSome_map.symm
    cases hp : val k.rp a.oldHash with
    | none =>
      rw [hp] at hpointer
      refine .differ ?_ (hdiffer k ?_)
      · simp [meets, hgone, hg, hpointer]
      · rw [SessionKeys.refreshRotate, hrt, hrp, hp]
        rfl
    | some p =>
      rw [hp] at hpointer
      obtain ⟨q', hq', hsucc, hrec, -⟩ := h.sim.pointer _ p hp
      rw [hg, Option.some.injEq] at hq'
      subst hq'
      have hlive : has k.rt t p.1 = (m.sessions q.successor).isSome := by rw [h.has_rt ht, hsucc]
      cases hs : (m.sessions q.successor).isSome with
      | false =>
        refine .differ ?_ (hdiffer { k with rp := del k.rp a.oldHash } ?_)
        · simp [meets, hgone, hg, hs]
        · rw [SessionKeys.refreshRotate, hrt, hrp, hp]
          dsimp only
          rw [hlive, hs, if_neg Bool.false_ne_true]
          rfl
      | true =>
        have hredis : performRedis env i t k (.rotate a) =
            (.rotated (if q.record.familyId = "" ∨ (m.families q.record.familyId).isSome then .grace q.record
              else .invalid), { k with rp := del k.rp a.oldHash }) := by
          have hreply : k.refreshRotate t (a.command json) = (.grace p.2, { k with rp := del k.rp a.oldHash }) := by
            rw [SessionKeys.refreshRotate, hrt, hrp, hp]
            dsimp only
            rw [hlive, hs, if_pos rfl]
            rfl
          rw [performRedis_rotate hjson, hreply]
          dsimp only
          rw [hrec, ← h.has_fam ht]
        refine .kept ?_ hredis ?_ ?_
        · simp [meets, hg, hs, hpointer]
        · rw [InMemoryStores.perform, hmemory]
        · rw [InMemoryStores.perform, hmemory]
          exact h.deleteGracePointer _

/-! ### Listing, as an operation -/

theorem agrees_listSessionEntries (subject : String) : Agrees env i T used t m k (.listSessionEntries subject) := by
  have hredis : performRedis env i t k (.listSessionEntries subject) =
      (.entries (listedOf t k (smembers k.sess t subject)),
        (k.pruneDead t subject (staleOf t k (smembers k.sess t subject))).2) := by
    rw [performRedis, redisProg, Prog.map_eq, evalAt_bind, evalAt_listSessionEntries]
    rfl
  constructor
  · rw [hredis]
    show entries _ = entries _ ↔ _
    rw [entries.injEq, h.seen_entries ht, eq_comm, InMemoryStores.listSessionEntries, List.map_map]
    exact coe_map_filter_eq_iff ..
  · intro hall
    rw [hredis]
    exact (h.pruneDead ht subject (h.grace_of_mem_staleOf ht (all_eq_true.mp hall))).mono
      (subset_append_left _ _)

theorem agrees_listSessions (subject : String) : Agrees env i T used t m k (.listSessions subject) := by
  have hredis : performRedis env i t k (.listSessions subject) =
      (.listed ((listedOf t k (smembers k.sess t subject)).filterMap (·.detail)),
        (k.pruneDead t subject (staleOf t k (smembers k.sess t subject))).2) := by
    rw [performRedis, redisProg, listSessions, Prog.map_eq, run_bind, evalAt_bind, evalAt_bind, evalAt_listSessionEntries]
    rfl
  constructor
  · rw [hredis]
    show listed _ = listed _ ↔ _
    have hshown : ∀ l : List SessionEntry, (l.filterMap (·.detail)).map shown =
        (l.map fun entry => (entry.sessionHash, entry.detail.map shown)).filterMap Prod.snd := by
      intro l
      rw [map_filterMap, filterMap_map]
      rfl
    have hsome : (Prod.snd ∘ fun detail : SessionDetail => (detail.sessionHash, some (shown detail))) = some ∘ shown :=
      rfl
    rw [listed.injEq, hshown, h.seen_entries ht, filterMap_map, hsome, filterMap_eq_map, eq_comm]
    exact coe_map_filter_eq_iff ..
  · intro hall
    rw [hredis]
    exact (h.pruneDead ht subject (h.grace_of_mem_staleOf ht (all_eq_true.mp hall))).mono
      (subset_append_left _ _)

end Operations

theorem Related.agrees {env : Env} {i : Input} {T : ℕ} {used : List String} {m : InMemoryStores} {k : SessionKeys}
    (h : Related env.codec T used m k) {q : Request} (hlasts : q.Lasts T)
    (hw : ∀ record ∈ q.op.record, Writable env.codec record) (hnew : ∀ hash ∈ q.op.newHash, hash ∉ used)
    (haimed : aimed m q.op = true) : Agrees env i T used q.now m k q.op := by
  obtain ⟨now, kind, op⟩ := q
  obtain ⟨ht, httl⟩ := hlasts
  cases op with
  | createSession subject hash record ttl =>
    exact agrees_createSession h ht (httl ttl mem_cons_self) (hw record rfl) (hnew hash rfl)
  | rotate a =>
    cases hold : m.sessions a.oldHash with
    | none => exact agrees_rotate_gone h ht hold (hw a.newRecord rfl)
    | some old =>
      refine agrees_rotate_live h ht hold (httl _ ?_) (fun hpos => httl _ ?_) (hw a.newRecord rfl) (hnew a.newHash rfl)
        haimed
      · show a.refreshTtl ∈ if 0 < a.graceTtl then _ else _
        split <;> exact mem_cons_self
      · show a.graceTtl ∈ if 0 < a.graceTtl then _ else _
        rw [if_pos hpos]
        exact mem_cons_of_mem _ mem_cons_self
  | createRecoveredSession subject hash record ttl =>
    exact agrees_createRecoveredSession h ht (httl ttl mem_cons_self) (hw record rfl) (hnew hash rfl)
  | findSession hash => exact agrees_findSession h ht hash
  | revokeSession subject hash => exact agrees_revokeSession h ht subject hash
  | revokeAll subject => exact agrees_revokeAll h ht subject
  | revokeFamily family owner => exact agrees_revokeFamily h ht family owner
  | deleteGracePointer hash => exact agrees_deleteGracePointer h hash
  | listSessions subject => exact agrees_listSessions h ht subject
  | listSessionEntries subject => exact agrees_listSessionEntries h ht subject

/-! ### Sequences of operations -/

/-- What the in-memory store answers to a sequence of requests, from empty. -/
def memoryOutcomes (qs : List Request) : List Seen := Lockstep.outcomes memoryStep (fun _ => .empty) qs

/-- What the Redis store answers. -/
def redisOutcomes (env : Env) (i : Input) (qs : List Request) : List Seen :=
  Lockstep.outcomes (redisStep env i) (fun _ => .empty) qs

/-- Every operation of a sequence satisfies `p` in the states in which the two stores get it. -/
def always (env : Env) (i : Input) (p : InMemoryStores → SessionKeys → StoreOp → Bool) (qs : List Request) : Bool :=
  Lockstep.along memoryStep (redisStep env i) (fun m k q => p (m q.kind) (k q.kind) q.op) (fun _ => .empty)
    (fun _ => .empty) qs

/-- The hashes that a sequence stored sessions under. -/
def newHashes (qs : List Request) : List String := qs.filterMap (·.op.newHash)

theorem related_empty (codec : Rfc3339) (T : ℕ) : Related codec T [] .empty .empty where
  sim := sim_empty codec
  last := ⟨lasting_empty T, lasting_empty T, lasting_empty T, lasting_empty T, lasting_empty T, lasting_empty T⟩
  within := ⟨nofun, nofun, nofun, nofun⟩

/-- **Where the in-memory store answers as Redis does**: in a sequence of operations with new hashes in which nothing
lapses, and whose rotations are aimed, all outcomes are the same exactly if every operation meets the condition. -/
theorem outcomes_eq_iff_meets (env : Env) (i : Input) {T : ℕ} {qs : List Request} (hfresh : (newHashes qs).Nodup)
    (hlasts : ∀ q ∈ qs, q.Lasts T) (hw : ∀ q ∈ qs, ∀ record ∈ q.op.record, Writable env.codec record)
    (haimed : always env i (fun m _ => aimed m) qs = true) :
    memoryOutcomes qs = redisOutcomes env i qs ↔ always env i meets qs = true := by
  have hempty : ∀ kind : SessionKind, Related env.codec T (newHashes []) .empty .empty := fun _ => related_empty _ T
  refine Lockstep.outcomes_eq_iff
    (fun past m k => ∀ kind, Related env.codec T (newHashes past) (m kind) (k kind))
    (fun past q => q.Lasts T ∧ (∀ record ∈ q.op.record, Writable env.codec record) ∧
      ∀ hash ∈ q.op.newHash, hash ∉ newHashes past)
    ?_ ?_ hempty ?_ haimed
  · intro past m k q hrel ⟨hlast, hwrite, hnew⟩ haim
    exact ((hrel q.kind).agrees hlast hwrite hnew haim).seen
  · intro past m k q hrel ⟨hlast, hwrite, hnew⟩ haim hmeets kind
    have hpast : newHashes (past ++ [q]) = newHashes past ++ q.op.newHash.toList := by
      rw [newHashes, filterMap_append, newHashes]
      cases hq : q.op.newHash <;> simp [hq]
    rw [hpast]
    by_cases hkind : kind = q.kind
    · subst hkind
      dsimp only [memoryStep, redisStep]
      rw [update_self, update_self]
      exact ((hrel q.kind).agrees hlast hwrite hnew haim).related hmeets
    · dsimp only [memoryStep, redisStep]
      rw [update_of_ne hkind, update_of_ne hkind]
      exact (hrel kind).mono (subset_append_left _ _)
  · rintro past q rest rfl
    have hmem : q ∈ past ++ q :: rest := mem_append_right _ mem_cons_self
    refine ⟨hlasts q hmem, hw q hmem, fun hash hhash hused => ?_⟩
    rw [newHashes, filterMap_append] at hfresh
    have hnext : hash ∈ (q :: rest).filterMap (·.op.newHash) :=
      mem_filterMap.mpr ⟨q, mem_cons_self, hhash⟩
    exact (nodup_append.mp hfresh).2.2 hash hused hash hnext rfl

namespace Demo

/-- A session of the account's first family. -/
def session : SessionRecord :=
  { userId := "u1", tenantId := some "t1", role := "MEMBER", device := "Firefox", ip := "10.0.0.1", createdAt := 0,
    mfaEnabled := false, mfaVerified := false, familyId := "f1", familyCreatedAt := some 0 }

/-- A rotation of it, with the default grace window. -/
def rotation (oldHash newHash : String) : StoreOp :=
  .rotate { oldHash, newHash, newRecord := session, subjectHash := "s1", refreshTtl := 604800, graceTtl := 30 }

/-- Operations on the dashboard plane, at one second. -/
def requests (ops : List StoreOp) : List Request := ops.map fun op => { now := 0, kind := .dashboard, op }

/-- A token is replayed when its successor was itself rotated. -/
def replay : List Request :=
  requests [.createSession "s1" "a" session 604800, rotation "a" "b", rotation "b" "c", rotation "a" "d"]

/-- A sequence of every operation, on both planes, in which the condition is always met. -/
def sequence : List Request :=
  requests [.createSession "s1" "a" session 604800, rotation "a" "b", .listSessions "s1", rotation "a" "c",
    .createRecoveredSession "s1" "d" session 604800, .findSession "d", .listSessionEntries "s1",
    .revokeSession "s1" "b", .deleteGracePointer "a", rotation "a" "e"] ++
  [{ now := 10, kind := .platform, op := .createSession "s1" "f" session 604800 }] ++
  requests [.revokeFamily "f1" (some "s1"), rotation "d" "g", .revokeAll "s1", .listSessions "s1"] ++
  [{ now := 11, kind := .platform, op := .listSessions "s1" }]

end Demo

open Testing.Demo BymaxAuth.Demo

/-- The witness. -/
theorem outcomes_eq_of_sequence :
    memoryOutcomes sequence = redisOutcomes env (input "" "") sequence :=
  (outcomes_eq_iff_meets env (input "" "") (T := 25) (by decide) (by decide) (by decide)
    (by decide +kernel)).mpr (by decide +kernel)

/-- A token replayed after its successor was rotated, inside the grace window: the in-memory store recovers, where Redis
reports the reuse of a consumed token. -/
theorem replay_after_second_rotation : (newHashes replay).Nodup ∧ (∀ q ∈ replay, q.Lasts 25) ∧
      memoryOutcomes replay = [.done, .rotated (.rotated session), .rotated (.rotated session),
        .rotated (.grace session)] ∧
      redisOutcomes env (input "" "") replay =
        [.done, .rotated (.rotated session), .rotated (.rotated session), .rotated (.reused "f1")] := by
  refine ⟨by decide, by decide, ?_, ?_⟩
  · decide +kernel
  · decide +kernel

end BymaxAuth.Testing
