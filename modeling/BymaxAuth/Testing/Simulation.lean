import BymaxAuth.Lib.Lasting
import BymaxAuth.Session.Alone
import BymaxAuth.Testing.Memory

/-!
# Two stores of the same sessions

When `InMemoryStores` and the keys of the Redis store stand for the same sessions (`Sim`), and that storing a session
and rotating one keep it so.

The two are not the same maps. Redis has no set without a member, so an account whose last session ended has an index
in one store and none in the other; a pointer that the in-memory store keeps may be gone from Redis; and the index of
Redis names the pointers too. `Sim` says of each map how far the two agree. It holds while nothing lapses (`KeysLast`),
and its steps need that a new session's hash is not one the store has met (`Within`).

## What is proved

* `performRedis_createSession`, `performRedis_rotate`, … — what each operation of the Redis store does alone.
* `sim_createSession`, `sim_rotateLive` — the two operations that store a session keep the relation.
-/

namespace BymaxAuth.Testing

open Redis Concurrency List Option Function SessionRecord InMemoryStores SessionDetailValue

/-! ### The relation -/

/-- The members of an account's index. -/
def members (k : SessionKeys) (subject : String) : List Member := (val k.sess subject).getD []

/-- The hashes of an account's index. -/
def hashes (m : InMemoryStores) (subject : String) : List String := (m.listSessions subject).map (·.sessionHash)

/-- No key of the plane lapses until the second `T`. -/
structure KeysLast (T : ℕ) (k : SessionKeys) : Prop where
  /-- The sessions, the grace pointers, the consumed-token markers, the families, the indexes and the details. -/
  rt : Lasting k.rt T
  rp : Lasting k.rp T
  cf : Lasting k.cf T
  fam : Lasting k.fam T
  sess : Lasting k.sess T
  sd : Lasting k.sd T

/-- Everything in the store is under a hash that was used. -/
structure Within (used : List String) (m : InMemoryStores) : Prop where
  session : ∀ {h r}, m.sessions h = some r → h ∈ used
  /-- An index entry. -/
  index : ∀ {s h}, h ∈ hashes m s → h ∈ used
  /-- A grace pointer. -/
  grace : ∀ {h p}, m.grace h = some p → h ∈ used
  /-- A consumed token. -/
  consumed : ∀ {h f}, m.consumed h = some f → h ∈ used

/-- The two stores stand for the same sessions. -/
structure Sim (codec : Rfc3339) (m : InMemoryStores) (k : SessionKeys) : Prop where
  /-- The same sessions are live. -/
  rt : ∀ h, (val k.rt h).map (ofJson codec) = (m.sessions h).map some
  /-- Exactly they have a detail. -/
  sd : ∀ h, val k.sd h = (m.sessions h).map fun r => (atCreation r).toJson
  /-- The markers of consumed tokens are the same. -/
  cf : ∀ h, val k.cf h = m.consumed h
  /-- The families are the same. -/
  fam : ∀ f, val k.fam f = m.families f
  /-- The indexes name the same sessions. -/
  index : ∀ s, liveHashes (members k s) = hashes m s
  /-- An index that Redis has, the in-memory store has. -/
  entry : ∀ s, (val k.sess s).isSome → (m.sessionIndex s).isSome
  /-- The in-memory index shows a live session as it is. -/
  detail : ∀ s, ∀ d ∈ m.listSessions s, ∀ r, m.sessions d.sessionHash = some r →
    d = detailOf d.sessionHash r
  /-- The detail of a live session can be read back. -/
  listable : ∀ h r, m.sessions h = some r → Listable r.createdAt
  /-- A live session is in its family. -/
  family : ∀ h r, m.sessions h = some r → r.familyId ≠ "" → ∃ hs, m.families r.familyId = some hs ∧ h ∈ hs
  /-- A grace pointer that Redis has, the in-memory store has; the index of its account names it. -/
  pointer : ∀ h p, val k.rp h = some p → ∃ q, m.grace h = some q ∧ q.successor = p.1 ∧
    ofJson codec p.2 = some q.record ∧ Member.grace h ∈ members k q.subject
  /-- A token with a grace pointer was consumed. -/
  marker : ∀ h q, m.grace h = some q →
    m.consumed h = if q.record.familyId = "" then none else some q.record.familyId
  /-- A live token was not. -/
  unspent : ∀ h r, m.sessions h = some r → m.grace h = none ∧ m.consumed h = none

theorem sim_empty (codec : Rfc3339) : Sim codec .empty .empty where
  rt _ := rfl
  sd _ := rfl
  cf _ := rfl
  fam _ := rfl
  index _ := rfl
  entry _ := nofun
  detail _ _ := nofun
  listable _ _ := nofun
  family _ _ := nofun
  pointer _ _ := nofun
  marker _ _ := nofun
  unspent _ _ := nofun

/-! ### Indexes -/

theorem liveHashes_withMember_live {members : List Member} {h : String} (hnew : h ∉ liveHashes members) :
    liveHashes (withMember members (.live h)) = liveHashes members ++ [h] := by
  rw [withMember, if_neg (mt mem_liveHashes.mpr hnew), liveHashes, filterMap_append]
  rfl

theorem liveHashes_withMember_grace (members : List Member) (h : String) :
    liveHashes (withMember members (.grace h)) = liveHashes members := by
  unfold withMember
  split
  · rfl
  · rw [liveHashes, filterMap_append]
    exact append_nil _

theorem liveHashes_filter_live (members : List Member) (h : String) :
    liveHashes (members.filter (· ≠ .live h)) = (liveHashes members).filter (· ≠ h) := by
  induction members with
  | nil => rfl
  | cons a l ih =>
    cases a with
    | live x => by_cases hx : x = h <;> simpa [liveHashes, hx] using ih
    | grace x => simpa [liveHashes] using ih

theorem liveHashes_filter_grace (members : List Member) (h : String) :
    liveHashes (members.filter (· ≠ .grace h)) = liveHashes members := by
  induction members with
  | nil => rfl
  | cons a l ih =>
    cases a with
    | live x => simpa [liveHashes] using ih
    | grace x => by_cases hx : x = h <;> simpa [liveHashes, hx] using ih

theorem mem_withMember {A : Type} [DecidableEq A] {l : List A} {a b : A} : b ∈ withMember l a ↔ b ∈ l ∨ b = a := by
  unfold withMember
  split
  · next h => exact ⟨Or.inl, fun hb => hb.elim id fun hb => hb ▸ h⟩
  · simp

/-! ### The Redis operations alone -/

section Alone

variable {env : Env} {i : Input} {t : ℕ} {k : SessionKeys}

theorem exec_session (c : SessionCmd) :
    (machine env).exec (storeOf t k) (.session c) i = ((c.exec t k).1, storeOf t (c.exec t k).2) := rfl

theorem performRedis_createSession {subject hash : String} {record : SessionRecord} {json : Json} {ttl : ℕ}
    (hjson : record.toJson env.codec = some json) :
    performRedis env i t k (.createSession subject hash record ttl) =
      (.done, k.createSession t (newSession subject hash record json ttl)) := by
  simp only [performRedis, redisProg, createSession, encode, hjson]
  rfl

theorem performRedis_createRecoveredSession {subject hash : String} {record : SessionRecord} {json : Json} {ttl : ℕ}
    (hjson : record.toJson env.codec = some json) :
    performRedis env i t k (.createRecoveredSession subject hash record ttl) =
      (.wrote (k.recoverGrace t (newSession subject hash record json ttl)).1,
        (k.recoverGrace t (newSession subject hash record json ttl)).2) := by
  simp only [performRedis, redisProg, createRecoveredSession, encode, hjson]
  rfl

theorem performRedis_findSession (hash : String) : performRedis env i t k (.findSession hash) =
      (match get k.rt t hash with
        | none => .found none
        | some json =>
          match ofJson env.codec json with
          | some record => .found (some record)
          | none => .failed .internal, k) := by
  simp only [performRedis, redisProg, findSession, Act.session, run_issue_bind, Prog.map_eq, Prog.op_bind, evalAt_op,
    exec_session, SessionCmd.exec]
  cases get k.rt t hash with
  | none => rfl
  | some json =>
    simp only [decode]
    cases ofJson env.codec json <;> rfl

theorem evalAt_familyIsAlive (record : SessionRecord) :
    evalAt (machine env) i (storeOf t k) (familyIsAlive record).run =
      (.ok (decide (record.familyId = "" ∨ has k.fam t record.familyId)), storeOf t k) := by
  unfold familyIsAlive
  by_cases hf : record.familyId = ""
  · simp only [hf, if_true, true_or, decide_true]
    rfl
  · simp only [hf, if_false, false_or, Bool.decide_eq_true]
    rfl

/-- The grace arm of `rotate`, after the script has answered. -/
theorem evalAt_recover (recovered : Json) :
    evalAt (machine env) i (storeOf t k) (do
        let record ← decode env recovered
        if ← familyIsAlive record then pure (.grace record) else pure .invalid : Act RotateOutcome).run =
      (match ofJson env.codec recovered with
        | none => .error .internal
        | some record => .ok (if record.familyId = "" ∨ has k.fam t record.familyId then .grace record else .invalid),
        storeOf t k) := by
  unfold decode
  cases ofJson env.codec recovered with
  | none => rfl
  | some record =>
    show evalAt (machine env) i (storeOf t k) (familyIsAlive record >>= fun alive =>
      if alive then pure (.grace record) else pure .invalid : Act RotateOutcome).run = _
    rw [run_bind, evalAt_bind, evalAt_familyIsAlive]
    by_cases hp : record.familyId = "" ∨ has k.fam t record.familyId = true
    · simp only [hp, decide_true, if_true]
      rfl
    · simp only [hp, decide_false, if_false]
      rfl

theorem performRedis_rotate {a : SessionRotation} {json : Json} (hjson : a.newRecord.toJson env.codec = some json) :
    performRedis env i t k (.rotate a) =
      match k.refreshRotate t (a.command json) with
      | (.invalid, k') => (.rotated .invalid, k')
      | (.reused family, k') => (.rotated (.reused family), k')
      | (.grace recovered, k') =>
        match ofJson env.codec recovered with
        | none => (.failed .internal, k')
        | some record =>
          (.rotated (if record.familyId = "" ∨ has k'.fam t record.familyId then .grace record else .invalid), k')
      | (.rotated old, k') =>
        match ofJson env.codec old with
        | none => (.failed .internal, k')
        | some record => (.rotated (.rotated record), k'.moveSessionDetail t a.oldHash a.newHash
            (atCreation a.newRecord).toJson a.refreshTtl) := by
  rcases hreply : k.refreshRotate t (a.command json) with ⟨reply, k'⟩
  have hrun : (rotate env a).run = .op (.session (.refreshRotate (a.command json))) fun reply => (match reply with
    | .invalid => pure .invalid
    | .grace recovered => do
      let record ← decode env recovered
      if ← familyIsAlive record then pure (.grace record) else pure .invalid
    | .reused family => pure (.reused family)
    | .rotated old => do
      let oldRecord ← decode env old
      Act.session (.moveSessionDetail a.oldHash a.newHash
        (atCreation a.newRecord).toJson a.refreshTtl)
      pure (.rotated oldRecord) : Act RotateOutcome).run := by
    simp only [rotate, encode, hjson]
    rfl
  simp only [performRedis, redisProg, hrun, Prog.map_eq, Prog.op_bind, evalAt_op, exec_session, SessionCmd.exec, hreply]
  cases reply with
  | invalid => rfl
  | reused family => rfl
  | grace recovered =>
    rw [evalAt_bind, evalAt_recover]
    dsimp only
    cases ofJson env.codec recovered <;> rfl
  | rotated old =>
    simp only [decode]
    cases ofJson env.codec old <;> rfl

theorem performRedis_revokeSession (subject hash : String) : performRedis env i t k (.revokeSession subject hash) =
      (if (k.sessionRevoke t subject hash).1 then .done else .failed .sessionNotFound,
        (k.sessionRevoke t subject hash).2) := by
  rcases hreply : k.sessionRevoke t subject hash with ⟨owned, k'⟩
  simp only [performRedis, redisProg, revokeSession, Act.session, run_issue_bind, Prog.map_eq, Prog.op_bind, evalAt_op,
    exec_session, SessionCmd.exec, hreply]
  cases owned <;> rfl

theorem performRedis_revokeFamily (family : String) (owner : Option String) :
    performRedis env i t k (.revokeFamily family owner) =
      (.done, if family = "" then k else (k.revokeFamily t family owner).2) := by
  simp only [performRedis, redisProg, revokeFamily]
  split <;> rfl

end Alone

/-! ### Creation -/

section Create

variable {T t : ℕ} {codec : Rfc3339} {used : List String} {m : InMemoryStores} {k : SessionKeys}
  {subject hash : String} {record : SessionRecord} {json : Json} {ttl : ℕ}

theorem keysLast_createSession (hk : KeysLast T k) (ht : t ≤ T) {s : NewSession} (httl : T < t + s.ttl) :
    KeysLast T (k.createSession t s) where
  rt := hk.rt.setEx _ httl
  rp := hk.rp
  cf := hk.cf
  fam := by
    unfold SessionKeys.createSession
    dsimp only
    split
    · exact hk.fam
    · exact (hk.fam.sadd ht _).expire httl
  sess := (hk.sess.sadd ht _).expire httl
  sd := hk.sd.setEx _ httl

theorem members_createSession (hk : KeysLast T k) (ht : t ≤ T) (s : NewSession) (subject : String) :
    members (k.createSession t s) subject =
      if subject = s.subject then withMember (members k subject) (.live s.hash) else members k subject := by
  rw [members, SessionKeys.createSession, (hk.sess.sadd ht _).val_expire ht, hk.sess.val_sadd ht]
  by_cases hs : subject = s.subject
  · subst hs
    rw [update_self, if_pos rfl]
    rfl
  · rw [update_of_ne hs, if_neg hs]
    rfl

theorem listSessions_createSession (s : String) : (m.createSession subject hash record).listSessions s =
      if s = subject then m.listSessions s ++ [InMemoryStores.detailOf hash record] else m.listSessions s := by
  unfold InMemoryStores.listSessions InMemoryStores.createSession
  by_cases hs : s = subject <;> simp [hs]

theorem hashes_createSession (s : String) : hashes (m.createSession subject hash record) s =
      if s = subject then hashes m s ++ [hash] else hashes m s := by
  rw [hashes, listSessions_createSession]
  split
  · rw [List.map_append]
    rfl
  · rfl

theorem families_createSession (f : String) :
    (m.createSession subject hash record).families f = if f = record.familyId ∧ f ≠ "" then
      some (withMember ((m.families f).getD []) hash) else m.families f := by
  by_cases hf : f = record.familyId <;> by_cases hnone : record.familyId = "" <;>
    simp [InMemoryStores.createSession, hf, hnone]
  rfl

theorem sim_createSession (hsim : Sim codec m k) (hused : Within used m) (hk : KeysLast T k) (ht : t ≤ T)
    (hjson : record.toJson codec = some json) (hlist : Listable record.createdAt) (hnew : hash ∉ used) :
    Sim codec (m.createSession subject hash record) (k.createSession t (newSession subject hash record json ttl)) := by
  have hne : ∀ {h}, h ∈ used → h ≠ hash := fun hh heq => hnew (heq ▸ hh)
  have hsessions : ∀ h, (m.createSession subject hash record).sessions h =
      if h = hash then some record else m.sessions h := fun h => update_apply ..
  constructor
  case rt =>
    intro h
    rw [SessionKeys.createSession, val_setEx, newSession, hsessions]
    grind [update_apply, hsim.rt h, ofJson_toJson codec hjson]
  case sd =>
    intro h
    rw [SessionKeys.createSession, val_setEx, newSession, hsessions]
    grind [update_apply, hsim.sd h]
  case cf => exact hsim.cf
  case fam =>
    intro f
    unfold SessionKeys.createSession InMemoryStores.createSession newSession
    dsimp only
    split
    · exact hsim.fam f
    · rw [(hk.fam.sadd ht _).val_expire ht, hk.fam.val_sadd ht, hsim.fam, funext hsim.fam]
      rfl
  case index =>
    intro s
    rw [members_createSession hk ht, hashes_createSession]
    by_cases hs : s = subject
    · subst hs
      rw [newSession, if_pos rfl, if_pos rfl, liveHashes_withMember_live, hsim.index]
      rw [hsim.index]
      exact fun hh => hnew (hused.index hh)
    · rw [newSession, if_neg hs, if_neg hs, hsim.index]
  case entry =>
    intro s hs
    by_cases hss : s = subject
    · simp [InMemoryStores.createSession, hss]
    · rw [SessionKeys.createSession, (hk.sess.sadd ht _).val_expire ht, hk.sess.val_sadd ht, newSession,
        update_of_ne hss] at hs
      simpa [InMemoryStores.createSession, hss] using hsim.entry s hs
  case detail =>
    intro s d hd r hr
    rw [hsessions] at hr
    rw [listSessions_createSession] at hd
    have hmem : d ∈ m.listSessions s → d.sessionHash ∈ used := fun hd => hused.index (mem_map_of_mem hd)
    grind [InMemoryStores.detailOf, hsim.detail s d]
  case listable =>
    intro h r hr
    grind [hsim.listable h r]
  case family =>
    intro h r hr hf
    have hold := hsim.family h r
    rw [families_createSession]
    grind [mem_withMember]
  case pointer =>
    intro h p hp
    obtain ⟨q, hq, hsucc, hrec, hmem⟩ := hsim.pointer h p hp
    refine ⟨q, hq, hsucc, hrec, ?_⟩
    rw [members_createSession hk ht]
    split
    · exact mem_withMember.mpr (.inl hmem)
    · exact hmem
  case marker => exact hsim.marker
  case unspent =>
    intro h r hr
    have hg : m.grace hash = none := eq_none_iff_forall_ne_some.mpr fun p hp => hnew (hused.grace hp)
    have hc : m.consumed hash = none := eq_none_iff_forall_ne_some.mpr fun f hf => hnew (hused.consumed hf)
    have hunspent := hsim.unspent h r
    rw [InMemoryStores.createSession]
    grind

theorem within_createSession (hused : Within used m) :
    Within (used ++ [hash]) (m.createSession subject hash record) where
  session {h r} hr := by
    rw [InMemoryStores.createSession] at hr
    grind [update_apply, hused.session (h := h)]
  index {s h} hh := by
    rw [hashes_createSession] at hh
    grind [hused.index (s := s) (h := h)]
  grace hp := mem_append_left _ (hused.grace hp)
  consumed hf := mem_append_left _ (hused.consumed hf)

end Create

/-! ### Rotation of a live session -/

theorem getD_bind_ofMembers {A : Type} (o : Option (List A)) (p : A → Bool) :
    (o.bind fun l => ofMembers (l.filter p)).getD [] = (o.getD []).filter p := by
  cases o with
  | none => rfl
  | some l => exact getD_ofMembers _

section Rotate

variable {T t : ℕ} {codec : Rfc3339} {used : List String} {m : InMemoryStores} {k : SessionKeys}
  {a : SessionRotation} {old : SessionRecord} {json : Json}

theorem keysLast_rotateLive (hk : KeysLast T k) (ht : t ≤ T) {a : Rotation} (hrefresh : T < t + a.refreshTtl)
    (hgrace : 0 < a.graceTtl → T < t + a.graceTtl) : KeysLast T (k.rotateLive t a) where
  rt := (hk.rt.setEx _ hrefresh).del
  rp := by
    unfold SessionKeys.rotateLive
    dsimp only
    split
    · next h => exact hk.rp.setEx _ (hgrace h)
    · exact hk.rp
  cf := by
    unfold SessionKeys.rotateLive
    dsimp only
    split
    · exact hk.cf
    · exact hk.cf.setEx _ hrefresh
  fam := by
    unfold SessionKeys.rotateLive
    dsimp only
    split
    · exact hk.fam
    · exact ((hk.fam.srem ht _).sadd ht _).expire hrefresh
  sess := by
    unfold SessionKeys.rotateLive
    dsimp only
    refine Lasting.expire ?_ hrefresh
    split
    · exact ((hk.sess.srem ht _).sadd ht _).sadd ht _
    · exact (hk.sess.srem ht _).sadd ht _
  sd := hk.sd

/-- The members of the owner's index after a rotation. -/
def movedMembers (a : Rotation) (members : List Member) : List Member :=
  let moved := withMember (members.filter (· ≠ .live a.oldHash)) (.live a.newHash)
  if 0 < a.graceTtl then withMember moved (.grace a.oldHash) else moved

theorem val_sess_rotateLive (hk : KeysLast T k) (ht : t ≤ T) (a : Rotation) : val (k.rotateLive t a).sess =
      Function.update (val k.sess) a.subject (some (movedMembers a (members k a.subject))) := by
  have hmoved := (hk.sess.srem (k := a.subject) ht (.live a.oldHash)).sadd (k := a.subject) ht (.live a.newHash)
  have hval : val (sadd (srem k.sess t a.subject (.live a.oldHash)) t a.subject (.live a.newHash)) =
      Function.update (val k.sess) a.subject
        (some (withMember ((members k a.subject).filter (· ≠ .live a.oldHash)) (.live a.newHash))) := by
    rw [(hk.sess.srem ht _).val_sadd ht, hk.sess.val_srem ht, update_idem, update_self, getD_bind_ofMembers]
    rfl
  unfold SessionKeys.rotateLive movedMembers
  dsimp only
  split
  · rw [(hmoved.sadd ht _).val_expire ht, hmoved.val_sadd ht, hval, update_idem, update_self]
    rfl
  · rw [hmoved.val_expire ht, hval]

theorem members_rotateLive (hk : KeysLast T k) (ht : t ≤ T) (a : Rotation) (s : String) :
    members (k.rotateLive t a) s = if s = a.subject then movedMembers a (members k s) else members k s := by
  rw [members, val_sess_rotateLive hk ht, update_apply]
  by_cases hs : s = a.subject
  · subst hs
    rw [if_pos rfl, if_pos rfl]
    rfl
  · rw [if_neg hs, if_neg hs]
    rfl

variable {l : List Member} {details : List SessionDetail}

theorem grace_mem_movedMembers {a : Rotation} {h : String} (hmem : Member.grace h ∈ l) :
    Member.grace h ∈ movedMembers a l := by
  have hmoved : Member.grace h ∈ withMember (l.filter (· ≠ .live a.oldHash)) (.live a.newHash) :=
    mem_withMember.mpr (.inl (mem_filter.mpr ⟨hmem, by simp⟩))
  unfold movedMembers
  dsimp only
  split
  · exact mem_withMember.mpr (.inl hmoved)
  · exact hmoved

theorem oldHash_mem_movedMembers {a : Rotation} (hpos : 0 < a.graceTtl) :
    Member.grace a.oldHash ∈ movedMembers a l := by
  rw [movedMembers, if_pos hpos]
  exact mem_withMember.mpr (.inr rfl)

theorem liveHashes_movedMembers {a : Rotation} (hnew : a.newHash ∉ liveHashes l) :
    liveHashes (movedMembers a l) = (liveHashes l).filter (· ≠ a.oldHash) ++ [a.newHash] := by
  have hmoved : a.newHash ∉ liveHashes (l.filter (· ≠ .live a.oldHash)) := by
    rw [liveHashes_filter_live]
    exact fun h => hnew (mem_of_mem_filter h)
  rw [← liveHashes_filter_live, ← liveHashes_withMember_live hmoved]
  unfold movedMembers
  dsimp only
  split
  · exact liveHashes_withMember_grace ..
  · rfl

theorem listSessions_rotateLive (hentry : m.sessionIndex a.subjectHash = some details) (s : String) :
    (m.rotateLive a old).listSessions s =
      if s = a.subjectHash then
        (m.listSessions s).filter (·.sessionHash ≠ a.oldHash) ++ [InMemoryStores.detailOf a.newHash a.newRecord]
      else m.listSessions s := by
  unfold InMemoryStores.listSessions InMemoryStores.rotateLive
  rw [hentry]
  by_cases hs : s = a.subjectHash <;> simp [hs, hentry]

theorem hashes_rotateLive (hentry : m.sessionIndex a.subjectHash = some details) (s : String) :
    hashes (m.rotateLive a old) s =
      if s = a.subjectHash then (hashes m s).filter (· ≠ a.oldHash) ++ [a.newHash] else hashes m s := by
  rw [hashes, listSessions_rotateLive hentry]
  split
  · rw [List.map_append, hashes, List.filter_map]
    rfl
  · rfl

theorem sessions_rotateLive (h : String) : (m.rotateLive a old).sessions h =
    if h = a.newHash then some a.newRecord else if h = a.oldHash then none else m.sessions h := by
  simp only [rotateLive, update_apply]

theorem grace_rotateLive (h : String) : (m.rotateLive a old).grace h =
    if h = a.oldHash then some ⟨a.subjectHash, a.newRecord, a.newHash⟩ else m.grace h := update_apply ..

theorem consumed_rotateLive (h : String) : (m.rotateLive a old).consumed h =
    if h = a.oldHash ∧ old.familyId ≠ "" then some old.familyId else m.consumed h := by
  unfold rotateLive
  grind [update_apply]

theorem families_rotateLive (f : String) :
    (m.rotateLive a old).families f = if f = old.familyId ∧ f ≠ "" then
      (m.families f).map fun hs => withMember (hs.filter (· ≠ a.oldHash)) a.newHash else m.families f := by
  by_cases hf : f = old.familyId <;> by_cases hnone : old.familyId = "" <;>
    cases hm : m.families old.familyId <;> simp [rotateLive, hf, hnone, hm]
  rfl

theorem sim_rotateLive (hsim : Sim codec m k) (hused : Within used m) (hk : KeysLast T k) (ht : t ≤ T)
    (hjson : a.newRecord.toJson codec = some json) (hlist : Listable a.newRecord.createdAt)
    (hnew : a.newHash ∉ used) (hold : m.sessions a.oldHash = some old)
    (hfamily : a.newRecord.familyId = old.familyId) (hentry : m.sessionIndex a.subjectHash = some details) :
    Sim codec (m.rotateLive a old) ((k.rotateLive t (a.command json)).moveSessionDetail t a.oldHash a.newHash
      (atCreation a.newRecord).toJson a.refreshTtl) := by
  have hne : ∀ {h}, h ∈ used → h ≠ a.newHash := fun hh heq => hnew (heq ▸ hh)
  have holdnew : a.oldHash ≠ a.newHash := hne (hused.session hold)
  constructor
  case rt =>
    intro h
    show (val (del (setEx k.rt t a.newHash json a.refreshTtl) a.oldHash) h).map _ = _
    rw [val_del, val_setEx]
    grind [update_apply, hsim.rt h, sessions_rotateLive, ofJson_toJson codec hjson]
  case sd =>
    intro h
    show val (setEx (del k.sd a.oldHash) t a.newHash _ a.refreshTtl) h = _
    rw [val_setEx, val_del]
    grind [update_apply, hsim.sd h, sessions_rotateLive]
  case cf =>
    intro h
    show val (if a.newRecord.familyId = "" then k.cf else setEx k.cf t a.oldHash a.newRecord.familyId a.refreshTtl) h = _
    rw [hfamily, consumed_rotateLive]
    split <;> simp_all [val_setEx, update_apply, hsim.cf]
  case fam =>
    intro f
    show val (if a.newRecord.familyId = "" then k.fam else
      expire (sadd (srem k.fam t a.newRecord.familyId a.oldHash) t a.newRecord.familyId a.newHash) t
        a.newRecord.familyId a.refreshTtl) f = _
    rw [hfamily, families_rotateLive]
    split
    · next hf => rw [hsim.fam, if_neg (by grind)]
    · next hf =>
      obtain ⟨hs, hmem, -⟩ := hsim.family _ _ hold hf
      rw [((hk.fam.srem ht _).sadd ht _).val_expire ht, (hk.fam.srem ht _).val_sadd ht, hk.fam.val_srem ht,
        update_idem, update_self, getD_bind_ofMembers, funext hsim.fam, hmem]
      grind [update_apply]
  case index =>
    intro s
    have hmembers : members (k.rotateLive t (a.command json)) s =
        if s = a.subjectHash then movedMembers (a.command json) (members k s) else members k s :=
      members_rotateLive hk ht _ s
    show liveHashes (members (k.rotateLive t (a.command json)) s) = _
    rw [hmembers, hashes_rotateLive hentry, ← hsim.index]
    split
    · refine liveHashes_movedMembers ?_
      rw [hsim.index]
      exact fun hh => hnew (hused.index hh)
    · rfl
  case entry =>
    intro s hs
    change (val (k.rotateLive t (a.command json)).sess s).isSome = true at hs
    rw [val_sess_rotateLive hk ht, update_apply] at hs
    have hold := hsim.entry s
    simp only [rotateLive, hentry, update_apply]
    split
    · rfl
    · next hne' => exact hold (by rwa [if_neg (show ¬ s = (a.command json).subject from hne')] at hs)
  case detail =>
    intro s d hd r hr
    rw [sessions_rotateLive] at hr
    rw [listSessions_rotateLive hentry] at hd
    have hmem : d ∈ m.listSessions s → d.sessionHash ∈ used := fun hd => hused.index (mem_map_of_mem hd)
    have hdetail := hsim.detail s d
    grind [detailOf]
  case listable =>
    intro h r hr
    grind [hsim.listable h r, sessions_rotateLive]
  case family =>
    intro h r hr hf
    have hold := hsim.family _ _ hold
    have hfam := hsim.family h r
    rw [families_rotateLive]
    grind [sessions_rotateLive, mem_withMember]
  case pointer =>
    intro h p hp
    change val (if 0 < a.graceTtl then setEx k.rp t a.oldHash (a.newHash, json) a.graceTtl else k.rp) h = some p at hp
    have hmembers := members_rotateLive hk ht (a.command json)
    by_cases hh : h = a.oldHash
    · have hnone : val k.rp a.oldHash ≠ some p := fun hp => by
        obtain ⟨q, hq, -⟩ := hsim.pointer _ p hp
        simp [(hsim.unspent _ _ hold).1] at hq
      have hpos : 0 < a.graceTtl := by grind
      rw [if_pos hpos, val_setEx, hh, update_self, some_inj] at hp
      refine ⟨⟨a.subjectHash, a.newRecord, a.newHash⟩, by simp [grace_rotateLive, hh], hp ▸ rfl,
        hp ▸ ofJson_toJson codec hjson, ?_⟩
      show _ ∈ members (k.rotateLive t (a.command json)) (a.command json).subject
      rw [hmembers, if_pos rfl, hh]
      exact oldHash_mem_movedMembers hpos
    · obtain ⟨q, hq, hsucc, hrec, hmem⟩ := hsim.pointer h p (by split at hp <;> simp_all [val_setEx])
      refine ⟨q, by rw [grace_rotateLive, if_neg hh, hq], hsucc, hrec, ?_⟩
      show _ ∈ members (k.rotateLive t (a.command json)) _
      rw [hmembers]
      split
      · exact grace_mem_movedMembers hmem
      · exact hmem
  case marker =>
    intro h q hq
    have hmarker := hsim.marker h q
    have hspent := hsim.unspent _ _ hold
    grind [grace_rotateLive, consumed_rotateLive]
  case unspent =>
    intro h r hr
    have hunspent := hsim.unspent h r
    have hg : m.grace a.newHash = none := eq_none_iff_forall_ne_some.mpr fun p hp => hnew (hused.grace hp)
    have hc : m.consumed a.newHash = none := eq_none_iff_forall_ne_some.mpr fun f hf => hnew (hused.consumed hf)
    grind [sessions_rotateLive, grace_rotateLive, consumed_rotateLive]

theorem within_rotateLive (hused : Within used m) (hold : m.sessions a.oldHash = some old)
    (hentry : m.sessionIndex a.subjectHash = some details) :
    Within (used ++ [a.newHash]) (m.rotateLive a old) where
  session {h r} hr := by
    rw [sessions_rotateLive] at hr
    grind [hused.session (h := h)]
  index {s h} hh := by
    rw [hashes_rotateLive hentry] at hh
    grind [hused.index (s := s) (h := h)]
  grace {h p} hp := by
    rw [grace_rotateLive] at hp
    grind [hused.session hold, hused.grace (h := h)]
  consumed {h f} hf := by
    rw [consumed_rotateLive] at hf
    grind [hused.session hold, hused.consumed (h := h)]

end Rotate

end BymaxAuth.Testing
