import BymaxAuth.History.Run

/-!
# Where a session comes from

Every session of a run was stored by one entry of its history: by a login, by the rotation of a live
token, or by a recovery after a grace reply. What is stored carries on the identity of what it was made
from — through the JSON form of the records, through a grace pointer, and over whatever other handlers did
between a handler's read and its write.

## The model

`Begets log p h`: the session `h` was made from the token `p`, by rotation or by recovery. `Descends` is
its reflexive transitive closure.
-/

namespace BymaxAuth

open Redis Concurrency Relation List Bool SessionRecord SessionCmd

/-- What a session keeps along its lineage. -/
structure Identity where
  /-- The owning user id. -/
  userId : String
  /-- The tenant scope; absent for platform sessions. -/
  tenantId : Option String
  role : String
  familyId : String
  /-- When the family was born. -/
  familyCreatedAt : Option ℤ
  /-- Whether MFA was enabled. -/
  mfaEnabled : Bool
  /-- Whether the session has cleared it. -/
  mfaVerified : Bool
  deriving DecidableEq

/-- The identity a record carries. -/
def SessionRecord.identity (r : SessionRecord) : Identity :=
  { userId := r.userId, tenantId := r.tenantId, role := r.role, familyId := r.familyId,
    familyCreatedAt := r.familyCreatedAt, mfaEnabled := r.mfaEnabled, mfaVerified := r.mfaVerified }

variable {env : Env} {r : SessionRecord} {l' : List Event} {hash : String}

/-- `identity_record` keeps the identity, on the platform plane that of a record without a tenant. -/
theorem identity_carry {seed : SessionRecord} (h : env.kind = .platform → seed.tenantId = none) (device ip : String)
    (createdAt : ℤ) : (env.carry seed device ip createdAt).identity = seed.identity := by
  unfold Env.carry identity
  cases hk : env.kind with
  | dashboard => rfl
  | platform => simp [h hk]

/-- The session `b` stores the record `r`, in the index of `r`'s owner and in `r`'s family. -/
structure Names (env : Env) (b : Birth) (r : SessionRecord) : Prop where
  /-- The record, in its stored form. -/
  json : r.toJson env.codec = some b.record
  /-- It names an account. -/
  user : r.userId ≠ ""
  /-- It names a family. -/
  family_ne : r.familyId ≠ ""
  /-- The family has a birth time. -/
  born : r.familyCreatedAt.isSome = true
  /-- A platform record names no tenant. -/
  tenant : env.kind = .platform → r.tenantId = none
  /-- A dashboard record names one. -/
  tenanted : env.kind = .dashboard → r.tenantId.isSome = true
  /-- The family it is indexed under. -/
  family : b.family = r.familyId
  /-- The account it is indexed under. -/
  subject : b.subject = env.ownerIndex r
  /-- The refresh TTL. -/
  ttl : b.ttl = env.config.refreshTtl

variable {b : Birth} {l : List Event} {p c : String} {e : Event}

theorem Names.ofJson (h : Names env b r) :
    ofJson env.codec b.record = some r := ofJson_toJson env.codec h.json

theorem Names.unique {r' : SessionRecord} (h : Names env b r) (h' : Names env b r') : r = r' := by
  have := h.ofJson
  rw [h'.ofJson, Option.some.injEq] at this
  exact this.symm

/-- The session `b` carries on the identity of a record stored as `parent`, which was inside the absolute
lifetime when the handler with the exchanges `tr` looked. -/
structure CarriesOn (env : Env) (tr : Trace) (parent : Json) (b : Birth) : Prop where
  /-- The record, and what it was made of. -/
  record : ∃ seed r, ofJson env.codec parent = some seed ∧ CapChecked env tr seed ∧
    Carried env seed r ∧ r.toJson env.codec = some b.record ∧ b.family = r.familyId ∧
    b.subject = env.ownerIndex r
  /-- The refresh TTL. -/
  ttl : b.ttl = env.config.refreshTtl

/-- What carries on a named session is named, with the same identity. -/
theorem CarriesOn.names {tr : Trace} {b' : Birth} {r' : SessionRecord} (h : CarriesOn env tr b'.record b)
    (h' : Names env b' r') : ∃ r, Names env b r ∧ r.identity = r'.identity := by
  obtain ⟨⟨seed, r, hseed, -, ⟨device, ip, t, rfl⟩, hj, hf, hs⟩, httl⟩ := h
  rw [h'.ofJson, Option.some.injEq] at hseed
  subst hseed
  have hid := identity_carry h'.tenant device ip t
  have hfield : ∀ {α : Type} (f : Identity → α), f (env.carry r' device ip t).identity = f r'.identity :=
    fun f => congrArg f hid
  refine ⟨_, ⟨hj, ?_, ?_, ?_, ?_, ?_, hf, hs, httl⟩, hid⟩
  · exact h'.user
  · exact h'.family_ne
  · exact h'.born
  · intro hk
    exact (hfield (·.tenantId)).trans (h'.tenant hk)
  · intro hk
    exact (congrArg Option.isSome (hfield (·.tenantId))).trans (h'.tenanted hk)

/-! ### What the replies say about the history -/

section Step

variable {c d : Snapshot}

/-- A grace pointer that is there after a step was planted by it, or was there before. -/
theorem rp_of_moment {e : Event} (hm : Moment (machine env) l e c d) {h : String}
    {cell : Cell (String × Json)} (hk : d.st.keys.rp h = some cell) :
    (∃ tid pre a old, e = ⟨tid, pre, .session (.refreshRotate a), .rotated old⟩ ∧ a.oldHash = h ∧
      cell = ⟨(a.newHash, a.newJson), some (pre.now + a.graceTtl)⟩) ∨ c.st.keys.rp h = some cell := by
  obtain ⟨tid, pre, op, r⟩ := e
  cases op with
  | session cmd =>
    obtain ⟨rfl, hd⟩ := moment_session hm
    rw [hd] at hk
    rcases rp_of_exec hk with ⟨a, old, rfl, hlive, rfl, -, rfl⟩ | hk
    · refine .inl ⟨tid, pre, a, old, ?_, rfl, rfl⟩
      rw [exec_of_live hlive]
    · rw [hm.st₁]
      exact .inr hk
  | _ => exact .inr (moment_keys hm (by simp) ▸ hk)

/-- A consumed-family marker is written by a live rotation of its token, and by nothing else is it
touched. -/
theorem cf_of_moment {e : Event} (hm : Moment (machine env) l e c d) (h : String) :
    (∃ tid pre a old, e = ⟨tid, pre, .session (.refreshRotate a), .rotated old⟩ ∧ a.oldHash = h ∧
      d.st.keys.cf h = some ⟨a.family, some (pre.now + a.refreshTtl)⟩) ∨
      d.st.keys.cf h = c.st.keys.cf h := by
  obtain ⟨tid, pre, op, r⟩ := e
  cases op with
  | session cmd =>
    obtain ⟨rfl, hd⟩ := moment_session hm
    rw [hd, hm.st₁]
    rcases cf_of_exec (k := pre.keys) cmd h with ⟨a, old, rfl, hlive, rfl, -, hcf⟩ | hcf
    · refine .inl ⟨tid, pre, a, old, ?_, rfl, hcf⟩
      rw [exec_of_live hlive]
    · exact .inr hcf
  | _ => exact .inr (by rw [moment_keys hm (by simp)])

end Step

namespace Deployment

variable {D : Deployment} {cfg : Snapshot} {l₁ l₂ : List Event} {tid : ℕ} {pre : Store} {a : Rotation}

namespace Reaches

variable (h : D.Reaches cfg)
include h

/-- A grace pointer was planted by a rotation of its token. -/
theorem rotated_of_rp {cell : Cell (String × Json)} (hk : cfg.st.keys.rp hash = some cell) :
    ∃ tid pre a old, ⟨tid, pre, .session (.refreshRotate a), .rotated old⟩ ∈ cfg.log ∧
      a.oldHash = hash ∧ cell = ⟨(a.newHash, a.newJson), some (pre.now + a.graceTtl)⟩ := by
  obtain ⟨_, he, tid, pre, a, old, rfl, hrest⟩ := reach_written (H := fun st => st.keys.rp hash = some cell) h hk nofun
    (fun _ _ => id) fun _ _ _ _ hm => rp_of_moment hm
  exact ⟨tid, pre, a, old, he, hrest⟩

/-- A consumed-family marker was written by a rotation of its token. -/
theorem rotated_of_cf {cell : Cell String} (hk : cfg.st.keys.cf hash = some cell) :
    ∃ tid pre a old, ⟨tid, pre, .session (.refreshRotate a), .rotated old⟩ ∈ cfg.log ∧
      a.oldHash = hash ∧ cell = ⟨a.family, some (pre.now + a.refreshTtl)⟩ := by
  refine (reach_written (H := fun st => st.keys.cf hash = some cell) (W := fun e => ∃ tid pre a old,
    e = ⟨tid, pre, .session (.refreshRotate a), .rotated old⟩ ∧ a.oldHash = hash ∧
      cell = ⟨a.family, some (pre.now + a.refreshTtl)⟩) h hk nofun (fun _ _ => id) ?_).elim ?_
  · intro c d e _ hm hk
    rcases cf_of_moment hm hash with ⟨tid, pre, a, old, he, hold, hcf⟩ | hcf
    · rw [hcf, Option.some.injEq] at hk
      exact .inl ⟨tid, pre, a, old, he, hold, hk.symm⟩
    · exact .inr (hcf ▸ hk)
  · rintro _ ⟨he, tid, pre, a, old, rfl, hrest⟩
    exact ⟨tid, pre, a, old, he, hrest⟩

/-- What a `GET rt:` finds is what was stored under the hash. -/
theorem getRt_some {json : Json} (hl : cfg.log = l₁ ++ ⟨tid, pre, .session (.getRt hash), some json⟩ :: l₂) :
    ∃ e ∈ l₁, ∃ b, Bears e b ∧ b.hash = hash ∧ b.record = json := by
  obtain ⟨c, d, hc, hm, -⟩ := h.at_entry hl
  obtain ⟨cell, hk, -, hv⟩ := get_eq_some.mp (moment_session hm).1.symm
  have hst : c.st = pre := hm.st₁
  rw [← hst] at hk
  obtain ⟨e, he, b, hb, hbh, rfl⟩ := hc.born_of_rt hk
  rw [hm.log₁] at he
  exact ⟨e, he, b, hb, hbh, hv⟩

/-- A rotation consumes a live token, and answers with what was stored under its hash. -/
theorem rotated_live {old : Json} (hl : cfg.log = l₁ ++ ⟨tid, pre, .session (.refreshRotate a), .rotated old⟩ :: l₂) :
    Live pre a.oldHash ∧ ∃ e ∈ l₁, ∃ b, Bears e b ∧ b.hash = a.oldHash ∧ b.record = old := by
  obtain ⟨c, d, hc, hm, -⟩ := h.at_entry hl
  obtain ⟨hget, -⟩ := exec_rotated (moment_session hm).1.symm
  refine ⟨by rw [Live, has_eq_isSome_get, hget]; rfl, ?_⟩
  obtain ⟨cell, hk, -, hv⟩ := get_eq_some.mp hget
  have hst : c.st = pre := hm.st₁
  rw [← hst] at hk
  obtain ⟨e, he, b, hb, hbh, rfl⟩ := hc.born_of_rt hk
  rw [hm.log₁] at he
  exact ⟨e, he, b, hb, hbh, hv⟩

/-- A grace reply comes after a rotation of its token, and carries the successor's record; the successor
is live. -/
theorem grace_after_rotated {json : Json}
    (hl : cfg.log = l₁ ++ ⟨tid, pre, .session (.refreshRotate a), .grace json⟩ :: l₂) :
    ∃ tid' pre' a' old, ⟨tid', pre', .session (.refreshRotate a'), .rotated old⟩ ∈ l₁ ∧
      a'.oldHash = a.oldHash ∧ a'.newJson = json ∧ Live pre a'.newHash := by
  obtain ⟨c, d, hc, hm, -⟩ := h.at_entry hl
  obtain ⟨-, ⟨successor, hget, hlive⟩, -⟩ := exec_grace (moment_session hm).1.symm
  obtain ⟨cell, hk, -, hv⟩ := get_eq_some.mp hget
  have hst : c.st = pre := hm.st₁
  rw [← hst] at hk
  obtain ⟨tid', pre', a', old, he, hold, rfl⟩ := hc.rotated_of_rp hk
  rw [hm.log₁] at he
  cases hv
  exact ⟨tid', pre', a', old, he, hold, rfl, hlive⟩

/-! ### What is stored -/

/-- A rotation carries on what was stored under the token it consumed. A handler that had read nothing
there before does not get this reply: the token was dead by then. -/
theorem rotated_continues {old : Json}
    (hl : cfg.log = l₁ ++ ⟨tid, pre, .session (.refreshRotate a), .rotated old⟩ :: l₂) :
    CarriesOn D.env (localTrace tid l₁) old a.birth := by
  have hobeys : Rotates D.env (localTrace tid l₁) a := h.obeys hl
  obtain ⟨hlive, e, he, b, hb, hbh, rfl⟩ := h.rotated_live hl
  obtain ⟨seed, r, hseed, hcap, hcar, hj, hf, hs⟩ := hobeys.record
  refine ⟨⟨seed, r, ?_, hcap, hcar, hj, hf, hs⟩, hobeys.ttl⟩
  obtain ⟨c, d, hc, hm, -⟩ := h.at_entry hl
  have hst : c.st = pre := hm.st₁
  have hlog : c.log = l₁ := hm.log₁
  cases hseed with
  | @live json _ hread hjson _ =>
    obtain ⟨e', he', htid, hev⟩ := mem_localTrace.mp hread
    obtain ⟨tid', pre', op, res⟩ := e'
    cases hev
    obtain ⟨m₁, m₂, rfl⟩ := append_of_mem he'
    obtain ⟨e'', he'', b', hb', hbh', rfl⟩ := hc.getRt_some hlog
    have hmem : e'' ∈ c.log := by rw [hlog]; exact mem_append_left _ he''
    obtain ⟨-, rfl⟩ := hc.birth_unique hmem (hlog ▸ he) hb' hb (hbh'.trans hbh.symm)
    exact hjson
  | placeholder htr harr _ _ =>
    obtain ⟨m₁, e', m₂, rfl, htid, hev, htr₁, -⟩ := localTrace_split htr
    obtain ⟨tid', pre', op, res⟩ := e'
    cases hev
    rw [← htr₁] at harr
    obtain ⟨e'', he'', -, hev''⟩ := mem_localTrace.mp harr
    refine absurd ?_ (hc.dead_of_missed hlog he'' (by rw [hev'']; rfl))
    rw [hst]
    exact hlive

/-- A recovery carries on what the grace reply to its handler carried. -/
theorem recovered_continues {s : NewSession}
    (hl : cfg.log = l₁ ++ ⟨tid, pre, .session (.recoverGrace s), true⟩ :: l₂) :
    ∃ pre' a json, ⟨tid, pre', .session (.refreshRotate a), .grace json⟩ ∈ l₁ ∧
      CarriesOn D.env (localTrace tid l₁) json s.birth := by
  have hobeys : Recovers D.env (localTrace tid l₁) s := h.obeys hl
  obtain ⟨a, json, seed, r, hg, hseed, hcap, hcar, hj, hf, hs⟩ := hobeys.record
  obtain ⟨pre', he⟩ := exchange_mem.mp hg
  exact ⟨pre', a, json, he, ⟨⟨seed, r, hseed, hcap, hcar, hj, hf, hs⟩, hobeys.ttl⟩⟩

theorem drawn_ne {uuid : String} (hu : uuid ∈ minted Exchange.draws cfg.log) : uuid ≠ "" := by
  obtain ⟨e, he, hd⟩ := mem_filterMap.mp hu
  obtain ⟨c, d, -, hm, -⟩ := h.at_mem he
  have ha := hm.admits
  obtain ⟨tid, pre, op, r⟩ := e
  unfold Exchange.draws Entry.ev at hd
  split at hd
  · next heq =>
    cases heq
    cases hd
    simp only [machine, admits, and_eq_true, decide_eq_true_eq] at ha
    exact ha.1
  · cases hd

/-- A login's session names the account and a family of its own. -/
theorem created_names {s : NewSession} {r : Unit}
    (hl : cfg.log = l₁ ++ ⟨tid, pre, .session (.createSession s), r⟩ :: l₂) :
    ∃ r, Names D.env s.birth r := by
  have hobeys : Opens D.env (localTrace tid l₁) s := h.obeys hl
  obtain ⟨r, hj, hu, hf, hs, ⟨t, ht⟩, hk, hk'⟩ := hobeys.record
  obtain ⟨c, d, hc, hm, -⟩ := h.at_entry hl
  have hlog : c.log = l₁ := hm.log₁
  have hfam : s.family ≠ "" := by
    have hpend := hobeys.family
    rw [← hlog] at hpend
    exact hc.drawn_ne (hc.freshFamilies.pending_minted _ _ hpend)
  exact ⟨r, hj, hu, hf ▸ hfam, by rw [ht]; rfl, hk, hk', hf, hs, hobeys.ttl⟩

/-- Every session that was stored has a record that names an account and a family. -/
theorem names {e : Event} {b : Birth} (he : e ∈ cfg.log) (hb : Bears e b) : ∃ r, Names D.env b r := by
  refine Reaches.invariant (fun _ log => ∀ e ∈ log, ∀ b, Bears e b → ∃ r, Names D.env b r)
    (by simp) ?_ (fun _ _ _ ih => ih) h e he b hb
  intro c d e hc ih hm e' he' b hb
  rcases mem_append.mp he' with he' | he'
  · exact ih e' he' b hb
  · rw [mem_singleton] at he'
    subst he'
    have hd := hc.next hm
    obtain ⟨hs⟩ := hb
    cases hs with
    | created s => exact hd.created_names hm.log₂
    | rotated a old =>
      obtain ⟨-, p, hp, b', hb', -, rfl⟩ := hd.rotated_live hm.log₂
      obtain ⟨r', hr'⟩ := ih p hp b' hb'
      obtain ⟨r, hr, -⟩ := (hd.rotated_continues hm.log₂).names hr'
      exact ⟨r, hr⟩
    | recovered s =>
      obtain ⟨pre', a, json, hg, hcont⟩ := hd.recovered_continues hm.log₂
      obtain ⟨m₁, m₂, hsplit⟩ := append_of_mem hg
      obtain ⟨tid', pre'', a', old, hrot, -, rfl, -⟩ := hc.grace_after_rotated hsplit
      obtain ⟨r', hr'⟩ := ih _ (hsplit ▸ mem_append_left _ hrot) a'.birth .rotated
      obtain ⟨r, hr, -⟩ := CarriesOn.names hcont hr'
      exact ⟨r, hr⟩

/-! ### Lineages -/

theorem rotates_once {pre' : Store} {a' : Rotation} {r r' : RotateReply}
    (he : ⟨tid, pre, .session (.refreshRotate a), r⟩ ∈ cfg.log)
    (he' : ⟨tid, pre', .session (.refreshRotate a'), r'⟩ ∈ cfg.log) :
    (⟨tid, pre, .session (.refreshRotate a), r⟩ : Event) = ⟨tid, pre', .session (.refreshRotate a'), r'⟩ := by
  have key : ∀ {pre pre' : Store} {a a' : Rotation} {r r' : RotateReply} {l₁ l₂ : List Event},
      cfg.log = l₁ ++ ⟨tid, pre, .session (.refreshRotate a), r⟩ :: l₂ →
      ⟨tid, pre', .session (.refreshRotate a'), r'⟩ ∈ l₁ → False := by
    intro pre pre' a a' r r' l₁ l₂ hl hmem
    have hobeys : Rotates D.env (localTrace tid l₁) a := h.obeys hl
    exact hobeys.once _ (mem_localTrace.mpr ⟨_, hmem, rfl, rfl⟩) a' rfl
  rcases eq_or_before he he' with heq | ⟨l₁, l₂, hl, hmem⟩ | ⟨l₁, l₂, hl, hmem⟩
  · exact heq
  · exact absurd hmem (key hl)
  · exact absurd hmem (key hl)

end Reaches

end Deployment

/-- The session `hash` was stored with the record `r`. -/
def Stored (env : Env) (log : List Event) (hash : String) (r : SessionRecord) : Prop :=
  ∃ e ∈ log, ∃ b, Bears e b ∧ b.hash = hash ∧ Names env b r

/-- `Begets log p h`: the session `h` was made from the token `p`. -/
inductive Begets (log : List Event) : String → String → Prop where
  /-- By the rotation of a live token. -/
  | rotated {tid : ℕ} {pre : Store} {a : Rotation} {old : Json} :
      ⟨tid, pre, .session (.refreshRotate a), .rotated old⟩ ∈ log → Begets log a.oldHash a.newHash
  /-- By a recovery, after a grace reply. -/
  | recovered {tid : ℕ} {pre pre' : Store} {a : Rotation} {json : Json} {s : NewSession} :
      ⟨tid, pre, .session (.refreshRotate a), .grace json⟩ ∈ log →
      ⟨tid, pre', .session (.recoverGrace s), true⟩ ∈ log → Begets log a.oldHash s.hash

/-- `Descends log p h`: by any number of rotations and recoveries. -/
def Descends (log : List Event) : String → String → Prop := ReflTransGen (Begets log)

theorem Stored.mono (hl : ∀ e ∈ l, e ∈ l') (h : Stored env l hash r) : Stored env l' hash r := by
  obtain ⟨e, he, hrest⟩ := h
  exact ⟨e, hl e he, hrest⟩

theorem Begets.mono (hl : ∀ e ∈ l, e ∈ l') (hb : Begets l p c) : Begets l' p c := by
  cases hb with
  | rotated he => exact .rotated (hl _ he)
  | recovered hg he => exact .recovered (hl _ hg) (hl _ he)

theorem Descends.mono (hl : ∀ e ∈ l, e ∈ l') (hd : Descends l p c) : Descends l' p c := by
  induction hd with
  | refl => exact .refl
  | tail _ hb ih => exact .tail ih (hb.mono hl)

/-- The session `hash` was stored by a login. -/
def LoggedIn (log : List Event) (hash : String) : Prop :=
  ∃ tid pre s r, ⟨tid, pre, .session (.createSession s), r⟩ ∈ log ∧ s.hash = hash

/-! ### Lineages that can be computed -/

/-- The entry is a presentation of `hash` that was answered with a rotation. -/
def rotates (hash : String) (e : Event) : Bool :=
  match e with
  | ⟨_, _, .session (.refreshRotate a), .rotated _⟩ => a.oldHash = hash
  | _ => false

/-- The entry is a presentation of `hash` that was answered with a grace. -/
def graces (hash : String) (e : Event) : Bool :=
  match e with
  | ⟨_, _, .session (.refreshRotate a), .grace _⟩ => a.oldHash = hash
  | _ => false

/-- The entry stored a session after its handler was answered with a grace for `hash`. -/
def recovers (log : List Event) (hash : String) (e : Event) : Bool :=
  match e with
  | ⟨tid, _, .session (.recoverGrace _), true⟩ => log.any fun g => g.tid = tid && graces hash g
  | _ => false

theorem rotates_iff : rotates hash e = true ↔ ∃ tid pre a old,
      e = ⟨tid, pre, .session (.refreshRotate a), .rotated old⟩ ∧ a.oldHash = hash := by
  constructor
  · intro h
    unfold rotates at h
    split at h
    · exact ⟨_, _, _, _, rfl, of_decide_eq_true h⟩
    · cases h
  · rintro ⟨tid, pre, a, old, rfl, h⟩
    exact decide_eq_true h

theorem graces_iff : graces hash e = true ↔ ∃ tid pre a json,
      e = ⟨tid, pre, .session (.refreshRotate a), .grace json⟩ ∧ a.oldHash = hash := by
  constructor
  · intro h
    unfold graces at h
    split at h
    · exact ⟨_, _, _, _, rfl, of_decide_eq_true h⟩
    · cases h
  · rintro ⟨tid, pre, a, json, rfl, h⟩
    exact decide_eq_true h

theorem recovers_iff {log : List Event} :
    recovers log hash e = true ↔ ∃ tid pre s, e = ⟨tid, pre, .session (.recoverGrace s), true⟩ ∧
      ∃ g ∈ log, g.tid = tid ∧ graces hash g = true := by
  constructor
  · intro h
    unfold recovers at h
    split at h
    · simp only [any_eq_true, and_eq_true, decide_eq_true_eq] at h
      exact ⟨_, _, _, rfl, h⟩
    · cases h
  · rintro ⟨tid, pre, s, rfl, h⟩
    simpa [recovers] using h

/-- Whether `h` was made from `p`. -/
def begets (log : List Event) (p h : String) : Bool :=
  log.any fun e => (rotates p e || recovers log p e) && Exchange.stores e.ev = some h

theorem begets_iff {log : List Event} : begets log p c = true ↔ Begets log p c := by
  simp only [begets, any_eq_true, and_eq_true, or_eq_true, decide_eq_true_eq]
  constructor
  · rintro ⟨e, he, hrot | hrec, hs⟩
    · obtain ⟨tid, pre, a, old, rfl, rfl⟩ := rotates_iff.mp hrot
      cases hs
      exact .rotated he
    · obtain ⟨tid, pre, s, rfl, g, hg, rfl, hgr⟩ := recovers_iff.mp hrec
      obtain ⟨tid', pre', a, json, rfl, rfl⟩ := graces_iff.mp hgr
      cases hs
      exact .recovered hg he
  · intro hb
    cases hb with
    | rotated he => exact ⟨_, he, .inl (rotates_iff.mpr ⟨_, _, _, _, rfl, rfl⟩), rfl⟩
    | recovered hg he =>
      exact ⟨_, he, .inr (recovers_iff.mpr ⟨_, _, _, rfl, _, hg, rfl, graces_iff.mpr ⟨_, _, _, _, rfl, rfl⟩⟩), rfl⟩

instance (log : List Event) (p h : String) : Decidable (Begets log p h) :=
  decidable_of_iff _ begets_iff

/-- The entry stored the session `hash` for a login. -/
def opens (hash : String) (e : Event) : Bool :=
  match e with
  | ⟨_, _, .session (.createSession s), _⟩ => s.hash = hash
  | _ => false

theorem opens_iff :
    opens hash e = true ↔ ∃ tid pre s r, e = ⟨tid, pre, .session (.createSession s), r⟩ ∧ s.hash = hash := by
  constructor
  · intro h
    unfold opens at h
    split at h
    · exact ⟨_, _, _, _, rfl, of_decide_eq_true h⟩
    · cases h
  · rintro ⟨tid, pre, s, r, rfl, h⟩
    exact decide_eq_true h

instance (log : List Event) (hash : String) : Decidable (LoggedIn log hash) :=
  decidable_of_iff (log.any (opens hash) = true) <| by
    rw [any_eq_true]
    constructor
    · rintro ⟨e, he, ho⟩
      obtain ⟨tid, pre, s, r, rfl, hs⟩ := opens_iff.mp ho
      exact ⟨tid, pre, s, r, he, hs⟩
    · rintro ⟨tid, pre, s, r, he, hs⟩
      exact ⟨_, he, opens_iff.mpr ⟨tid, pre, s, r, rfl, hs⟩⟩

namespace Deployment

variable {D : Deployment} {cfg : Snapshot} {l₁ l₂ : List Event} {tid : ℕ}

namespace Reaches

variable (h : D.Reaches cfg)
include h

theorem stored_unique {r' : SessionRecord} (hr : Stored D.env cfg.log hash r)
    (hr' : Stored D.env cfg.log hash r') : r = r' := by
  obtain ⟨e, he, b, hb, hbh, hn⟩ := hr
  obtain ⟨e', he', b', hb', hbh', hn'⟩ := hr'
  obtain ⟨-, rfl⟩ := h.birth_unique he he' hb hb' (hbh.trans hbh'.symm)
  exact hn.unique hn'

theorem rotated_identity {pre : Store} {a : Rotation} {old : Json}
    (he : ⟨tid, pre, .session (.refreshRotate a), .rotated old⟩ ∈ cfg.log) :
    ∃ r r', Stored D.env cfg.log a.oldHash r ∧ Stored D.env cfg.log a.newHash r' ∧
      Names D.env a.birth r' ∧ r'.identity = r.identity := by
  obtain ⟨l₁, l₂, hl⟩ := append_of_mem he
  obtain ⟨-, p, hp, b, hb, hbh, rfl⟩ := h.rotated_live hl
  have hplog : p ∈ cfg.log := hl ▸ mem_append_left _ hp
  obtain ⟨r, hr⟩ := h.names hplog hb
  obtain ⟨r', hr', hid⟩ := (h.rotated_continues hl).names hr
  exact ⟨r, r', ⟨p, hplog, b, hb, hbh, hr⟩, ⟨_, he, a.birth, .rotated, rfl, hr'⟩, hr', hid⟩

theorem begets_identity {c : String} (hb : Begets cfg.log p c) :
    ∃ r r', Stored D.env cfg.log p r ∧ Stored D.env cfg.log c r' ∧ r'.identity = r.identity := by
  cases hb with
  | rotated he =>
    obtain ⟨r, r', hr, hr', -, hid⟩ := h.rotated_identity he
    exact ⟨r, r', hr, hr', hid⟩
  | @recovered tid pre pre' a json s hg he =>
    obtain ⟨l₁, l₂, hl⟩ := append_of_mem he
    obtain ⟨pre'', a', json', hg', hcont⟩ := h.recovered_continues hl
    have heq := h.rotates_once hg (hl ▸ mem_append_left _ hg')
    cases heq
    -- The reply carried the successor's record, and the successor has the token's identity.
    obtain ⟨m₁, m₂, hm⟩ := append_of_mem hg
    obtain ⟨tid', pre₃, a', old, hrot, hold, rfl, -⟩ := h.grace_after_rotated hm
    obtain ⟨r, r', hr, -, hn', hid⟩ := h.rotated_identity (hm ▸ mem_append_left _ hrot)
    obtain ⟨r'', hn'', hid'⟩ := CarriesOn.names hcont hn'
    exact ⟨r, r'', hold ▸ hr, ⟨_, he, s.birth, .recovered, rfl, hn''⟩, hid'.trans hid⟩

/-- Every session of a lineage has the identity of the one it descends from. -/
theorem descends_identity {c : String} (hr : Stored D.env cfg.log p r)
    (hd : Descends cfg.log p c) : ∃ r', Stored D.env cfg.log c r' ∧ r'.identity = r.identity := by
  induction hd with
  | refl => exact ⟨r, hr, rfl⟩
  | tail _ hb ih =>
    obtain ⟨r₁, hr₁, hid₁⟩ := ih
    obtain ⟨r₁', r₂, hr₁', hr₂, hid₂⟩ := h.begets_identity hb
    rw [h.stored_unique hr₁' hr₁] at hid₂
    exact ⟨r₂, hr₂, hid₂.trans hid₁⟩

/-- A session that was not stored by a login was made from one that was stored before it. -/
theorem made (hl : cfg.log = l₁ ++ e :: l₂) (hb : Bears e b) (hne : ∀ s, e.op ≠ .session (.createSession s)) :
    ∃ e' ∈ l₁, ∃ b', Bears e' b' ∧ Begets (l₁ ++ [e]) b'.hash b.hash := by
  have hsub : ∀ {x : Event}, x ∈ l₁ → x ∈ l₁ ++ [e] := mem_append_left _
  have hself : e ∈ l₁ ++ [e] := mem_append_right _ (mem_singleton_self e)
  obtain ⟨hs⟩ := hb
  cases hs with
  | created s => exact absurd rfl (hne s)
  | rotated a old =>
    obtain ⟨-, x, hx, b', hb', hbh, -⟩ := h.rotated_live hl
    exact ⟨x, hx, b', hb', hbh ▸ .rotated hself⟩
  | recovered s =>
    obtain ⟨pre', a, json, hg, -⟩ := h.recovered_continues hl
    obtain ⟨c, d, hc, hm, -⟩ := h.at_entry hl
    have hlog : c.log = l₁ := hm.log₁
    obtain ⟨m₁, m₂, hsplit⟩ := append_of_mem (hlog ▸ hg)
    obtain ⟨tid', pre'', a', old, hrot, hold, -, -⟩ := hc.grace_after_rotated hsplit
    obtain ⟨k₁, k₂, hsplit'⟩ := append_of_mem (hsplit ▸ mem_append_left _ hrot : _ ∈ c.log)
    obtain ⟨-, x, hx, b', hb', hbh, -⟩ := hc.rotated_live hsplit'
    have hx' : x ∈ c.log := hsplit' ▸ mem_append_left _ hx
    exact ⟨x, hlog ▸ hx', b', hb', (hbh.trans hold) ▸ .recovered (hsub hg) hself⟩

/-- Every session descends from a login. -/
theorem root (he : e ∈ cfg.log) (hb : Bears e b) : ∃ p, LoggedIn cfg.log p ∧ Descends cfg.log p b.hash := by
  refine Reaches.invariant (fun _ log => ∀ e ∈ log, ∀ b, Bears e b →
    ∃ p, LoggedIn log p ∧ Descends log p b.hash) (by simp) ?_ (fun _ _ _ ih => ih) h e he b hb
  intro c d e hc ih hm e' he' b hb
  have hsub : ∀ x ∈ c.log, x ∈ c.log ++ [e] := fun x => mem_append_left _
  -- What was stored before descends as it did, and so does what is made from it now.
  have hold : ∀ x ∈ c.log, ∀ b, Bears x b → ∃ p, LoggedIn (c.log ++ [e]) p ∧ Descends (c.log ++ [e]) p b.hash := by
    intro x hx b hb
    obtain ⟨p, ⟨tid, pre, s, r, hmem, hp⟩, hdesc⟩ := ih x hx b hb
    exact ⟨p, ⟨tid, pre, s, r, hsub _ hmem, hp⟩, hdesc.mono hsub⟩
  rcases mem_append.mp he' with hin | hnew
  · exact hold e' hin b hb
  · rw [mem_singleton] at hnew
    subst hnew
    by_cases hne : ∀ s, e'.op ≠ .session (.createSession s)
    · obtain ⟨x, hx, b', hb', hmade⟩ := (hc.next hm).made hm.log₂ hb hne
      obtain ⟨p, hp, hdesc⟩ := hold x hx b' hb'
      exact ⟨p, hp, hdesc.tail hmade⟩
    · obtain ⟨hs⟩ := hb
      cases hs with
      | created s => exact ⟨s.hash, ⟨_, _, s, _, he', rfl⟩, .refl⟩
      | rotated | recovered => exact absurd (fun _ => nofun) hne

theorem not_begotten {pre : Store} {s : NewSession} {r : Unit}
    (he : ⟨tid, pre, .session (.createSession s), r⟩ ∈ cfg.log) (hb : Begets cfg.log p hash) : hash ≠ s.hash := by
  intro heq
  cases hb with
  | rotated hmem => cases (h.birth_unique hmem he .rotated .created heq).1
  | recovered hg hmem => cases (h.birth_unique hmem he .recovered .created heq).1

theorem begets_unique {p' x x' : String} (hp : Begets cfg.log p x)
    (hp' : Begets cfg.log p' x') (hx : x = x') : p = p' := by
  cases hp with
  | rotated he =>
    cases hp' with
    | rotated he' => cases (h.birth_unique he he' .rotated .rotated hx).1; rfl
    | recovered hg' he' => cases (h.birth_unique he he' .rotated .recovered hx).1
  | recovered hg he =>
    cases hp' with
    | rotated he' => cases (h.birth_unique he he' .recovered .rotated hx).1
    | recovered hg' he' =>
      cases (h.birth_unique he he' .recovered .recovered hx).1
      cases h.rotates_once hg hg'
      rfl

theorem parent_stored (hl : cfg.log = l₁ ++ e :: l₂) (hb : Bears e b)
    (hp : Begets cfg.log p b.hash) : ∃ e' ∈ l₁, ∃ b', Bears e' b' ∧ b'.hash = p := by
  have he : e ∈ cfg.log := hl ▸ mem_append_right _ mem_cons_self
  have hne : ∀ s, e.op ≠ .session (.createSession s) := by
    obtain ⟨hb'⟩ := hb
    cases hb' with
    | created s => exact absurd rfl (h.not_begotten he hp)
    | _ => exact nofun
  obtain ⟨e', he', b', hb', hmade⟩ := h.made hl hb hne
  refine ⟨e', he', b', hb', h.begets_unique (hmade.mono fun x hx => ?_) hp rfl⟩
  rcases mem_append.mp hx with hx | hx
  · exact hl ▸ mem_append_left _ hx
  · exact (mem_singleton.mp hx) ▸ he

/-- What a session descends from was stored no later than the session. -/
theorem ancestor_stored (hl : cfg.log = l₁ ++ l₂) (hd : Descends cfg.log p hash)
    (hs : ∃ e ∈ l₁, ∃ b, Bears e b ∧ b.hash = hash) : ∃ e ∈ l₁, ∃ b, Bears e b ∧ b.hash = p := by
  induction hd with
  | refl => exact hs
  | tail _ hpx ih =>
    obtain ⟨e, he, b, hb, rfl⟩ := hs
    obtain ⟨m₁, m₂, rfl⟩ := append_of_mem he
    rw [append_assoc, cons_append] at hl
    obtain ⟨e', he', hrest⟩ := h.parent_stored hl hb hpx
    exact ih ⟨e', mem_append_left _ he', hrest⟩

/-- No token descends from what was made from it. -/
theorem acyclic (hp : Begets cfg.log p hash) : ¬ Descends cfg.log hash p := by
  intro hd
  obtain ⟨-, r, -, ⟨e, he, b, hb, rfl, -⟩, -⟩ := h.begets_identity hp
  obtain ⟨l₁, l₂, hl⟩ := append_of_mem he
  obtain ⟨e', he', b', hb', hbh⟩ := h.ancestor_stored hl hd (h.parent_stored hl hb hp)
  exact h.not_born_again hl he' mem_cons_self hb' hb hbh.symm

/-- A token stored as the successor of another was made from it, with the record it was stored with. -/
theorem begets_of_made {oldHash raw : String} (hm : MadeFrom D.env oldHash (localTrace tid cfg.log) raw r) :
    Begets cfg.log oldHash (D.env.redisHash raw) ∧
      ∃ e ∈ cfg.log, e.tid = tid ∧ (∀ s, e.op ≠ .session (.createSession s)) ∧
        ∃ b, Bears e b ∧ b.hash = D.env.redisHash raw ∧ Names D.env b r := by
  have hnames : ∀ {e : Event} {b : Birth}, e ∈ cfg.log → Bears e b → r.toJson D.env.codec = some b.record →
      Names D.env b r := by
    intro e b he hb hj
    obtain ⟨r', hr'⟩ := h.names he hb
    have hof := hr'.ofJson
    rw [ofJson_toJson D.env.codec hj, Option.some.injEq] at hof
    exact hof ▸ hr'
  cases hm with
  | @rotated a old hmem hold hnew hj =>
    obtain ⟨pre, he⟩ := exchange_mem.mp hmem
    rw [← hold, ← hnew]
    exact ⟨.rotated he, _, he, rfl, nofun, a.birth, .rotated, rfl, hnames he .rotated hj⟩
  | @recovered a json s hg hold hmem hnew hj =>
    obtain ⟨pre, he⟩ := exchange_mem.mp hmem
    obtain ⟨pre', hg'⟩ := exchange_mem.mp hg
    rw [← hold, ← hnew]
    exact ⟨.recovered hg' he, _, he, rfl, nofun, s.birth, .recovered, rfl, hnames he .recovered hj⟩

end Reaches

end Deployment

end BymaxAuth
