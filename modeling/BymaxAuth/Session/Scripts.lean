import BymaxAuth.Lib.Redis
import BymaxAuth.Session.Record

/-!
# The session keyspace and its atomic commands

The keys of one plane (`rt`/`rp`/`cf`/`fam`/`sess`/`sd`, or their `p` twins) and every unit that
`bymax-auth-redis` runs against them atomically: the Lua scripts of `src/lua`, the `MULTI` blocks of
`stores/session.rs`, and the single commands in between.

## The model

A key is its suffix: the namespace and the plane's prefix are fixed, so `rt:{hash}` is the cell
`rt hash`. A member of the `sess:` index is a full key suffix, `rt:{hash}` or `rp:{hash}`; here it is
`Member.live hash` or `Member.grace hash`, which says the same without a text to take apart. A grace
pointer's value `{successorHash}:{json}` is the pair. The reply of `refresh_rotate` is a text with a tag
in front; here the tag is the constructor of `RotateReply`.

Each script is written in the order of its source's commands, one key family after the other where the
families do not meet.

## What is proved

What each unit can do to each key family. Everything later modules know about the commands they know
from these.
-/

namespace BymaxAuth

open Redis List

/-- A member of the session index: a full key suffix. -/
inductive Member where
  /-- `rt:{hash}` / `prt:{hash}`, a live session. -/
  | live (hash : String)
  /-- `rp:{hash}` / `prp:{hash}`, a rotation grace pointer. -/
  | grace (hash : String)
  deriving DecidableEq

/-- The session keys of one plane. -/
structure SessionKeys where
  /-- `rt:{hash}`: the session record, as JSON. -/
  rt : Keys String Json
  /-- `rp:{oldHash}`: the grace pointer, the successor's hash and the new record. -/
  rp : Keys String (String × Json)
  /-- `cf:{oldHash}`: the consumed-family marker. -/
  cf : Keys String String
  /-- `fam:{family}`: the family index, bare hashes. -/
  fam : Keys String (List String)
  /-- `sess:{subjectHash}`: the account's session index. -/
  sess : Keys String (List Member)
  /-- `sd:{hash}`: the display detail. -/
  sd : Keys String Json

/-- A keyspace with nothing in it. -/
def SessionKeys.empty : SessionKeys :=
  { rt := fun _ => none, rp := fun _ => none, cf := fun _ => none, fam := fun _ => none,
    sess := fun _ => none, sd := fun _ => none }

/-- What `create_session` and `recover_grace` are given. -/
structure NewSession where
  /-- The owner's index suffix. -/
  subject : String
  /-- The new token's hash. -/
  hash : String
  /-- The session record. -/
  record : Json
  /-- The display detail. -/
  detail : Json
  /-- The family id, empty for none. -/
  family : String
  /-- The refresh TTL in seconds. -/
  ttl : ℕ

/-- What `refresh_rotate` is given. -/
structure Rotation where
  /-- The presented token's hash. -/
  oldHash : String
  /-- The freshly minted token's hash. -/
  newHash : String
  /-- The new session record. -/
  newJson : Json
  /-- The refresh TTL in seconds. -/
  refreshTtl : ℕ
  /-- The grace TTL in seconds; zero plants no pointer. -/
  graceTtl : ℕ
  /-- The family id, empty for none. -/
  family : String
  /-- The owner's index suffix. -/
  subject : String

/-- The reply of `refresh_rotate`. -/
inductive RotateReply where
  /-- The consumed old record. -/
  | rotated (old : Json)
  /-- `GRACE:` and the recovered record. -/
  | grace (json : Json)
  /-- `REUSED:` and the family. -/
  | reused (family : String)
  /-- `nil`. -/
  | invalid

namespace SessionKeys

variable (now : ℕ) (k : SessionKeys)

/-- The `MULTI` block of `create_session_inner`, and the writing half of `recover_grace.lua`. -/
def createSession (s : NewSession) : SessionKeys :=
  { k with
    rt := setEx k.rt now s.hash s.record s.ttl
    sess := expire (sadd k.sess now s.subject (.live s.hash)) now s.subject s.ttl
    sd := setEx k.sd now s.hash s.detail s.ttl
    fam := if s.family = "" then k.fam
      else expire (sadd k.fam now s.family s.hash) now s.family s.ttl }

/-- `recover_grace.lua`: nothing is written unless the account's index, and the family's if there is
one, are still there. -/
def recoverGrace (s : NewSession) : Bool × SessionKeys :=
  if !has k.sess now s.subject then (false, k)
  else if s.family ≠ "" ∧ !has k.fam now s.family then (false, k)
  else (true, k.createSession now s)

/-- The live path of `refresh_rotate.lua`. -/
def rotateLive (a : Rotation) : SessionKeys :=
  let sess := sadd (srem k.sess now a.subject (.live a.oldHash)) now a.subject (.live a.newHash)
  let sess := if 0 < a.graceTtl then sadd sess now a.subject (.grace a.oldHash) else sess
  { k with
    rt := del (setEx k.rt now a.newHash a.newJson a.refreshTtl) a.oldHash
    rp := if 0 < a.graceTtl then setEx k.rp now a.oldHash (a.newHash, a.newJson) a.graceTtl else k.rp
    cf := if a.family = "" then k.cf else setEx k.cf now a.oldHash a.family a.refreshTtl
    fam := if a.family = "" then k.fam
      else expire (sadd (srem k.fam now a.family a.oldHash) now a.family a.newHash) now a.family
        a.refreshTtl
    sess := expire sess now a.subject a.refreshTtl }

/-- The end of `refresh_rotate.lua`: a consumed-family marker means a replay. -/
def reuseReply (oldHash : String) : RotateReply :=
  match get k.cf now oldHash with
  | some family => .reused family
  | none => .invalid

/-- `refresh_rotate.lua`. -/
def refreshRotate (a : Rotation) : RotateReply × SessionKeys :=
  match get k.rt now a.oldHash with
  | some old => (.rotated old, k.rotateLive now a)
  | none =>
    match get k.rp now a.oldHash with
    | some (successor, json) =>
      -- The window is single-shot: the pointer is consumed whether or not it is honoured.
      (if has k.rt now successor then .grace json else k.reuseReply now a.oldHash, { k with rp := del k.rp a.oldHash })
    | none => (k.reuseReply now a.oldHash, k)

/-- The `MULTI` block of `move_session_detail`. -/
def moveSessionDetail (oldHash newHash : String) (detail : Json) (ttl : ℕ) : SessionKeys :=
  { k with sd := setEx (del k.sd oldHash) now newHash detail ttl }

/-- The body of the loop of `invalidate_user_sessions.lua`. -/
def deleteMember (k : SessionKeys) : Member → SessionKeys
  | .live hash => { k with rt := del k.rt hash, sd := del k.sd hash }
  | .grace hash => { k with rp := del k.rp hash }

/-- `invalidate_user_sessions.lua`. -/
def invalidateUserSessions (subject : String) : ℕ × SessionKeys :=
  let members := smembers k.sess now subject
  let k := members.foldl deleteMember k
  (members.length, { k with sess := del k.sess subject })

/-- The body of the loop of `revoke_family.lua`. -/
def revokeMember (owner : Option String) (k : SessionKeys) (hash : String) : SessionKeys :=
  { k with
    rt := del k.rt hash
    sd := del k.sd hash
    sess := match owner with
      | none => k.sess
      | some subject => srem k.sess now subject (.live hash) }

/-- `revoke_family.lua`; `owner` is the suffix of the index to prune, if it is known. -/
def revokeFamily (family : String) (owner : Option String) : ℕ × SessionKeys :=
  let members := smembers k.fam now family
  let k := members.foldl (revokeMember now owner) k
  (members.length, { k with fam := del k.fam family })

/-- `session_revoke.lua`. -/
def sessionRevoke (subject hash : String) : Bool × SessionKeys :=
  if !sismember k.sess now subject (.live hash) then (false, k)
  else
    (true, { k with
      sess := srem k.sess now subject (.live hash)
      rt := del k.rt hash
      sd := del k.sd hash })

/-- Whether the key a member names is there. -/
def memberExists : Member → Bool
  | .live hash => has k.rt now hash
  | .grace hash => has k.rp now hash

/-- The body of the loop of `session_prune_dead.lua`. -/
def pruneMember (subject : String) (acc : List Member × SessionKeys) (m : Member) : List Member × SessionKeys :=
  if acc.2.memberExists now m then acc
  else (acc.1 ++ [m], { acc.2 with sess := srem acc.2.sess now subject m })

/-- `session_prune_dead.lua`. -/
def pruneDead (subject : String) (candidates : List Member) : List Member × SessionKeys :=
  candidates.foldl (pruneMember now subject) ([], k)

end SessionKeys

/-! ### The commands -/

/-- The atomic units the session store issues. -/
inductive SessionCmd where
  /-- `create_session_inner`'s `MULTI` block. -/
  | createSession (s : NewSession)
  /-- `GET rt:{hash}` -/
  | getRt (hash : String)
  /-- `refresh_rotate.lua` -/
  | refreshRotate (a : Rotation)
  /-- `EXISTS fam:{family}` -/
  | existsFam (family : String)
  /-- `move_session_detail`'s `MULTI` block. -/
  | moveSessionDetail (oldHash newHash : String) (detail : Json) (ttl : ℕ)
  /-- `recover_grace.lua` -/
  | recoverGrace (s : NewSession)
  /-- `SMEMBERS fam:{family}` -/
  | smembersFam (family : String)
  /-- `revoke_family.lua` -/
  | revokeFamily (family : String) (owner : Option String)
  /-- `session_revoke.lua` -/
  | sessionRevoke (subject hash : String)
  /-- `SMEMBERS sess:{subject}` -/
  | smembersSess (subject : String)
  /-- `GET sd:{hash}` -/
  | getSd (hash : String)
  /-- `session_prune_dead.lua` -/
  | pruneDead (subject : String) (candidates : List Member)
  /-- `DEL rp:{hash}` -/
  | delRp (hash : String)
  /-- `SREM sess:{subject} {member}` -/
  | sremSess (subject : String) (member : Member)
  /-- `GET rp:{hash}` -/
  | getRp (hash : String)
  /-- `invalidate_user_sessions.lua` -/
  | invalidateUserSessions (subject : String)

namespace SessionCmd

/-- The type of a command's reply. -/
abbrev Reply : SessionCmd → Type
  | createSession _ | moveSessionDetail .. | delRp _ | sremSess .. => Unit
  | getRt _ | getSd _ => Option Json
  | refreshRotate _ => RotateReply
  | existsFam _ | recoverGrace _ | sessionRevoke .. => Bool
  | smembersFam _ => List String
  | smembersSess _ | pruneDead .. => List Member
  | getRp _ => Option (String × Json)
  | revokeFamily .. | invalidateUserSessions _ => ℕ

/-- The reply of a command, and the keys after it. -/
def exec (now : ℕ) (k : SessionKeys) : (c : SessionCmd) → c.Reply × SessionKeys
  | createSession s => ((), k.createSession now s)
  | getRt hash => (get k.rt now hash, k)
  | refreshRotate a => k.refreshRotate now a
  | existsFam family => (has k.fam now family, k)
  | moveSessionDetail oldHash newHash detail ttl =>
    ((), k.moveSessionDetail now oldHash newHash detail ttl)
  | recoverGrace s => k.recoverGrace now s
  | smembersFam family => (smembers k.fam now family, k)
  | revokeFamily family owner => k.revokeFamily now family owner
  | sessionRevoke subject hash => k.sessionRevoke now subject hash
  | smembersSess subject => (smembers k.sess now subject, k)
  | getSd hash => (get k.sd now hash, k)
  | pruneDead subject candidates => k.pruneDead now subject candidates
  | delRp hash => ((), { k with rp := del k.rp hash })
  | sremSess subject member => ((), { k with sess := srem k.sess now subject member })
  | getRp hash => (get k.rp now hash, k)
  | invalidateUserSessions subject => k.invalidateUserSessions now subject

end SessionCmd

/-! ### The loops of the scripts -/

namespace SessionKeys

variable {now : ℕ} {k : SessionKeys}

theorem foldl_deleteMember (ms : List Member) (k : SessionKeys) :
    (∀ h, (ms.foldl deleteMember k).rt h = if Member.live h ∈ ms then none else k.rt h) ∧
    (∀ h, (ms.foldl deleteMember k).rp h = if Member.grace h ∈ ms then none else k.rp h) ∧
    (ms.foldl deleteMember k).cf = k.cf ∧ (ms.foldl deleteMember k).fam = k.fam ∧
    (ms.foldl deleteMember k).sess = k.sess := by
  induction ms generalizing k with
  | nil => simp
  | cons m ms ih =>
    obtain ⟨hrt, hrp, hcf, hfam, hsess⟩ := ih (deleteMember k m)
    rw [foldl_cons, hcf, hfam, hsess]
    refine ⟨fun h => ?_, fun h => ?_, ?_, ?_, ?_⟩
    · rw [hrt h]
      cases m with
      | live x => by_cases hx : h = x <;> simp [deleteMember, hx, del]
      | grace x => simp [deleteMember]
    · rw [hrp h]
      cases m with
      | live x => simp [deleteMember]
      | grace x => by_cases hx : h = x <;> simp [deleteMember, hx, del]
    all_goals cases m <;> rfl

theorem foldl_revokeMember (now : ℕ) (owner : Option String) (hs : List String) (k : SessionKeys) :
    (∀ h, (hs.foldl (revokeMember now owner) k).rt h = if h ∈ hs then none else k.rt h) ∧
    (∀ h, (hs.foldl (revokeMember now owner) k).sd h = if h ∈ hs then none else k.sd h) ∧
    (hs.foldl (revokeMember now owner) k).rp = k.rp ∧ (hs.foldl (revokeMember now owner) k).cf = k.cf ∧
    (hs.foldl (revokeMember now owner) k).fam = k.fam := by
  induction hs generalizing k with
  | nil => simp
  | cons x hs ih =>
    obtain ⟨hrt, hsd, hrp, hcf, hfam⟩ := ih (revokeMember now owner k x)
    rw [foldl_cons, hrp, hcf, hfam]
    refine ⟨fun h => ?_, fun h => ?_, rfl, rfl, rfl⟩
    · rw [hrt h]
      by_cases hx : h = x <;> simp [revokeMember, hx, del]
    · rw [hsd h]
      by_cases hx : h = x <;> simp [revokeMember, hx, del]

variable {subject : String} {m : Member} {acc : List Member × SessionKeys}

/-- Revoking a family takes only its own members out of an index. -/
theorem holds_foldl_revokeMember {owner : Option String} {d : ℕ} (hnow : now < d) (hs : List String)
    (hm : ∀ h ∈ hs, m ≠ .live h) (h : Holds k.sess subject m d) :
    Holds (hs.foldl (revokeMember now owner) k).sess subject m d := by
  induction hs generalizing k with
  | nil => exact h
  | cons x hs ih =>
    refine ih (fun y hy => hm y (mem_cons_of_mem x hy)) ?_
    cases owner with
    | none => exact h
    | some o => exact h.srem hnow fun _ => hm x mem_cons_self

/-- … and every other member stays in it. -/
theorem mem_smembers_foldl_revokeMember {owner : Option String} (hs : List String) (hm : ∀ h ∈ hs, m ≠ .live h) :
    m ∈ smembers (hs.foldl (revokeMember now owner) k).sess now subject ↔ m ∈ smembers k.sess now subject := by
  induction hs generalizing k with
  | nil => rfl
  | cons x hs ih =>
    rw [foldl_cons, ih fun y hy => hm y (mem_cons_of_mem x hy)]
    cases owner with
    | none => rfl
    | some o =>
      have hx := hm x mem_cons_self
      simp only [revokeMember, mem_smembers_srem]
      exact ⟨fun h => h.1, fun h => ⟨h, fun _ => hx⟩⟩

/-- Pruning touches the index alone. -/
theorem foldl_pruneMember (now : ℕ) (subject : String) (ms : List Member) (acc : List Member × SessionKeys) :
    ∃ sess, (ms.foldl (pruneMember now subject) acc).2 = { acc.2 with sess := sess } := by
  induction ms generalizing acc with
  | nil => exact ⟨_, rfl⟩
  | cons m ms ih =>
    obtain ⟨sess, h⟩ := ih (pruneMember now subject acc m)
    refine ⟨sess, ?_⟩
    rw [foldl_cons, h]
    unfold pruneMember
    split_ifs <;> rfl

/-- Pruning keeps every member whose key is there. -/
theorem holds_foldl_pruneMember {s : String} {d : ℕ} (hnow : now < d) (ms : List Member)
    (hm : acc.2.memberExists now m = true) (h : Holds acc.2.sess s m d) :
    Holds (ms.foldl (pruneMember now subject) acc).2.sess s m d := by
  induction ms generalizing acc with
  | nil => exact h
  | cons x ms ih =>
    rw [foldl_cons]
    by_cases hx : acc.2.memberExists now x = true
    · rw [show pruneMember now subject acc x = acc by simp [pruneMember, hx]]
      exact ih hm h
    · have hne : m ≠ x := fun he => hx (he ▸ hm)
      have hp : pruneMember now subject acc x
          = (acc.1 ++ [x], { acc.2 with sess := srem acc.2.sess now subject x }) := by
        simp [pruneMember, hx]
      rw [hp]
      exact ih hm (h.srem hnow fun _ => hne)

/-- What pruning takes out is a member whose key is gone. -/
theorem memberExists_of_pruned (ms : List Member)
    (hm : m ∈ (ms.foldl (pruneMember now subject) acc).1) : m ∈ acc.1 ∨ acc.2.memberExists now m = false := by
  induction ms generalizing acc with
  | nil => exact .inl hm
  | cons x ms ih =>
    rw [foldl_cons] at hm
    by_cases hx : acc.2.memberExists now x = true
    · rw [show pruneMember now subject acc x = acc by simp [pruneMember, hx]] at hm
      exact ih hm
    · have hp : pruneMember now subject acc x
          = (acc.1 ++ [x], { acc.2 with sess := srem acc.2.sess now subject x }) := by
        simp [pruneMember, hx]
      rw [hp] at hm
      rcases ih hm with hin | hgone
      · rcases mem_append.mp hin with hin | hin
        · exact .inl hin
        · rw [mem_singleton] at hin
          exact .inr (by simpa [hin] using hx)
      · cases m <;> exact .inr hgone

end SessionKeys

/-! ### What a command can do to each key family -/

/-- A session being stored: under which hash, with which record, in which family and index, for how
long. -/
structure Birth where
  /-- The new token's hash. -/
  hash : String
  /-- The stored record. -/
  record : Json
  /-- The family id, empty for none. -/
  family : String
  /-- The owner's index suffix. -/
  subject : String
  /-- The TTL in seconds. -/
  ttl : ℕ

/-- The session a rotation stores. -/
def Rotation.birth (a : Rotation) : Birth := ⟨a.newHash, a.newJson, a.family, a.subject, a.refreshTtl⟩

/-- The session a login or a recovery stores. -/
def NewSession.birth (s : NewSession) : Birth := ⟨s.hash, s.record, s.family, s.subject, s.ttl⟩

namespace SessionCmd

/-- `Stores c r b`: a command `c` that was answered `r` has stored the session `b`. -/
inductive Stores : (c : SessionCmd) → c.Reply → Birth → Prop where
  /-- A login's session. -/
  | created (s : NewSession) : Stores (createSession s) () s.birth
  /-- The successor of a live token. -/
  | rotated (a : Rotation) (old : Json) : Stores (refreshRotate a) (.rotated old) a.birth
  /-- A recovered session. -/
  | recovered (s : NewSession) : Stores (recoverGrace s) true s.birth

variable {now : ℕ} {k : SessionKeys}

theorem refreshRotate_cases (now : ℕ) (k : SessionKeys) (a : Rotation) : (∃ old, get k.rt now a.oldHash = some old ∧
      exec now k (refreshRotate a) = (.rotated old, k.rotateLive now a)) ∨
    (get k.rt now a.oldHash = none ∧ ∃ successor json, get k.rp now a.oldHash = some (successor, json) ∧
      exec now k (refreshRotate a) = (if has k.rt now successor then .grace json
        else k.reuseReply now a.oldHash, { k with rp := del k.rp a.oldHash })) ∨
    (get k.rt now a.oldHash = none ∧ get k.rp now a.oldHash = none ∧
      exec now k (refreshRotate a) = (k.reuseReply now a.oldHash, k)) := by
  cases hrt : get k.rt now a.oldHash with
  | some old => exact .inl ⟨old, rfl, by simp [exec, SessionKeys.refreshRotate, hrt]⟩
  | none =>
    cases hrp : get k.rp now a.oldHash with
    | some p =>
      exact .inr (.inl ⟨rfl, p.1, p.2, rfl, by simp [exec, SessionKeys.refreshRotate, hrt, hrp]⟩)
    | none => exact .inr (.inr ⟨rfl, rfl, by simp [exec, SessionKeys.refreshRotate, hrt, hrp]⟩)

open SessionKeys

theorem reuseReply_ne_rotated (h : String) (old : Json) : k.reuseReply now h ≠ .rotated old := by
  unfold reuseReply
  split <;> simp

theorem reuseReply_ne_grace (h : String) (j : Json) : k.reuseReply now h ≠ .grace j := by
  unfold reuseReply
  split <;> simp

variable {a : Rotation} {c : SessionCmd} {h : String} {cell : Cell Json}

open RotateReply

/-- A rotation that consumed a live token found it, and wrote what the live path writes. -/
theorem exec_rotated {old : Json} (h : (exec now k (refreshRotate a)).1 = rotated old) :
    get k.rt now a.oldHash = some old ∧ (exec now k (refreshRotate a)).2 = k.rotateLive now a := by
  rcases refreshRotate_cases now k a with ⟨o, hrt, he⟩ | ⟨-, s, j, -, he⟩ | ⟨-, -, he⟩ <;> rw [he] at h ⊢ <;>
    grind [reuseReply_ne_rotated]

/-- A grace reply consumed a pointer whose successor was live. -/
theorem exec_grace {json : Json} (h : (exec now k (refreshRotate a)).1 = grace json) :
    get k.rt now a.oldHash = none ∧ (∃ successor, get k.rp now a.oldHash = some (successor, json) ∧
      has k.rt now successor = true) ∧
      (exec now k (refreshRotate a)).2 = { k with rp := del k.rp a.oldHash } := by
  rcases refreshRotate_cases now k a with ⟨o, -, he⟩ | ⟨hrt, s, j, hrp, he⟩ | ⟨-, -, he⟩ <;> rw [he] at h ⊢ <;>
    grind [reuseReply_ne_grace]

/-- A reuse reply names the family a marker kept for the token. -/
theorem exec_reused {family : String} (h : (exec now k (refreshRotate a)).1 = reused family) :
    get k.cf now a.oldHash = some family := by
  rcases refreshRotate_cases now k a with ⟨o, -, he⟩ | ⟨-, s, j, -, he⟩ | ⟨-, -, he⟩ <;> rw [he] at h <;>
    grind [reuseReply]

/-- A token that is neither live nor covered by a pointer to a live successor is answered by its
marker. -/
theorem exec_of_marker {family : String} (hrt : get k.rt now a.oldHash = none)
    (hrp : ∀ successor json, get k.rp now a.oldHash = some (successor, json) →
      has k.rt now successor = false) (hcf : get k.cf now a.oldHash = some family) :
    (exec now k (refreshRotate a)).1 = reused family := by
  have hreply : k.reuseReply now a.oldHash = .reused family := by simp [reuseReply, hcf]
  rcases refreshRotate_cases now k a with ⟨o, hlive, -⟩ | ⟨-, s, j, hp, he⟩ | ⟨-, -, he⟩ <;> grind

theorem recoverGrace_cases (now : ℕ) (k : SessionKeys) (s : NewSession) :
    (has k.sess now s.subject = true ∧ (s.family = "" ∨ has k.fam now s.family = true) ∧
      exec now k (recoverGrace s) = (true, k.createSession now s)) ∨
    ((has k.sess now s.subject = false ∨ (s.family ≠ "" ∧ has k.fam now s.family = false)) ∧
      exec now k (recoverGrace s) = (false, k)) := by
  simp only [exec, SessionKeys.recoverGrace]
  cases has k.sess now s.subject <;> cases has k.fam now s.family <;> by_cases hf : s.family = "" <;> simp [hf]

/-- A session recovery that wrote found both indexes, and wrote what a creation writes. -/
theorem exec_recovered {s : NewSession} (h : (exec now k (recoverGrace s)).1 = true) :
    has k.sess now s.subject = true ∧ (s.family = "" ∨ has k.fam now s.family = true) ∧
      (exec now k (recoverGrace s)).2 = k.createSession now s := by
  rcases recoverGrace_cases now k s with ⟨h₁, h₂, he⟩ | ⟨-, he⟩ <;> grind

/-- The TTL a command re-arms the indexes with. -/
def ttl : SessionCmd → Option ℕ
  | createSession s | recoverGrace s => some s.ttl
  | refreshRotate a => some a.refreshTtl
  | _ => none

/-- What a command that was answered `r` does to the keys. -/
inductive Does (now : ℕ) (k : SessionKeys) : (c : SessionCmd) → c.Reply → SessionKeys → Prop where
  /-- It stores a new session. -/
  | created {c r} (n : NewSession) (hs : Stores c r n.birth) (ht : c.ttl = some n.ttl) :
    Does now k c r (k.createSession now n)
  /-- It rotates a live one. -/
  | rotated (a : Rotation) (old : Json) (hl : get k.rt now a.oldHash = some old) :
    Does now k (refreshRotate a) (.rotated old) (k.rotateLive now a)
  /-- It revokes a family. -/
  | revokedFamily (f : String) (o : Option String) (n : ℕ) {rt sd sess}
    (hrt : ∀ h, rt h = if h ∈ smembers k.fam now f then none else k.rt h)
    (hsess : ∀ {s m d}, now < d → (∀ h ∈ smembers k.fam now f, m ≠ .live h) → Holds k.sess s m d → Holds sess s m d) :
    Does now k (revokeFamily f o) n { k with rt, sd, sess, fam := del k.fam f }
  /-- It revokes a session. -/
  | revoked (s x : String) {sd} : Does now k (sessionRevoke s x) true
    { k with sess := srem k.sess now s (.live x), rt := del k.rt x, sd }
  /-- It sweeps an account. -/
  | swept (s : String) (n : ℕ) {rt rp sd}
    (hrt : ∀ h, rt h = if Member.live h ∈ smembers k.sess now s then none else k.rt h)
    (hrp : ∀ h, rp h = if Member.grace h ∈ smembers k.sess now s then none else k.rp h) :
    Does now k (invalidateUserSessions s) n { k with rt, rp, sd, sess := del k.sess s }
  /-- It prunes an index. -/
  | pruned (s : String) (ms r : List Member) {sess}
    (hsess : ∀ {s' m d}, now < d → k.memberExists now m = true → Holds k.sess s' m d → Holds sess s' m d) :
    Does now k (pruneDead s ms) r { k with sess }
  /-- It takes a member out of an index. -/
  | unlisted (s : String) (m : Member) : Does now k (sremSess s m) () { k with sess := srem k.sess now s m }
  /-- It takes a grace pointer away. -/
  | unpointed {c r} (x : String) : Does now k c r { k with rp := del k.rp x }
  /-- It writes details. -/
  | described {c r} {sd} : Does now k c r { k with sd }
  /-- It reads. -/
  | read {c r} : Does now k c r k

theorem exec_does (now : ℕ) (k : SessionKeys) (c : SessionCmd) : Does now k c (exec now k c).1 (exec now k c).2 := by
  cases c with
  | createSession s => exact .created s (.created s) rfl
  | refreshRotate a =>
    rcases refreshRotate_cases now k a with ⟨o, hl, he⟩ | ⟨-, s, j, -, he⟩ | ⟨-, -, he⟩ <;> rw [he]
    · exact .rotated a o hl
    · exact .unpointed _
    · exact .read
  | moveSessionDetail => exact .described
  | recoverGrace s =>
    rcases recoverGrace_cases now k s with ⟨-, -, he⟩ | ⟨-, he⟩ <;> rw [he]
    · exact .created s (.recovered s) rfl
    · exact .read
  | revokeFamily f o =>
    obtain ⟨hrt, -, hrp, hcf, hfam⟩ := SessionKeys.foldl_revokeMember now o (smembers k.fam now f) k
    simp only [exec, SessionKeys.revokeFamily, hrp, hcf, hfam]
    exact .revokedFamily f o _ hrt fun hnow hm h => SessionKeys.holds_foldl_revokeMember hnow _ hm h
  | sessionRevoke s x =>
    simp only [exec, SessionKeys.sessionRevoke]
    split_ifs
    · exact .read
    · exact .revoked s x
  | pruneDead s ms =>
    obtain ⟨sess, he⟩ := SessionKeys.foldl_pruneMember now s ms ([], k)
    have hsess : sess = (k.pruneDead now s ms).2.sess := by rw [SessionKeys.pruneDead, he]
    simp only [exec, SessionKeys.pruneDead, he]
    refine .pruned s ms _ fun hnow hm h => ?_
    rw [hsess]
    exact SessionKeys.holds_foldl_pruneMember hnow ms hm h
  | delRp x => exact .unpointed x
  | sremSess s m => exact .unlisted s m
  | invalidateUserSessions s =>
    obtain ⟨hrt, hrp, hcf, hfam, hsess⟩ := SessionKeys.foldl_deleteMember (smembers k.sess now s) k
    simp only [exec, SessionKeys.invalidateUserSessions, hcf, hfam, hsess]
    exact .swept s _ hrt hrp
  | _ => exact .read

/-- A record that is there after a command was stored by it, or was there before. -/
theorem rt_of_exec (hk : (exec now k c).2.rt h = some cell) :
    (∃ b, Stores c (exec now k c).1 b ∧ b.hash = h ∧ cell = ⟨b.record, some (now + b.ttl)⟩) ∨ k.rt h = some cell := by
  have hd := exec_does now k c
  generalize (exec now k c).1 = r, (exec now k c).2 = k' at hd hk ⊢
  cases hd with
  | created n hs =>
    rcases setEx_eq_some hk with ⟨rfl, rfl⟩ | ⟨-, hk⟩
    · exact .inl ⟨n.birth, hs, rfl, rfl⟩
    · exact .inr hk
  | rotated a o =>
    obtain ⟨-, hk⟩ := del_eq_some hk
    rcases setEx_eq_some hk with ⟨rfl, rfl⟩ | ⟨-, hk⟩
    · exact .inl ⟨a.birth, .rotated a o, rfl, rfl⟩
    · exact .inr hk
  | revokedFamily f o n hrt | swept s n hrt =>
    simp only [hrt] at hk
    split_ifs at hk
    exact .inr hk
  | revoked s x => exact .inr (del_eq_some hk).2
  | _ => exact .inr hk

/-- What the session index holds of a session that outlives a command, it still holds after it. The one
command that could break this is a bare `SREM`, and the store issues it for grace pointers only. -/
theorem holds_sess_of_exec {s : String} {d : ℕ} (hh : Holds k.sess s (.live h) d) (hnow : now < d)
    (hd : ∀ t, ttl c = some t → d ≤ now + t) (hc : ∀ s' m, c = sremSess s' m → m ≠ .live h)
    (hlive : has k.rt now h = true) (hk : (exec now k c).2.rt h = some cell) :
    Holds (exec now k c).2.sess s (.live h) d := by
  have hdoes := exec_does now k c
  generalize (exec now k c).1 = r, (exec now k c).2 = k' at hdoes hk ⊢
  cases hdoes with
  | created n hs ht => exact (hh.sadd hnow).expire hnow (hd _ ht)
  | rotated a o =>
    have hne : Member.live h ≠ .live a.oldHash := by
      rintro ⟨⟩
      exact absurd rfl (del_eq_some hk).1
    refine Holds.expire ?_ hnow (hd _ rfl)
    have hs : Holds (sadd (srem k.sess now a.subject (.live a.oldHash)) now a.subject
        (.live a.newHash)) s (.live h) d := (hh.srem hnow fun _ => hne).sadd hnow
    split_ifs
    · exact hs.sadd hnow
    · exact hs
  | revokedFamily f o n hrt hsess =>
    simp only [hrt] at hk
    split_ifs at hk with hmem
    refine hsess hnow ?_ hh
    rintro x hx ⟨⟩
    exact hmem hx
  | revoked s' x =>
    refine hh.srem hnow fun _ => ?_
    rintro ⟨⟩
    exact absurd rfl (del_eq_some hk).1
  | swept s' n hrt =>
    simp only [hrt] at hk
    split_ifs at hk with hmem
    refine hh.del ?_
    rintro rfl
    exact hmem (hh.mem_smembers hnow)
  | pruned s' ms r hsess => exact hsess hnow hlive hh
  | unlisted s' m => exact hh.srem hnow fun _ he => hc s' m rfl he.symm
  | _ => exact hh

/-- What the family index holds of a session that outlives a command, it still holds after it. -/
theorem holds_fam_of_exec {f : String} {d : ℕ} (hh : Holds k.fam f h d) (hnow : now < d)
    (hd : ∀ t, ttl c = some t → d ≤ now + t) (hk : (exec now k c).2.rt h = some cell) :
    Holds (exec now k c).2.fam f h d := by
  have hdoes := exec_does now k c
  generalize (exec now k c).1 = r, (exec now k c).2 = k' at hdoes hk ⊢
  cases hdoes with
  | created n hs ht =>
    simp only [SessionKeys.createSession]
    split_ifs
    · exact hh
    · exact (hh.sadd hnow).expire hnow (hd _ ht)
  | rotated a o =>
    have hne : h ≠ a.oldHash := (del_eq_some hk).1
    simp only [SessionKeys.rotateLive]
    split_ifs
    · exact hh
    · exact ((hh.srem hnow fun _ => hne).sadd hnow).expire hnow (hd _ rfl)
  | revokedFamily f' o n hrt =>
    simp only [hrt] at hk
    split_ifs at hk with hmem
    refine hh.del ?_
    rintro rfl
    exact hmem (hh.mem_smembers hnow)
  | _ => exact hh

theorem holds_createSession (n : NewSession) :
    Holds (k.createSession now n).sess n.subject (.live n.hash) (now + n.ttl) ∧
      (n.family ≠ "" → Holds (k.createSession now n).fam n.family n.hash (now + n.ttl)) := by
  refine ⟨(holds_sadd_self k.sess now n.subject (.live n.hash)).expire_self (Nat.lt_succ_self now) _, ?_⟩
  intro hf
  simp only [SessionKeys.createSession, if_neg hf]
  exact (holds_sadd_self k.fam now n.family n.hash).expire_self (Nat.lt_succ_self now) _

theorem holds_rotateLive (a : Rotation) :
    Holds (k.rotateLive now a).sess a.subject (.live a.newHash) (now + a.refreshTtl) ∧
      (a.family ≠ "" → Holds (k.rotateLive now a).fam a.family a.newHash (now + a.refreshTtl)) := by
  refine ⟨?_, fun hf => ?_⟩
  · have hs := holds_sadd_self (srem k.sess now a.subject (.live a.oldHash)) now a.subject
      (.live a.newHash)
    simp only [rotateLive]
    split_ifs
    · exact (hs.sadd (Nat.lt_succ_self now)).expire_self (Nat.lt_succ_self now) _
    · exact hs.expire_self (Nat.lt_succ_self now) _
  · simp only [rotateLive, if_neg hf]
    exact (holds_sadd_self (srem k.fam now a.family a.oldHash) now a.family a.newHash).expire_self
      (Nat.lt_succ_self now) _

/-- A session just stored is in its account's index and, if it has a family, in its family's, for the
whole TTL. -/
theorem holds_of_stores {b : Birth} (hb : Stores c (exec now k c).1 b) :
    Holds (exec now k c).2.sess b.subject (.live b.hash) (now + b.ttl) ∧
      (b.family ≠ "" → Holds (exec now k c).2.fam b.family b.hash (now + b.ttl)) := by
  generalize hr : (exec now k c).1 = r at hb
  cases hb with
  | created n => exact holds_createSession n
  | rotated a old =>
    rw [(exec_rotated hr).2]
    exact holds_rotateLive a
  | recovered n =>
    rw [(exec_recovered hr).2.2]
    exact holds_createSession n

theorem exec_of_live {old : Json} (h : get k.rt now a.oldHash = some old) :
    exec now k (refreshRotate a) = (.rotated old, k.rotateLive now a) := by
  simp [exec, SessionKeys.refreshRotate, h]

/-- A grace pointer that is there after a command was planted by a live rotation of its token, or was
there before. -/
theorem rp_of_exec {cell : Cell (String × Json)} (hk : (exec now k c).2.rp h = some cell) :
    (∃ a old, c = refreshRotate a ∧ get k.rt now a.oldHash = some old ∧ a.oldHash = h ∧
      0 < a.graceTtl ∧ cell = ⟨(a.newHash, a.newJson), some (now + a.graceTtl)⟩) ∨
      k.rp h = some cell := by
  have hd := exec_does now k c
  generalize (exec now k c).1 = r, (exec now k c).2 = k' at hd hk
  cases hd with
  | rotated a o hl =>
    simp only [rotateLive] at hk
    split_ifs at hk with hg
    · rcases setEx_eq_some hk with ⟨rfl, rfl⟩ | ⟨-, hk⟩
      · exact .inl ⟨a, o, rfl, hl, rfl, hg, rfl⟩
      · exact .inr hk
    · exact .inr hk
  | swept s n hrt hrp =>
    simp only [hrp] at hk
    split_ifs at hk
    exact .inr hk
  | unpointed x => exact .inr (del_eq_some hk).2
  | _ => exact .inr hk

/-- Only a live rotation writes a consumed-family marker, and no command removes one. -/
theorem cf_of_exec (c : SessionCmd) (h : String) :
    (∃ a old, c = refreshRotate a ∧ get k.rt now a.oldHash = some old ∧ a.oldHash = h ∧ a.family ≠ "" ∧
      (exec now k c).2.cf h = some ⟨a.family, some (now + a.refreshTtl)⟩) ∨
      (exec now k c).2.cf h = k.cf h := by
  have hd := exec_does now k c
  generalize (exec now k c).1 = r, (exec now k c).2 = k' at hd ⊢
  cases hd with
  | rotated a o hl =>
    by_cases hf : a.family = ""
    · exact .inr (by simp [rotateLive, hf])
    · by_cases hh : a.oldHash = h
      · subst hh
        exact .inl ⟨a, o, rfl, hl, rfl, hf, by simp [rotateLive, hf]⟩
      · exact .inr (by simp [rotateLive, hf, setEx_of_ne _ _ _ _ (Ne.symm hh)])
  | _ => exact .inr rfl

/-- What a command can do to a family's index: leave it, take it away or take members out of it, or put
in the session it has just stored. -/
theorem fam_of_exec {f : String} (hk : Mem (exec now k c).2.fam f h) :
    (∃ b, Stores c (exec now k c).1 b ∧ b.hash = h ∧ b.family = f ∧ f ≠ "") ∨ Mem k.fam f h := by
  have hd := exec_does now k c
  generalize (exec now k c).1 = r, (exec now k c).2 = k' at hd hk ⊢
  cases hd with
  | created n hs =>
    simp only [SessionKeys.createSession] at hk
    split_ifs at hk with hf
    · exact .inr hk
    · rcases mem_of_sadd (mem_of_expire hk) with ⟨rfl, rfl⟩ | hm
      · exact .inl ⟨n.birth, hs, rfl, rfl, hf⟩
      · exact .inr hm
  | rotated a o =>
    simp only [SessionKeys.rotateLive] at hk
    split_ifs at hk with hf
    · exact .inr hk
    · rcases mem_of_sadd (mem_of_expire hk) with ⟨rfl, rfl⟩ | hm
      · exact .inl ⟨a.birth, .rotated a o, rfl, rfl, hf⟩
      · exact .inr (mem_of_srem hm).1
  | revokedFamily f' o n => exact .inr (mem_of_del hk).2
  | _ => exact .inr hk

/-- A family whose index is gone stays gone unless a command stores a session of it. -/
theorem fam_none_of_exec {f : String} (hf : k.fam f = none) (hs : ∀ b, Stores c (exec now k c).1 b → b.family ≠ f) :
    (exec now k c).2.fam f = none := by
  have hd := exec_does now k c
  generalize (exec now k c).1 = r, (exec now k c).2 = k' at hd hs ⊢
  cases hd with
  | created n hn =>
    have hne : f ≠ n.family := fun he => hs _ hn he.symm
    simp only [SessionKeys.createSession]
    split_ifs
    · exact hf
    · rw [expire_of_ne _ _ _ hne, sadd_of_ne _ _ _ hne, hf]
  | rotated a o =>
    have hne : f ≠ a.family := fun he => hs _ (.rotated a o) he.symm
    simp only [SessionKeys.rotateLive]
    split_ifs
    · exact hf
    · rw [expire_of_ne _ _ _ hne, sadd_of_ne _ _ _ hne, srem_of_ne _ _ _ hne, hf]
  | revokedFamily f' o n =>
    by_cases he : f = f'
    · subst he
      exact del_self _ _
    · exact (del_of_ne _ he).trans hf
  | _ => exact hf

end SessionCmd

end BymaxAuth
