import BymaxAuth.Lib.Lockstep
import BymaxAuth.Session.Store
import Mathlib.Data.Multiset.MapFold

/-!
# The session store that tests run against

`InMemoryStores` (`testing/mod.rs`) is the session store of the engine's own tests and of the conformance tier, where
`RedisStores` would be in a deployment. Its documentation says that it reproduces the atomic semantics the Redis
implementation provides. It keeps five maps where Redis has six key families.

## The model

Every key of the five maps is a pair of a plane and a text, and an operation has one plane throughout, so a map is a
map of texts for each plane: `InMemoryStores` is one plane of it. A `HashSet` is a list in which nothing occurs twice.
The counters that make a call fail on purpose are left at zero, and what a test only peeks at is left out.
-/

namespace BymaxAuth.Testing

open Concurrency Function

/-! ### The operations -/

/-- An operation of `SessionStore` on the sessions of a plane. -/
inductive StoreOp where
  | createSession (subject hash : String) (record : SessionRecord) (ttl : ℕ)
  | rotate (rotation : SessionRotation)
  | createRecoveredSession (subject hash : String) (record : SessionRecord) (ttl : ℕ)
  | findSession (hash : String)
  | revokeSession (subject hash : String)
  | revokeAll (subject : String)
  | revokeFamily (family : String) (owner : Option String)
  | deleteGracePointer (hash : String)
  | listSessions (subject : String)
  | listSessionEntries (subject : String)

/-- What an operation returns. -/
inductive Outcome where
  /-- Nothing. -/
  | done
  /-- Whether it wrote. -/
  | wrote (written : Bool)
  /-- The outcome of a rotation. -/
  | rotated (outcome : RotateOutcome)
  /-- The session found. -/
  | found (record : Option SessionRecord)
  /-- The sessions listed. -/
  | listed (details : List SessionDetail)
  /-- The index entries listed. -/
  | entries (entries : List SessionEntry)
  /-- A failure. -/
  | failed (error : AuthError)

/-- The outcome of a program. -/
def Outcome.of {α : Type} (f : α → Outcome) : Except AuthError α → Outcome
  | .ok a => f a
  | .error e => .failed e

/-- A listed session without its timestamps. -/
def shown (detail : SessionDetail) : String × String × String := (detail.sessionHash, detail.device, detail.ip)

deriving instance DecidableEq for RotateOutcome

/-- What a caller sees of an outcome, up to the order of a listing and the timestamps in it. -/
inductive Seen where
  /-- Nothing. -/
  | done
  /-- Whether it wrote. -/
  | wrote (written : Bool)
  /-- The outcome of a rotation. -/
  | rotated (outcome : RotateOutcome)
  /-- The session found. -/
  | found (record : Option SessionRecord)
  /-- The sessions listed. -/
  | listed (details : Multiset (String × String × String))
  /-- The index entries listed. -/
  | entries (entries : Multiset (String × Option (String × String × String)))
  /-- A failure. -/
  | failed (error : AuthError)
  deriving DecidableEq

/-- What a caller sees of an outcome. -/
def Outcome.seen : Outcome → Seen
  | .done => .done
  | .wrote written => .wrote written
  | .rotated outcome => .rotated outcome
  | .found record => .found record
  | .listed details => .listed ↑(details.map shown)
  | .entries es => .entries ↑(es.map fun entry => (entry.sessionHash, entry.detail.map shown))
  | .failed error => .failed error

/-! ### The in-memory store -/

/-- A rotation grace pointer. -/
structure GracePointer where
  /-- The index suffix of the account whose rotation planted it. -/
  subject : String
  /-- The record it recovers. -/
  record : SessionRecord
  /-- The hash of the session the rotation produced. -/
  successor : String
  deriving DecidableEq

/-- One plane of the session maps of `InMemoryStores`. -/
structure InMemoryStores where
  /-- The live sessions, by token hash. -/
  sessions : String → Option SessionRecord
  /-- The session index of an account. -/
  sessionIndex : String → Option (List SessionDetail)
  /-- The grace pointers, by the consumed token's hash. -/
  grace : String → Option GracePointer
  /-- The consumed-token markers: the family. -/
  consumed : String → Option String
  /-- The family index: the hashes of its sessions. -/
  families : String → Option (List String)

namespace InMemoryStores

/-- A store with nothing in it. -/
def empty : InMemoryStores where
  sessions _ := none
  sessionIndex _ := none
  grace _ := none
  consumed _ := none
  families _ := none

/-- `HashSet::insert` -/
def insert (set : List String) (hash : String) : List String := if hash ∈ set then set else set ++ [hash]

/-- The detail of a session at its creation. -/
def detailOf (hash : String) (record : SessionRecord) : SessionDetail :=
  { sessionHash := hash, device := record.device, ip := record.ip, createdAt := record.createdAt,
    lastActivityAt := record.createdAt }

variable (m : InMemoryStores)

/-- `create_session` -/
def createSession (subject hash : String) (record : SessionRecord) : InMemoryStores :=
  { m with
    sessions := update m.sessions hash (some record)
    sessionIndex := update m.sessionIndex subject
      (some ((m.sessionIndex subject).getD [] ++ [detailOf hash record]))
    families := if record.familyId = "" then m.families
      else update m.families record.familyId (some (insert ((m.families record.familyId).getD []) hash)) }

/-- `create_recovered_session` -/
def createRecoveredSession (subject hash : String) (record : SessionRecord) : Bool × InMemoryStores :=
  if (m.sessionIndex subject).isNone then (false, m)
  else if record.familyId ≠ "" ∧ (m.families record.familyId).isNone then (false, m)
  else (true, m.createSession subject hash record)

/-- The live arm of `rotate`, which consumes the session `old`. -/
def rotateLive (a : SessionRotation) (old : SessionRecord) : InMemoryStores where
  sessions := update (update m.sessions a.oldHash none) a.newHash (some a.newRecord)
  grace := update m.grace a.oldHash (some ⟨a.subjectHash, a.newRecord, a.newHash⟩)
  sessionIndex :=
    match m.sessionIndex a.subjectHash with
    | some details => update m.sessionIndex a.subjectHash
        (some (details.filter (·.sessionHash ≠ a.oldHash) ++ [detailOf a.newHash a.newRecord]))
    | none => m.sessionIndex
  consumed := if old.familyId = "" then m.consumed else update m.consumed a.oldHash (some old.familyId)
  families :=
    if old.familyId = "" then m.families
    else match m.families old.familyId with
      | some members => update m.families old.familyId
          (some (insert (members.filter (· ≠ a.oldHash)) a.newHash))
      | none => m.families

/-- `rotate` -/
def rotate (a : SessionRotation) : RotateOutcome × InMemoryStores :=
  match m.sessions a.oldHash with
  | some old => (.rotated old, m.rotateLive a old)
  | none =>
    match m.grace a.oldHash with
    | some pointer =>
      -- The window is single-shot, and only recovers into a lineage that is still alive.
      (if pointer.record.familyId = "" ∨ (m.families pointer.record.familyId).isSome then .grace pointer.record
        else .invalid, { m with grace := update m.grace a.oldHash none })
    | none =>
      match m.consumed a.oldHash with
      | some family => (.reused family, m)
      | none => (.invalid, m)

/-- `revoke_session` -/
def revokeSession (subject hash : String) : Except AuthError Unit × InMemoryStores :=
  match m.sessionIndex subject with
  | none => (.error .sessionNotFound, m)
  | some details =>
    let kept := details.filter (·.sessionHash ≠ hash)
    if kept.length = details.length then (.error .sessionNotFound, m)
    else
      (.ok (), { m with
        sessionIndex := update m.sessionIndex subject (some kept)
        sessions := update m.sessions hash none })

/-- `revoke_all` -/
def revokeAll (subject : String) : InMemoryStores :=
  { m with
    sessions := ((m.sessionIndex subject).getD []).foldl
      (fun sessions detail => update sessions detail.sessionHash none) m.sessions
    sessionIndex := update m.sessionIndex subject none
    grace := fun hash => (m.grace hash).filter fun pointer => pointer.subject ≠ subject }

/-- The body of the loop of `revoke_family`. -/
def revokeMember (owner : Option String) (m : InMemoryStores) (hash : String) : InMemoryStores :=
  { m with
    sessions := update m.sessions hash none
    sessionIndex :=
      match owner with
      | none => m.sessionIndex
      | some subject => update m.sessionIndex subject
          ((m.sessionIndex subject).map fun details => details.filter (·.sessionHash ≠ hash)) }

/-- `revoke_family` -/
def revokeFamily (family : String) (owner : Option String) : InMemoryStores :=
  if family = "" then m
  else match m.families family with
    | none => m
    | some hashes => hashes.foldl (revokeMember owner) { m with families := update m.families family none }

/-- `delete_grace_pointer` -/
def deleteGracePointer (hash : String) : InMemoryStores := { m with grace := update m.grace hash none }

/-- `list_sessions` -/
def listSessions (subject : String) : List SessionDetail := (m.sessionIndex subject).getD []

/-- `list_session_entries`, the trait's own, from `list_sessions`. -/
def listSessionEntries (subject : String) : List SessionEntry :=
  (m.listSessions subject).map fun detail => { sessionHash := detail.sessionHash, detail := some detail }

/-- An operation on the store. -/
def perform : StoreOp → Outcome × InMemoryStores
  | .createSession subject hash record _ => (.done, m.createSession subject hash record)
  | .rotate a => (.rotated (m.rotate a).1, (m.rotate a).2)
  | .createRecoveredSession subject hash record _ =>
    (.wrote (m.createRecoveredSession subject hash record).1, (m.createRecoveredSession subject hash record).2)
  | .findSession hash => (.found (m.sessions hash), m)
  | .revokeSession subject hash =>
    (.of (fun _ => .done) (m.revokeSession subject hash).1, (m.revokeSession subject hash).2)
  | .revokeAll subject => (.done, m.revokeAll subject)
  | .revokeFamily family owner => (.done, m.revokeFamily family owner)
  | .deleteGracePointer hash => (.done, m.deleteGracePointer hash)
  | .listSessions subject => (.listed (m.listSessions subject), m)
  | .listSessionEntries subject => (.entries (m.listSessionEntries subject), m)

end InMemoryStores

/-! ### The Redis store -/

/-- `list_sessions` of the Redis store. -/
def listSessions (subject : String) : Act (List SessionDetail) := do
  let entries ← listSessionEntries subject
  pure (entries.filterMap (·.detail))

open Outcome

/-- An operation on the Redis store, as a program. -/
def redisProg (env : Env) : StoreOp → Prog Op.Reply Outcome
  | .createSession subject hash record ttl =>
    of (fun _ => .done) <$> (createSession env subject hash record ttl).run
  | .rotate a => of .rotated <$> (rotate env a).run
  | .createRecoveredSession subject hash record ttl =>
    of .wrote <$> (createRecoveredSession env subject hash record ttl).run
  | .findSession hash => of .found <$> (findSession env hash).run
  | .revokeSession subject hash => of (fun _ => .done) <$> (revokeSession subject hash).run
  | .revokeAll subject => of (fun _ => .done) <$> (revokeAll subject).run
  | .revokeFamily family owner => of (fun _ => .done) <$> (revokeFamily family owner).run
  | .deleteGracePointer hash => of (fun _ => .done) <$> (deleteGracePointer hash).run
  | .listSessions subject => of .listed <$> (listSessions subject).run
  | .listSessionEntries subject => of .entries <$> (listSessionEntries subject).run

/-- The keys of one plane at a second, for programs that use no others. -/
def storeOf (now : ℕ) (keys : SessionKeys) : Store := { Store.initial now [] with keys }

/-- An operation on the Redis store, run alone at a second. The input is what no command of the store reads. -/
def performRedis (env : Env) (i : Input) (now : ℕ) (k : SessionKeys) (op : StoreOp) : Outcome × SessionKeys :=
  let answer := evalAt (machine env) i (storeOf now k) (redisProg env op)
  (answer.1, answer.2.keys)

/-! ### Sequences of operations -/

/-- An operation on a plane, at a second. -/
structure Request where
  /-- When. -/
  now : ℕ
  /-- On which plane. -/
  kind : SessionKind
  /-- What. -/
  op : StoreOp

/-- The in-memory store of both planes answers a request. -/
def memoryStep (m : SessionKind → InMemoryStores) (q : Request) : Seen × (SessionKind → InMemoryStores) :=
  (((m q.kind).perform q.op).1.seen, update m q.kind ((m q.kind).perform q.op).2)

/-- The Redis store of both planes answers a request. -/
def redisStep (env : Env) (i : Input) (k : SessionKind → SessionKeys) (q : Request) :
    Seen × (SessionKind → SessionKeys) :=
  ((performRedis env i q.now (k q.kind) q.op).1.seen, update k q.kind (performRedis env i q.now (k q.kind) q.op).2)

end BymaxAuth.Testing
