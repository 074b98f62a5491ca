import BymaxAuth.Engine.Flows
import BymaxAuth.Lib.Layer
import Mathlib.Algebra.Order.Floor.Ring

/-!
# WebSocket tickets

A dashboard session mints a ticket for a socket (`issue_ws_ticket`, `services/adapter_api.rs`): a random text that
names, under its SHA-256, a snapshot of the account. The handshake redeems it (`redeem_ws_ticket`), which takes the
snapshot and then asks whether the token it was minted from has been revoked: by a logout, which blacklists the
token's id, or by an epoch above the token's.

Three expiries meet here: the token's `exp`, the ticket's TTL and the blacklist entry's. All three are whole
seconds, and the clock is not: the mint rounds it up and holds one more second back, the logout rounds it down, and
the store counts a TTL from the instant it applies the write. So the clock is a number of an arbitrary ordered
field with a floor, such as the reals, and the store expires a key exactly its TTL after the write.
-/

namespace BymaxAuth.Ticket

open Concurrency

variable {R : Type} [Field R] [LinearOrder R] [IsStrictOrderedRing R] [FloorRing R]

/-! ### The world -/

/-- Keys, each with its value and the instant at which it is gone. -/
abbrev Timed (R V : Type) := String → Option (V × R)

namespace Timed

variable {V : Type}

/-- `GET`: the value of a key that is not gone. -/
def get (keys : Timed R V) (now : R) (key : String) : Option V :=
  match keys key with
  | some (v, expireAt) => if now < expireAt then some v else none
  | none => none

/-- `SET key v EX ttl` -/
def setEx (keys : Timed R V) (now : R) (key : String) (v : V) (ttl : ℕ) : Timed R V :=
  Function.update keys key (some (v, now + ttl))

/-- `DEL key` -/
def del (keys : Timed R V) (key : String) : Timed R V := Function.update keys key none

omit [Field R] [IsStrictOrderedRing R] [FloorRing R] in
theorem get_eq_some {keys : Timed R V} {now : R} {key : String} {v : V} :
    keys.get now key = some v ↔ ∃ expireAt, keys key = some (v, expireAt) ∧ now < expireAt := by
  unfold get
  rcases keys key with _ | ⟨w, expireAt⟩
  · simp
  · by_cases h : now < expireAt
    · simp [h]
    · simp [h]

end Timed

/-- `WsTicketSnapshot`: what a ticket stands for. -/
structure WsTicketSnapshot where
  /-- The user id. -/
  sub : String
  /-- The tenant, when there is one. -/
  tenantId : Option String
  /-- The account's role at the mint. -/
  role : String
  /-- The account's status at the mint. -/
  status : String
  /-- Whether the session's account has a second factor. -/
  mfaEnabled : Bool
  /-- Whether the session has cleared it. -/
  mfaVerified : Bool
  /-- The id of the minting token. -/
  jti : String
  /-- The epoch of the minting token. -/
  epoch : ℕ
  deriving DecidableEq

/-- What the handlers are built over. -/
structure Env extends BymaxAuth.Env where
  /-- `sha256`, in hex. -/
  sha256 : String → String

/-- Everything the handlers share. -/
structure World (R : Type) where
  /-- The clock: Unix time in seconds. -/
  now : R
  /-- `wst:{sha256(ticket)}` -/
  wst : Timed R WsTicketSnapshot
  /-- `rv:{jti}`: the access blacklist. -/
  rv : Timed R Unit
  /-- The engine's other keys, and the host's accounts. -/
  store : Store

/-- The commands on the tickets. -/
inductive Cmd where
  | nowUnixCeil
  | generateSecureToken
  /-- `SET wst:{hash} snapshot EX ttl` -/
  | setWst (hash : String) (snapshot : WsTicketSnapshot) (ttl : ℕ)
  /-- `GETDEL wst:{hash}` -/
  | getdelWst (hash : String)

/-- The reply of a command on the tickets. -/
abbrev Cmd.Reply : Cmd → Type
  | nowUnixCeil => ℤ
  | generateSecureToken => String
  | setWst .. => Unit
  | getdelWst _ => Option WsTicketSnapshot

/-- What the handlers do not decide. -/
structure Input (R : Type) [Zero R] [LE R] where
  /-- What the engine's commands do not decide. -/
  engine : BymaxAuth.Input
  /-- A ticket, drawn at random. -/
  ticket : String
  /-- The time that passes. -/
  secs : R
  /-- Time does not run backwards. -/
  secs_nonneg : 0 ≤ secs

/-- The reply of a command on the tickets, and the world after it. -/
def Cmd.exec (w : World R) (i : Input R) : (c : Cmd) → c.Reply × World R
  | nowUnixCeil => (⌈w.now⌉, w)
  | generateSecureToken => (i.ticket, w)
  | setWst hash snapshot ttl => ((), { w with wst := w.wst.setEx w.now hash snapshot ttl })
  | getdelWst hash => (w.wst.get w.now hash, { w with wst := w.wst.del hash })

/-- The reply of one of the engine's commands, and the world after it. The blacklist is timed by the clock itself;
everything else goes on at its whole second. -/
def execEngine (env : Env) (w : World R) (i : BymaxAuth.Input) : (c : Op) → c.Reply × World R
  | .account (.existsRv jti) => ((w.rv.get w.now jti).isSome, w)
  | .account (.setRv jti ttl) => ((), { w with rv := w.rv.setEx w.now jti () ttl })
  | c =>
    let answer := (BymaxAuth.machine env.toEnv).exec { w.store with now := ⌊w.now⌋.toNat } c i
    (answer.1, { w with store := answer.2 })

/-- The replies of the engine's commands and of those on the tickets. -/
abbrev Reply : Op ⊕ Cmd → Type := Beside Op.Reply Cmd.Reply

/-- An entry of the history. -/
abbrev Event (R : Type) := Entry (World R) Reply

/-- The key under which a ticket this exchange drew will be stored. -/
def mints (env : Env) : Ev Reply → Option String
  | ⟨.inr .generateSecureToken, raw⟩ => some (env.sha256 raw)
  | _ => none

/-- The key under which this exchange stored a ticket. -/
def spends : Ev Reply → Option String
  | ⟨.inr (.setWst hash _ _), _⟩ => some hash
  | _ => none

/-- Which replies the outside gives, and when it lets a command through. -/
def admits (env : Env) (log : List (Event R)) (e : Event R) : Bool :=
  match e with
  -- A drawn ticket has the shape, and is new.
  | ⟨_, _, .inr .generateSecureToken, raw⟩ =>
    isHexShape raw && !(minted (mints env) log).contains (env.sha256 raw)
  -- The store applies a mint's write within a second of its clock reading.
  | ⟨tid, pre, .inr (.setWst ..), _⟩ => log.all fun x =>
    match x with
    | ⟨tid', pre', .inr .nowUnixCeil, _⟩ => decide (tid' = tid → pre.now ≤ pre'.now + 1)
    | _ => true
  -- The two reads of a redemption happen at one instant.
  | ⟨tid, pre, .inl (.account (.existsRv _)), _⟩ => log.all fun x =>
    match x with
    | ⟨tid', pre', .inr (.getdelWst _), _⟩ => decide (tid' = tid → pre.now = pre'.now)
    | _ => true
  | _ => true

/-- The world as the handlers see it, and what happens between two of their commands. -/
def machine (R : Type) [Field R] [LinearOrder R] [IsStrictOrderedRing R] [FloorRing R] (env : Env) :
    Machine (World R) (Input R) Reply where
  exec w
    | .inl c, i => execEngine env w i.engine c
    | .inr c, i => c.exec w i
  pass w i := { w with now := w.now + i.secs, store := { w.store with users := i.engine.users } }
  admits := admits env

/-! ### The handlers -/

/-- A handler, or a part of one. -/
abbrev Act := ExceptT AuthError (Prog Reply)

/-- A command on the tickets. -/
def ask (c : Cmd) : Act c.Reply := issue (Sum.inr c)

/-- `WS_TICKET_TTL_SECONDS` -/
def wsTicketTtlSeconds : ℕ := 30

/-- `ticket_ttl` -/
def ticketTtl (exp : ℕ) (now : ℤ) : Option ℕ :=
  let remaining := ((exp : ℤ) - now).toNat
  let ttl := min wsTicketTtlSeconds (remaining - 1)
  if 0 < ttl then some ttl else none

/-- `IssuedWsTicket` -/
structure IssuedWsTicket where
  ticket : String
  /-- The seconds it stays redeemable. -/
  expiresIn : ℕ
  deriving DecidableEq

variable (env : Env)

/-- `WsTicketStore::mint` -/
def mint (snapshot : WsTicketSnapshot) (ttl : ℕ) : Act String := do
  let ticket ← ask .generateSecureToken
  ask (.setWst (env.sha256 ticket) snapshot ttl)
  pure ticket

/-- `issue_ws_ticket` -/
def issueWsTicket (claims : AccessClaims) : Act IssuedWsTicket := do
  if claims.mfaEnabled && !claims.mfaVerified then throw .mfaRequired else
  match ← lift (BymaxAuth.Act.host (.findById claims.sub claims.tenantId)) with
  | none => throw .tokenInvalid
  | some user =>
    match assertNotBlocked user.status env.config.blockedStatuses with
    | some blocked => throw blocked
    | none => do
      let now ← ask .nowUnixCeil
      match ticketTtl claims.exp now with
      | none => throw .tokenInvalid
      | some ttl => do
        let ticket ← mint env
          { sub := user.id, tenantId := some user.tenantId, role := user.role, status := user.status,
            mfaEnabled := claims.mfaEnabled, mfaVerified := claims.mfaVerified,
            -- The two keys the minting token's revocation is read by.
            jti := claims.jti, epoch := claims.epoch } ttl
        pure ⟨ticket, ttl⟩

/-- `ws_ticket_is_revoked` -/
def wsTicketIsRevoked (snapshot : WsTicketSnapshot) (tenant : String) : BymaxAuth.Act Bool := do
  if snapshot.jti = "" then pure true else
  if ← isBlacklisted snapshot.jti then pure true else
  let current ← currentEpoch (env.subjectHash (some tenant) snapshot.sub)
  pure (decide (snapshot.epoch < current))

/-- `redeem_ws_ticket` -/
def redeemWsTicket (ticket : String) : Act AccessClaims := do
  if !isHexShape ticket then throw .tokenInvalid else
  match ← ask (.getdelWst (env.sha256 ticket)) with
  | none => throw .tokenInvalid
  | some snapshot =>
    match snapshot.tenantId.filter (· ≠ "") with
    | none => throw .tokenInvalid
    | some tenant => do
      if ← lift (wsTicketIsRevoked env snapshot tenant) then throw .tokenInvalid else
      let now ← lift (BymaxAuth.Act.host .nowUnix)
      let jti ← lift (BymaxAuth.Act.host .newUuid)
      pure
        { sub := snapshot.sub, jti, tenantId := some tenant, role := snapshot.role, status := snapshot.status,
          mfaEnabled := snapshot.mfaEnabled, mfaVerified := snapshot.mfaVerified, iat := now,
          exp := now + wsTicketTtlSeconds, epoch := 0 }

/-! ### The calls -/

/-- A call. -/
inductive Call where
  /-- `issue_ws_ticket` of a session whose access token verified. -/
  | mint (claims : AccessClaims)
  /-- `redeem_ws_ticket` -/
  | redeem (ticket : String)
  | logout (access : Option AccessClaims) (rawRefresh : String)

/-- The answer of a call. -/
inductive Answer where
  /-- A ticket. -/
  | issued (ticket : IssuedWsTicket)
  /-- The claims a socket is opened with. -/
  | redeemed (claims : AccessClaims)
  | done
  deriving DecidableEq

/-- The access token a call was made with. -/
def Call.token : Call → Option AccessClaims
  | .mint claims => some claims
  | .redeem _ => none
  | .logout access _ => access

/-- The call as a program. -/
def Call.act : Call → Act Answer
  | .mint claims => Answer.issued <$> issueWsTicket env claims
  | .redeem ticket => Answer.redeemed <$> redeemWsTicket env ticket
  | .logout access rawRefresh => (fun _ => Answer.done) <$> lift (BymaxAuth.logout env.toEnv access rawRefresh)

/-- Any number of calls on a clock. -/
structure Deployment (R : Type) [Field R] [LinearOrder R] where
  /-- What the handlers are built over. -/
  env : Env
  /-- The clock at the start. -/
  now : R
  /-- It is past the epoch of Unix time. -/
  now_nonneg : 0 ≤ now
  /-- The host's accounts. -/
  users : List AuthUser
  calls : ℕ → Call
  /-- A token's id is a UUID drawn for it: tokens with one id are one, and expire at one time. -/
  exp_eq : ∀ {tid tid' : ℕ} {claims claims' : AccessClaims}, (calls tid).token = some claims →
    (calls tid').token = some claims' → claims.jti = claims'.jti → claims.exp = claims'.exp

/-- A configuration of a run. -/
abbrev Snapshot (R : Type) := Concurrency.Config (World R) Reply (Except AuthError Answer)

namespace Deployment

/-- Nothing stored yet. -/
def initial (D : Deployment R) : World R where
  now := D.now
  wst := fun _ => none
  rv := fun _ => none
  store := Store.initial ⌊D.now⌋.toNat D.users

/-- `cfg` is reached from the start. -/
def Reaches (D : Deployment R) (cfg : Snapshot R) : Prop :=
  Reach (machine R D.env) (start D.initial fun tid => ((D.calls tid).act D.env).run) cfg

end Deployment

end BymaxAuth.Ticket
