import BymaxAuth.Lib.EventLoop
import Mathlib.Data.Fintype.Basic
import Mathlib.Logic.Function.Basic

/-!
# The native client

`AuthClient` of `bymax-auth-client`: an HTTP client that keeps the pair of tokens of its session, and renews the pair when
`me` is answered with a 401. Any number of calls may be made of one client at the same time.

## The model

What a call does up to its next `await` is a `Turn`; between two turns of a call, other calls have theirs. An `await` is
for the reply to a request, or for the lock `refresh_lock`. The server answers a request at one moment, which is when it
issues a pair, and the reply arrives at another one, so replies may arrive in another order than they were given. The
client is run by an executor that resumes calls in any order: every turn is an event of the loop, and no jobs are queued.

Of the server it is assumed that it answers a refresh with a pair whose refresh token was never issued before, that other
pairs are new in the same sense, and that it issues them for a refresh or a sign-in only.

The bodies of the requests that sign in, and the users in the replies, are left out.
-/

namespace BymaxAuth.AuthClient

open Concurrency.EventLoop

/-- `SessionTokens` -/
structure SessionTokens where
  access : String
  refresh : String
  deriving DecidableEq

/-- A request. -/
inductive Request where
  /-- `GET /auth/me` -/
  | me (access : String)
  /-- `POST /auth/refresh` -/
  | refresh (token : String)
  /-- `POST /auth/register` -/
  | register
  /-- `POST /auth/login` -/
  | login
  /-- `POST /auth/mfa/challenge` -/
  | mfaChallenge
  /-- `POST /auth/logout` -/
  | logout (access : String) (refresh : Option String)
  deriving DecidableEq

/-- A body of a 2xx response. -/
inductive Body where
  /-- A pair: of `AuthResult`, of `LoginResult::Success` or of `RotatedTokens`. -/
  | session (tokens : SessionTokens)
  /-- `LoginResult::MfaChallenge` -/
  | challenge
  /-- `SafeAuthUser` -/
  | user
  /-- Anything else. -/
  | other
  deriving DecidableEq

/-- What becomes of a request. -/
inductive Reply where
  /-- A 2xx response. -/
  | success (body : Body)
  /-- Another response, with or without an error envelope. -/
  | refused (status : ℕ) (envelope : Bool)
  /-- No response. -/
  | lost
  deriving DecidableEq

/-- `AuthClientError` -/
inductive AuthClientError where
  | api (status : ℕ)
  | unexpectedStatus (status : ℕ)
  | transport
  | decode
  | noSession
  deriving DecidableEq

/-- What a call returns. -/
inductive Outcome where
  /-- The user, of `me`. -/
  | user
  /-- The pair, of `refresh`. -/
  | rotated (tokens : SessionTokens)
  /-- The pair, of a call that signs in. -/
  | authenticated (tokens : SessionTokens)
  /-- `AuthOutcome::MfaRequired` -/
  | mfaRequired
  /-- `()`, of `logout`. -/
  | loggedOut
  deriving DecidableEq

/-- A call. -/
inductive Call where
  | me
  | refresh
  | register
  | login
  | mfaChallenge
  | logout

/-- Which request of its call a request is. -/
inductive Stage where
  /-- The only one. -/
  | only
  /-- The first one of `me`. -/
  | first
  /-- The refresh of `me`, under the lock. -/
  | renewal
  /-- The second one of `me`. -/
  | second
  deriving DecidableEq

/-- Where a turn of a call ends. -/
inductive Pause where
  /-- The call awaits the reply to a request. -/
  | awaits (stage : Stage) (request : Request)
  /-- `me` awaits the lock, with the access token that was refused. -/
  | queues (staleAccess : String)
  /-- The call returns. -/
  | returns (result : Except AuthClientError Outcome)

/-- What a call does up to its next `await`. -/
structure Turn where
  /-- The stored tokens afterwards. -/
  tokens : Option SessionTokens
  /-- Where it ends. -/
  pause : Pause
  /-- The pair it has stored. -/
  stored : Option SessionTokens := none

/-- `store_tokens`, and then the rest of the turn. -/
def storeTokens (tokens : SessionTokens) (rest : Option SessionTokens → Turn) : Turn :=
  { rest (some tokens) with stored := some tokens }

/-! ### The functions of the client -/

/-- `send_json`, on the reply. -/
def sendJson {α : Type} (decode : Body → Option α) : Reply → Except AuthClientError α
  | .success body =>
    match decode body with
    | some a => .ok a
    | none => .error .decode
  | .refused status true => .error (.api status)
  | .refused status false => .error (.unexpectedStatus status)
  | .lost => .error .transport

/-- The body of a reply with a pair. -/
def Body.tokens : Body → Option SessionTokens
  | session tokens => some tokens
  | _ => none

/-- `LoginResult`, a pair or a challenge. -/
def Body.loginResult : Body → Option (Option SessionTokens)
  | session tokens => some (some tokens)
  | challenge => some none
  | _ => none

/-- `SafeAuthUser` -/
def Body.safeUser : Body → Option Outcome
  | user => some .user
  | _ => none

/-- `access_token`, and `fetch_me` with it. -/
def fetchMe (stage : Stage) (tokens : Option SessionTokens) : Turn :=
  match tokens with
  | some current => { tokens, pause := .awaits stage (.me current.access) }
  | none => { tokens, pause := .returns (.error .noSession) }

/-- `refresh`, up to its request. -/
def refresh (stage : Stage) (tokens : Option SessionTokens) : Turn :=
  match tokens with
  | some current => { tokens, pause := .awaits stage (.refresh current.refresh) }
  | none => { tokens, pause := .returns (.error .noSession) }

/-- `logout`, up to its request. -/
def logout (tokens : Option SessionTokens) : Turn :=
  match tokens with
  | some current => { tokens, pause := .awaits .only (.logout current.access (tokens.map SessionTokens.refresh)) }
  | none => { tokens, pause := .returns (.error .noSession) }

/-- `refresh_single_flight`, when it has the lock: a session that was renewed in between is used as it is. -/
def refreshSingleFlight (staleAccess : String) (tokens : Option SessionTokens) : Turn :=
  match tokens with
  | some current =>
    if current.access ≠ staleAccess then fetchMe .second tokens else refresh .renewal tokens
  | none => refresh .renewal tokens

/-- The first turn of a call. -/
def begin : Call → Option SessionTokens → Turn
  | .me, tokens => fetchMe .first tokens
  | .refresh, tokens => refresh .only tokens
  | .register, tokens => { tokens, pause := .awaits .only .register }
  | .login, tokens => { tokens, pause := .awaits .only .login }
  | .mfaChallenge, tokens => { tokens, pause := .awaits .only .mfaChallenge }
  | .logout, tokens => logout tokens

/-- `me`, after its first request. -/
def meFirst (access : String) (reply : Reply) (tokens : Option SessionTokens) : Turn :=
  match sendJson Body.safeUser reply with
  | .error (.api 401) => { tokens, pause := .queues access }
  | result => { tokens, pause := .returns result }

/-- `me`, after the reply to its refresh: the tokens are stored, and `fetch_me` is called with the new ones. -/
def meRenewed (reply : Reply) (tokens : Option SessionTokens) : Turn :=
  match sendJson Body.tokens reply with
  | .ok rotated => storeTokens rotated (fetchMe .second)
  | .error e => { tokens, pause := .returns (.error e) }

/-- `refresh`, after the reply. -/
def rotated (reply : Reply) (tokens : Option SessionTokens) : Turn :=
  match sendJson Body.tokens reply with
  | .ok rotated => storeTokens rotated fun tokens => { tokens, pause := .returns (.ok (.rotated rotated)) }
  | .error e => { tokens, pause := .returns (.error e) }

/-- `complete_login`, after the reply. -/
def completeLogin (reply : Reply) (tokens : Option SessionTokens) : Turn :=
  match sendJson Body.loginResult reply with
  | .ok (some auth) => storeTokens auth fun tokens => { tokens, pause := .returns (.ok (.authenticated auth)) }
  | .ok none => { tokens, pause := .returns (.ok .mfaRequired) }
  | .error e => { tokens, pause := .returns (.error e) }

/-- `mfa_challenge`, after the reply. -/
def mfaChallenged (reply : Reply) (tokens : Option SessionTokens) : Turn :=
  match sendJson Body.tokens reply with
  | .ok result => storeTokens result fun tokens => { tokens, pause := .returns (.ok (.authenticated result)) }
  | .error e => { tokens, pause := .returns (.error e) }

/-- `logout`, after the reply. -/
def loggedOut (reply : Reply) (tokens : Option SessionTokens) : Turn :=
  match sendJson (fun _ => some ()) reply with
  | .ok () => { tokens := none, pause := .returns (.ok .loggedOut) }
  | .error e => { tokens, pause := .returns (.error e) }

/-- `me`, after its second request. -/
def meSecond (reply : Reply) (tokens : Option SessionTokens) : Turn :=
  { tokens, pause := .returns (sendJson Body.safeUser reply) }

/-- The turn of a call after the reply to a request. -/
def goOn (stage : Stage) : Request → Reply → Option SessionTokens → Turn
  | .me access => if stage = .first then meFirst access else meSecond
  | .refresh _ => if stage = .renewal then meRenewed else rotated
  | .register | .login => completeLogin
  | .mfaChallenge => mfaChallenged
  | .logout .. => loggedOut

/-! ### The calls of a client -/

/-- Where a call is. -/
inductive Phase where
  /-- It was not made yet. -/
  | idle
  /-- A request is out. -/
  | sent (stage : Stage) (request : Request)
  /-- The server has answered it, and the reply is on its way. -/
  | answered (stage : Stage) (request : Request) (reply : Reply)
  /-- It awaits the lock. -/
  | queued (staleAccess : String)
  /-- It has returned. -/
  | done

/-- A client with `n` calls, and the server. -/
structure State (n : ℕ) where
  tokens : Option SessionTokens
  /-- The call that holds `refresh_lock`. -/
  holder : Option (Fin n)
  /-- The pairs that the server has issued, the oldest first. -/
  issued : List SessionTokens
  /-- The calls. -/
  phases : Fin n → Phase

/-- What happens. -/
inductive Event (n : ℕ) where
  /-- A call is made. -/
  | call (c : Fin n)
  /-- The server answers the request of a call. -/
  | answer (c : Fin n) (reply : Reply)
  /-- The reply arrives, and the call goes on. -/
  | receive (c : Fin n)
  /-- A call gets the lock, and goes on. -/
  | acquire (c : Fin n)

/-- What is seen of it. -/
inductive Mark (n : ℕ) where
  /-- A request is sent. -/
  | requested (c : Fin n) (request : Request)
  /-- The pair of the reply to a request is stored. -/
  | stored (c : Fin n) (request : Request) (tokens : SessionTokens)
  /-- A call returns. -/
  | returned (c : Fin n) (result : Except AuthClientError Outcome)
  deriving DecidableEq

/-- The pair that the server issues with a reply. -/
def Reply.issued : Reply → List SessionTokens
  | .success (.session tokens) => [tokens]
  | _ => []

/-- The requests that sign in. -/
def Request.signsIn : Request → Bool
  | register | login | mfaChallenge => true
  | _ => false

/-- The refreshes. -/
def Request.renews : Request → Bool
  | refresh _ => true
  | _ => false

/-- Whether the server answers so: it issues a pair on a refresh, and on no other request than a refresh or a sign-in. -/
def fits (request : Request) (reply : Reply) : Bool :=
  if request.renews then reply.issued ≠ [] else request.signsIn || reply.issued = []

/-- Where a turn leaves its call. -/
def Pause.phase : Pause → Phase
  | awaits stage request => .sent stage request
  | queues staleAccess => .queued staleAccess
  | returns _ => .done

variable {n : ℕ}

/-- What is seen of the end of a turn. -/
def Pause.mark (c : Fin n) : Pause → List (Mark n)
  | awaits _ request => [.requested c request]
  | queues _ => []
  | returns result => [.returned c result]

/-- Whether a call has the lock when its turn ends. -/
def Pause.locked : Pause → Bool
  | awaits .renewal _ => true
  | _ => false

/-- The state after a turn: a call that does not await its refresh does not have the lock. -/
def State.after (st : State n) (c : Fin n) (turn : Turn) : State n :=
  { st with
    tokens := turn.tokens
    holder := if turn.pause.locked then some c else if st.holder = some c then none else st.holder
    phases := Function.update st.phases c turn.pause.phase }

/-- A turn of a call, after the reply to a request or not. -/
def State.turn (st : State n) (c : Fin n) (request : Option Request) (turn : Turn) : Effect (State n) Empty (Mark n) :=
  { st := st.after c turn
    marks := (request.toList.flatMap fun request => turn.stored.toList.map (.stored c request)) ++ turn.pause.mark c }

/-- What happens, if it can. -/
def event (calls : Fin n → Call) : Event n → State n → Option (Effect (State n) Empty (Mark n))
  | .call c, st =>
    match st.phases c with
    | .idle => some (st.turn c none (begin (calls c) st.tokens))
    | _ => none
  | .answer c reply, st =>
    match st.phases c with
    | .sent stage request =>
      if fits request reply ∧ ∀ tokens ∈ reply.issued, tokens.refresh ∉ st.issued.map SessionTokens.refresh then some
        { st := { st with
            issued := st.issued ++ reply.issued
            phases := Function.update st.phases c (.answered stage request reply) } }
      else none
    | _ => none
  | .receive c, st =>
    match st.phases c with
    | .answered stage request reply =>
      some (st.turn c (some request) (goOn stage request reply st.tokens))
    | _ => none
  | .acquire c, st =>
    match st.phases c, st.holder with
    | .queued staleAccess, none => some (st.turn c none (refreshSingleFlight staleAccess st.tokens))
    | _, _ => none

/-- A client and its calls. -/
def client (calls : Fin n → Call) : Loop (State n) (Event n) Empty (Mark n) where
  event := event calls
  job j := j.elim

/-- No call was made, and nobody is signed in. -/
def initial : State n := ⟨none, none, [], fun _ => .idle⟩

end BymaxAuth.AuthClient
