import BymaxAuth.Client.Request
import BymaxAuth.Lib.EventLoop
import Mathlib.Logic.Function.Basic

/-!
# The fetch wrapper on the event loop

The function that `createAuthFetch` returns, with `runRefresh`, `performRefresh` and `fetchWithTimeout`, on a
single-threaded event loop.

A call sends its request and awaits the reply. On a 401 it awaits a refresh, which it starts if the slot
`refreshInFlight` is empty, and sends its request again if the refresh succeeded. The slot is emptied by a reaction of
the refresh's promise (`.finally`), which was registered before those of the calls that await it.

## The model

Replies come at any time and in any order (`Event`); what the code does with them are jobs. `sent` is the end of
`fetchWithTimeout`, `received` is the wrapper after `await send()`, `refreshed` is `performRefresh` after its `fetch`,
`cleared` is the callback of `.finally`, and `resumed` is the wrapper after `await runRefresh()`. A job looks at where its
call or its refresh is; `SingleFlight` shows that a job that has something to do is in the queue.

A reply is a response, or a failure: of the network, of the timeout, or by a signal of the caller. The headers of the
calls are valid, and `onSessionExpired` returns.
-/

namespace BymaxAuth.Client

open Concurrency.EventLoop Function

/-- A response. -/
structure Response where
  status : ℕ
  /-- The rest of it. -/
  content : String
  deriving DecidableEq

/-- What becomes of a request. -/
inductive Reply where
  | response (response : Response)
  | failure
  deriving DecidableEq

/-- `response.ok`, and `false` for a failure: the answer of `performRefresh`. -/
def Reply.ok : Reply → Bool
  | response r => 200 ≤ r.status && r.status < 300
  | failure => false

/-- How a call ended. -/
inductive Outcome where
  /-- With the reply to its request. -/
  | plain (reply : Reply)
  /-- With its first response, since the refresh failed. -/
  | expired (first : Response) (refresh : ℕ)
  /-- With the reply to its second request. -/
  | retried (first : Response) (refresh : ℕ) (reply : Reply)

/-- Where a call is. A second request comes with the first response and the refresh. -/
inductive Phase where
  /-- It was not made yet. -/
  | idle
  /-- Its request is out. -/
  | sending (again : Option (Response × ℕ))
  /-- The reply has arrived. -/
  | answered (again : Option (Response × ℕ)) (reply : Reply)
  /-- `send()` is settled. -/
  | settled (again : Option (Response × ℕ)) (reply : Reply)
  /-- It awaits a refresh. -/
  | waiting (first : Response) (refresh : ℕ)
  /-- It has ended. -/
  | done (outcome : Outcome)

/-- Where a refresh is: the call that started it, and those that await it. -/
inductive Refresh where
  /-- It was not started. -/
  | unstarted
  /-- Its request is out. -/
  | inFlight (starter : ℕ) (waiters : List ℕ)
  /-- The reply has arrived. -/
  | answered (starter : ℕ) (waiters : List ℕ) (reply : Reply)
  /-- Its promise is settled. -/
  | settled (starter : ℕ) (reply : Reply)

/-- The state of the wrapper. -/
structure State where
  /-- `refreshInFlight` -/
  slot : Option ℕ
  /-- The number of refreshes so far. -/
  next : ℕ
  refreshes : ℕ → Refresh
  calls : ℕ → Phase

/-- What happens outside. -/
inductive Event where
  /-- A call is made. -/
  | call (c : ℕ)
  /-- The reply to a call's request arrives. -/
  | reply (c : ℕ) (reply : Reply)
  /-- The reply to a refresh arrives. -/
  | refreshReply (r : ℕ) (reply : Reply)

/-- What the code does with it. -/
inductive Job where
  /-- `fetchWithTimeout` ends. -/
  | sent (c : ℕ)
  /-- The wrapper goes on after `await send()`. -/
  | received (c : ℕ)
  /-- `performRefresh` goes on after its `fetch`. -/
  | refreshed (r : ℕ)
  /-- `refreshInFlight = null` -/
  | cleared
  /-- The wrapper goes on after `await runRefresh()`. -/
  | resumed (c : ℕ)
  deriving DecidableEq

/-- What is seen of it. -/
inductive Mark where
  /-- A call sends its request; `none` is one that the platform refuses. -/
  | requested (c : ℕ) (request : Option Sent)
  /-- The reply arrives. -/
  | arrived (c : ℕ) (reply : Reply)
  /-- The call awaits a refresh. -/
  | awaited (c r : ℕ)
  /-- The call calls `onSessionExpired`. -/
  | expired (c : ℕ)
  /-- The call returns a response, or rejects. -/
  | returned (c : ℕ) (reply : Reply)
  /-- A refresh is started by a call. -/
  | refreshRequested (r c : ℕ) (request : Option Sent)
  /-- Its reply arrives. -/
  | refreshArrived (r : ℕ) (reply : Reply)
  /-- Its promise is settled. -/
  | refreshSettled (r : ℕ) (ok : Bool)

/-- `await` on the promise of a refresh: the call is one of those that wait, or it goes on if the promise is settled. -/
def Refresh.await (c : ℕ) : Refresh → Refresh × List Job
  | inFlight starter waiters => (inFlight starter (waiters ++ [c]), [])
  | answered starter waiters reply => (answered starter (waiters ++ [c]) reply, [])
  | settled starter reply => (settled starter reply, [.resumed c])
  | unstarted => (unstarted, [])

/-- A wrapper, and the calls that are made of it. -/
structure Wrapper where
  /-- Its configuration. -/
  config : AuthFetchConfig
  /-- The input of each call. -/
  input : ℕ → FetchInput
  /-- The init of each call. -/
  init : ℕ → RequestInit

namespace Wrapper

variable (W : Wrapper)

/-- The request of a call, sent for the first time or again. -/
def send (c : ℕ) (again : Bool) : Option Sent := Client.send W.config (W.input c) (W.init c) again

/-- Whether a call triggers no refresh. -/
def skips (c : ℕ) : Bool :=
  isRefreshSkipped (resolvedUrl W.config (W.input c)) (buildAuthRefreshSkipSuffixes W.config.routePrefix)

/-- The reply to a request: one that the platform refuses has no response. -/
def canReply (c : ℕ) (again : Option (Response × ℕ)) : Reply → Bool
  | .response _ => (W.send c again.isSome).isSome
  | .failure => true

/-- What happens outside, if it can. -/
def event : Event → State → Option (Effect State Job Mark)
  | .call c, st =>
    match st.calls c with
    | .idle => some
        { st := { st with calls := update st.calls c (.sending none) }
          marks := [.requested c (W.send c false)] }
    | _ => none
  | .reply c reply, st =>
    match st.calls c with
    | .sending again =>
      if W.canReply c again reply then some
        { st := { st with calls := update st.calls c (.answered again reply) }
          jobs := [.sent c]
          marks := [.arrived c reply] }
      else none
    | _ => none
  | .refreshReply r reply, st =>
    match st.refreshes r with
    | .inFlight starter waiters => some
        { st := { st with refreshes := update st.refreshes r (.answered starter waiters reply) }
          jobs := [.refreshed r]
          marks := [.refreshArrived r reply] }
    | _ => none

/-- The call awaits the refresh. -/
def join (c : ℕ) (first : Response) (r : ℕ) (st : State) (marks : List Mark) : Effect State Job Mark :=
  { st := { st with
      calls := update st.calls c (.waiting first r)
      refreshes := update st.refreshes r ((st.refreshes r).await c).1 }
    jobs := ((st.refreshes r).await c).2
    marks := marks ++ [.awaited c r] }

/-- The state in which a call has started a refresh. -/
def started (c : ℕ) (st : State) : State :=
  { st with
    slot := some st.next
    next := st.next + 1
    refreshes := update st.refreshes st.next (.inFlight c []) }

/-- `runRefresh`, and the `await` on it. -/
def runRefresh (c : ℕ) (first : Response) (st : State) : Effect State Job Mark :=
  match st.slot with
  | some r => join c first r st []
  | none => join c first st.next (started c st) [.refreshRequested st.next c (refreshRequest W.config)]

/-- The call ends with the reply to its request. -/
def finish (c : ℕ) (outcome : Outcome) (reply : Reply) (st : State) : Effect State Job Mark :=
  { st := { st with calls := update st.calls c (.done outcome) }, marks := [.returned c reply] }

/-- What the code does. -/
def job : Job → State → Effect State Job Mark
  | .sent c, st =>
    match st.calls c with
    | .answered again reply =>
      { st := { st with calls := update st.calls c (.settled again reply) }, jobs := [.received c] }
    | _ => { st }
  | .received c, st =>
    match st.calls c with
    | .settled none (.response first) =>
      if first.status ≠ 401 ∨ W.skips c then finish c (.plain (.response first)) (.response first) st
      else W.runRefresh c first st
    | .settled none .failure => finish c (.plain .failure) .failure st
    | .settled (some (first, r)) reply => finish c (.retried first r reply) reply st
    | _ => { st }
  | .refreshed r, st =>
    match st.refreshes r with
    | .answered starter waiters reply =>
      { st := { st with refreshes := update st.refreshes r (.settled starter reply) }
        jobs := .cleared :: waiters.map .resumed
        marks := [.refreshSettled r reply.ok] }
    | _ => { st }
  | .cleared, st => { st := { st with slot := none } }
  | .resumed c, st =>
    match st.calls c with
    | .waiting first r =>
      match st.refreshes r with
      | .settled _ reply =>
        if reply.ok then
          { st := { st with calls := update st.calls c (.sending (some (first, r))) }
            marks := [.requested c (W.send c true)] }
        else
          { st := { st with calls := update st.calls c (.done (.expired first r)) }
            marks := (if W.config.onSessionExpired then [.expired c] else []) ++ [.returned c (.response first)] }
      | _ => { st }
    | _ => { st }

/-- The wrapper as a program that awaits. -/
def loop : Loop State Event Job Mark where
  event := W.event
  job := W.job

/-- No call was made. -/
def initial : State := ⟨none, 0, fun _ => .unstarted, fun _ => .idle⟩

/-- A run can come to this moment. -/
def Reaches (cfg : Config State Job Mark) : Prop := Reach W.loop (start initial) cfg

end Wrapper

end BymaxAuth.Client
