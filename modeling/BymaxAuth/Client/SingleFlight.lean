import BymaxAuth.Client.AuthFetch

/-!
# One refresh at a time

What the fetch wrapper does over a whole run: any number of calls, replies in any order, failures anywhere.

The calls that meet a 401 share a refresh through the slot `refreshInFlight`. A refresh that is settled stays in the slot
until its callback has emptied it, and a call that looks in between gets the settled one. The queue keeps this harmless:
the callback is queued when the promise is settled, so a call that still finds it was ahead of the callback, and its 401
had arrived before.

## The model

`Does` lists what an event or a job can do. `Wrapper.history` is what is seen of a call that is at a phase, and
`refreshHistory` what is seen of a refresh; the log is, for each of them, exactly that (`Reaches.recorded`).
-/

namespace BymaxAuth.Client

open Concurrency.EventLoop List Function Wrapper Refresh Mark

/-! ### What a step can do -/

/-- The jobs that have something to do. -/
def Due (st : State) : Job → Prop
  | .sent c => ∃ again reply, st.calls c = .answered again reply
  | .received c => ∃ again reply, st.calls c = .settled again reply
  | .refreshed r => ∃ starter waiters reply, st.refreshes r = .answered starter waiters reply
  | .cleared => ∃ r starter reply, st.slot = some r ∧ st.refreshes r = .settled starter reply
  | .resumed c => ∃ first r starter reply, st.calls c = .waiting first r ∧ st.refreshes r = .settled starter reply

/-- What an event, or a job, can do in a state. -/
inductive Does (W : Wrapper) (st : State) : Option Job → Effect State Job Mark → Prop where
  /-- A call is made. -/
  | made {c : ℕ} : st.calls c = .idle → Does W st none
      { st := { st with calls := update st.calls c (.sending none) }
        marks := [.requested c (W.send c false)] }
  /-- The reply to a request arrives. -/
  | replied {c : ℕ} {again : Option (Response × ℕ)} {reply : Reply} : st.calls c = .sending again → Does W st none
      { st := { st with calls := update st.calls c (.answered again reply) }
        jobs := [.sent c]
        marks := [.arrived c reply] }
  /-- The reply to a refresh arrives. -/
  | refreshReplied {r starter : ℕ} {waiters : List ℕ} {reply : Reply} : st.refreshes r = .inFlight starter waiters →
      Does W st none
        { st := { st with refreshes := update st.refreshes r (.answered starter waiters reply) }
          jobs := [.refreshed r]
          marks := [.refreshArrived r reply] }
  /-- `send()` is settled. -/
  | sent {c : ℕ} {again : Option (Response × ℕ)} {reply : Reply} : st.calls c = .answered again reply →
      Does W st (some (.sent c))
        { st := { st with calls := update st.calls c (.settled again reply) }, jobs := [.received c] }
  /-- A call ends with the reply to its request. -/
  | ended {c : ℕ} {reply : Reply} : st.calls c = .settled none reply →
      Does W st (some (.received c)) (finish c (.plain reply) reply st)
  /-- A call awaits the refresh in the slot. -/
  | joined {c r : ℕ} {first : Response} : st.calls c = .settled none (.response first) → first.status = 401 →
      W.skips c = false → st.slot = some r → Does W st (some (.received c)) (join c first r st [])
  /-- A call starts a refresh, and awaits it. -/
  | started {c : ℕ} {first : Response} : st.calls c = .settled none (.response first) → first.status = 401 →
      W.skips c = false → st.slot = none → Does W st (some (.received c))
        { st :=
            { slot := some st.next
              next := st.next + 1
              refreshes := update st.refreshes st.next (.inFlight c [c])
              calls := update st.calls c (.waiting first st.next) }
          marks := [.refreshRequested st.next c (refreshRequest W.config), .awaited c st.next] }
  /-- A call ends with the reply to its second request. -/
  | retried {c r : ℕ} {first : Response} {reply : Reply} : st.calls c = .settled (some (first, r)) reply →
      Does W st (some (.received c)) (finish c (.retried first r reply) reply st)
  /-- A refresh is settled. -/
  | refreshed {r starter : ℕ} {waiters : List ℕ} {reply : Reply} : st.refreshes r = .answered starter waiters reply →
      Does W st (some (.refreshed r))
        { st := { st with refreshes := update st.refreshes r (.settled starter reply) }
          jobs := .cleared :: waiters.map .resumed
          marks := [.refreshSettled r reply.ok] }
  /-- The slot is emptied. -/
  | cleared : Does W st (some .cleared) { st := { st with slot := none } }
  /-- A call whose refresh succeeded sends its request again. -/
  | resent {c r starter : ℕ} {first : Response} {reply : Reply} : st.calls c = .waiting first r →
      st.refreshes r = .settled starter reply → reply.ok = true → Does W st (some (.resumed c))
        { st := { st with calls := update st.calls c (.sending (some (first, r))) }
          marks := [.requested c (W.send c true)] }
  /-- A call whose refresh failed ends. -/
  | expired {c r starter : ℕ} {first : Response} {reply : Reply} : st.calls c = .waiting first r →
      st.refreshes r = .settled starter reply → reply.ok = false → Does W st (some (.resumed c))
        { st := { st with calls := update st.calls c (.done (.expired first r)) }
          marks := (if W.config.onSessionExpired then [.expired c] else []) ++ [.returned c (.response first)] }
  /-- A job that has nothing to do. -/
  | nothing {j : Job} : ¬ Due st j → j ≠ .cleared → Does W st (some j) { st }

variable {W : Wrapper} {st : State} {j : Option Job} {x : Effect State Job Mark}

theorem event_does {e : Event} (h : W.event e st = some x) : Does W st none x := by
  cases e with
  | call c =>
    rw [event] at h
    split at h
    · next hc =>
      cases h
      exact .made hc
    · cases h
  | reply c reply =>
    rw [event] at h
    split at h
    · next hc =>
      split_ifs at h
      cases h
      exact .replied hc
    · cases h
  | refreshReply r reply =>
    rw [event] at h
    split at h
    · next hr =>
      cases h
      exact .refreshReplied hr
    · cases h

theorem job_does (j : Job) : Does W st (some j) (W.job j st) := by
  cases j with
  | sent c =>
    rw [job]
    split
    · next hc => exact .sent hc
    · next hno => exact .nothing (fun ⟨again, reply, hc⟩ => hno again reply hc) nofun
  | received c =>
    rw [job]
    split
    · next first hc =>
      split_ifs with hplain
      · exact .ended hc
      · rw [not_or, not_not, Bool.not_eq_true] at hplain
        unfold runRefresh
        split
        · next r hslot => exact .joined hc hplain.1 hplain.2 hslot
        · next hslot =>
          have hstarted := Does.started hc hplain.1 hplain.2 hslot
          simpa [join, started, await] using hstarted
    · next hc => exact .ended hc
    · next hc => exact .retried hc
    · next hno hfail hagain =>
      refine .nothing ?_ nofun
      rintro ⟨again, reply, hc⟩
      cases again with
      | none =>
        cases reply with
        | response first => exact hno first hc
        | failure => exact hfail hc
      | some pair => exact hagain pair.1 pair.2 reply hc
  | refreshed r =>
    rw [job]
    split
    · next hr => exact .refreshed hr
    · next hno => exact .nothing (fun ⟨s, ws, reply, hr⟩ => hno s ws reply hr) nofun
  | cleared => exact .cleared
  | resumed c =>
    rw [job]
    split
    · next first r hc =>
      split
      · next hr =>
        split
        · next hok => exact .resent hc hr hok
        · next hok => exact .expired hc hr (Bool.eq_false_iff.mpr hok)
      · next hno =>
        refine .nothing ?_ nofun
        rintro ⟨first', r', s, reply, hc', hr⟩
        cases hc.symm.trans hc'
        exact hno s reply hr
    · next hno => exact .nothing (fun ⟨first, r, s, reply, hc, _⟩ => hno first r hc) nofun

variable {cfg : Config State Job Mark} {refresh : Refresh} {queue : List Job} {r c : ℕ} {reply : Reply} {mark : Mark}
  {log : List Mark} {first : Response}

/-- What holds at the start, and what every step keeps, holds throughout. -/
theorem Wrapper.Reaches.invariant (h : W.Reaches cfg) (Inv : Config State Job Mark → Prop) (h₀ : Inv (start initial))
    (hstep : ∀ st j queue log x, W.Reaches ⟨st, j.toList ++ queue, log⟩ → Inv ⟨st, j.toList ++ queue, log⟩ →
      Does W st j x → Inv (x.after queue log)) : Inv cfg :=
  reach_invariant Inv h₀ (fun c _ x hreach hinv hx => hstep c.st none c.queue c.log x hreach hinv (event_does hx))
    (fun st j queue log hreach hinv => hstep st (some j) queue log _ hreach hinv (job_does j)) h

/-! ### The slot -/

/-- How far a refresh is. -/
inductive Stage where
  /-- It was not started. -/
  | unstarted
  /-- Its promise is pending. -/
  | pending
  /-- Its promise is settled. -/
  | settled
  deriving DecidableEq

/-- How far a refresh is. -/
def Refresh.stage : Refresh → Stage
  | unstarted => .unstarted
  | inFlight .. | answered .. => .pending
  | settled .. => .settled

theorem stage_eq_settled : refresh.stage = .settled ↔ ∃ starter reply, refresh = .settled starter reply := by
  cases refresh <;> simp [stage]

theorem stage_eq_unstarted : refresh.stage = .unstarted ↔ refresh = .unstarted := by
  cases refresh <;> simp [stage]

@[simp] theorem stage_await (refresh : Refresh) (c : ℕ) : (refresh.await c).1.stage = refresh.stage := by
  cases refresh <;> rfl

/-- The slot and the queue go together: a refresh that is pending is in the slot, and the job that empties the slot is
queued once, for a refresh that is settled. -/
structure Sound (st : State) (queue : List Job) : Prop where
  /-- No refresh is there before it is started. -/
  fresh : ∀ r, st.next ≤ r → (st.refreshes r).stage = .unstarted
  /-- The one in the slot was started. -/
  slot : ∀ r, st.slot = some r → (st.refreshes r).stage ≠ .unstarted
  /-- One that is pending is in the slot. -/
  single : ∀ r, (st.refreshes r).stage = .pending → st.slot = some r
  /-- The job is queued once. -/
  once : queue.count .cleared ≤ 1
  /-- It is for the refresh in the slot. -/
  clear : .cleared ∈ queue → ∃ r, st.slot = some r ∧ (st.refreshes r).stage = .settled

/-- Steps that leave the slot, and how far the refreshes are, as it was. -/
theorem Sound.frame {st' : State} {jobs : List Job} (h : Sound st (j.toList ++ queue)) (hslot : st'.slot = st.slot)
    (hnext : st'.next = st.next) (hstage : ∀ r, (st'.refreshes r).stage = (st.refreshes r).stage)
    (hjobs : .cleared ∉ jobs) : Sound st' (queue ++ jobs) where
  fresh r hr := by
    rw [hstage]
    exact h.fresh r (hnext ▸ hr)
  slot r hr := by
    rw [hstage]
    exact h.slot r (hslot ▸ hr)
  single r hr := by
    rw [hslot]
    exact h.single r (hstage r ▸ hr)
  once := by
    rw [count_append, count_eq_zero.mpr hjobs]
    exact ((sublist_append_right _ _).count_le _).trans h.once
  clear hmem := by
    have hq : Job.cleared ∈ queue := (mem_append.mp hmem).resolve_right hjobs
    obtain ⟨r, hr, hs⟩ := h.clear (mem_append_right _ hq)
    exact ⟨r, hslot.trans hr, (hstage r).trans hs⟩

theorem stage_update {refreshes : ℕ → Refresh} (h : refresh.stage = (refreshes r).stage) (r' : ℕ) :
    (update refreshes r refresh r').stage = (refreshes r').stage := by
  by_cases hr : r' = r
  · subst hr
    rw [update_self, h]
  · rw [update_of_ne hr]

theorem not_cleared_await (refresh : Refresh) (c : ℕ) : .cleared ∉ (refresh.await c).2 := by
  cases refresh <;> simp [await]

/-- Every step keeps the slot and the queue together. -/
theorem Sound.step (h : Sound st (j.toList ++ queue)) (hx : Does W st j x) : Sound x.st (queue ++ x.jobs) := by
  cases hx with
  | made _ | replied _ | sent _ | ended _ | retried _ | resent _ _ _ | expired _ _ _ | nothing _ _ =>
    exact h.frame rfl rfl (fun _ => rfl) (by simp [finish])
  | refreshReplied hr => exact h.frame rfl rfl (stage_update (by rw [hr]; rfl)) (by simp)
  | joined _ _ _ _ => exact h.frame rfl rfl (stage_update (stage_await _ _)) (not_cleared_await _ _)
  | started _ _ _ hslot =>
    have hfree : Job.cleared ∉ queue := fun hmem => by
      obtain ⟨r, hr, -⟩ := h.clear (mem_append_right _ hmem)
      rw [hslot] at hr
      cases hr
    constructor <;> grind [Sound, stage, update_apply, count_eq_zero]
  | @refreshed r starter waiters reply hr =>
    have hpending : (st.refreshes r).stage = .pending := by rw [hr]; rfl
    have hslot : st.slot = some r := h.single r hpending
    have hfree : Job.cleared ∉ queue := fun hmem => by
      obtain ⟨r', hr', hs⟩ := h.clear (mem_append_right _ hmem)
      cases hslot.symm.trans hr'
      cases hpending.symm.trans hs
    constructor <;> grind [Sound, stage, update_apply, count_eq_zero]
  | cleared =>
    have hfree : Job.cleared ∉ queue := by
      have honce := h.once
      rw [Option.toList_some, singleton_append, count_cons_self] at honce
      exact count_eq_zero.mp (by omega)
    obtain ⟨r, hr, hs⟩ := h.clear mem_cons_self
    constructor <;> grind [Sound, count_eq_zero]

namespace Wrapper

/-- At every moment of a run the slot and the queue go together. -/
theorem Reaches.sound (h : W.Reaches cfg) : Sound cfg.st cfg.queue := by
  refine h.invariant (fun cfg => Sound cfg.st cfg.queue) ?_ fun _ _ _ _ _ _ hs hx => hs.step hx
  exact ⟨fun _ _ => rfl, nofun, nofun, Nat.zero_le 1, nofun⟩

end Wrapper

/-! ### Waiting calls -/

/-- A call that awaits a refresh will be told. -/
def Refresh.tells (c : ℕ) : Refresh → Prop
  | unstarted => False
  | inFlight _ waiters | answered _ waiters _ => c ∈ waiters
  | settled .. => True

theorem tells_await {c' : ℕ} (h : refresh.tells c') : (refresh.await c).1.tells c' := by
  cases refresh with
  | unstarted => exact h
  | inFlight _ _ | answered _ _ _ => exact mem_append_left _ h
  | settled _ _ => exact h

theorem tells_await_self (c : ℕ) (h : refresh.stage ≠ .unstarted) : (refresh.await c).1.tells c := by
  cases refresh with
  | unstarted => exact absurd rfl h
  | inFlight _ _ | answered _ _ _ => exact mem_append_right _ mem_cons_self
  | settled _ _ => trivial

/-- Every call that waits will be told. -/
def Waits (st : State) : Prop := ∀ c first r, st.calls c = .waiting first r → (st.refreshes r).tells c

theorem Waits.step (h : Waits st) (hs : Sound st queue) (hx : Does W st j x) : Waits x.st := by
  intro c first r hc
  have hnext := stage_eq_unstarted.mp (hs.fresh st.next le_rfl)
  cases hx with
  | joined _ _ _ hslot =>
    have hstage := hs.slot _ hslot
    simp only [join] at hc ⊢
    grind [update_apply, Waits, tells_await, tells_await_self]
  | _ =>
    try simp only [finish] at hc ⊢
    grind [update_apply, Waits, tells]

namespace Wrapper

theorem Reaches.waits (h : W.Reaches cfg) : Waits cfg.st :=
  h.invariant (fun cfg => Waits cfg.st) nofun fun _ _ _ _ _ hreach hw hx => hw.step hreach.sound hx

end Wrapper

theorem await_eq_answered {c starter : ℕ} {waiters : List ℕ}
    (h : (refresh.await c).1 = .answered starter waiters reply) :
    ∃ waiters', refresh = .answered starter waiters' reply := by
  cases refresh with
  | answered _ waiters' _ =>
    cases h
    exact ⟨waiters', rfl⟩
  | _ => cases h

theorem await_eq_settled {c starter : ℕ} :
    (refresh.await c).1 = .settled starter reply ↔ refresh = .settled starter reply := by
  cases refresh <;> simp [await]

theorem await_jobs {starter c : ℕ} : ((settled starter reply).await c).2 = [.resumed c] := rfl

/-- A step makes no job due but those it leaves, and a job that has run is not due. -/
theorem due_of_does (hw : Waits st) (hx : Does W st j x) {i : Job} (hi : Due x.st i) :
    Due st i ∧ some i ≠ j ∨ i ∈ x.jobs := by
  cases hx with
  | nothing hno _ =>
    refine .inl ⟨hi, ?_⟩
    rintro ⟨⟩
    exact hno hi
  | _ =>
    cases i <;> simp only [Due, finish, join] at hi ⊢ <;>
      grind [update_apply, → await_eq_answered, await_eq_settled, await_jobs, Waits, tells]

/-- A job that has something to do is in the queue. -/
theorem Wrapper.Reaches.due (h : W.Reaches cfg) {i : Job} (hi : Due cfg.st i) : i ∈ cfg.queue := by
  refine reach_due Due ?_ ?_ ?_ h i hi
  · rintro (c | c | r | _ | c) hdue <;> simp [Due, start, initial] at hdue
  · intro c e x i hreach hx hdue
    exact (due_of_does (Wrapper.Reaches.waits hreach) (event_does hx) hdue).imp_left And.left
  · intro st i queue log i' hreach hdue
    refine (due_of_does (Wrapper.Reaches.waits hreach) (job_does i) hdue).imp_left fun h => ⟨h.1, fun heq => ?_⟩
    exact h.2 (congrArg some heq)

/-! ### Histories -/

/-- What is seen of a call. -/
def Mark.ofCall (c : ℕ) : Mark → Bool
  | requested c' _ | arrived c' _ | awaited c' _ | expired c' | returned c' _ => c' = c
  | _ => false

/-- What is seen of a refresh. -/
def Mark.ofRefresh (r : ℕ) : Mark → Bool
  | refreshRequested r' _ _ | refreshArrived r' _ | refreshSettled r' _ => r' = r
  | _ => false

namespace Wrapper

variable (W : Wrapper)

/-- What is seen of a call that awaits a refresh. -/
def upToWait (c : ℕ) (first : Response) (r : ℕ) : List Mark :=
  [.requested c (W.send c false), .arrived c (.response first), .awaited c r]

/-- What is seen of a call up to its first or second request. -/
def upToRequest (c : ℕ) : Option (Response × ℕ) → List Mark
  | none => [.requested c (W.send c false)]
  | some (first, r) => W.upToWait c first r ++ [.requested c (W.send c true)]

/-- What is seen of a call that is at this phase. -/
def history (c : ℕ) : Phase → List Mark
  | .idle => []
  | .sending again => W.upToRequest c again
  | .answered again reply | .settled again reply => W.upToRequest c again ++ [.arrived c reply]
  | .waiting first r => W.upToWait c first r
  | .done (.plain reply) => W.upToRequest c none ++ [.arrived c reply, .returned c reply]
  | .done (.expired first r) => W.upToWait c first r ++
      ((if W.config.onSessionExpired then [.expired c] else []) ++ [.returned c (.response first)])
  | .done (.retried first r reply) => W.upToRequest c (some (first, r)) ++ [.arrived c reply, .returned c reply]

/-- What is seen of a refresh that is at this point. -/
def refreshHistory (r : ℕ) : Refresh → List Mark
  | .unstarted => []
  | .inFlight starter _ => [.refreshRequested r starter (refreshRequest W.config)]
  | .answered starter _ reply => [.refreshRequested r starter (refreshRequest W.config), .refreshArrived r reply]
  | .settled starter reply =>
    [.refreshRequested r starter (refreshRequest W.config), .refreshArrived r reply, .refreshSettled r reply.ok]

/-- The log is what is seen of the calls and of the refreshes. -/
structure Recorded (st : State) (log : List Mark) : Prop where
  calls : ∀ c, log.filter (ofCall c) = W.history c (st.calls c)
  refreshes : ∀ r, log.filter (ofRefresh r) = W.refreshHistory r (st.refreshes r)

end Wrapper

theorem refreshHistory_await (r c : ℕ) (refresh : Refresh) :
    W.refreshHistory r (refresh.await c).1 = W.refreshHistory r refresh := by
  cases refresh <;> rfl

theorem Wrapper.Recorded.step (h : W.Recorded st log) (hs : Sound st queue) (hx : Does W st j x) :
    W.Recorded x.st (log ++ x.marks) := by
  constructor
  · intro c
    rw [filter_append, h.calls c]
    cases hx with
    | nothing _ _ | cleared | refreshReplied _ | refreshed _ => simp [ofCall]
    | @made c' hc | @replied c' _ _ hc | @sent c' _ _ hc | @ended c' _ hc | @joined c' _ _ hc _ _ _
    | @started c' _ hc _ _ _
    | @retried c' _ _ _ hc | @resent c' _ _ _ _ hc _ _ | @expired c' _ _ _ _ hc _ _ =>
      by_cases hne : c = c'
      · subst hne
        simp [hc, history, upToRequest, upToWait, finish, join, ofCall]
      · simp [update_of_ne hne, finish, join, ofCall, Ne.symm hne]
  · intro r
    rw [filter_append, h.refreshes r]
    cases hx with
    | nothing _ _ | cleared | made _ | replied _ | sent _ | ended _ | retried _ | resent _ _ _ =>
      simp [finish, ofRefresh]
    | expired _ _ _ => split_ifs <;> simp [ofRefresh]
    | @refreshReplied r' _ _ _ hr | @refreshed r' _ _ _ hr =>
      by_cases hne : r = r'
      · subst hne
        simp [hr, refreshHistory, ofRefresh]
      · simp [update_of_ne hne, ofRefresh, Ne.symm hne]
    | @joined c r' _ _ _ _ _ =>
      by_cases hne : r = r'
      · subst hne
        simp [join, refreshHistory_await, ofRefresh]
      · simp [join, update_of_ne hne, ofRefresh]
    | started _ _ _ _ =>
      by_cases hne : r = st.next
      · subst hne
        have hnext := stage_eq_unstarted.mp (hs.fresh st.next le_rfl)
        simp [hnext, refreshHistory, ofRefresh]
      · simp [update_of_ne hne, ofRefresh, Ne.symm hne]

/-- At every moment of a run the log is what is seen of the calls and of the refreshes. -/
theorem Wrapper.Reaches.recorded (h : W.Reaches cfg) : W.Recorded cfg.st cfg.log :=
  h.invariant (fun cfg => W.Recorded cfg.st cfg.log) ⟨fun _ => rfl, fun _ => rfl⟩
    fun _ _ _ _ _ hreach hr hx => hr.step hreach.sound hx

theorem Wrapper.Recorded.mem_call (h : W.Recorded st log) (c : ℕ) (hmark : mark.ofCall c = true) :
    mark ∈ log ↔ mark ∈ W.history c (st.calls c) := by
  rw [← h.calls, mem_filter, and_iff_left hmark]

theorem Wrapper.Recorded.mem_refresh (h : W.Recorded st log) (r : ℕ) (hmark : mark.ofRefresh r = true) :
    mark ∈ log ↔ mark ∈ W.refreshHistory r (st.refreshes r) := by
  rw [← h.refreshes, mem_filter, and_iff_left hmark]

/-- A refresh that is seen to be settled is settled. -/
theorem Wrapper.Recorded.settled_iff (h : W.Recorded st log) {ok : Bool} :
    .refreshSettled r ok ∈ log ↔ ∃ starter reply, st.refreshes r = .settled starter reply ∧ reply.ok = ok := by
  refine (h.mem_refresh r (by simp [ofRefresh])).trans ?_
  cases st.refreshes r <;> simp [refreshHistory, eq_comm]

/-! ### The order -/

/-- The refresh a call awaits or has awaited, with the call's first response. -/
def Phase.joined : Phase → Option (Response × ℕ)
  | waiting first r | done (.expired first r) | done (.retried first r _) => some (first, r)
  | sending again | answered again _ | settled again _ => again
  | idle | done (.plain _) => none

/-- What was seen before a mark, if the mark is the settlement of `r`, has a reply to `c` in it. -/
def RepliedBefore (c r : ℕ) (l : List Mark) (mark : Mark) : Prop :=
  ∀ ok, mark = .refreshSettled r ok → ∃ reply, .arrived c reply ∈ l

/-- A reply to the call `c` arrived before the refresh `r` was settled. -/
def Before (c r : ℕ) (log : List Mark) : Prop := ∀ l₁ mark l₂, log = l₁ ++ mark :: l₂ → RepliedBefore c r l₁ mark

/-- Nothing is before a refresh that was not settled yet. -/
theorem Wrapper.Recorded.before (h : W.Recorded st log) (hr : (st.refreshes r).stage ≠ .settled) : Before c r log := by
  rintro l₁ _ l₂ rfl ok rfl
  obtain ⟨starter, reply, hset, -⟩ := h.settled_iff.mp (by simp : refreshSettled r ok ∈ _)
  exact absurd (stage_eq_settled.mpr ⟨starter, reply, hset⟩) hr

/-- A call that has joined a refresh has had its first response. -/
theorem Wrapper.Recorded.arrived (h : W.Recorded st log) (hc : (st.calls c).joined = some (first, r)) :
    .arrived c (.response first) ∈ log ∧ .awaited c r ∈ log := by
  refine (and_congr (h.mem_call c (by simp [ofCall])) (h.mem_call c (by simp [ofCall]))).mpr ?_
  unfold Phase.joined at hc
  split at hc <;> cases hc <;> simp_all [history, upToRequest, upToWait]

/-- A step keeps what came before a settlement. -/
theorem Before.step (h : Before c r log) (hx : Does W st j x)
    (hset : j = some (.refreshed r) → ∃ reply, .arrived c reply ∈ log) : Before c r (log ++ x.marks) := by
  intro l₁ mark l₂ hcut
  refine cuts_append (P := RepliedBefore c r) h (fun m₁ mark m₂ hm => ?_) hcut
  rintro ok rfl
  have hmem : refreshSettled r ok ∈ x.marks := hm ▸ by simp
  cases hx with
  | @refreshed r' _ _ _ _ =>
    rw [mem_singleton, refreshSettled.injEq] at hmem
    obtain ⟨reply, harrived⟩ := hset (by rw [hmem.1])
    exact ⟨reply, mem_append_left _ harrived⟩
  | expired _ _ _ => split_ifs at hmem <;> simp at hmem
  | _ => simp [finish, join] at hmem

/-- The calls and the queue are in order. -/
structure Ordered (W : Wrapper) (st : State) (queue : List Job) (log : List Mark) : Prop where
  /-- A call that goes on after `await send()` has had its reply. -/
  known : ∀ c, .received c ∈ queue → ∃ reply, .arrived c reply ∈ log
  /-- One that goes on before the slot is emptied had it before the refresh in the slot was settled. -/
  front : ∀ r, st.slot = some r → ∀ q₁ q₂, queue = q₁ ++ .cleared :: q₂ → ∀ c, .received c ∈ q₁ → Before c r log
  /-- A call that has joined a refresh had it before the refresh was settled; it was a 401, and no skipped route. -/
  joined : ∀ c first r, (st.calls c).joined = some (first, r) → Before c r log ∧ first.status = 401 ∧ W.skips c = false

/-- A call has joined a refresh before a step, or joins the one in the slot, or starts one. -/
theorem joined_of_does (hx : Does W st j x) (hc : (x.st.calls c).joined = some (first, r)) :
    (st.calls c).joined = some (first, r) ∨ first.status = 401 ∧ W.skips c = false ∧ j = some (.received c) ∧
      (st.slot = some r ∨ st.slot = none ∧ r = st.next) := by
  cases hx <;> simp only [finish, join] at hc <;> grind [update_apply, Phase.joined]

/-- A call is to go on after `await send()` once its reply has arrived. -/
theorem received_of_does (hx : Does W st j x) (hc : .received c ∈ x.jobs) :
    ∃ again reply, st.calls c = .answered again reply := by
  cases hx with
  | sent h =>
    cases mem_singleton.mp hc
    exact ⟨_, _, h⟩
  | @joined c' r _ _ _ _ _ =>
    change Job.received c ∈ ((st.refreshes r).await c').2 at hc
    cases hr : st.refreshes r <;> simp [hr, await] at hc
  | _ => simp [finish] at hc

/-- The job that empties the slot is left when the refresh in the slot is settled. -/
theorem cleared_of_does (hx : Does W st j x) (hc : .cleared ∈ x.jobs) :
    ∃ r, j = some (.refreshed r) ∧ (st.refreshes r).stage = .pending ∧ x.st.slot = st.slot ∧
      ∀ c, .received c ∉ x.jobs := by
  cases hx with
  | refreshed h => exact ⟨_, rfl, by rw [h]; rfl, rfl, by simp⟩
  | joined _ _ _ _ => exact absurd hc (not_cleared_await _ _)
  | _ => simp [finish] at hc

/-- While that job is queued, the slot stays as it is. -/
theorem Sound.slot_kept (hs : Sound st (j.toList ++ queue)) (hx : Does W st j x) (hc : .cleared ∈ queue)
    (hr : x.st.slot = some r) : st.slot = some r := by
  cases hx with
  | started _ _ _ hslot =>
    obtain ⟨r', hr', -⟩ := hs.clear (mem_append_right _ hc)
    cases hslot.symm.trans hr'
  | cleared => cases hr
  | _ => exact hr

theorem Ordered.step (h : Ordered W st (j.toList ++ queue) log) (hs : Sound st (j.toList ++ queue))
    (hrec : W.Recorded st log) (hdue : ∀ i, Due st i → i ∈ j.toList ++ queue) (hx : Does W st j x) :
    Ordered W x.st (queue ++ x.jobs) (log ++ x.marks) := by
  have hsettles : ∀ c first r, (st.calls c).joined = some (first, r) → j = some (.refreshed r) →
      ∃ reply, arrived c reply ∈ log := fun c first r hc _ => ⟨_, (hrec.arrived hc).1⟩
  refine ⟨fun c hc => ?_, fun r hr q₁ q₂ hq c hc => ?_, fun c first r hc => ?_⟩
  · rcases mem_append.mp hc with hc | hc
    · obtain ⟨reply, hreply⟩ := h.known c (mem_append_right _ hc)
      exact ⟨reply, mem_append_left _ hreply⟩
    · obtain ⟨again, reply, hc⟩ := received_of_does hx hc
      have hmem : arrived c reply ∈ log := by
        refine (hrec.mem_call c (by simp [ofCall])).mpr ?_
        simp [hc, history]
      exact ⟨reply, mem_append_left _ hmem⟩
  · by_cases hjobs : Job.cleared ∈ x.jobs
    · -- The step settles the refresh, and `c` was in the queue.
      obtain ⟨r', rfl, hstage, hslot, hno⟩ := cleared_of_does hx hjobs
      have hcq : Job.received c ∈ queue ++ x.jobs := hq ▸ mem_append_left _ hc
      have hknown := h.known c (mem_append_right _ ((mem_append.mp hcq).resolve_right (hno c)))
      cases (hs.single r' hstage).symm.trans (hslot.symm.trans hr)
      refine (hrec.before ?_).step hx fun _ => hknown
      rw [hstage]
      exact nofun
    · -- The job that empties the slot was queued before, behind `c`.
      have hcut : ∃ m, queue = q₁ ++ .cleared :: m := by
        rcases append_eq_append_iff.mp hq with ⟨m, -, hm⟩ | ⟨m, hqueue, hm⟩
        · exact absurd (hm ▸ by simp) hjobs
        · cases m with
          | nil =>
            rw [nil_append] at hm
            exact absurd (hm ▸ mem_cons_self) hjobs
          | cons i m =>
            cases hm
            exact ⟨m, hqueue⟩
      obtain ⟨m, rfl⟩ := hcut
      have hslot := hs.slot_kept hx (by simp) hr
      have hbefore := h.front r hslot (j.toList ++ q₁) m (by simp) c (mem_append_right _ hc)
      exact hbefore.step hx fun _ => h.known c (by simp [hc])
  · rcases joined_of_does hx hc with hc | ⟨hstatus, hskips, rfl, hslot⟩
    · obtain ⟨hbefore, hfirst⟩ := h.joined c first r hc
      exact ⟨hbefore.step hx (hsettles c first r hc), hfirst⟩
    · refine ⟨Before.step ?_ hx nofun, hstatus, hskips⟩
      by_cases hstage : (st.refreshes r).stage = .settled
      · -- The slot holds a settled refresh: the call goes on before the job that empties it.
        have hr : st.slot = some r := by
          refine hslot.resolve_right ?_
          rintro ⟨-, rfl⟩
          cases hstage.symm.trans (hs.fresh _ le_rfl)
        obtain ⟨starter, reply, hset⟩ := stage_eq_settled.mp hstage
        have hclear : Job.cleared ∈ queue :=
          (mem_cons.mp (hdue .cleared ⟨r, starter, reply, hr, hset⟩)).resolve_left nofun
        obtain ⟨q₁, q₂, rfl⟩ := append_of_mem hclear
        exact h.front r hr (.received c :: q₁) q₂ rfl c mem_cons_self
      · exact hrec.before hstage

namespace Wrapper

/-- At every moment of a run the calls and the queue are in order. -/
theorem Reaches.ordered (h : W.Reaches cfg) : Ordered W cfg.st cfg.queue cfg.log :=
  h.invariant (fun cfg => Ordered W cfg.st cfg.queue cfg.log) ⟨nofun, nofun, nofun⟩
    fun _ _ _ _ _ hreach ho hx => ho.step hreach.sound hreach.recorded (fun _ => hreach.due) hx

end Wrapper

/-! ### Verdicts -/

/-- The refresh whose outcome a call has acted on, and that outcome. -/
def Phase.verdict : Phase → Option (ℕ × Bool)
  | sending again | answered again _ | settled again _ => again.map fun joined => (joined.2, true)
  | done (.retried _ r _) => some (r, true)
  | done (.expired _ r) => some (r, false)
  | _ => none

/-- The call that started a refresh. -/
def Refresh.starter : Refresh → Option ℕ
  | unstarted => none
  | inFlight starter _ | answered starter _ _ | settled starter _ => some starter

theorem starter_await (refresh : Refresh) (c : ℕ) : (refresh.await c).1.starter = refresh.starter := by
  cases refresh <;> rfl

/-- A refresh that is settled stays so. -/
theorem settled_of_does (hx : Does W st j x) {r starter : ℕ} (hr : st.refreshes r = .settled starter reply)
    (hs : (st.refreshes st.next).stage = .unstarted) : x.st.refreshes r = .settled starter reply := by
  cases hx <;> simp only [finish, join] <;>
    grind [update_apply, await_eq_settled, stage]

/-- What a call has acted on is how its refresh was settled, and who started a refresh was at no skipped route. -/
structure Judged (W : Wrapper) (st : State) : Prop where
  /-- The verdicts. -/
  verdict : ∀ c r ok, (st.calls c).verdict = some (r, ok) →
    ∃ starter reply, st.refreshes r = .settled starter reply ∧ reply.ok = ok
  /-- The starters. -/
  starter : ∀ r c, (st.refreshes r).starter = some c → W.skips c = false

theorem Judged.step (h : Judged W st) (hs : Sound st queue) (hx : Does W st j x) : Judged W x.st := by
  constructor
  · intro c r ok hc
    have hold : (st.calls c).verdict = some (r, ok) ∨
        ∃ starter reply, st.refreshes r = .settled starter reply ∧ reply.ok = ok := by
      cases hx <;> simp only [finish, join] at hc <;> grind [update_apply, Phase.verdict]
    obtain ⟨starter, reply, hr, hok⟩ := hold.elim (h.verdict c r ok) id
    exact ⟨starter, reply, settled_of_does hx hr (hs.fresh _ le_rfl), hok⟩
  · intro r c hc
    have hstarter := h.starter r c
    cases hx <;> simp only [finish, join] at hc <;>
      grind [update_apply, Refresh.starter, starter_await]

theorem Wrapper.Reaches.judged (h : W.Reaches cfg) : Judged W cfg.st :=
  h.invariant (fun cfg => Judged W cfg.st) ⟨nofun, nofun⟩ fun _ _ _ _ _ hreach hj hx => hj.step hreach.sound hx

/-! ### The guarantees -/

/-- The request of a refresh is in flight. -/
def InFlight (log : List Mark) (r : ℕ) : Prop :=
  (∃ c request, .refreshRequested r c request ∈ log) ∧ ∀ reply, .refreshArrived r reply ∉ log

/-- Whether a call sends its request. -/
def Mark.sends (c : ℕ) : Mark → Bool
  | requested c' _ => c' = c
  | _ => false

/-- Whether a call awaits a refresh. -/
def Mark.waits (c : ℕ) : Mark → Bool
  | awaited c' _ => c' = c
  | _ => false

/-- Whether a call calls `onSessionExpired`. -/
def Mark.expires (c : ℕ) : Mark → Bool
  | expired c' => c' = c
  | _ => false

/-- Whether the request of a refresh is sent. -/
def Mark.refreshes (r : ℕ) : Mark → Bool
  | refreshRequested r' _ _ => r' = r
  | _ => false

/-- What must have been seen of a call that sends its request for the second time: a 401, and a refresh that it awaited,
whose reply was a success, and that was not settled when the 401 arrived. -/
def Retries (c : ℕ) (l : List Mark) : Prop :=
  ∃ m₁ first m₂ r starter request reply, l = m₁ ++ .arrived c (.response first) :: m₂ ∧ first.status = 401 ∧
    .awaited c r ∈ m₂ ∧ .refreshRequested r starter request ∈ l ∧ .refreshArrived r reply ∈ l ∧ reply.ok = true ∧
    .refreshSettled r true ∈ m₂ ∧ ∀ ok, .refreshSettled r ok ∉ m₁

/-- What the wrapper keeps to a call. -/
structure Kept (W : Wrapper) (cfg : Config State Job Mark) (c : ℕ) : Prop where
  /-- A call that was made sends its request once or twice. -/
  sends : cfg.st.calls c = .idle ∧ cfg.log.countP (Mark.sends c) = 0 ∨ cfg.log.countP (Mark.sends c) = 1 ∨
    cfg.log.countP (Mark.sends c) = 2
  /-- It awaits one refresh at most. -/
  waits : cfg.log.countP (Mark.waits c) ≤ 1
  /-- It sends the second after a refresh that succeeded. -/
  second : ∀ l₁ request l₂, cfg.log = l₁ ++ .requested c request :: l₂ → (∃ request', .requested c request' ∈ l₁) →
    Retries c l₁
  /-- A call of a skipped route awaits no refresh, and starts none. -/
  skipped : W.skips c = true → (∀ r, .awaited c r ∉ cfg.log) ∧ ∀ r request, .refreshRequested r c request ∉ cfg.log
  /-- A call whose refresh failed sends no second request. When it has returned, and at the end of the turn at the latest,
  it has returned its first response, and `onSessionExpired` was called once by it if there is one. -/
  failed : ∀ r, .awaited c r ∈ cfg.log → .refreshSettled r false ∈ cfg.log → cfg.log.countP (Mark.sends c) = 1 ∧
    (cfg.queue = [] ∨ (∃ reply, .returned c reply ∈ cfg.log) →
      ∃ first, .arrived c (.response first) ∈ cfg.log ∧ (∀ reply, .returned c reply ∈ cfg.log ↔ reply = .response first) ∧
        cfg.log.countP (Mark.expires c) = if W.config.onSessionExpired then 1 else 0)

/-- Marks of a kind are counted among those of a wider kind. -/
theorem countP_filter_of_imp {p q : Mark → Bool} (hp : ∀ mark, p mark = true → q mark = true) (log : List Mark) :
    log.countP p = (log.filter q).countP p := by
  rw [countP_filter]
  refine countP_congr fun mark _ => ?_
  rw [Bool.and_eq_true]
  exact ⟨fun hm => ⟨hm, hp mark hm⟩, And.left⟩

theorem ofCall_of_sends (mark : Mark) (h : mark.sends c = true) : mark.ofCall c = true := by
  cases mark <;> first | exact h | cases h

theorem ofCall_of_waits (mark : Mark) (h : mark.waits c = true) : mark.ofCall c = true := by
  cases mark <;> first | exact h | cases h

theorem ofCall_of_expires (mark : Mark) (h : mark.expires c = true) : mark.ofCall c = true := by
  cases mark <;> first | exact h | cases h

theorem ofRefresh_of_refreshes (mark : Mark) (h : mark.refreshes r = true) : mark.ofRefresh r = true := by
  cases mark <;> first | exact h | cases h

/-- A call that was seen to await a refresh has joined it. -/
theorem Wrapper.Recorded.joined (hrec : W.Recorded st log) (h : .awaited c r ∈ log) :
    ∃ first, (st.calls c).joined = some (first, r) := by
  replace h := (hrec.mem_call c (by simp [ofCall])).mp h
  generalize st.calls c = phase at h ⊢
  rcases phase with _ | (_ | ⟨first, r'⟩) | ⟨_ | ⟨first, r'⟩, reply⟩ | ⟨_ | ⟨first, r'⟩, reply⟩ | ⟨first, r'⟩ |
    (reply | ⟨first, r'⟩ | ⟨first, r', reply⟩)
  all_goals simp [history, upToRequest, upToWait] at h
  all_goals simp [Phase.joined, h]

/-- What was seen of a refresh before it was seen to be settled. -/
theorem not_settled_before {l₁ l₂ : List Mark} {r starter : ℕ} {ok : Bool}
    (h : W.Recorded st (l₁ ++ .refreshSettled r ok :: l₂)) (hr : st.refreshes r = .settled starter reply)
    (ok' : Bool) : .refreshSettled r ok' ∉ l₁ := by
  intro hmem
  have hseen := h.refreshes r
  rw [hr, filter_append, filter_cons_of_pos (by simp [ofRefresh])] at hseen
  replace hmem : refreshSettled r ok' ∈ l₁.filter (ofRefresh r) := by simp [hmem, ofRefresh]
  rcases hl : l₁.filter (ofRefresh r) with _ | ⟨_, _ | ⟨_, _ | ⟨_, l⟩⟩⟩ <;> rw [hl] at hseen hmem <;>
    simp_all [refreshHistory]

/-- The reply of a call that waits, in the log. -/
theorem first_of_arrived {l₁ l₂ : List Mark} (h : W.Recorded st (l₁ ++ .arrived c reply :: l₂))
    (hc : st.calls c = .waiting first r) : reply = .response first ∧ .awaited c r ∈ l₂ := by
  have hseen := h.calls c
  rw [hc, filter_append, filter_cons_of_pos (by simp [ofCall])] at hseen
  suffices hfilter : reply = .response first ∧ .awaited c r ∈ l₂.filter (ofCall c) from
    hfilter.imp_right mem_of_mem_filter
  rcases hl : l₁.filter (ofCall c) with _ | ⟨_, _ | ⟨_, _ | ⟨_, l⟩⟩⟩ <;> rw [hl] at hseen <;>
    simp_all [history, upToWait]

/-- A call that sends its request again has had a refresh for its 401. -/
theorem retries_of_waiting (hrec : W.Recorded st log) {c r starter : ℕ} (hbefore : Before c r log)
    (hstatus : first.status = 401) (hc : st.calls c = .waiting first r)
    (hr : st.refreshes r = .settled starter reply) (hok : reply.ok = true) : Retries c log := by
  have hset : refreshSettled r true ∈ log := hrec.settled_iff.mpr ⟨starter, reply, hr, hok⟩
  have hseen : ∀ mark ∈ W.refreshHistory r (.settled starter reply), mark.ofRefresh r = true → mark ∈ log :=
    fun mark hmem hmark => (hrec.mem_refresh r hmark).mpr (hr ▸ hmem)
  have hsent : refreshRequested r starter (refreshRequest W.config) ∈ log :=
    hseen _ (by simp [refreshHistory]) (decide_eq_true rfl)
  have hreplied : refreshArrived r reply ∈ log :=
    hseen _ (by simp [refreshHistory]) (decide_eq_true rfl)
  obtain ⟨n₁, n₂, rfl⟩ := append_of_mem hset
  obtain ⟨reply', harrived⟩ := hbefore n₁ _ n₂ rfl true rfl
  obtain ⟨m₁, m₂, rfl⟩ := append_of_mem harrived
  have hnot := not_settled_before hrec hr
  rw [append_assoc, cons_append] at hrec
  obtain ⟨rfl, hwait⟩ := first_of_arrived hrec hc
  refine ⟨m₁, first, m₂ ++ .refreshSettled r true :: n₂, r, starter, _, reply, by simp, hstatus, hwait, hsent, hreplied,
    hok, by simp, fun ok hmem => ?_⟩
  exact hnot ok (mem_append_left _ hmem)

/-- A mark, if it is the second request of a call, comes after a refresh for its 401. -/
def AfterRefresh (c : ℕ) (l : List Mark) (mark : Mark) : Prop :=
  ∀ request, mark = .requested c request → (∃ request', .requested c request' ∈ l) → Retries c l

/-- What a step adds to the log has its second requests after a refresh. -/
theorem after_of_does {m₁ m₂ : List Mark} (hrec : W.Recorded st log) (ho : Ordered W st queue log)
    (hx : Does W st j x) (c : ℕ) (hm : x.marks = m₁ ++ mark :: m₂) : AfterRefresh c (log ++ m₁) mark := by
  rintro request rfl ⟨request', hearlier⟩
  have hmem : requested c request ∈ x.marks := hm ▸ by simp
  cases hx with
  | made hc =>
    obtain ⟨rfl, hmark⟩ := (append_eq_singleton_iff.mp hm.symm).resolve_right (by simp)
    cases hmark
    -- A call that is made has not sent anything.
    rw [append_nil] at hearlier
    have hnone := (hrec.mem_call c (by simp [ofCall])).mp hearlier
    rw [hc] at hnone
    cases hnone
  | resent hc hr hok =>
    obtain ⟨rfl, hmark⟩ := (append_eq_singleton_iff.mp hm.symm).resolve_right (by simp)
    cases hmark
    obtain ⟨hbefore, hstatus, -⟩ := ho.joined c _ _ (by rw [hc]; rfl)
    rw [append_nil]
    exact retries_of_waiting hrec hbefore hstatus hc hr hok
  | expired _ _ _ => split_ifs at hmem <;> simp at hmem
  | _ => simp [finish, join] at hmem

namespace Wrapper

/-- Every second request comes after a refresh. -/
theorem Reaches.afterRefresh (h : W.Reaches cfg) (c : ℕ) :
    ∀ l₁ mark l₂, cfg.log = l₁ ++ mark :: l₂ → AfterRefresh c l₁ mark := by
  refine h.invariant (fun cfg => ∀ l₁ mark l₂, cfg.log = l₁ ++ mark :: l₂ → AfterRefresh c l₁ mark) ?_ ?_
  · intro l₁ mark l₂ hcut
    cases append_eq_nil_iff.mp hcut.symm |>.2
  · intro st j queue log x hreach hlog hx l₁ mark l₂ hcut
    exact cuts_append (P := AfterRefresh c) hlog (fun _ _ _ => after_of_does hreach.recorded hreach.ordered hx c) hcut

/-- A call that was made sends its request once or twice. -/
theorem Recorded.sends (h : W.Recorded st log) (c : ℕ) :
    st.calls c = .idle ∧ log.countP (Mark.sends c) = 0 ∨ log.countP (Mark.sends c) = 1 ∨
      log.countP (Mark.sends c) = 2 := by
  rw [countP_filter_of_imp ofCall_of_sends, h.calls]
  rcases st.calls c with _ | (_ | joined) | ⟨_ | joined, reply⟩ | ⟨_ | joined, reply⟩ | ⟨first, r⟩ |
    (reply | ⟨first, r⟩ | ⟨first, r, reply⟩)
  all_goals simp [history, upToRequest, upToWait, Mark.sends]

/-- It awaits one refresh at most. -/
theorem Recorded.waits (h : W.Recorded st log) (c : ℕ) : log.countP (Mark.waits c) ≤ 1 := by
  rw [countP_filter_of_imp ofCall_of_waits, h.calls]
  rcases st.calls c with _ | (_ | joined) | ⟨_ | joined, reply⟩ | ⟨_ | joined, reply⟩ | ⟨first, r⟩ |
    (reply | ⟨first, r⟩ | ⟨first, r, reply⟩)
  all_goals simp [history, upToRequest, upToWait, Mark.waits]

/-- The request of a refresh is sent once at most. -/
theorem Recorded.refreshOnce (h : W.Recorded st log) (r : ℕ) : log.countP (Mark.refreshes r) ≤ 1 := by
  rw [countP_filter_of_imp ofRefresh_of_refreshes, h.refreshes]
  cases st.refreshes r <;> simp [refreshHistory, Mark.refreshes]

/-- A refresh whose request is in flight is pending. -/
theorem Recorded.pending (h : W.Recorded st log) (hr : InFlight log r) : (st.refreshes r).stage = .pending := by
  obtain ⟨⟨c, request, hsent⟩, hno⟩ := hr
  have harrived : ∀ reply, refreshArrived r reply ∉ W.refreshHistory r (st.refreshes r) := fun reply hmem =>
    hno reply ((h.mem_refresh r (by simp [ofRefresh])).mpr hmem)
  replace hsent := (h.mem_refresh r (by simp [ofRefresh])).mp hsent
  cases hst : st.refreshes r with
  | unstarted =>
    rw [hst] at hsent
    cases hsent
  | inFlight _ _ | answered _ _ _ => rfl
  | settled _ reply =>
    rw [hst] at harrived
    exact absurd (by simp [refreshHistory]) (harrived reply)

/-- A call of a skipped route awaits no refresh, and starts none. -/
theorem Reaches.skipped (h : W.Reaches cfg) (hskips : W.skips c = true) :
    (∀ r, .awaited c r ∉ cfg.log) ∧ ∀ r request, .refreshRequested r c request ∉ cfg.log := by
  refine ⟨fun r hmem => ?_, fun r request hmem => ?_⟩
  · obtain ⟨first, hjoined⟩ := h.recorded.joined hmem
    cases hskips.symm.trans (h.ordered.joined c first r hjoined).2.2
  · replace hmem := (h.recorded.mem_refresh r (by simp [ofRefresh])).mp hmem
    refine absurd (h.judged.starter r c ?_) (by simp [hskips])
    cases hst : cfg.st.refreshes r <;> simp [hst, refreshHistory] at hmem <;> simp [starter, hmem]

/-- A call that awaits a refresh that failed has not ended yet, or has expired. -/
theorem Reaches.lapsed (h : W.Reaches cfg) (hc : .awaited c r ∈ cfg.log) (hr : .refreshSettled r false ∈ cfg.log) :
    ∃ first, cfg.st.calls c = .waiting first r ∧ .resumed c ∈ cfg.queue ∨ cfg.st.calls c = .done (.expired first r) := by
  obtain ⟨first, hjoined⟩ := h.recorded.joined hc
  obtain ⟨starter, reply, hset, hok⟩ := h.recorded.settled_iff.mp hr
  have hverdict : ∀ ok, (cfg.st.calls c).verdict = some (r, ok) → ok = false := by
    intro ok hv
    obtain ⟨starter', reply', hset', rfl⟩ := h.judged.verdict c r ok hv
    cases hset.symm.trans hset'
    exact hok
  refine ⟨first, ?_⟩
  rcases hphase : cfg.st.calls c with _ | again | ⟨again, reply⟩ | ⟨again, reply⟩ | ⟨first', r'⟩ |
    (reply | ⟨first', r'⟩ | ⟨first', r', reply⟩) <;> rw [hphase] at hjoined hverdict <;> cases hjoined
  case waiting => exact .inl ⟨rfl, h.due ⟨first, r, starter, reply, hphase, hset⟩⟩
  case done.expired => exact .inr rfl
  all_goals cases hverdict true rfl

/-- When its refresh fails a call returns its first response. -/
theorem Reaches.failed (h : W.Reaches cfg) (hc : .awaited c r ∈ cfg.log) (hr : .refreshSettled r false ∈ cfg.log) :
    cfg.log.countP (sends c) = 1 ∧
    (cfg.queue = [] ∨ (∃ reply, .returned c reply ∈ cfg.log) →
      ∃ first, .arrived c (.response first) ∈ cfg.log ∧ (∀ reply, .returned c reply ∈ cfg.log ↔ reply = .response first) ∧
        cfg.log.countP (expires c) = if W.config.onSessionExpired then 1 else 0) := by
  have hreturned : ∀ reply, returned c reply ∈ cfg.log ↔ .returned c reply ∈ W.history c (cfg.st.calls c) :=
    fun reply => h.recorded.mem_call c (by simp [ofCall])
  rw [countP_filter_of_imp ofCall_of_sends, countP_filter_of_imp ofCall_of_expires, h.recorded.calls]
  simp only [hreturned]
  obtain ⟨first, ⟨hphase, hdue⟩ | hphase⟩ := h.lapsed hc hr <;> rw [hphase]
  · refine ⟨by simp [history, upToWait, sends], ?_⟩
    rintro (hempty | ⟨reply, hmem⟩)
    · rw [hempty] at hdue
      cases hdue
    · simp [history, upToWait] at hmem
  · refine ⟨by simp [history, upToWait, sends], fun _ => ⟨first, ?_, ?_, ?_⟩⟩
    · exact (h.recorded.arrived (by rw [hphase]; rfl)).1
    · simp [history, upToWait]
    · split_ifs <;> simp_all [history, upToWait, expires]

end Wrapper

/-- **Single-flight refresh.** At every moment of every run, with any number of calls and with replies and failures in any
order, at most one refresh request is in flight, each refresh is requested once, and every call is kept what it is
promised. -/
theorem single_flight {cfg : Config State Job Mark} (h : W.Reaches cfg) :
    (∀ r r', InFlight cfg.log r → InFlight cfg.log r' → r = r') ∧ (∀ r, cfg.log.countP (Mark.refreshes r) ≤ 1) ∧
      ∀ c, Kept W cfg c := by
  refine ⟨fun r r' hr hr' => ?_, h.recorded.refreshOnce, fun c => ?_⟩
  · have hslot := h.sound.single r (h.recorded.pending hr)
    exact Option.some.inj (hslot.symm.trans (h.sound.single r' (h.recorded.pending hr')))
  · exact {
      sends := h.recorded.sends c
      waits := h.recorded.waits c
      second := fun l₁ request l₂ hcut => h.afterRefresh c l₁ _ l₂ hcut request rfl
      skipped := h.skipped
      failed := fun r => h.failed }

/-- Two calls of a page. -/
def page : Wrapper where
  config := { baseUrl := "https://api.example.com", onSessionExpired := true }
  input c := .text (if c = 0 then "/orders" else "/invoices")
  init _ := {}

/-- Two calls meet a 401, the refresh of the first one succeeds, and both send their request again. -/
def burst : List (Option Event) :=
  [some (.call 0), some (.call 1), some (.reply 0 (.response ⟨401, "first"⟩)), none, none,
    some (.reply 1 (.response ⟨401, "second"⟩)), none, none, some (.refreshReply 0 (.response ⟨200, ""⟩)), none, none,
    none, none]

theorem single_flight_burst : ∃ cfg, page.Reaches cfg ∧ cfg.queue = [] ∧ cfg.log.countP (refreshes 0) = 1 ∧
    (∀ c < 2, cfg.log.countP (sends c) = 2) ∧ (∀ r r', InFlight cfg.log r → InFlight cfg.log r' → r = r') ∧
      ∀ c, Kept page cfg c := by
  obtain ⟨cfg, hreach, hseen⟩ := reach_of_schedule burst (fun cfg => cfg.queue = [] ∧
    cfg.log.countP (refreshes 0) = 1 ∧ ∀ c < 2, cfg.log.countP (sends c) = 2)
    (by decide +kernel : (run page.loop _ (start initial)).any _ = true)
  obtain ⟨hqueue, honce, htwice⟩ := of_decide_eq_true hseen
  obtain ⟨hsingle, -, hkept⟩ := single_flight hreach
  exact ⟨cfg, hreach, hqueue, honce, htwice, hsingle, hkept⟩

end BymaxAuth.Client
