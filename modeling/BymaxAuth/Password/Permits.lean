import BymaxAuth.Password.Phc
import Mathlib.Data.Finset.Card

/-!
# Concurrent derivations

`PasswordService::hash` and `verify` (`services/password.rs`): a call takes one of the KDF's permits, hands the
derivation to the blocking pool, waits for it, and gives the permit back when it returns. The permits are sized from
a memory budget (`kdf_permit_count`), because a derivation holds its working set while it runs.

The permit belongs to the calling future, and the derivation to a thread of the pool. A future may be dropped at
either of its two awaits. What it holds is then released; the derivation goes on.

## The model

A call is its number; `hash` and `verify` await the same things, and what they compute is in
`BymaxAuth.Password.Phc`. The semaphore is fair: a permit that is released goes to the call that has waited longest,
which holds it from then on, whether or not it has been polled. The pool starts the derivations it was handed in any
order, and a derivation that was handed over runs to its end.
-/

namespace BymaxAuth.Password

open Finset

/-! ### How many permits there are -/

/-- `KDF_MEMORY_BUDGET_MIB` -/
def kdfMemoryBudgetMib : ℕ := 512

/-- `usize::MAX` -/
def usizeMax : ℕ := 2 ^ 64 - 1

/-- `usize::saturating_mul` -/
def saturatingMul (a b : ℕ) : ℕ := min (a * b) usizeMax

/-- `kdf_working_set_mib` -/
def kdfWorkingSetMib (config : PasswordConfig) : ℕ :=
  match config.active with
  | .scrypt =>
    max (saturatingMul (saturatingMul 128 config.scrypt.costFactor.toNat) config.scrypt.blockSize.toNat
      / (1024 * 1024)) 1
  | .argon2id => max (config.argon2.memoryKib.toNat / 1024) 1

/-- `kdf_permit_count`, on a machine with so many cores. -/
def kdfPermitCount (config : PasswordConfig) (cores : ℕ) : ℕ :=
  let byMemory := kdfMemoryBudgetMib / kdfWorkingSetMib config
  -- `clamp(2, cores.max(2))`
  min (max byMemory 2) (max cores 2)

/-! ### Calls, permits and derivations -/

/-- Where the calls, the permits and the derivations are. -/
structure KdfState where
  /-- The permits nobody holds. -/
  available : ℕ
  /-- The calls that wait for a permit, the longest first. -/
  waiting : List ℕ
  /-- The calls that were given a permit and not polled since. -/
  granted : Finset ℕ
  /-- The calls that hold a permit and wait for their derivation. -/
  joining : Finset ℕ
  /-- The calls that returned or were dropped. -/
  gone : Finset ℕ
  /-- The derivations handed to the pool and not started. -/
  queued : Finset ℕ
  /-- The derivations in progress. -/
  running : Finset ℕ
  /-- The derivations that ended. -/
  finished : Finset ℕ
  deriving DecidableEq

namespace KdfState

/-- No call was made. -/
def initial (permits : ℕ) : KdfState :=
  { available := permits, waiting := [], granted := ∅, joining := ∅, gone := ∅, queued := ∅, running := ∅,
    finished := ∅ }

/-- A permit is released: whoever has waited longest has it now. -/
def release (s : KdfState) : KdfState :=
  match s.waiting with
  | [] => { s with available := s.available + 1 }
  | next :: rest => { s with waiting := rest, granted := insert next s.granted }

/-- The permit is had: the derivation is handed to the pool, and the call waits for it. -/
def spawn (s : KdfState) (call : ℕ) : KdfState :=
  { s with joining := insert call s.joining, queued := insert call s.queued }

/-- What can happen. -/
inductive Action where
  /-- A call is polled for the first time. -/
  | begin (call : ℕ)
  /-- A call that was given a permit is polled. -/
  | resume (call : ℕ)
  /-- The pool starts a derivation. -/
  | start (call : ℕ)
  /-- A derivation ends. -/
  | finish (call : ℕ)
  /-- A call whose derivation has ended returns. -/
  | join (call : ℕ)
  /-- The future of a call is dropped at an await. -/
  | drop (call : ℕ)
  deriving DecidableEq

/-- A call that was not polled yet. -/
def isNew (s : KdfState) (call : ℕ) : Bool :=
  call ∉ s.waiting ∧ call ∉ s.granted ∧ call ∉ s.joining ∧ call ∉ s.gone

/-- One step; `none` if it cannot happen now. -/
def step (s : KdfState) : Action → Option KdfState
  | .begin call =>
    if s.isNew call then
      match s.available with
      | available + 1 => some (spawn { s with available } call)
      | 0 => some { s with waiting := s.waiting ++ [call] }
    else none
  | .resume call =>
    if call ∈ s.granted then some (spawn { s with granted := s.granted.erase call } call) else none
  | .start call =>
    if call ∈ s.queued then
      some { s with queued := s.queued.erase call, running := insert call s.running }
    else none
  | .finish call =>
    if call ∈ s.running then
      some { s with running := s.running.erase call, finished := insert call s.finished }
    else none
  | .join call =>
    if call ∈ s.joining ∧ call ∈ s.finished then
      some (release { s with joining := s.joining.erase call, gone := insert call s.gone })
    else none
  | .drop call =>
    if call ∈ s.waiting then
      some { s with waiting := s.waiting.erase call, gone := insert call s.gone }
    else if call ∈ s.granted then
      some (release { s with granted := s.granted.erase call, gone := insert call s.gone })
    else if call ∈ s.joining then
      -- The permit is released with the future; the derivation stays where it is.
      some (release { s with joining := s.joining.erase call, gone := insert call s.gone })
    else none

/-- The states that can be reached by steps which meet a condition. -/
inductive Reaches (meets : KdfState → Action → Prop) (permits : ℕ) : KdfState → Prop where
  /-- At first. -/
  | initial : Reaches meets permits (initial permits)
  /-- By one more step. -/
  | step {s s' : KdfState} (a : Action) : Reaches meets permits s → meets s a → s.step a = some s' →
      Reaches meets permits s'

/-- No future is dropped while its derivation is in the pool. -/
def Attended (s : KdfState) (a : Action) : Prop :=
  ∀ call, a = .drop call → call ∈ s.joining → call ∈ s.finished

/-! ### What a step keeps -/

/-- A call is in one place at a time, and so is its derivation, which it hands over when it has its permit. -/
structure Placed (s : KdfState) : Prop where
  /-- Nobody waits twice. -/
  nodup : s.waiting.Nodup
  /-- A call that waits is nowhere else. -/
  waiting : ∀ call ∈ s.waiting, call ∉ s.granted ∧ call ∉ s.joining ∧ call ∉ s.gone
  /-- A call that was given a permit waits for nothing else. -/
  granted : ∀ call ∈ s.granted, call ∉ s.joining ∧ call ∉ s.gone
  /-- A call that waits for its derivation is not gone. -/
  joining : ∀ call ∈ s.joining, call ∉ s.gone
  /-- A derivation that was not started is neither in progress nor ended. -/
  queued : ∀ call ∈ s.queued, call ∉ s.running ∧ call ∉ s.finished
  /-- A derivation in progress has not ended. -/
  running : ∀ call ∈ s.running, call ∉ s.finished
  /-- The caller of a derivation waits for it or is gone. -/
  handed : ∀ call, call ∈ s.queued ∨ call ∈ s.running ∨ call ∈ s.finished → call ∈ s.joining ∨ call ∈ s.gone

/-- The permits that are held. -/
def held (s : KdfState) : ℕ := s.granted.card + s.joining.card

variable {s s' : KdfState} {permits : ℕ}

/-- A release moves the permit to the longest waiting call, and nothing else. -/
theorem release_cases (s : KdfState) : (s.waiting = [] ∧ s.release = { s with available := s.available + 1 }) ∨
    ∃ next rest, s.waiting = next :: rest ∧
      s.release = { s with waiting := rest, granted := insert next s.granted } := by
  unfold release
  cases hw : s.waiting with
  | nil => exact .inl ⟨rfl, rfl⟩
  | cons next rest => exact .inr ⟨next, rest, rfl, rfl⟩

theorem Placed.release (h : s.Placed) : s.release.Placed := by
  obtain ⟨hnodup, hwaiting, hgranted, hjoining, hqueued, hrunning, hhanded⟩ := h
  obtain ⟨-, heq⟩ | ⟨next, rest, hw, heq⟩ := s.release_cases
  · rw [heq]
    exact ⟨hnodup, hwaiting, hgranted, hjoining, hqueued, hrunning, hhanded⟩
  · rw [heq]
    rw [hw] at hnodup hwaiting
    constructor <;> grind

/-- A release makes one permit more, available or held. -/
theorem release_held (h : ∀ call ∈ s.waiting, call ∉ s.granted) :
    s.release.available + s.release.held = s.available + s.held + 1 := by
  obtain ⟨-, heq⟩ | ⟨next, rest, hw, heq⟩ := s.release_cases
  · rw [heq]
    show s.available + 1 + s.held = _
    omega
  · rw [heq]
    have hnext : next ∉ s.granted := h next (by simp [hw])
    simp only [held, card_insert_of_notMem hnext]
    omega

variable {call : ℕ} {a : Action}

/-- A call that has neither waited for a derivation nor gone can hand one over. -/
theorem Placed.spawn (h : s.Placed) (hw : call ∉ s.waiting) (hg : call ∉ s.granted) (hj : call ∉ s.joining)
    (hx : call ∉ s.gone) : (s.spawn call).Placed := by
  obtain ⟨hnodup, hwaiting, hgranted, hjoining, hqueued, hrunning, hhanded⟩ := h
  unfold KdfState.spawn
  constructor <;> grind

theorem spawn_held (hj : call ∉ s.joining) : (s.spawn call).held = s.held + 1 := by
  simp only [held, spawn, card_insert_of_notMem hj]
  omega

/-- What a step can do, with what it needs. -/
inductive Step (s : KdfState) : Action → KdfState → Prop where
  /-- A permit is available. -/
  | acquire {call n : ℕ} : s.isNew call = true → s.available = n + 1 →
      Step s (.begin call) (spawn { s with available := n } call)
  /-- None is. -/
  | wait {call : ℕ} : s.isNew call = true → Step s (.begin call) { s with waiting := s.waiting ++ [call] }
  /-- A call goes on with the permit it was given. -/
  | resume {call : ℕ} : call ∈ s.granted →
      Step s (.resume call) (spawn { s with granted := s.granted.erase call } call)
  /-- A derivation starts. -/
  | start {call : ℕ} : call ∈ s.queued →
      Step s (.start call) { s with queued := s.queued.erase call, running := insert call s.running }
  /-- A derivation ends. -/
  | finish {call : ℕ} : call ∈ s.running →
      Step s (.finish call) { s with running := s.running.erase call, finished := insert call s.finished }
  /-- A call that waits for a permit is dropped. -/
  | leave {call : ℕ} : call ∈ s.waiting →
      Step s (.drop call) { s with waiting := s.waiting.erase call, gone := insert call s.gone }
  /-- A call is dropped with the permit it was given. -/
  | decline {call : ℕ} : call ∈ s.granted →
      Step s (.drop call) (release { s with granted := s.granted.erase call, gone := insert call s.gone })
  /-- A call that waits for its derivation returns or is dropped. -/
  | part {call : ℕ} {a : Action} : a = .drop call ∨ a = .join call ∧ call ∈ s.finished → call ∈ s.joining →
      Step s a (release { s with joining := s.joining.erase call, gone := insert call s.gone })

theorem step_inv (h : s.step a = some s') : Step s a s' := by
  cases a with
  | begin call =>
    simp only [step] at h
    split_ifs at h with hnew
    split at h
    · next havail =>
      cases h
      exact .acquire hnew havail
    · cases h
      exact .wait hnew
  | resume call =>
    simp only [step] at h
    split_ifs at h with hm
    cases h
    exact .resume hm
  | start call =>
    simp only [step] at h
    split_ifs at h with hm
    cases h
    exact .start hm
  | finish call =>
    simp only [step] at h
    split_ifs at h with hm
    cases h
    exact .finish hm
  | join call =>
    simp only [step] at h
    split_ifs at h with hm
    cases h
    exact .part (.inr ⟨rfl, hm.2⟩) hm.1
  | drop call =>
    simp only [step] at h
    split_ifs at h with hw hg hj
    · cases h
      exact .leave hw
    · cases h
      exact .decline hg
    · cases h
      exact .part (.inl rfl) hj

theorem isNew_iff : s.isNew call = true ↔ call ∉ s.waiting ∧ call ∉ s.granted ∧ call ∉ s.joining ∧ call ∉ s.gone := by
  simp [isNew]

/-- Every call and every derivation stays in one place. -/
theorem Placed.step (h : s.Placed) (hs : Step s a s') : s'.Placed := by
  obtain ⟨hnodup, hwaiting, hgranted, hjoining, hqueued, hrunning, hhanded⟩ := h
  cases hs with
  | @acquire call n hnew _ =>
    obtain ⟨hw, hg, hj, hx⟩ := isNew_iff.mp hnew
    exact Placed.spawn (s := { s with available := n })
      ⟨hnodup, hwaiting, hgranted, hjoining, hqueued, hrunning, hhanded⟩ hw hg hj hx
  | @wait call hnew =>
    obtain ⟨hw, hg, hj, hx⟩ := isNew_iff.mp hnew
    constructor <;> grind
  | @resume call hm =>
    refine Placed.spawn (s := { s with granted := s.granted.erase call }) ?_ (fun hc => (hwaiting call hc).1 hm)
      (notMem_erase call _) (hgranted call hm).1 (hgranted call hm).2
    constructor <;> grind
  | @start call hm => constructor <;> grind
  | @finish call hm => constructor <;> grind
  | @leave call hm => constructor <;> grind [hnodup.erase call, hnodup.mem_erase_iff]
  | @decline call hm | @part call _ _ hm =>
    refine Placed.release ?_
    constructor <;> grind

/-- A permit is available or held, before and after. -/
theorem Placed.step_held (h : s.Placed) (hs : Step s a s') : s'.available + s'.held = s.available + s.held := by
  cases hs with
  | @acquire call n hnew havail =>
    have hj : call ∉ s.joining := (isNew_iff.mp hnew).2.2.1
    rw [spawn_held (s := { s with available := n }) hj, havail]
    show n + (s.held + 1) = _
    omega
  | wait _ => rfl
  | @resume call hm =>
    have hj : call ∉ s.joining := (h.granted call hm).1
    have hcard := card_erase_add_one hm
    rw [spawn_held (s := { s with granted := s.granted.erase call }) hj]
    show s.available + ((s.granted.erase call).card + s.joining.card + 1) = s.available + (_ + _)
    omega
  | start _ => rfl
  | finish _ => rfl
  | leave _ => rfl
  | @decline call hm =>
    have hcard := card_erase_add_one hm
    rw [release_held (s := { s with granted := s.granted.erase call, gone := insert call s.gone })
      fun c hc hg => (h.waiting c hc).1 (mem_of_mem_erase hg)]
    show s.available + ((s.granted.erase call).card + s.joining.card) + 1 = s.available + (_ + _)
    omega
  | @part call _ _ hm =>
    have hcard := card_erase_add_one hm
    rw [release_held (s := { s with joining := s.joining.erase call, gone := insert call s.gone })
      fun c hc => (h.waiting c hc).1]
    show s.available + (s.granted.card + (s.joining.erase call).card) + 1 = s.available + (_ + _)
    omega

/-- A derivation that is in the pool has a caller, if no future is dropped before its derivation ended. -/
def Attendants (s : KdfState) : Prop := ∀ call, call ∈ s.queued ∨ call ∈ s.running → call ∈ s.joining

theorem release_pool (s : KdfState) :
    s.release.joining = s.joining ∧ s.release.queued = s.queued ∧ s.release.running = s.running := by
  obtain ⟨-, heq⟩ | ⟨next, rest, -, heq⟩ := s.release_cases <;> rw [heq] <;> exact ⟨rfl, rfl, rfl⟩

theorem Attendants.step (hi : s.Attendants) (h : s.Placed) (hmeets : s.Attended a) (hs : Step s a s') :
    s'.Attendants := by
  intro c hc
  have hc' := hi c
  cases hs with
  | acquire _ _ | wait _ | resume _ | start _ | finish _ | leave _ => grind [spawn]
  | decline _ =>
    obtain ⟨hj, hq, hr⟩ := release_pool { s with granted := s.granted.erase _, gone := insert _ s.gone }
    rw [hq, hr] at hc
    rw [hj]
    exact hi c hc
  | @part call _ ha hm =>
    obtain ⟨hj, hq, hr⟩ := release_pool { s with joining := s.joining.erase call, gone := insert call s.gone }
    rw [hq, hr] at hc
    rw [hj]
    refine mem_erase.mpr ⟨?_, hi c hc⟩
    rintro rfl
    -- Whoever parts has seen the derivation end.
    have hfin : c ∈ s.finished := by
      rcases ha with ha | ⟨-, hf⟩
      · exact hmeets c ha hm
      · exact hf
    rcases hc with hc | hc
    · exact (h.queued c hc).2 hfin
    · exact h.running c hc hfin

/-! ### Runs -/

variable {meets : KdfState → Action → Prop}

theorem Reaches.placed (h : Reaches meets permits s) : s.Placed := by
  induction h with
  | initial => refine ⟨List.nodup_nil, ?_, ?_, ?_, ?_, ?_, ?_⟩ <;> simp [KdfState.initial]
  | step a _ _ hs ih => exact ih.step (step_inv hs)

/-- In every run, a permit is available or held. -/
theorem Reaches.held_eq (h : Reaches meets permits s) : s.available + s.held = permits := by
  induction h with
  | initial => rfl
  | step a hr _ hs ih => rw [hr.placed.step_held (step_inv hs), ih]

/-- In every run, at most as many derivations run as there are permits, and those whose caller is gone. -/
theorem running_le (h : Reaches meets permits s) : s.running.card ≤ permits + (s.running \ s.joining).card := by
  have hheld := h.held_eq
  have hsplit : (s.running ∩ s.joining).card + (s.running \ s.joining).card = s.running.card :=
    card_inter_add_card_sdiff ..
  have hinter : (s.running ∩ s.joining).card ≤ s.joining.card := card_le_card inter_subset_right
  unfold held at hheld
  omega

theorem Reaches.attendants (h : Reaches Attended permits s) : s.Attendants := by
  induction h with
  | initial => simp [Attendants, KdfState.initial]
  | step a hr hmeets hs ih => exact ih.step hr.placed hmeets (step_inv hs)

/-- Where every derivation in the pool has its caller, those that run hold a permit each. -/
theorem Reaches.card_running_le (h : Reaches Attended permits s) : s.running.card ≤ permits := by
  have hle := running_le h
  have hnone : s.running \ s.joining = ∅ := by
    rw [sdiff_eq_empty_iff_subset]
    exact fun c hc => h.attendants c (.inr hc)
  rw [hnone, card_empty] at hle
  exact hle

/-- Where no future is dropped before its derivation ended, at most as many derivations run as there are permits. -/
theorem running_le_permits (config : PasswordConfig) (cores : ℕ)
    (h : Reaches Attended (kdfPermitCount config cores) s) : s.running.card ≤ kdfPermitCount config cores :=
  h.card_running_le

/-- The state after some steps. -/
def run (s : KdfState) : List Action → Option KdfState
  | [] => some s
  | a :: rest => (s.step a).bind fun s' => s'.run rest

/-- Steps that can be taken, and that all meet the condition, lead to a state of a run. -/
theorem reaches_of_run {acts : List Action} (hr : Reaches meets permits s)
    (hmeets : ∀ s a, a ∈ acts → meets s a) (h : s.run acts = some s') : Reaches meets permits s' := by
  induction acts generalizing s with
  | nil =>
    cases h
    exact hr
  | cons a rest ih =>
    obtain ⟨t, ht, hrest⟩ := Option.bind_eq_some_iff.mp h
    exact ih (.step a hr (hmeets s a (List.mem_cons_self ..)) ht)
      (fun s b hb => hmeets s b (List.mem_cons_of_mem _ hb)) hrest

/-- The default cost of scrypt on one core: two permits. Two calls derive, and a third waits. -/
theorem running_le_permits_queued : ∃ s,
    Reaches Attended (kdfPermitCount (configWith .scrypt 131072 19456) 1) s ∧ s.waiting = [2] ∧
      s.running.card ≤ kdfPermitCount (configWith .scrypt 131072 19456) 1 := by
  have hrun : ∃ s, (initial (kdfPermitCount (configWith .scrypt 131072 19456) 1)).run
      [.begin 0, .begin 1, .begin 2, .start 1, .start 0] = some s ∧ s.waiting = [2] := ⟨_, rfl, rfl⟩
  obtain ⟨s, hs, hw⟩ := hrun
  have hr : Reaches Attended (kdfPermitCount (configWith .scrypt 131072 19456) 1) s := by
    refine reaches_of_run .initial (fun t a ha call heq => ?_) hs
    subst heq
    simp at ha
  exact ⟨s, hr, hw, running_le_permits _ _ hr⟩

/-- With two permits: two futures are dropped while their derivations run, and a third derivation starts. -/
theorem derivations_exceed_permits : kdfPermitCount (configWith .scrypt 131072 19456) 1 = 2 ∧
    ∃ s, Reaches (fun _ _ => True) (kdfPermitCount (configWith .scrypt 131072 19456) 1) s ∧ s.running.card = 3 := by
  have hrun : ∃ s, (initial (kdfPermitCount (configWith .scrypt 131072 19456) 1)).run
      [.begin 0, .start 0, .drop 0, .begin 1, .start 1, .drop 1, .begin 2, .start 2] = some s ∧ s.running.card = 3 :=
    ⟨_, rfl, rfl⟩
  obtain ⟨s, hs, hcard⟩ := hrun
  exact ⟨by decide +kernel, s, reaches_of_run .initial (fun _ _ _ => trivial) hs, hcard⟩

end KdfState

end BymaxAuth.Password
