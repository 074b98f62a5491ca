import Mathlib.Logic.Function.Basic
import Mathlib.Data.List.Basic

/-!
# Keys with a time to live

A keyspace in the manner of Redis: a map from keys to cells, each cell a value and the second at
which it lapses. A cell that has lapsed is treated as absent by every command, and a command that
touches it drops it, so no separate expiry step is needed: time passing is enough.

The commands are the ones a store of sessions and counters is built from: `GET`, `SET … EX`,
`SET … NX EX`, `DEL`, `EXPIRE`, `EXISTS`, `SADD`, `SREM`, `SMEMBERS` and `INCR`. Sets are duplicate-free lists in
insertion order; a set that becomes empty is deleted, as Redis deletes it.

## What is proved

* `Holds m k a d` — the set at `k` has the member `a` and lapses no earlier than `d` — and how each
  command keeps or establishes it (`holds_sadd_self`, `Holds.sadd`, `Holds.expire`, `Holds.srem`).
* `Mem m k a` — the set at `k` keeps the member `a`, lapsed or not — and that the commands add no
  member but the one they are given (`mem_of_sadd`, `mem_of_srem`).
-/

namespace Redis

open List Option Function

variable {K V A : Type} [DecidableEq K]

/-- A stored value, and the second at which it lapses; `none` is a key with no TTL. -/
structure Cell (V : Type) where
  /-- The value. -/
  val : V
  /-- The second from which the key is gone. -/
  expireAt : Option ℕ

/-- Whether the cell is still there at the second `now`. -/
def Cell.live (now : ℕ) (c : Cell V) : Bool :=
  match c.expireAt with
  | none => true
  | some d => decide (now < d)

/-- A keyspace. -/
abbrev Keys (K V : Type) := K → Option (Cell V)

/-! ### Commands -/

/-- The cell at `k`, if it has not lapsed. -/
def find (m : Keys K V) (now : ℕ) (k : K) : Option (Cell V) := (m k).filter (·.live now)

/-- `GET k`. -/
def get (m : Keys K V) (now : ℕ) (k : K) : Option V := (find m now k).map (·.val)

/-- `EXISTS k`. -/
def has (m : Keys K V) (now : ℕ) (k : K) : Bool := (find m now k).isSome

/-- `SET k v EX ttl`. -/
def setEx (m : Keys K V) (now : ℕ) (k : K) (v : V) (ttl : ℕ) : Keys K V :=
  update m k (some ⟨v, some (now + ttl)⟩)

/-- `SET k v NX EX ttl`, with whether it wrote. -/
def setNx (m : Keys K V) (now : ℕ) (k : K) (v : V) (ttl : ℕ) : Bool × Keys K V :=
  if has m now k then (false, m) else (true, setEx m now k v ttl)

/-- `DEL k`. -/
def del (m : Keys K V) (k : K) : Keys K V := update m k none

/-- `EXPIRE k ttl`; a zero `ttl` leaves a cell that has already lapsed. -/
def expire (m : Keys K V) (now : ℕ) (k : K) (ttl : ℕ) : Keys K V :=
  update m k ((find m now k).map fun c => { c with expireAt := some (now + ttl) })

/-- `INCR k`, with the new value; the TTL of an existing key is kept. -/
def incr (m : Keys K ℕ) (now : ℕ) (k : K) : ℕ × Keys K ℕ :=
  match find m now k with
  | some c => (c.val + 1, update m k (some { c with val := c.val + 1 }))
  | none => (1, update m k (some ⟨1, none⟩))

/-- `SMEMBERS k`. -/
def smembers (m : Keys K (List A)) (now : ℕ) (k : K) : List A := (get m now k).getD []

variable [DecidableEq A]

/-- The cell after `SADD`: an existing set keeps its TTL, a new one has none. -/
def saddCell (c : Option (Cell (List A))) (a : A) : Cell (List A) :=
  match c with
  | some c => { c with val := if a ∈ c.val then c.val else c.val ++ [a] }
  | none => ⟨[a], none⟩

/-- `SADD k a`. -/
def sadd (m : Keys K (List A)) (now : ℕ) (k : K) (a : A) : Keys K (List A) :=
  update m k (some (saddCell (find m now k) a))

/-- The cell after `SREM`: a set left empty is deleted. -/
def sremCell (a : A) (c : Cell (List A)) : Option (Cell (List A)) :=
  if (c.val.filter (· ≠ a)).isEmpty then none else some { c with val := c.val.filter (· ≠ a) }

/-- `SREM k a`. -/
def srem (m : Keys K (List A)) (now : ℕ) (k : K) (a : A) : Keys K (List A) :=
  update m k ((find m now k).bind (sremCell a))

/-- `SISMEMBER k a`. -/
def sismember (m : Keys K (List A)) (now : ℕ) (k : K) (a : A) : Bool :=
  decide (a ∈ smembers m now k)

/-! ### Reading -/

omit [DecidableEq K] in
theorem find_eq_some {m : Keys K V} {now : ℕ} {k : K} {c : Cell V} :
    find m now k = some c ↔ m k = some c ∧ c.live now = true := by
  simp [find, filter_eq_some_iff]

variable {d now : ℕ} {c : Cell V} {k k' : K} {m : Keys K (List A)} {a b : A}

theorem live_some {v : V} : (Cell.mk v (some d)).live now = true ↔ now < d := by
  simp [Cell.live]

/-- A cell that is there now was there at every earlier second. -/
theorem Cell.live_of_le {s t : ℕ} (h : c.live t = true) (hst : s ≤ t) : c.live s = true := by
  unfold Cell.live at h ⊢
  split at h
  · rfl
  · simp only [decide_eq_true_eq] at h ⊢
    omega

omit [DecidableEq K] in
theorem get_eq_some {m : Keys K V} {now : ℕ} {k : K} {v : V} :
    get m now k = some v ↔ ∃ c, m k = some c ∧ c.live now = true ∧ c.val = v := by
  simp [get, find_eq_some, and_assoc]

omit [DecidableEq K] in
theorem has_iff {m : Keys K V} {now : ℕ} {k : K} : has m now k = true ↔ ∃ c, m k = some c ∧ c.live now = true := by
  simp [has, isSome_iff_exists, find_eq_some]

omit [DecidableEq K] in
theorem has_eq_isSome_get (m : Keys K V) (now : ℕ) (k : K) : has m now k = (get m now k).isSome := by
  simp [has, get]

omit [DecidableEq K] in
theorem get_of_eq_none {m : Keys K V} {k : K} (h : m k = none) (now : ℕ) : get m now k = none := by
  simp [get, find, h]

/-! ### Writing -/

@[simp] theorem setEx_self (m : Keys K V) (now : ℕ) (k : K) (v : V) (ttl : ℕ) :
    setEx m now k v ttl k = some ⟨v, some (now + ttl)⟩ := by simp [setEx]

theorem setEx_of_ne (m : Keys K V) (now : ℕ) (v : V) (ttl : ℕ) (h : k' ≠ k) :
    setEx m now k v ttl k' = m k' := by simp [setEx, h]

@[simp] theorem del_self (m : Keys K V) (k : K) : del m k k = none := by simp [del]

theorem del_of_ne (m : Keys K V) (h : k' ≠ k) : del m k k' = m k' := by simp [del, h]

theorem expire_of_ne (m : Keys K V) (now : ℕ) (ttl : ℕ) (h : k' ≠ k) :
    expire m now k ttl k' = m k' := by simp [expire, h]

theorem sadd_of_ne (m : Keys K (List A)) (now : ℕ) (a : A) (h : k' ≠ k) : sadd m now k a k' = m k' := by simp [sadd, h]

theorem srem_of_ne (m : Keys K (List A)) (now : ℕ) (a : A) (h : k' ≠ k) : srem m now k a k' = m k' := by simp [srem, h]

/-- A `DEL` leaves every other cell and removes its own. -/
theorem del_eq_some {m : Keys K V} (h : del m k k' = some c) : k' ≠ k ∧ m k' = some c := by
  by_cases hk : k' = k
  · subst hk
    simp at h
  · exact ⟨hk, by rwa [del_of_ne m hk] at h⟩

/-- A `SET … EX` leaves every other cell. -/
theorem setEx_eq_some {m : Keys K V} {v : V} {ttl : ℕ} (h : setEx m now k v ttl k' = some c) :
    (k' = k ∧ c = ⟨v, some (now + ttl)⟩) ∨ (k' ≠ k ∧ m k' = some c) := by
  by_cases hk : k' = k
  · subst hk
    rw [setEx_self, Option.some.injEq] at h
    exact .inl ⟨rfl, h.symm⟩
  · exact .inr ⟨hk, by rwa [setEx_of_ne m now v ttl hk] at h⟩

theorem setNx_of_has {m : Keys K V} (h : has m now k = true) (v : V) (ttl : ℕ) :
    setNx m now k v ttl = (false, m) := by simp [setNx, h]

theorem setNx_of_not_has {m : Keys K V} (h : has m now k = false) (v : V) (ttl : ℕ) :
    setNx m now k v ttl = (true, setEx m now k v ttl) := by simp [setNx, h]

/-! ### Counters -/

theorem incr_of_ne (m : Keys K ℕ) (now : ℕ) (h : k' ≠ k) : (incr m now k).2 k' = m k' := by
  unfold incr
  split <;> simp [h]

/-- An `INCR`: the counter is one more than what a `GET` read, and keeps its TTL. -/
theorem incr_self (m : Keys K ℕ) (now : ℕ) (k : K) : (incr m now k).1 = (get m now k).getD 0 + 1 ∧
      (incr m now k).2 k = some ⟨(get m now k).getD 0 + 1, (find m now k).bind (·.expireAt)⟩ := by
  unfold incr get
  cases find m now k <;> simp

/-- An `INCR` with an `EXPIRE` after it: the counter is one more than what a `GET` read, and starts its
TTL again. -/
theorem expire_incr (m : Keys K ℕ) (now : ℕ) (k : K) (ttl : ℕ) :
    expire (incr m now k).2 now k ttl k = some ⟨(get m now k).getD 0 + 1, some (now + ttl)⟩ := by
  unfold incr get
  cases hf : find m now k with
  | none => simp [expire, find, Cell.live]
  | some c =>
    have hlive : ({ c with val := c.val + 1 } : Cell ℕ).live now = true := (find_eq_some.mp hf).2
    simp [expire, find, Option.filter, hlive]

/-! ### Sets that hold a member long enough -/

/-- The set at `k` has the member `a`, and lapses no earlier than `d`. -/
def Holds (m : Keys K (List A)) (k : K) (a : A) (d : ℕ) : Prop :=
  ∃ c, m k = some c ∧ a ∈ c.val ∧ ∀ e, c.expireAt = some e → d ≤ e

omit [DecidableEq K] [DecidableEq A] in
theorem Holds.find {m : Keys K (List A)} {k : K} {a : A} {d now : ℕ} (h : Holds m k a d) (hd : now < d) :
    ∃ c, Redis.find m now k = some c ∧ a ∈ c.val ∧ ∀ e, c.expireAt = some e → d ≤ e := by
  obtain ⟨c, hm, ha, he⟩ := h
  refine ⟨c, find_eq_some.mpr ⟨hm, ?_⟩, ha, he⟩
  unfold Cell.live
  split
  · rfl
  · next e hce =>
    have := he e hce
    simp only [decide_eq_true_eq]
    omega

omit [DecidableEq K] [DecidableEq A] in
/-- A member held past `now` is one `SMEMBERS` reports. -/
theorem Holds.mem_smembers (h : Holds m k a d) (hd : now < d) : a ∈ smembers m now k := by
  obtain ⟨c, hf, ha, -⟩ := h.find hd
  simpa [smembers, get, hf] using ha

omit [DecidableEq K] [DecidableEq A] in
/-- What a set held, it holds wherever it is the same. -/
theorem Holds.congr {m' : Keys K (List A)} (h : Holds m k a d) (hm : m' k = m k) : Holds m' k a d := by
  obtain ⟨c, hc, ha, he⟩ := h
  exact ⟨c, hm.trans hc, ha, he⟩

theorem mem_saddCell_self (c : Option (Cell (List A))) (a : A) : a ∈ (saddCell c a).val := by
  unfold saddCell
  split
  · simp only
    split_ifs with h
    · exact h
    · exact mem_append_right _ (mem_singleton_self a)
  · exact mem_singleton_self a

theorem mem_saddCell_of_mem {c : Cell (List A)} (h : b ∈ c.val) : b ∈ (saddCell (some c) a).val := by
  simp only [saddCell]
  split_ifs with ha
  · exact h
  · exact mem_append_left _ h

/-- A set just added to holds the new member past the present second, whatever TTL it had: a set that
had lapsed is made anew, with none. -/
theorem holds_sadd_self (m : Keys K (List A)) (now : ℕ) (k : K) (a : A) : Holds (sadd m now k a) k a (now + 1) := by
  refine ⟨_, update_self k _ m, mem_saddCell_self _ a, ?_⟩
  intro e he
  cases hf : Redis.find m now k with
  | none => simp [hf, saddCell] at he
  | some c =>
    have hlive := (find_eq_some.mp hf).2
    rw [hf] at he
    simp only [saddCell] at he
    simp only [Cell.live, he, decide_eq_true_eq] at hlive
    exact hlive

/-- `SADD` keeps what any set held. -/
theorem Holds.sadd (h : Holds m k' b d) (hnow : now < d) : Holds (sadd m now k a) k' b d := by
  by_cases hk : k' = k
  · subst hk
    obtain ⟨c, hf, hb, he⟩ := h.find hnow
    refine ⟨_, update_self k' _ m, ?_, ?_⟩ <;> rw [hf]
    · exact mem_saddCell_of_mem hb
    · exact he
  · exact h.congr (sadd_of_ne m now a hk)

omit [DecidableEq A] in
/-- `EXPIRE` makes its own set hold what it held for the whole TTL. -/
theorem Holds.expire_self (h : Holds m k b d) (hnow : now < d) (ttl : ℕ) :
    Holds (expire m now k ttl) k b (now + ttl) := by
  obtain ⟨c, hf, hb, -⟩ := h.find hnow
  refine ⟨{ c with expireAt := some (now + ttl) }, ?_, hb, ?_⟩
  · simp [Redis.expire, hf]
  · rintro e ⟨⟩
    exact Nat.le_refl _

omit [DecidableEq A] in
/-- `EXPIRE` keeps what any set held, up to the TTL it re-arms. -/
theorem Holds.expire {ttl : ℕ} (h : Holds m k' b d) (hnow : now < d) (hd : d ≤ now + ttl) :
    Holds (expire m now k ttl) k' b d := by
  by_cases hk : k' = k
  · subst hk
    obtain ⟨c, hc, hb, he⟩ := h.expire_self hnow ttl
    exact ⟨c, hc, hb, fun e hce => Nat.le_trans hd (he e hce)⟩
  · exact h.congr (expire_of_ne m now ttl hk)

/-- `SREM` of another member, or at another key, keeps what a set held. -/
theorem Holds.srem (h : Holds m k' b d) (hnow : now < d) (hne : k' = k → b ≠ a) : Holds (srem m now k a) k' b d := by
  by_cases hk : k' = k
  · subst hk
    obtain ⟨c, hf, hb, he⟩ := h.find hnow
    have hmem : b ∈ c.val.filter (· ≠ a) := mem_filter.mpr ⟨hb, by simp [hne rfl]⟩
    have hne' : (c.val.filter (· ≠ a)).isEmpty = false := by
      rw [isEmpty_eq_false_iff]
      exact ne_nil_of_mem hmem
    refine ⟨{ c with val := c.val.filter (· ≠ a) }, ?_, hmem, he⟩
    simp only [Redis.srem, update_self, hf, bind_some, sremCell, hne']
    rfl
  · exact h.congr (srem_of_ne m now a hk)

omit [DecidableEq A] in
theorem Holds.del {m : Keys K (List A)} {k k' : K} {b : A} {d : ℕ}
    (h : Holds m k' b d) (hne : k' ≠ k) : Holds (del m k) k' b d :=
  h.congr (del_of_ne m hne)

/-! ### The members a set has been given -/

/-- The set at `k` keeps the member `a`, whether or not it has lapsed. -/
def Mem (m : Keys K (List A)) (k : K) (a : A) : Prop := ∃ c, m k = some c ∧ a ∈ c.val

omit [DecidableEq K] [DecidableEq A] in
theorem mem_of_mem_smembers {m : Keys K (List A)} {now : ℕ} {k : K} {a : A}
    (h : a ∈ smembers m now k) : Mem m k a := by
  unfold smembers at h
  cases hg : get m now k with
  | none => simp [hg] at h
  | some v =>
    obtain ⟨c, hm, -, hv⟩ := get_eq_some.mp hg
    rw [hg, getD_some, ← hv] at h
    exact ⟨c, hm, h⟩

theorem mem_of_sadd (h : Mem (sadd m now k a) k' b) : (k' = k ∧ b = a) ∨ Mem m k' b := by
  obtain ⟨c, hm, hb⟩ := h
  by_cases hk : k' = k
  · subst hk
    simp only [sadd, update_self, Option.some.injEq] at hm
    subst hm
    cases hf : find m now k' with
    | none =>
      rw [hf, saddCell, mem_singleton] at hb
      exact .inl ⟨rfl, hb⟩
    | some c =>
      simp only [hf, saddCell] at hb
      split_ifs at hb with ha
      · exact .inr ⟨c, (find_eq_some.mp hf).1, hb⟩
      · rcases mem_append.mp hb with hb | hb
        · exact .inr ⟨c, (find_eq_some.mp hf).1, hb⟩
        · exact .inl ⟨rfl, mem_singleton.mp hb⟩
  · rw [sadd_of_ne m now a hk] at hm
    exact .inr ⟨c, hm, hb⟩

omit [DecidableEq A] in
theorem mem_of_expire {m : Keys K (List A)} {now : ℕ} {k k' : K} {b : A} {ttl : ℕ}
    (h : Mem (expire m now k ttl) k' b) : Mem m k' b := by
  obtain ⟨c, hm, hb⟩ := h
  by_cases hk : k' = k
  · subst hk
    simp only [expire, update_self, map_eq_some_iff] at hm
    obtain ⟨c', hf, rfl⟩ := hm
    exact ⟨c', (find_eq_some.mp hf).1, hb⟩
  · rw [expire_of_ne m now ttl hk] at hm
    exact ⟨c, hm, hb⟩

theorem mem_of_srem (h : Mem (srem m now k a) k' b) : Mem m k' b ∧ (k' = k → b ≠ a) := by
  obtain ⟨c, hm, hb⟩ := h
  by_cases hk : k' = k
  · subst hk
    simp only [srem, update_self, bind_eq_some_iff] at hm
    obtain ⟨c', hf, hc⟩ := hm
    unfold sremCell at hc
    split_ifs at hc
    rw [Option.some.injEq] at hc
    subst hc
    obtain ⟨hb, hba⟩ := mem_filter.mp hb
    exact ⟨⟨c', (find_eq_some.mp hf).1, hb⟩, fun _ => by simpa using hba⟩
  · rw [srem_of_ne m now a hk] at hm
    exact ⟨⟨c, hm, hb⟩, fun h => absurd h hk⟩

/-- What `SMEMBERS` reports after an `SREM` is what it reported before, without the member removed. -/
theorem mem_smembers_srem : b ∈ smembers (srem m now k a) now k' ↔ b ∈ smembers m now k' ∧ (k' = k → b ≠ a) := by
  by_cases hk : k' = k
  · subst hk
    cases hf : find m now k' with
    | none =>
      have hs : srem m now k' a k' = none := by simp [srem, hf]
      simp [smembers, get, find, hs, show (m k').filter (·.live now) = none from hf]
    | some c =>
      have hlive : c.live now = true := (find_eq_some.mp hf).2
      have hs : srem m now k' a k' = sremCell a c := by simp [srem, hf]
      simp only [smembers, get, hf, map_some, getD_some, true_implies]
      unfold find
      rw [hs]
      unfold sremCell
      split_ifs with he
      · have hnot : b ∉ c.val.filter (· ≠ a) := by
          rw [isEmpty_iff.mp he]
          exact not_mem_nil
        simpa using hnot
      · have hlive' : ({ c with val := c.val.filter (· ≠ a) } : Cell (List A)).live now = true := hlive
        rw [filter_some, if_pos hlive']
        simp
  · have hs : srem m now k a k' = m k' := srem_of_ne m now a hk
    simp [smembers, get, find, hs, hk]

omit [DecidableEq A] in
theorem mem_of_del {m : Keys K (List A)} {k k' : K} {b : A} (h : Mem (del m k) k' b) : k' ≠ k ∧ Mem m k' b := by
  obtain ⟨c, hm, hb⟩ := h
  obtain ⟨hk, hm⟩ := del_eq_some hm
  exact ⟨hk, c, hm, hb⟩

end Redis
