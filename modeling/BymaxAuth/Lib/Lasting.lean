import BymaxAuth.Lib.Redis

/-!
# Keyspaces in which nothing lapses

A keyspace that is used only until the second `T`, and in which every key lives longer than that, is a plain map:
`val` forgets the expiry of its keys, and each command (`BymaxAuth.Lib.Redis`) is the update of the map that it
looks like. A set is there exactly when it has a member.

## What is proved

* `Lasting.get`, `Lasting.has`, `Lasting.smembers` — reading is reading the map.
* `val_setEx`, `val_del`, `Lasting.val_expire`, `Lasting.val_sadd`, `Lasting.val_srem` — what each command does to it.
* `Lasting.setEx`, `Lasting.del`, … — each keeps the keyspace lasting, if what it writes outlives `T`.
-/

namespace Redis

open Option Function

variable {K V A : Type}

/-- Every key of the keyspace is there at the second `T`, so at every second before. -/
def Lasting (m : Keys K V) (T : ℕ) : Prop := ∀ k c, m k = some c → c.live T = true

/-- The value of a key. -/
def val (m : Keys K V) (k : K) : Option V := (m k).map (·.val)

/-- A set with these members: there is no empty one. -/
def ofMembers (l : List A) : Option (List A) := if l.isEmpty then none else some l

/-- The members with one more, at the end if it is new. -/
def withMember [DecidableEq A] (l : List A) (a : A) : List A := if a ∈ l then l else l ++ [a]

theorem getD_ofMembers (l : List A) : (ofMembers l).getD [] = l := by
  unfold ofMembers
  split
  · next h => simp [List.isEmpty_iff.mp h]
  · rfl

theorem lasting_empty (T : ℕ) : Lasting (fun _ : K => (none : Option (Cell V))) T := fun _ _ => nofun

section Reading

variable {m : Keys K V} {T t : ℕ}

theorem Lasting.find (h : Lasting m T) (ht : t ≤ T) (k : K) : find m t k = m k := by
  rw [Redis.find]
  cases hk : m k with
  | none => rfl
  | some c => simp [Option.filter, Cell.live_of_le (h k c hk) ht]

theorem Lasting.get (h : Lasting m T) (ht : t ≤ T) (k : K) : get m t k = val m k := by
  rw [Redis.get, h.find ht, val]

theorem Lasting.has (h : Lasting m T) (ht : t ≤ T) (k : K) : has m t k = (val m k).isSome := by
  rw [Redis.has, h.find ht, val, isSome_map]

theorem Lasting.smembers {m : Keys K (List A)} (h : Lasting m T) (ht : t ≤ T) (k : K) :
    smembers m t k = (val m k).getD [] := by
  rw [Redis.smembers, h.get ht]

end Reading

variable [DecidableEq K]

section Writing

variable {m : Keys K V} {T t : ℕ} {k : K}

theorem Lasting.update (h : Lasting m T) {c : Option (Cell V)} (hc : ∀ c' ∈ c, c'.live T = true) :
    Lasting (Function.update m k c) T := by
  intro k' c' hk'
  by_cases hkk : k' = k
  · subst hkk
    rw [update_self] at hk'
    exact hc c' hk'
  · rw [update_of_ne hkk] at hk'
    exact h k' c' hk'

theorem Lasting.setEx (h : Lasting m T) (v : V) {ttl : ℕ} (httl : T < t + ttl) : Lasting (setEx m t k v ttl) T := by
  refine h.update ?_
  rintro _ ⟨⟩
  exact live_some.mpr httl

theorem Lasting.del (h : Lasting m T) : Lasting (del m k) T := h.update fun _ => nofun

theorem Lasting.expire (h : Lasting m T) {ttl : ℕ} (httl : T < t + ttl) : Lasting (expire m t k ttl) T := by
  refine h.update ?_
  intro c hc
  obtain ⟨c', -, rfl⟩ := map_eq_some_iff.mp hc
  exact live_some.mpr httl

theorem val_update (m : Keys K V) (k : K) (c : Option (Cell V)) :
    val (Function.update m k c) = Function.update (val m) k (c.map (·.val)) := by
  funext k'
  by_cases h : k' = k
  · subst h
    simp [val]
  · simp [val, h]

theorem val_setEx (m : Keys K V) (t : ℕ) (k : K) (v : V) (ttl : ℕ) :
    val (setEx m t k v ttl) = Function.update (val m) k (some v) := val_update ..

theorem val_del (m : Keys K V) (k : K) : val (del m k) = Function.update (val m) k none := val_update ..

theorem Lasting.val_expire (h : Lasting m T) (ht : t ≤ T) (ttl : ℕ) : val (Redis.expire m t k ttl) = val m := by
  rw [Redis.expire, val_update, h.find ht, map_map]
  exact update_eq_self k (val m)

end Writing

section Sets

variable [DecidableEq A] {m : Keys K (List A)} {T t : ℕ} {k : K}

section

variable (h : Lasting m T) (ht : t ≤ T) (a : A)
include h ht a

theorem Lasting.sadd : Lasting (sadd m t k a) T := by
  refine h.update ?_
  rintro _ ⟨⟩
  rw [h.find ht]
  cases hk : m k with
  | none => rfl
  | some c => exact h k c hk

theorem Lasting.srem : Lasting (srem m t k a) T := by
  refine h.update ?_
  intro c hc
  obtain ⟨c', hc', hrem⟩ := bind_eq_some_iff.mp hc
  rw [h.find ht] at hc'
  unfold sremCell at hrem
  split_ifs at hrem
  cases hrem
  exact h k c' hc'

theorem Lasting.val_sadd :
    val (Redis.sadd m t k a) = Function.update (val m) k (some (withMember ((val m k).getD []) a)) := by
  rw [Redis.sadd, val_update, h.find ht, val]
  cases m k <;> rfl

theorem Lasting.val_srem : val (Redis.srem m t k a) =
      Function.update (val m) k ((val m k).bind fun l => ofMembers (l.filter (· ≠ a))) := by
  rw [Redis.srem, val_update, h.find ht, val]
  congr 1
  cases m k with
  | none => rfl
  | some c =>
    simp only [bind_some, map_some, sremCell, ofMembers]
    split <;> rfl

end

end Sets

end Redis
