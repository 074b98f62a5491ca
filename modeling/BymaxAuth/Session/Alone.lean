import BymaxAuth.Session.Store

/-!
# A listing by itself

What `list_session_entries` answers, and what it leaves, when nothing else runs meanwhile.

The members of the index are read one after the other; those that may be dead are offered to the pruning script, and
an entry whose member the script removed is left out. So the entries are those of the live members that have a readable
detail or a session.
-/

namespace BymaxAuth

open Redis Concurrency List SessionKeys

/-- The live sessions among the members of an index. -/
def liveHashes (members : List Member) : List String :=
  members.filterMap fun
    | .live hash => some hash
    | .grace _ => none

theorem mem_liveHashes {members : List Member} {h : String} : h ∈ liveHashes members ↔ Member.live h ∈ members := by
  rw [liveHashes, mem_filterMap]
  constructor
  · rintro ⟨_ | _, hm, hh⟩
    · cases hh
      exact hm
    · cases hh
  · exact fun hm => ⟨_, hm, rfl⟩

/-- The entries that the loop of `list_session_entries` reads. -/
def entriesOf (t : ℕ) (k : SessionKeys) (l : List Member) : List SessionEntry :=
  (liveHashes l).map fun hash => { sessionHash := hash, detail := readDetail hash (get k.sd t hash) }

/-- The members that it offers to the pruning script. -/
def staleOf (t : ℕ) (k : SessionKeys) (l : List Member) : List Member :=
  l.filter fun
    | .live hash => (readDetail hash (get k.sd t hash)).isNone
    | .grace _ => true

/-- The entries that it returns: those with a detail, and those that the script left. -/
def listedOf (t : ℕ) (k : SessionKeys) (l : List Member) : List SessionEntry :=
  (entriesOf t k l).filter fun entry => entry.detail.isSome ||
    !((staleOf t k l).filter fun x => !k.memberExists t x).contains (.live entry.sessionHash)

section Listing

variable {env : Env} {i : Input} {st : Store}

theorem evalAt_readEntries (l : List Member) : evalAt (machine env) i st (readEntries l).run =
      (.ok (entriesOf st.now st.keys l, staleOf st.now st.keys l), st) := by
  induction l with
  | nil => rfl
  | cons x l ih =>
    cases x with
    | grace hash =>
      show evalAt (machine env) i st (readEntries l >>= fun x => pure (x.1, .grace hash :: x.2) :
        Act (List SessionEntry × List Member)).run = _
      rw [run_bind, evalAt_bind, ih]
      rfl
    | live hash =>
      show evalAt (machine env) i st (readEntries l >>= fun x => pure
        (⟨hash, readDetail hash (get st.keys.sd st.now hash)⟩ :: x.1,
          if (readDetail hash (get st.keys.sd st.now hash)).isNone then .live hash :: x.2 else x.2) :
        Act (List SessionEntry × List Member)).run = _
      rw [run_bind, evalAt_bind, ih]
      unfold staleOf
      rw [filter_cons]
      rfl

theorem foldl_pruneMember_fst (t : ℕ) (subject : String) (l : List Member) (acc : List Member × SessionKeys) :
    (l.foldl (pruneMember t subject) acc).1 = acc.1 ++ l.filter fun x => !acc.2.memberExists t x := by
  induction l generalizing acc with
  | nil => simp
  | cons x l ih =>
    have hsame : ∀ y, (pruneMember t subject acc x).2.memberExists t y = acc.2.memberExists t y := by
      intro y
      unfold pruneMember
      split
      · rfl
      · cases y <;> rfl
    rw [foldl_cons, ih, filter_cons]
    simp only [hsame]
    cases hx : acc.2.memberExists t x <;> simp [pruneMember, hx]

/-- `list_session_entries`, alone. -/
theorem evalAt_listSessionEntries (subject : String) : evalAt (machine env) i st (listSessionEntries subject).run =
      (.ok (listedOf st.now st.keys (smembers st.keys.sess st.now subject)),
        { st with keys := (st.keys.pruneDead st.now subject
            (staleOf st.now st.keys (smembers st.keys.sess st.now subject))).2 }) := by
  have hprune : ∀ l, evalAt (machine env) i st (pruneDeadMembers subject l).run =
      (.ok (l.filter fun x => !st.keys.memberExists st.now x),
        { st with keys := (st.keys.pruneDead st.now subject l).2 }) := by
    intro l
    unfold pruneDeadMembers
    split
    · next hl =>
      rw [isEmpty_iff.mp hl]
      rfl
    · show (Except.ok (st.keys.pruneDead st.now subject l).1, _) = _
      rw [pruneDead, foldl_pruneMember_fst]
      rfl
  show evalAt (machine env) i st (readEntries (smembers st.keys.sess st.now subject) >>= fun x =>
    pruneDeadMembers subject x.2 >>= fun removed => pure (x.1.filter fun entry =>
      entry.detail.isSome || !removed.contains (.live entry.sessionHash)) : Act (List SessionEntry)).run = _
  rw [run_bind, evalAt_bind, evalAt_readEntries]
  show evalAt (machine env) i st
    (pruneDeadMembers subject (staleOf st.now st.keys (smembers st.keys.sess st.now subject)) >>= fun removed =>
      pure ((entriesOf st.now st.keys (smembers st.keys.sess st.now subject)).filter fun entry =>
        entry.detail.isSome || !removed.contains (.live entry.sessionHash)) : Act (List SessionEntry)).run = _
  rw [run_bind, evalAt_bind, hprune]
  rfl

end Listing

end BymaxAuth
