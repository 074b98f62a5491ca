import BymaxAuth.SingleUse.Invitation.Discipline
import BymaxAuth.History.Run

/-!
# Invitations and their index

Over any interleaving of the invitation flows, what does the index say about the records?

A record that is there is named by the index, or some handler still owes its deletion
(`BymaxAuth.SingleUse.Invitation.Discipline`). Claims keep this, because a claim that displaces a hash leaves its
handler owing that record. Taking the index out does not: `accept_invitation` and `revoke_invitation` take
whatever is there by the time they come to it, which may be a later invitation's entry. So the invariant is
proved for the runs in which what is taken is what the handler consumed or read, and there is a run in which
it is not.

The rank of whoever displaces an invitation is checked on the record that its index entry names. Between the
claim of the index and the write of the record there is none, and nothing is checked.
-/

namespace BymaxAuth.SingleUse.Invitation

open Redis Concurrency List Option Cmd Prod Relation.ReflTransGen

/-! ### One step -/

/-- The index names this hash at this key. -/
def Names (w : World) (key : String × String) (hash : String) : Prop :=
  ∃ cell, w.2.idx key = some cell ∧ cell.val = hash

/-- No index entry has lapsed. -/
def IndexKept (w : World) : Prop := ∀ key cell, w.2.idx key = some cell → cell.live w.1.now = true

variable {hash : String} {log : List Event} {w : World} {e : Event}

theorem Names.get {key : String × String} (h : Names w key hash) (hk : IndexKept w) :
    get w.2.idx w.1.now key = some hash := by
  obtain ⟨cell, hc, hv⟩ := h
  exact get_eq_some.mpr ⟨cell, hc, hk key cell hc, hv⟩

section Step

variable {env : Env} {l : List Event} {c d : Snapshot}

/-- A record that is there after a step was written by it, or was there before and not removed. -/
theorem inv_of_moment (hm : Moment (machine env) l e c d) {cell : Cell StoredInvitation}
    (hk : d.st.2.inv hash = some cell) :
    (∃ ttl, e.op = .inr (.putInvitation hash cell.val ttl)) ∨
      (c.st.2.inv hash = some cell ∧ e.op ≠ .inr (.consumeInvitation hash) ∧
        e.op ≠ .inr (.deleteInvitationByHash hash)) := by
  rw [hm.st₁]
  obtain ⟨tid, pre, op, r⟩ := e
  cases op with
  | inl cmd =>
    rw [(moment_left hm).2] at hk
    exact .inr ⟨hk, by simp, by simp⟩
  | inr cmd =>
    obtain ⟨i, hi⟩ := moment_right hm
    have hst : (exec pre cmd i).2 = d.st := congrArg snd hi
    rw [← hst] at hk
    cases cmd with
    | putInvitation hash' invitation ttl =>
      rcases setEx_eq_some hk with ⟨rfl, rfl⟩ | ⟨-, hk⟩
      · exact .inl ⟨ttl, rfl⟩
      · exact .inr ⟨hk, by simp, by simp⟩
    | consumeInvitation hash' =>
      obtain ⟨hne, hk⟩ := del_eq_some hk
      refine .inr ⟨hk, ?_, by simp⟩
      rintro ⟨⟩
      exact hne rfl
    | deleteInvitationByHash hash' =>
      obtain ⟨hne, hk⟩ := del_eq_some hk
      refine .inr ⟨hk, by simp, ?_⟩
      rintro ⟨⟩
      exact hne rfl
    | claimInvitationIndex | tryBeginResend =>
      rw [exec] at hk
      split_ifs at hk <;> exact .inr ⟨hk, by simp, by simp⟩
    | _ => exact .inr ⟨hk, by simp, by simp⟩

/-- An entry of the index stays, or is displaced by a claim that expected it, or is taken. -/
theorem names_of_moment (hm : Moment (machine env) l e c d) (hkept : IndexKept c.st) {key : String × String}
    (hn : Names c.st key hash) :
    Names d.st key hash ∨ (∃ hash' ttl expected, e.ev = ⟨.inr (.claimInvitationIndex key hash' ttl expected), true⟩ ∧
        expected.getD "" = hash ∧ hash' ≠ hash) ∨
      e.ev = ⟨.inr (.takeInvitationIndex key), some hash⟩ := by
  have hget := hn.get hkept
  rw [hm.st₁] at hn hget
  obtain ⟨tid, pre, op, r⟩ := e
  cases op with
  | inl cmd =>
    left
    unfold Names
    rw [(moment_left hm).2]
    exact hn
  | inr cmd =>
    obtain ⟨i, hi⟩ := moment_right hm
    have hst : (exec pre cmd i).2 = d.st := congrArg snd hi
    have hr : (exec pre cmd i).1 = r := congrArg fst hi
    rw [← hst]
    cases cmd with
    | claimInvitationIndex key' hash' ttl expected =>
      rw [exec] at hr ⊢
      split_ifs at hr ⊢ with hmoved
      · exact .inl hn
      · by_cases hkey : key = key'
        · subst hkey
          rw [hget, getD_some, ne_eq, not_not] at hmoved
          by_cases hhash : hash' = hash
          · exact .inl ⟨_, setEx_self .., hhash⟩
          · subst hr
            exact .inr (.inl ⟨hash', ttl, expected, rfl, hmoved.symm, hhash⟩)
        · obtain ⟨cell, hc, hv⟩ := hn
          exact .inl ⟨cell, (setEx_of_ne _ _ _ _ hkey).trans hc, hv⟩
    | takeInvitationIndex key' =>
      by_cases hkey : key = key'
      · subst hkey
        exact .inr (.inr (by rw [← hr]; exact congrArg _ hget))
      · obtain ⟨cell, hc, hv⟩ := hn
        exact .inl ⟨cell, (del_of_ne _ hkey).trans hc, hv⟩
    | tryBeginResend key' cooldown =>
      rw [exec]
      split_ifs <;> exact .inl hn
    | _ => exact .inl hn

end Step

/-! ### The history of a run -/

namespace Deployment

variable {D : Deployment} {cfg : Snapshot}

/-- Every entry is a command its handler was allowed to issue. -/
theorem Reaches.obeys (h : D.Reaches cfg) {l₁ l₂ : List Event} {e : Event} (hl : cfg.log = l₁ ++ e :: l₂) :
    Obeys D.env (D.calls e.tid) (localTrace e.tid l₁) e.op :=
  reach_issues (I := fun tid => Obeys D.env (D.calls tid)) (fun tid => call_obeys (D.calls tid)) h hl

/-- A handler that has ended owes nothing. -/
theorem Reaches.clear (h : D.Reaches cfg) {tid : ℕ} {r : Except AuthError Answer}
    (hp : cfg.pool tid = .ret r) : Clear (localTrace tid cfg.log) :=
  reach_ends (I := fun tid => Obeys D.env (D.calls tid)) (fun tid => call_obeys (D.calls tid)) h hp

end Deployment

theorem puts_of_op {invitation : StoredInvitation} {ttl : ℕ} (h : e.op = .inr (.putInvitation hash invitation ttl)) :
    puts e.ev = some hash := by
  obtain ⟨tid, pre, op, r⟩ := e
  cases h
  rfl

namespace Deployment

variable {D : Deployment} {cfg : Snapshot}

/-- A hash is used for one record. -/
theorem Reaches.fresh (h : D.Reaches cfg) : FreshLog (mints D.env) puts cfg.log := by
  refine reach_freshLog (I := fun tid => Obeys D.env (D.calls tid)) (fun _ _ _ ha hv => (mint_new ha hv).2) ?_
    (fun tid => call_obeys (D.calls tid)) h
  intro tid tr c r v hI hv
  unfold puts at hv
  split at hv
  · next hash invitation ttl _ heq =>
    cases heq
    cases hv
    exact hI.1
  · cases hv

namespace Reaches

variable (h : D.Reaches cfg) {invitation : StoredInvitation} {cell : Cell StoredInvitation}
include h

/-- A token is one handler's. -/
theorem mine_unique {tid tid' : ℕ} (hm : Mine D.env (localTrace tid cfg.log) hash)
    (hm' : Mine D.env (localTrace tid' cfg.log) hash) : tid = tid' := by
  have hdrawn : ∀ {tid}, Mine D.env (localTrace tid cfg.log) hash →
      ∃ e ∈ cfg.log, e.tid = tid ∧ mints D.env e.ev = some hash := by
    rintro tid ⟨raw, hraw, hh⟩
    obtain ⟨e, he, ht, hev⟩ := mem_localTrace.mp hraw
    exact ⟨e, he, ht, by rw [hev, ← hh]; rfl⟩
  obtain ⟨e, he, rfl, hv⟩ := hdrawn hm
  obtain ⟨e', he', rfl, hv'⟩ := hdrawn hm'
  rw [reach_mint_unique (fun _ _ _ ha hv => (mint_new ha hv).2) h he he' hv hv']

/-- A record that is there was written. -/
theorem put_of_inv (hk : cfg.st.2.inv hash = some cell) :
    ∃ e ∈ cfg.log, ∃ ttl, e.op = .inr (.putInvitation hash cell.val ttl) := by
  exact reach_written (H := fun st => st.2.inv hash = some cell) h hk nofun (fun _ _ => id) fun _ _ _ _ hm hk =>
    (inv_of_moment hm hk).imp_right And.left

/-- Whoever writes a record drew its token, and writes it for the address and the role of the call. -/
theorem put_spec {e : Event} (he : e ∈ cfg.log) {ttl : ℕ} (hop : e.op = .inr (.putInvitation hash invitation ttl)) :
    Mine D.env (localTrace e.tid cfg.log) hash ∧
      (D.calls e.tid).key D.env = some (indexKey D.env invitation.tenantId invitation.email) ∧
      (D.calls e.tid).role = some invitation.role := by
  obtain ⟨l₁, l₂, hl⟩ := append_of_mem he
  have hobeys := h.obeys hl
  rw [hop] at hobeys
  obtain ⟨-, hmine, hkey, hrole⟩ := hobeys
  rw [hl, localTrace_append]
  exact ⟨hmine.append _, hkey, hrole⟩

/-- A hash under which a record was written is no empty text. -/
theorem hash_ne (hk : cfg.st.2.inv hash = some cell) : hash ≠ "" := by
  obtain ⟨e, he, ttl, hop⟩ := h.put_of_inv hk
  obtain ⟨⟨raw, hraw, hh⟩, -⟩ := h.put_spec he hop
  obtain ⟨e', he', -, hev⟩ := mem_localTrace.mp hraw
  obtain ⟨c, d, -, hm, -⟩ := Reach.at_mem h he'
  exact (mint_new hm.admits (by rw [hev, ← hh]; rfl)).1

/-- A record that was consumed is gone for good. -/
theorem inv_of_consumed {e : Event} (he : e ∈ cfg.log)
    (hev : e.ev = ⟨.inr (.consumeInvitation hash), some invitation⟩) : cfg.st.2.inv hash = none := by
  obtain ⟨l₁, l₂, hl⟩ := append_of_mem he
  obtain ⟨c, d, hc, hm, hd⟩ := Reach.at_entry h hl
  obtain ⟨tid, pre, op, r⟩ := e
  cases hev
  -- It was there, so it was written, and is not written again.
  obtain ⟨i, hi⟩ := moment_right hm
  obtain ⟨cell, hk, -, -⟩ := get_eq_some.mp (congrArg fst hi)
  rw [show pre = c.st from hm.st₁.symm] at hk
  obtain ⟨e₀, he₀, ttl, hop⟩ := Reaches.put_of_inv hc hk
  rw [hm.log₁] at he₀
  refine reach_since (fun st _ => st.2.inv hash = none) h hl ?_ ?_ ?_
  · intro c d _ hm
    obtain ⟨i, hi⟩ := moment_right hm
    rw [← show (exec pre (.consumeInvitation hash) i).2 = d.st from congrArg snd hi]
    exact del_self _ _
  · intro c d x l hc hlog ih hm
    rw [eq_none_iff_forall_ne_some]
    intro cell' hk'
    rcases inv_of_moment hm hk' with ⟨ttl', hop'⟩ | ⟨hk', -⟩
    · have hf := Reaches.fresh (tail hc (.by _ hm.step))
      rw [hm.log₂, hlog, ← singleton_append, ← append_assoc, append_assoc] at hf
      have hbefore : e₀ ∈ l₁ := he₀
      exact hf.not_spent_again (mem_append_left _ hbefore) (mem_concat_self (a := x))
        (puts_of_op hop) (puts_of_op hop')
    · rw [ih] at hk'
      cases hk'
  · exact fun _ _ _ ih => ih

end Reaches

end Deployment

/-! ### Runs shorter than an invitation's life -/

/-- Every index entry was written at or after the second `t`, for an invitation's life. -/
def IndexSince (env : Env) (t : ℕ) (w : World) : Prop :=
  t ≤ w.1.now ∧ ∀ key cell, w.2.idx key = some cell → ∃ s, t ≤ s ∧ cell.expireAt = some (s + env.invitationTtl)

theorem IndexSince.kept {env : Env} {t : ℕ} (h : IndexSince env t w) (ht : w.1.now < t + env.invitationTtl) :
    IndexKept w := by
  intro key cell hk
  obtain ⟨s, hs, he⟩ := h.2 key cell hk
  simp only [Cell.live, he, decide_eq_true_eq]
  omega

section Step

variable {D : Deployment} {cfg c d : Snapshot}

/-- An index entry that is there after a step was written by it, or was there before. -/
theorem idx_of_moment {env : Env} {l : List Event} (hm : Moment (machine env) l e c d)
    {key : String × String} {cell : Cell String} (hk : d.st.2.idx key = some cell) :
    (∃ hash ttl expected, e.op = .inr (.claimInvitationIndex key hash ttl expected) ∧
      cell.expireAt = some (c.st.1.now + ttl)) ∨ c.st.2.idx key = some cell := by
  rw [hm.st₁]
  obtain ⟨tid, pre, op, r⟩ := e
  cases op with
  | inl cmd =>
    rw [(moment_left hm).2] at hk
    exact .inr hk
  | inr cmd =>
    obtain ⟨i, hi⟩ := moment_right hm
    rw [← show (exec pre cmd i).2 = d.st from congrArg snd hi] at hk
    cases cmd with
    | claimInvitationIndex key' hash ttl expected =>
      rw [exec] at hk
      split_ifs at hk with hmoved
      · exact .inr hk
      · rcases setEx_eq_some hk with ⟨rfl, rfl⟩ | ⟨-, hk⟩
        · exact .inl ⟨hash, ttl, expected, rfl, rfl⟩
        · exact .inr hk
    | takeInvitationIndex key' => exact .inr (del_eq_some hk).2
    | tryBeginResend key' cooldown =>
      rw [exec] at hk
      split_ifs at hk <;> exact .inr hk
    | _ => exact .inr hk

/-- A run that is shorter than an invitation's life loses no index entry. -/
theorem Deployment.Reaches.indexKept (h : D.Reaches cfg) (ht : cfg.st.1.now < D.now + D.env.invitationTtl) :
    (∀ e ∈ cfg.log, IndexKept e.pre) ∧ IndexKept cfg.st := by
  have key : IndexSince D.env D.now cfg.st ∧
      ∀ e ∈ cfg.log, IndexSince D.env D.now e.pre ∧ e.pre.1.now ≤ cfg.st.1.now := by
    refine reach_invariant (fun st log => IndexSince D.env D.now st ∧
      ∀ e ∈ log, IndexSince D.env D.now e.pre ∧ e.pre.1.now ≤ st.1.now) ?_ ?_ ?_ h
    · exact ⟨⟨Nat.le_refl _, nofun⟩, forall_mem_nil _⟩
    · intro c d e hc ih hm
      have hd : D.Reaches d := tail hc (.by _ hm.step)
      have hnow := moment_now hm
      refine ⟨⟨hnow ▸ ih.1.1, fun key cell hk => ?_⟩, fun x hx => ?_⟩
      · rcases idx_of_moment hm hk with ⟨hash, ttl, expected, hop, he⟩ | hk
        · have hobeys := hd.obeys hm.log₂
          rw [hop] at hobeys
          exact ⟨c.st.1.now, ih.1.1, hobeys.2.2.1 ▸ he⟩
        · exact ih.1.2 key cell hk
      · rw [hnow]
        rcases mem_append.mp hx with hx | hx
        · exact ih.2 x hx
        · rw [mem_singleton.mp hx, ← hm.st₁]
          exact ⟨ih.1, Nat.le_refl _⟩
    · intro st log i ih
      have hpass : st.1.now ≤ ((machine D.env).pass st i).1.now := Nat.le_add_right _ _
      exact ⟨⟨ih.1.1.trans hpass, ih.1.2⟩, fun x hx => ⟨(ih.2 x hx).1, (ih.2 x hx).2.trans hpass⟩⟩
  refine ⟨fun e he => ?_, key.1.kept ht⟩
  obtain ⟨hsince, hle⟩ := key.2 e he
  exact hsince.kept (by omega)

end Step

/-! ### The invariant -/

/-- What the handler takes out of the index is what it read there, or names what it consumed. -/
def OwnTake (tr : Trace) (hash : String) : Prop :=
  (ledger tr).read = some hash ∨ ∃ invitation, ⟨.inr (.consumeInvitation hash), some invitation⟩ ∈ tr

/-- Every handler takes its own out of the index, if anything. -/
def OwnTakes (log : List Event) : Prop :=
  ∀ l₁ e l₂, log = l₁ ++ e :: l₂ → ∀ key hash, e.ev = ⟨.inr (.takeInvitationIndex key), some hash⟩ →
    OwnTake (localTrace e.tid l₁) hash

/-- Every record is named by the index, or some handler has still to delete it. -/
def Indexed (env : Env) (w : World) (log : List Event) : Prop :=
  ∀ hash cell, w.2.inv hash = some cell → Names w (indexKey env cell.val.tenantId cell.val.email) hash ∨
    ∃ tid, hash ∈ (ledger (localTrace tid log)).owed

theorem OwnTakes.init (h : OwnTakes (log ++ [e])) : OwnTakes log := by
  intro l₁ x l₂ hl
  exact h l₁ x (l₂ ++ [e]) (by rw [hl]; simp)

/-- An entry leaves its handler owing what its exchange says. -/
theorem owed_snoc (h : hash ∈ ((ledger (localTrace e.tid log)).step e.ev).owed) :
    ∃ tid, hash ∈ (ledger (localTrace tid (log ++ [e]))).owed :=
  ⟨e.tid, by rwa [localTrace_snoc_self, ledger_snoc]⟩

namespace Deployment

variable {D : Deployment} {cfg : Snapshot}

/-- A confirmed invitation is named where its record says. -/
theorem names_of_confirmed {c d : Snapshot} {e : Event} (hc : D.Reaches c) (hm : Moment (machine D.env) c.log e c d)
    {cell : Cell StoredInvitation} (hk : c.st.2.inv hash = some cell) {key : String × String} {ttl : ℕ}
    (hev : e.ev = ⟨.inr (.claimInvitationIndex key hash ttl (some hash)), true⟩) :
    Names d.st (indexKey D.env cell.val.tenantId cell.val.email) hash := by
  have hd : D.Reaches d := tail hc (.by _ hm.step)
  obtain ⟨e₀, he₀, ttl₀, hop₀⟩ := hc.put_of_inv hk
  obtain ⟨hmine₀, hkey₀, -⟩ := hc.put_spec he₀ hop₀
  have hobeys := hd.obeys hm.log₂
  obtain ⟨tid, pre, op, r⟩ := e
  cases hev
  obtain ⟨hmine, hkey, -⟩ := hobeys
  -- The token is one handler's, so the claim is at the key of the handler that wrote the record.
  have htid : tid = e₀.tid := hc.mine_unique hmine hmine₀
  have hkeys : some key = some (indexKey D.env cell.val.tenantId cell.val.email) := by
    rw [← hkey, ← hkey₀]
    exact congrArg (fun t => (D.calls t).key D.env) htid
  rw [← Option.some.inj hkeys]
  obtain ⟨i, hi⟩ := moment_right hm
  have hst : (exec pre (.claimInvitationIndex key hash ttl (some hash)) i).2 = d.st := congrArg snd hi
  have hr : (exec pre (.claimInvitationIndex key hash ttl (some hash)) i).1 = true := congrArg fst hi
  rw [← hst]
  rw [exec] at hr ⊢
  split_ifs at hr ⊢ with hmoved
  exact ⟨_, setEx_self .., rfl⟩

/-- One step keeps the invariant. -/
theorem indexed_step {c d : Snapshot} {e : Event} (hc : D.Reaches c) (hm : Moment (machine D.env) c.log e c d)
    (hkept : IndexKept c.st) (hown : OwnTakes (c.log ++ [e])) (ih : Indexed D.env c.st c.log) :
    Indexed D.env d.st (c.log ++ [e]) := by
  intro hash cell hk
  rcases inv_of_moment hm hk with ⟨ttl, hop⟩ | ⟨hk, hnotconsumed, hnotdeleted⟩
  · -- Just written: its handler owes it until the confirmation.
    refine .inr (owed_snoc ?_)
    obtain ⟨tid, pre, op, r⟩ := e
    cases hop
    exact mem_cons_self
  · rcases ih hash cell hk with hn | ⟨tid, howed⟩
    · rcases names_of_moment hm hkept hn with hn | ⟨hash', ttl, expected, hev, hexp, hne⟩ | hev
      · exact .inl hn
      · -- Displaced: the claim's handler owes it.
        have hexp : expected = some hash := by
          cases expected with
          | none => exact absurd hexp.symm (hc.hash_ne hk)
          | some x => exact congrArg some hexp
        refine .inr (owed_snoc ?_)
        rw [hev, Ledger.step, hexp, if_neg (fun h => hne (Option.some.inj h).symm)]
        exact mem_append_left _ (mem_singleton_self _)
      · -- Taken by a handler that read it, or that had consumed the record.
        rcases hown c.log e [] rfl _ hash hev with hread | ⟨invitation, hcons⟩
        · refine .inr (owed_snoc ?_)
          rw [hev, Ledger.step, hread]
          exact mem_append_left _ (mem_singleton_self _)
        · obtain ⟨x, hx, -, hxev⟩ := mem_localTrace.mp hcons
          rw [hc.inv_of_consumed hx hxev] at hk
          cases hk
    · by_cases ht : e.tid = tid
      · subst ht
        rcases owed_step howed e.ev with howed | hdel | ⟨key, ttl, hev⟩
        · exact .inr (owed_snoc howed)
        · exact absurd hdel hnotdeleted
        · exact .inl (names_of_confirmed hc hm hk hev)
      · exact .inr ⟨tid, by rwa [localTrace_snoc_of_ne _ ht]⟩

/-- In every run in which no index entry lapses and every handler takes its own. -/
theorem Reaches.indexed (h : D.Reaches cfg) (hkept : ∀ e ∈ cfg.log, IndexKept e.pre)
    (hown : OwnTakes cfg.log) : Indexed D.env cfg.st cfg.log := by
  refine reach_invariant (fun st log => (∀ e ∈ log, IndexKept e.pre) → OwnTakes log →
    Indexed D.env st log) ?_ ?_ ?_ h hkept hown
  · intro _ _ hash cell hk
    cases hk
  · intro c d e hc ih hm hkept hown
    have hpre : IndexKept c.st := hm.st₁ ▸ hkept e mem_concat_self
    exact indexed_step hc hm hpre hown (ih (fun x hx => hkept x (mem_append_left _ hx)) hown.init)
  · exact fun _ _ _ ih => ih

end Deployment

/-- An invitation for this key is live under this hash. -/
def Pending (env : Env) (w : World) (key : String × String) (hash : String) : Prop :=
  ∃ invitation, get w.2.inv w.1.now hash = some invitation ∧ indexKey env invitation.tenantId invitation.email = key

/-- When no call is in progress, at most one invitation of a key is live, and the index names it: in every
run in which no index entry lapses and every handler takes its own out of the index. -/
theorem one_invitation_indexed {D : Deployment} {cfg : Snapshot} (h : D.Reaches cfg)
    (hkept : ∀ e ∈ cfg.log, IndexKept e.pre) (hnow : IndexKept cfg.st) (hown : OwnTakes cfg.log)
    (hq : cfg.Quiet) (key : String × String) :
    (∀ hash, Pending D.env cfg.st key hash → get cfg.st.2.idx cfg.st.1.now key = some hash) ∧
      ∀ hash hash', Pending D.env cfg.st key hash → Pending D.env cfg.st key hash' → hash = hash' := by
  have hnamed : ∀ hash, Pending D.env cfg.st key hash → get cfg.st.2.idx cfg.st.1.now key = some hash := by
    rintro hash ⟨invitation, hget, rfl⟩
    obtain ⟨cell, hk, -, rfl⟩ := get_eq_some.mp hget
    rcases h.indexed hkept hown hash cell hk with hn | ⟨tid, howed⟩
    · exact hn.get hnow
    · have hclear : (ledger (localTrace tid cfg.log)).owed = [] := by
        rcases hq tid with hnil | ⟨r, hp⟩
        · rw [hnil]
          rfl
        · exact h.clear hp
      rw [hclear] at howed
      cases howed
  refine ⟨hnamed, fun hash hash' hp hp' => ?_⟩
  have heq := (hnamed hash hp).symm.trans (hnamed hash' hp')
  exact Option.some.inj heq

/-! A small deployment: the tenant's owner, a member, and the roles between them. -/

namespace Demo

/-- The surroundings of the engine's own small deployment, with three roles. -/
def env : Env :=
  { BymaxAuth.Demo.env with
    sha256 := id
    hierarchy := [("OWNER", ["ADMIN", "MEMBER"]), ("ADMIN", ["MEMBER"]), ("MEMBER", [])]
    invitationTtl := 604800
    minLength := 8
    resetMethod := .token
    resetTokenTtl := 3600
    otpLength := 6
    otpTtl := 600
    emailChangeTtl := 3600 }

/-- The owner. -/
def owner : AuthUser :=
  { BymaxAuth.Demo.alice with id := "o1", email := "o@example.com", role := "OWNER", id_ne := by decide }

/-- The deployment with these calls; `u1` is a member. -/
def deployment (calls : List Call) : Deployment :=
  { env, now := 0, users := [owner, BymaxAuth.Demo.alice], calls := fun tid => calls.getD tid (.other (.list "" "")) }

/-- The index key of the address that is invited. -/
def key : String × String := indexKey env "t1" "x@example.com"

end Demo

/-- The exchange takes an entry out of the index. -/
def takesEntry (ev : Exchange) : Bool :=
  match ev with
  | ⟨.inr (.takeInvitationIndex _), some _⟩ => true
  | _ => false

theorem ownTakes_of_all (h : (log.all fun e => !takesEntry e.ev) = true) : OwnTakes log := by
  rintro l₁ e l₂ rfl key hash hev
  have := all_eq_true.mp h e (mem_append_right _ mem_cons_self)
  rw [hev] at this
  cases this

/-- The record of this hash is live, and is for this key, as a test. -/
def isPending (env : Env) (w : World) (key : String × String) (hash : String) : Bool :=
  (get w.2.inv w.1.now hash).any fun invitation => decide (indexKey env invitation.tenantId invitation.email = key)

theorem pending_of_isPending {env : Env} {key : String × String} (h : isPending env w key hash = true) :
    Pending env w key hash := by
  obtain ⟨invitation, hget, hkey⟩ := (any_eq_true _ _).mp h
  exact ⟨invitation, hget, of_decide_eq_true hkey⟩

/-- A schedule that can be executed to a moment with the property `p` is a run to such a moment. -/
theorem exists_reaches {D : Deployment} {P : Snapshot → Prop} (moves : List (Move Input)) (p : Snapshot → Prop)
    [DecidablePred p] (h : (run (machine D.env) D.start moves).any (fun cfg => p cfg) = true)
    (hP : ∀ cfg, D.Reaches cfg → p cfg → P cfg) : ∃ cfg, D.Reaches cfg ∧ P cfg :=
  exists_reach h hP

open Invitation.Demo
open BymaxAuth.Demo (acts token)

/-- An address is invited, and invited again: the index names the second invitation. -/
theorem one_invitation_indexed_again : ∃ cfg, (deployment [.invite "o1" "x@example.com" "MEMBER" "t1",
      .invite "o1" "x@example.com" "ADMIN" "t1"]).Reaches cfg ∧
    cfg.Quiet ∧ Pending env cfg.st key "r2" ∧
    get cfg.st.2.idx cfg.st.1.now key = some "r2" := by
  refine exists_reaches (acts 0 7 "r1" [] ++ acts 1 9 "r2" [])
    (fun cfg => cfg.st.1.now < 604800 ∧ (cfg.log.all fun e => decide (e.tid < 2)) ∧
      ((List.range 2).all fun tid => (cfg.pool tid).answer.isSome) ∧
      (cfg.log.all fun e => !takesEntry e.ev) ∧ isPending env cfg.st key "r2") (by decide +kernel) ?_
  rintro cfg h ⟨hnow, hlog, hended, htakes, hpending⟩
  have hquiet := quiet_of_all 2 hlog hended
  have hpending := pending_of_isPending hpending
  obtain ⟨hkept, hkeptnow⟩ := h.indexKept (by simpa [deployment, env] using hnow)
  exact ⟨hquiet, hpending,
    (one_invitation_indexed h hkept hkeptnow (ownTakes_of_all htakes) hquiet key).1 "r2" hpending⟩

/-- An acceptance has consumed the first invitation of an address when the address is invited again; then it
goes on, and takes the second invitation's entry. The second invitation stands, and no index names it. -/
theorem taken_unread : ∃ cfg,
    (deployment [.invite "o1" "x@example.com" "MEMBER" "t1", .accept "r1" "long enough" "" "",
      .invite "o1" "x@example.com" "ADMIN" "t1"]).Reaches cfg ∧
    (∀ e ∈ cfg.log, IndexKept e.pre) ∧ IndexKept cfg.st ∧ cfg.Quiet ∧
    Pending env cfg.st key "r2" ∧ get cfg.st.2.idx cfg.st.1.now key = none := by
  refine exists_reaches
    (acts 0 7 "r1" [] ++ acts 1 2 "" [] ++ acts 2 9 "r2" [] ++
      acts 1 13 (token 'a') ["", "", "", "", "u2", "", "", "", "j0", "", "f0"])
    (fun cfg => cfg.st.1.now < 604800 ∧ (cfg.log.all fun e => decide (e.tid < 3)) ∧
      ((List.range 3).all fun tid => (cfg.pool tid).answer.isSome) ∧
      isPending env cfg.st key "r2" ∧ get cfg.st.2.idx cfg.st.1.now key = none)
    (by decide +kernel) ?_
  rintro cfg h ⟨hnow, hlog, hended, hpending, hnone⟩
  obtain ⟨hkept, hkeptnow⟩ := h.indexKept (by simpa [deployment, env] using hnow)
  exact ⟨hkept, hkeptnow, quiet_of_all 3 hlog hended, pending_of_isPending hpending, hnone⟩

/-! ### Who destroys an invitation -/

/-- An exchange that deletes the record of this hash, or removes its entry from the index. -/
inductive Destroys : Exchange → String → Prop where
  /-- The record is deleted. -/
  | deleted (hash : String) : Destroys ⟨.inr (.deleteInvitationByHash hash), true⟩ hash
  /-- The entry is displaced by another invitation's. -/
  | displaced {key : String × String} {hash' : String} {ttl : ℕ} (hash : String) :
      hash' ≠ hash → Destroys ⟨.inr (.claimInvitationIndex key hash' ttl (some hash)), true⟩ hash
  /-- The entry is taken. -/
  | taken {key : String × String} (hash : String) : Destroys ⟨.inr (.takeInvitationIndex key), some hash⟩ hash

/-- Whenever a call looks at the record an index entry names, the record is there. -/
def RecordsFound (log : List Event) : Prop :=
  ∀ e ∈ log, ∀ hash, e.ev ≠ ⟨.inr (.readInvitationByHash hash), none⟩

/-- A revocation takes out of the index what it read there, if anything. -/
def RevokesOwn (D : Deployment) (log : List Event) : Prop :=
  ∀ l₁ e l₂, log = l₁ ++ e :: l₂ → (D.calls e.tid).caller ≠ none → ∀ key hash,
    e.ev = ⟨.inr (.takeInvitationIndex key), some hash⟩ → (ledger (localTrace e.tid l₁)).read = some hash

section Rank

variable {D : Deployment} {cfg : Snapshot}

/-- What is read under a hash is what was written there. -/
theorem Deployment.Reaches.read_put (h : D.Reaches cfg) {x p : Event} (hx : x ∈ cfg.log) (hp : p ∈ cfg.log)
    {found invitation : StoredInvitation} {ttl : ℕ} (hread : x.ev = ⟨.inr (.readInvitationByHash hash), some found⟩)
    (hput : p.op = .inr (.putInvitation hash invitation ttl)) : found = invitation := by
  obtain ⟨l₁, l₂, hl⟩ := append_of_mem hx
  obtain ⟨c, d, hc, hm, -⟩ := Reach.at_entry h hl
  obtain ⟨tid, pre, op, r⟩ := x
  cases hread
  obtain ⟨i, hi⟩ := moment_right hm
  obtain ⟨cell, hk, -, rfl⟩ := get_eq_some.mp (congrArg fst hi)
  rw [show pre = c.st from hm.st₁.symm] at hk
  obtain ⟨p', hp', ttl', hput'⟩ := Deployment.Reaches.put_of_inv hc hk
  have hmem : p' ∈ cfg.log := by
    rw [hl, ← hm.log₁]
    exact mem_append_left _ hp'
  have heq : p' = p := h.fresh.eq_of_spend hmem hp (puts_of_op hput') (puts_of_op hput)
  subst heq
  rw [hput] at hput'
  cases hput'
  rfl

/-- A call that was cleared for a hash has a caller whose role reaches as far as the record does. -/
theorem Deployment.Reaches.rank_of_cleared (h : D.Reaches cfg) (hfound : RecordsFound cfg.log) {tid : ℕ}
    (hcleared : Cleared D.env (D.calls tid) (localTrace tid cfg.log) hash) {p : Event} (hp : p ∈ cfg.log)
    {invitation : StoredInvitation} {ttl : ℕ} (hput : p.op = .inr (.putInvitation hash invitation ttl)) :
    ∃ u, Caller (D.calls tid) (localTrace tid cfg.log) u ∧ hasRole u.role invitation.role D.env.hierarchy = true := by
  obtain ⟨u, found, hu, hread, hrank⟩ := hcleared
  obtain ⟨x, hx, -, hxev⟩ := mem_localTrace.mp hread
  cases found with
  | none => exact absurd hxev (hfound x hx hash)
  | some found => exact ⟨u, hu, h.read_put hx hp hxev hput ▸ hrank found rfl⟩

end Rank

/-- Whoever destroys an invitation by an invitation or a revocation of theirs has a role that reaches as far
as the one the invitation grants: in every run in which the records were there when they were looked at, and
a revocation took out of the index what it had read. -/
theorem destroyed_by_rank {D : Deployment} {cfg : Snapshot} (h : D.Reaches cfg)
    (hfound : RecordsFound cfg.log) (hown : RevokesOwn D cfg.log) {e p : Event} (he : e ∈ cfg.log)
    (hp : p ∈ cfg.log) {hash : String} {invitation : StoredInvitation} {ttl : ℕ}
    (hput : p.op = .inr (.putInvitation hash invitation ttl)) (hd : Destroys e.ev hash)
    (hcall : (D.calls e.tid).caller ≠ none) :
    ∃ u, Caller (D.calls e.tid) (localTrace e.tid cfg.log) u ∧
      hasRole u.role invitation.role D.env.hierarchy = true := by
  obtain ⟨l₁, l₂, hl⟩ := append_of_mem he
  have hobeys := h.obeys hl
  have hgrows : localTrace e.tid cfg.log = localTrace e.tid l₁ ++ localTrace e.tid (e :: l₂) := by
    rw [hl, localTrace_append]
  have hcleared : Cleared D.env (D.calls e.tid) (localTrace e.tid l₁) hash →
      ∃ u, Caller (D.calls e.tid) (localTrace e.tid cfg.log) u ∧
        hasRole u.role invitation.role D.env.hierarchy = true := by
    intro hc
    refine h.rank_of_cleared hfound ?_ hp hput
    rw [hgrows]
    exact hc.append _
  have hown' := hown l₁ e l₂ hl hcall
  obtain ⟨tid, pre, op, r⟩ := e
  cases hd with
  | deleted hash =>
    rcases hobeys with ⟨hmine, u, role, hu, hrole, hrank⟩ | hc
    · -- Its own record: the role is the one the call invites to.
      obtain ⟨hminep, -, hrolep⟩ := h.put_spec hp hput
      have htid : tid = p.tid := h.mine_unique (by rw [hgrows]; exact hmine.append _) hminep
      rw [← htid] at hrolep
      have hsame : some role = some invitation.role := hrole.symm.trans hrolep
      refine ⟨u, ?_, Option.some.inj hsame ▸ hrank⟩
      rw [hgrows]
      exact hu.append _
    · exact hcleared hc
  | displaced hash hne =>
    obtain ⟨-, -, -, hexp⟩ := hobeys
    rcases hexp hash rfl with heq | hc
    · exact absurd heq.symm hne
    · exact hcleared hc
  | taken hash =>
    rcases hobeys with hnone | ⟨hash', hread, hc⟩
    · exact absurd hnone hcall
    · have hsame : some hash' = some hash := hread.symm.trans (hown' _ hash rfl)
      exact hcleared (Option.some.inj hsame ▸ hc)

/-- The exchange looked at a record that was not there. -/
def missesRecord (ev : Exchange) : Bool :=
  match ev with
  | ⟨.inr (.readInvitationByHash _), none⟩ => true
  | _ => false

theorem recordsFound_of_all (h : (log.all fun e => !missesRecord e.ev) = true) : RecordsFound log := by
  intro e he hash hev
  have := all_eq_true.mp h e he
  rw [hev] at this
  cases this

/-- The entry is the write of a record under this hash for this role, as a test. -/
def writes (hash role : String) (e : Event) : Bool :=
  match e.ev with
  | ⟨.inr (.putInvitation hash' invitation _), _⟩ => hash' = hash && invitation.role = role
  | _ => false

theorem put_of_writes {role : String} (h : log.any (writes hash role) = true) :
    ∃ p ∈ log, ∃ invitation ttl, p.op = .inr (.putInvitation hash invitation ttl) ∧ invitation.role = role := by
  obtain ⟨⟨tid, pre, op, r⟩, hp, hw⟩ := any_eq_true.mp h
  unfold writes at hw
  split at hw
  · next hash' invitation ttl _ hev =>
    cases hev
    simp only [Bool.and_eq_true, decide_eq_true_eq] at hw
    obtain ⟨rfl, hrole⟩ := hw
    exact ⟨_, hp, invitation, ttl, rfl, hrole⟩
  · cases hw

/-- The entry is a deletion by this handler of a record under this hash, as a test. -/
def deletes (tid : ℕ) (hash : String) (e : Event) : Bool :=
  match e.ev with
  | ⟨.inr (.deleteInvitationByHash hash'), true⟩ => e.tid = tid && hash' = hash
  | _ => false

theorem destroys_of_deletes {tid : ℕ} (h : log.any (deletes tid hash) = true) :
    ∃ e ∈ log, e.tid = tid ∧ Destroys e.ev hash := by
  obtain ⟨⟨t, pre, op, r⟩, he, hd⟩ := any_eq_true.mp h
  unfold deletes at hd
  split at hd
  · next hash' hev =>
    cases hev
    simp only [Bool.and_eq_true, decide_eq_true_eq] at hd
    obtain ⟨rfl, rfl⟩ := hd
    exact ⟨_, he, rfl, .deleted hash'⟩
  · cases hd

/-- The owner invites an administrator, and invites the address again. -/
theorem destroyed_by_rank_owner : ∃ cfg e u, (deployment [.invite "o1" "x@example.com" "ADMIN" "t1",
      .invite "o1" "x@example.com" "MEMBER" "t1"]).Reaches cfg ∧
    e ∈ cfg.log ∧ e.tid = 1 ∧ Destroys e.ev "r1" ∧
    Caller (.invite "o1" "x@example.com" "MEMBER" "t1") (localTrace 1 cfg.log) u ∧
    hasRole u.role "ADMIN" env.hierarchy = true := by
  obtain ⟨cfg, h, hfound, htakes, hwrites, hdeletes⟩ := exists_reaches
    (acts 0 7 "r1" [] ++ acts 1 9 "r2" [])
    (fun cfg => (cfg.log.all fun e => !missesRecord e.ev) ∧ (cfg.log.all fun e => !takesEntry e.ev) ∧
      cfg.log.any (writes "r1" "ADMIN") ∧ cfg.log.any (deletes 1 "r1"))
    (by decide +kernel : (run _ (deployment [.invite "o1" "x@example.com" "ADMIN" "t1",
      .invite "o1" "x@example.com" "MEMBER" "t1"]).start _).any _ = true) fun _ _ => id
  obtain ⟨p, hp, invitation, ttl, hput, hrole⟩ := put_of_writes hwrites
  obtain ⟨e, he, htid, hd⟩ := destroys_of_deletes hdeletes
  have hown : RevokesOwn (deployment [.invite "o1" "x@example.com" "ADMIN" "t1",
      .invite "o1" "x@example.com" "MEMBER" "t1"]) cfg.log := by
    rintro l₁ x l₂ hl - key hash hev
    have := all_eq_true.mp htakes x (by rw [hl]; exact mem_append_right _ mem_cons_self)
    rw [hev] at this
    cases this
  obtain ⟨u, hu, hrank⟩ := destroyed_by_rank h (recordsFound_of_all hfound) hown he hp hput hd
    (by rw [htid]; nofun)
  rw [htid] at hu
  exact ⟨cfg, e, u, h, he, htid, hd, hu, hrole ▸ hrank⟩

/-- The account found for a caller does not reach this role, as a test. -/
def outranked (role : String) (ev : Exchange) : Bool :=
  match ev with
  | ⟨.inl (.host (.findById ..)), some u⟩ => !hasRole u.role role env.hierarchy
  | _ => true

/-- The call is answered that the invitation stands, as a test. -/
def invited : Except AuthError Answer → Bool
  | .ok .invited => true
  | _ => false

/-- A member's invitation reads the index between an administrator's claim and the write of its record. No
rank is checked; the administrator's invitation is written and confirmed; then the member's displaces it and
deletes its record. -/
theorem outranked_destroys : ∃ cfg e, (deployment [.invite "o1" "x@example.com" "ADMIN" "t1",
      .invite "u1" "x@example.com" "MEMBER" "t1"]).Reaches cfg ∧
    cfg.pool 0 = .ret (.ok .invited) ∧
    (∃ p ∈ cfg.log, ∃ invitation ttl, p.op = .inr (.putInvitation "r1" invitation ttl) ∧ invitation.role = "ADMIN") ∧
    e ∈ cfg.log ∧ e.tid = 1 ∧ Destroys e.ev "r1" ∧
    ∀ u, Caller (.invite "u1" "x@example.com" "MEMBER" "t1") (localTrace 1 cfg.log) u →
      hasRole u.role "ADMIN" env.hierarchy = false := by
  obtain ⟨cfg, h, hanswer, hwrites, hdeletes, hrank⟩ := exists_reaches
    (acts 0 5 "r1" [] ++ acts 1 5 "r2" [] ++ acts 0 2 "" [] ++ acts 1 2 "" [])
    (fun cfg => (cfg.pool 0).answer.any invited ∧
      cfg.log.any (writes "r1" "ADMIN") ∧ cfg.log.any (deletes 1 "r1") ∧
      (localTrace 1 cfg.log).all (outranked "ADMIN"))
    (by decide +kernel : (run _ (deployment [.invite "o1" "x@example.com" "ADMIN" "t1",
      .invite "u1" "x@example.com" "MEMBER" "t1"]).start _).any _ = true) fun _ _ => id
  obtain ⟨r, hr, hok⟩ := (any_eq_true _ _).mp hanswer
  obtain ⟨e, he, htid, hd⟩ := destroys_of_deletes hdeletes
  refine ⟨cfg, e, h, ?_, put_of_writes hwrites, he, htid, hd, ?_⟩
  · rw [Prog.answer_eq_some.mp hr]
    unfold invited at hok
    split at hok
    · rfl
    · cases hok
  · rintro u ⟨id, tenantId, -, hu⟩
    simpa [outranked] using all_eq_true.mp hrank _ hu

end BymaxAuth.SingleUse.Invitation
