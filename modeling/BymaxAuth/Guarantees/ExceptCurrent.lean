import BymaxAuth.Guarantees.SignOut

/-!
# Logging out everywhere else

`revoke_all_except_current` finds out which session to keep, reads the account's index once more, and
revokes what it found there one by one, by hash. A rotation that commits in between moves a victim to a
hash the index did not have when it was read; the revocation of the old hash finds nothing, and that is
not an error.

## The model

`Lists` pins the two things the outcome depends on: the session to keep, which is what
`resolve_live_session` answered along the call's own exchanges, and the read of the index that comes next.
`KeptOnly` is what the call is for. `OnlyKeptMoves` is about the steps after that read: no live token of
the account is rotated, and no grace recovery of it completed, but in the lineage of the session to keep.
-/

namespace BymaxAuth

open Redis Concurrency List Bool Member Returns

/-! ### What the call has done -/

section Exchanges

variable {env : Env} {tr : Trace}

/-- The exchanges say that a pruning of the account's index found this session dead. -/
def Pruned (subject : String) (tr : Trace) (hash : String) : Prop :=
  ∃ members, ∃ removed : List Member, ⟨.session (.pruneDead subject members), removed⟩ ∈ tr ∧
    live hash ∈ removed

/-- The exchanges say that the session was revoked, or that it was gone. -/
def Revoked (subject : String) (tr : Trace) (hash : String) : Prop :=
  ∃ found, ⟨.session (.sessionRevoke subject hash), found⟩ ∈ tr

theorem readEntries_returns (ms : List Member) : Returns (fun tr' res => tr <+: tr' ∧
      ∀ hash, live hash ∈ ms → ∃ entry ∈ res.1, entry.sessionHash = hash) tr (readEntries ms) := by
  induction ms generalizing tr with
  | nil => exact .pure ⟨prefix_refl _, nofun⟩
  | cons m ms ih =>
    cases m with
    | grace hash =>
      refine .bind ih ?_
      rintro tr' ⟨entries, stale⟩ ⟨htr, hnames⟩
      refine .pure ⟨htr, fun x hx => hnames x ?_⟩
      simpa using hx
    | live hash =>
      refine ⟨trivial, fun reply => ?_⟩
      refine bind ih ?_
      rintro tr' ⟨entries, stale⟩ ⟨htr, hnames⟩
      refine .pure ⟨(prefix_append _ _).trans htr, fun x hx => ?_⟩
      rcases mem_cons.mp hx with heq | hx
      · cases heq
        exact ⟨_, mem_cons_self, rfl⟩
      · obtain ⟨entry, he, hh⟩ := hnames x hx
        exact ⟨entry, mem_cons_of_mem _ he, hh⟩

/-- A listing names every live member of the index as it read it, but for those its pruning found dead. -/
theorem listSessionEntries_returns (subject : String) :
    Returns (fun tr' entries => ∃ ms tail, tr' = tr ++ ⟨.session (.smembersSess subject), ms⟩ :: tail ∧
      ∀ hash, live hash ∈ ms → (∃ entry ∈ entries, entry.sessionHash = hash) ∨ Pruned subject tail hash) tr
      (listSessionEntries subject) := by
  refine ⟨trivial, fun ms => ?_⟩
  refine bind (readEntries_returns ms) ?_
  rintro tr' ⟨entries, stale⟩ ⟨⟨tail, rfl⟩, hnames⟩
  -- An entry that is filtered out is one the pruning removed.
  have hkept : ∀ (removed : List Member) (hash : String), live hash ∈ ms →
      (∃ entry ∈ entries.filter (fun entry => entry.detail.isSome ||
        !removed.contains (.live entry.sessionHash)), entry.sessionHash = hash) ∨ live hash ∈ removed := by
    intro removed hash hm
    obtain ⟨entry, he, rfl⟩ := hnames hash hm
    by_cases hr : live entry.sessionHash ∈ removed
    · exact .inr hr
    · exact .inl ⟨entry, mem_filter.mpr ⟨he, by simp [hr]⟩, rfl⟩
  by_cases hs : stale.isEmpty = true
  · simp only [pruneDeadMembers, if_pos hs]
    refine pure ⟨ms, tail, by simp, fun hash hm => .inl ?_⟩
    exact (hkept [] hash hm).resolve_right (by simp)
  · simp only [pruneDeadMembers, if_neg hs]
    refine ⟨trivial, fun removed => ?_⟩
    refine pure ⟨ms, tail ++ [⟨.session (.pruneDead subject stale), removed⟩], by simp, fun hash hm => ?_⟩
    rcases hkept removed hash hm with hin | hr
    · exact .inl hin
    · exact .inr ⟨stale, removed, mem_append_right _ (mem_singleton_self _), hr⟩

theorem revokeOthers_returns (subject kept : String) (entries : List SessionEntry) :
    Returns (fun tr' _ => ∃ done, tr' = tr ++ done ∧
      ∀ entry ∈ entries, entry.sessionHash = kept ∨ Revoked subject done entry.sessionHash) tr
      (revokeOthers subject kept entries) := by
  induction entries generalizing tr with
  | nil => exact .pure ⟨[], by simp, nofun⟩
  | cons entry rest ih =>
    refine .ite (fun hk => ih.mono ?_) fun _ => ⟨trivial, fun found => mono ih ?_⟩
    · rintro tr' _ ⟨done, rfl, hrest⟩
      exact ⟨done, rfl, forall_mem_cons.mpr ⟨.inl hk, hrest⟩⟩
    · rintro tr' _ ⟨done, rfl, hrest⟩
      refine ⟨⟨.session (.sessionRevoke subject entry.sessionHash), found⟩ :: done, by simp,
        forall_mem_cons.mpr ⟨.inr ⟨found, mem_cons_self⟩, fun x hx => ?_⟩⟩
      exact (hrest x hx).imp_right fun ⟨f, hf⟩ => ⟨f, mem_cons_of_mem _ hf⟩

/-- The session to keep is the presented one, unless its grace pointer was asked for. -/
theorem resolveLiveSession_returns (tenantId userId presentedHash : String) :
    Returns (fun tr' kept => kept = presentedHash ∨ ∃ pointer, ⟨.session (.getRp presentedHash), pointer⟩ ∈ tr')
      tr (resolveLiveSession env tenantId userId presentedHash) := by
  refine .guard fun _ => ?_
  refine (grows _ _).bind fun tr₁ entries _ => .ite (fun _ => .pure (.inl rfl)) fun _ => ?_
  refine ⟨trivial, fun pointer => any _ fun tr₂ kept h₂ => .inr ⟨pointer, ?_⟩⟩
  exact h₂.subset (mem_append_right _ (mem_singleton_self _))

/-- The part of `revoke_all_except_current` behind `resolve_live_session`. -/
def endOthers (subject kept : String) : Act Unit := do
  let sessions ← listSessionEntries subject
  revokeOthers subject kept sessions
  sweepGracePointers subject
  discard <| bumpEpoch subject

/-- Every live member of the index as the call read it is the session to keep, or was revoked after the
read, or was found dead. -/
theorem endOthers_returns (subject kept : String) :
    Returns (fun tr' _ => ∃ ms tail, tr' = tr ++ ⟨.session (.smembersSess subject), ms⟩ :: tail ∧
      ∀ hash, live hash ∈ ms → hash = kept ∨ Revoked subject tail hash ∨ Pruned subject tail hash) tr
      (endOthers subject kept) := by
  refine .bind (listSessionEntries_returns subject) ?_
  rintro tr₁ entries ⟨ms, tail, rfl, hnames⟩
  refine .bind (revokeOthers_returns subject kept entries) ?_
  rintro tr₂ _ ⟨done, rfl, hdone⟩
  refine .any _ ?_
  rintro tr₃ _ ⟨more, rfl⟩
  refine ⟨ms, tail ++ (done ++ more), by simp, fun hash hm => ?_⟩
  rcases hnames hash hm with ⟨entry, he, rfl⟩ | ⟨members, removed, hp, hr⟩
  · refine (hdone entry he).imp_right fun ⟨found, hf⟩ => .inl ⟨found, ?_⟩
    exact mem_append_right _ (mem_append_left _ hf)
  · exact .inr (.inr ⟨members, removed, mem_append_left _ hp, hr⟩)

end Exchanges

/-! ### What is left -/

namespace Deployment

variable {D : Deployment} {cfg : Snapshot} {l₁ l₂ : List Event} {tid : ℕ} {pre : Store} {subject : String}

/-- A session that a pruning took out of the index is dead. -/
theorem Reaches.dead_of_pruned (h : D.Reaches cfg) {members removed : List Member}
    (hl : cfg.log = l₁ ++ ⟨tid, pre, .session (.pruneDead subject members), removed⟩ :: l₂) {e : Event}
    {b : Birth} (he : e ∈ l₁) (hb : Bears e b) (hr : live b.hash ∈ removed) :
    ¬ Live cfg.st b.hash := by
  obtain ⟨c, d, hc, hm, hd⟩ := h.at_entry hl
  have hgone : pre.keys.memberExists pre.now (.live b.hash) = false := by
    rw [(moment_session hm).1] at hr
    exact (SessionKeys.memberExists_of_pruned members hr).resolve_left not_mem_nil
  have hmem : e ∈ c.log := by rw [hm.log₁]; exact he
  refine h.dead_of_reach (hd.head (.by _ hm.step)) hmem hb ?_
  rw [hm.st₁, Live, not_eq_true]
  exact hgone

end Deployment

/-- The call has found out that `kept` is the session to keep, with the exchanges it has before the read
of the index that ends `l₁`. -/
def Lists (D : Deployment) (tid : ℕ) (tenantId userId currentHash : String) (log : List Event)
    (kept : String) (l₁ l₂ : List Event) : Prop :=
  Path (resolveLiveSession D.env tenantId userId currentHash).run (localTrace tid l₁) (.ret (.ok kept)) ∧
    ∃ pre ms, log = l₁ ++ ⟨tid, pre, .session (.smembersSess (D.env.subjectHash (some tenantId) userId)), ms⟩ :: l₂

/-- Every live session of the account that comes, directly or by rotations and recoveries, from a login
of `l₁` is the kept one or descends from it. -/
def KeptOnly (cfg : Snapshot) (subject kept : String) (l₁ : List Event) : Prop :=
  ∀ tid pre s r, ⟨tid, pre, .session (.createSession s), r⟩ ∈ l₁ → s.subject = subject →
    ∀ hash, Descends cfg.log s.hash hash → Live cfg.st hash → Descends cfg.log kept hash

/-- In `l₂`, a live token of the account is presented, and a recovery of the account finds its indexes,
only in the lineage of the kept session. -/
structure OnlyKeptMoves (log : List Event) (subject kept : String) (l₂ : List Event) : Prop where
  rotations : ∀ tid pre a r, ⟨tid, pre, .session (.refreshRotate a), r⟩ ∈ l₂ → a.subject = subject →
    Live pre a.oldHash → Descends log kept a.oldHash
  recoveries : ∀ tid pre a json pre' s r, ⟨tid, pre, .session (.refreshRotate a), .grace json⟩ ∈ log →
    ⟨tid, pre', .session (.recoverGrace s), r⟩ ∈ l₂ → s.subject = subject →
    has pre'.keys.sess pre'.now s.subject = true →
    (s.family = "" ∨ has pre'.keys.fam pre'.now s.family = true) → Descends log kept a.oldHash

namespace Deployment

variable {D : Deployment} {cfg : Snapshot} {l₁ l₂ : List Event} {tid : ℕ} {tenantId userId currentHash kept : String}
  {a : Answer}

namespace Reaches

variable (h : D.Reaches cfg)
include h

/-- A call that has returned has read the index to find its victims. -/
theorem lists (hf : D.flows tid = .revokeOthers tenantId userId currentHash) (hret : cfg.pool tid = .ret (.ok a)) :
    ∃ kept l₁ l₂, Lists D tid tenantId userId currentHash cfg.log kept l₁ l₂ := by
  have hpath : Path ((D.flows tid).prog D.env) (localTrace tid cfg.log) (cfg.pool tid) := reach_path h tid
  rw [hret, hf] at hpath
  obtain ⟨tr₀, _, tr₃, htr, hpath, -⟩ := Path.answered hpath
  obtain ⟨tr₁, kept, tr₂, rfl, hkept, hrest⟩ := Path.answered hpath
  obtain ⟨ms, tail, rfl, -⟩ := (endOthers_returns _ kept).of_path hrest
  rw [append_assoc] at htr
  obtain ⟨l₁, ⟨tid', pre, op, res⟩, l₂, hl, rfl, hev, rfl, -⟩ := localTrace_split htr
  cases hev
  exact ⟨kept, l₁, l₂, hkept, pre, _, hl⟩

/-- And every live member of that read is the session to keep, or was revoked after it, or found dead. -/
theorem victims (hf : D.flows tid = .revokeOthers tenantId userId currentHash)
    (hret : cfg.pool tid = .ret (.ok a)) {pre : Store} {ms : List Member}
    (hkept : Path (resolveLiveSession D.env tenantId userId currentHash).run (localTrace tid l₁)
      (.ret (.ok kept))) (hl : cfg.log = l₁ ++
      ⟨tid, pre, .session (.smembersSess (D.env.subjectHash (some tenantId) userId)), ms⟩ :: l₂) {hash : String}
    (hm : live hash ∈ ms) :
    hash = kept ∨ Revoked (D.env.subjectHash (some tenantId) userId) (localTrace tid l₂) hash ∨
      Pruned (D.env.subjectHash (some tenantId) userId) (localTrace tid l₂) hash := by
  have hpath : Path ((D.flows tid).prog D.env) (localTrace tid cfg.log) (cfg.pool tid) := reach_path h tid
  rw [hret, hf, hl, localTrace_append] at hpath
  have hcall : Path ((Flow.revokeOthers tenantId userId currentHash).prog D.env) (localTrace tid l₁)
      (endOthers (D.env.subjectHash (some tenantId) userId) kept >>= fun _ => pure Answer.done).run :=
    Path.bind_run (y := endOthers _ kept) (Path.bind_run (y := pure kept) hkept _) _
  obtain ⟨tr₁, _, tr₂, htr, hend, hdone⟩ := Path.answered (hcall.rest hpath)
  cases hdone
  obtain ⟨ms', tail, rfl, hall⟩ := (endOthers_returns _ kept).of_path hend
  rw [append_nil, nil_append] at htr
  obtain ⟨heq, rfl⟩ := List.cons.inj ((localTrace_cons_self ⟨tid, pre, .session (.smembersSess _), ms⟩ l₂).symm.trans htr)
  cases heq
  exact hall hash hm

/-- What is made after the read of the index descends from the kept session, if nothing else moves. -/
theorem made_of_kept {subject : String} {e : Event}
    (hl : cfg.log = l₁ ++ e :: l₂) (hmoves : OnlyKeptMoves cfg.log subject kept l₂) {x : Event} {b : Birth}
    (hx : x ∈ l₂) (hb : Bears x b) (hs : b.subject = subject)
    (hnew : ∀ tid pre s r, x ≠ ⟨tid, pre, .session (.createSession s), r⟩) :
    Descends cfg.log kept b.hash := by
  have hmem : x ∈ cfg.log := hl ▸ mem_append_right _ (mem_cons_of_mem _ hx)
  obtain ⟨hb⟩ := hb
  cases hb with
  | created s => exact absurd rfl (hnew _ _ s _)
  | rotated a old =>
    obtain ⟨m₁, m₂, hm⟩ := append_of_mem hmem
    exact (hmoves.rotations _ _ a _ hx hs (h.rotated_live hm).1).tail (.rotated hmem)
  | recovered s =>
    obtain ⟨m₁, m₂, hm⟩ := append_of_mem hmem
    obtain ⟨pre', a, json, hg, -⟩ := h.recovered_continues hm
    obtain ⟨c, d, -, hmo, -⟩ := h.at_entry hm
    obtain ⟨hsess, hfam, -⟩ := SessionCmd.exec_recovered (moment_session hmo).1.symm
    have hglog : _ ∈ cfg.log := hm ▸ mem_append_left _ hg
    exact (hmoves.recoveries _ _ a json _ s _ hglog hx hs hsess hfam).tail (.recovered hglog hmem)

/-- What was stored before the read of the index, and is live, is the kept session. -/
theorem kept_of_live (hf : D.flows tid = .revokeOthers tenantId userId currentHash)
    (hret : cfg.pool tid = .ret (.ok a)) (hlists : Lists D tid tenantId userId currentHash cfg.log kept l₁ l₂)
    {x : Event} {b : Birth} (hx : x ∈ l₁) (hb : Bears x b)
    (hs : b.subject = D.env.subjectHash (some tenantId) userId) (hlive : Live cfg.st b.hash) : b.hash = kept := by
  obtain ⟨hkept, pre, ms, hl⟩ := hlists
  -- It was live when the index was read, so it was in it.
  obtain ⟨c, d, hc, hm, hd⟩ := h.at_entry hl
  have hmem : x ∈ c.log := by rw [hm.log₁]; exact hx
  have hbefore : Live c.st b.hash := by
    by_contra hdead
    exact h.dead_of_reach (hd.head (.by _ hm.step)) hmem hb hdead hlive
  have hin : live b.hash ∈ ms := by
    rw [(moment_session hm).1, ← hs]
    have hmember := hc.listed hmem hb hbefore
    rw [hm.st₁] at hmember
    exact hmember
  rcases h.victims hf hret hkept hl hin with heq | ⟨found, hev⟩ | ⟨members, removed, hev, hr⟩
  · exact heq
  · obtain ⟨pre', he⟩ := exchange_mem.mp hev
    obtain ⟨m₁, m₂, rfl⟩ := append_of_mem he
    rw [← cons_append, ← append_assoc] at hl
    exact absurd hlive (h.dead_of_revoked hl (mem_append_left _ hx) hb hs rfl)
  · obtain ⟨pre', he⟩ := exchange_mem.mp hev
    obtain ⟨m₁, m₂, rfl⟩ := append_of_mem he
    rw [← cons_append, ← append_assoc] at hl
    exact absurd hlive (h.dead_of_pruned hl (mem_append_left _ hx) hb hr)

end Reaches

end Deployment

/-- When `revoke_all_except_current` has returned, it has read the index for its victims once it knew which
session to keep; and if since then only the lineage of that session has moved, every live session of the
account that comes from a login before is that session or descends from it. -/
theorem others_ended {D : Deployment} {cfg : Snapshot} (h : D.Reaches cfg) {tid : ℕ}
    {tenantId userId currentHash : String} (hf : D.flows tid = .revokeOthers tenantId userId currentHash)
    {a : Answer} (hret : cfg.pool tid = .ret (.ok a)) :
    (∃ kept l₁ l₂, Lists D tid tenantId userId currentHash cfg.log kept l₁ l₂) ∧
    ∀ kept l₁ l₂, Lists D tid tenantId userId currentHash cfg.log kept l₁ l₂ →
      OnlyKeptMoves cfg.log (D.env.subjectHash (some tenantId) userId) kept l₂ →
      KeptOnly cfg (D.env.subjectHash (some tenantId) userId) kept l₁ := by
  refine ⟨h.lists hf hret, fun kept l₁ l₂ hlists hmoves => ?_⟩
  intro tid' pre' s r hs hsub hash hdesc hlive
  obtain ⟨hkept, pre, ms, hl⟩ := id hlists
  have hslog : ⟨tid', pre', .session (.createSession s), r⟩ ∈ cfg.log := hl ▸ mem_append_left _ hs
  have hsb : Bears ⟨tid', pre', .session (.createSession s), r⟩ s.birth := .created
  obtain ⟨x, hx, b, hb, rfl⟩ := h.born_of_live hlive
  have hbsub := (h.descends_subject hslog hsb hx hb hdesc).trans hsub
  rw [hl, mem_append, mem_cons] at hx
  rcases hx with hx | rfl | hx
  · rw [h.kept_of_live hf hret hlists hx hb hbsub hlive]
    exact .refl
  · obtain ⟨hb⟩ := hb
    cases hb
  · refine h.made_of_kept hl hmoves hx hb hbsub ?_
    rintro tid₃ pre₃ s' r' rfl
    -- A login after the read descends from no login before it.
    have hmem : ⟨tid₃, pre₃, .session (.createSession s'), r'⟩ ∈ cfg.log :=
      hl ▸ mem_append_right _ (mem_cons_of_mem _ hx)
    have hbs : b = s'.birth := hb.unique .created
    rcases Relation.ReflTransGen.cases_tail hdesc with heq | ⟨p, -, hpx⟩
    · exact h.not_born_again hl hs (mem_cons_of_mem _ hx) hsb hb heq
    · exact h.not_begotten hmem hpx (by rw [hbs]; rfl)

open Demo

/-- The entry is a read of the grace pointer of a token. -/
def readsPointer (e : Event) : Bool :=
  match e with
  | ⟨_, _, .session (.getRp _), _⟩ => true
  | _ => false

/-- A call that reads no grace pointer keeps the session it was given. -/
theorem kept_eq_of_unread {D : Deployment} {tid : ℕ} {tenantId userId currentHash kept : String}
    {log l₁ l₂ : List Event} (hlists : Lists D tid tenantId userId currentHash log kept l₁ l₂)
    (hno : ∀ e ∈ log, readsPointer e = false) : kept = currentHash := by
  obtain ⟨hkept, pre, ms, hl⟩ := hlists
  rcases (resolveLiveSession_returns tenantId userId currentHash).of_path hkept with heq | ⟨pointer, hev⟩
  · exact heq
  · obtain ⟨pre', he'⟩ := exchange_mem.mp hev
    cases hno _ (hl ▸ mem_append_left _ he')

/-- The entry presents this token to the rotation script, or none. -/
def presentsOnly (hash : String) (e : Event) : Bool :=
  match e with
  | ⟨_, _, .session (.refreshRotate a), _⟩ => a.oldHash = hash
  | _ => true

/-- Two logins, and a call that keeps the first. After it has read the index, the kept session is rotated: its
successor is live, and the second session is gone. -/
theorem others_ended_rotated : ∃ cfg, (deployment [.issue alice "" "" false, .issue alice "" "" false,
      .revokeOthers "t1" "u1" (token 'a'), .refresh (token 'a') "" ""]).Reaches cfg ∧ cfg.pool 2 = .ret (.ok .done) ∧
    Begets cfg.log (token 'a') (token 'b') ∧ Live cfg.st (token 'b') ∧ ¬ Live cfg.st (token 'c') ∧
    ∃ kept l₁ l₂, Lists (deployment [.issue alice "" "" false, .issue alice "" "" false,
        .revokeOthers "t1" "u1" (token 'a'), .refresh (token 'a') "" ""]) 2 "t1" "u1" (token 'a') cfg.log kept l₁ l₂ ∧
      OnlyKeptMoves cfg.log subject kept l₂ ∧ KeptOnly cfg subject kept l₁ := by
  refine exists_reaches (firstIssue ++ acts 1 8 (token 'c') ["", "", "", "j1", "", "f1"] ++ acts 2 6 "" [] ++
      acts 3 5 (token 'b') [] ++ acts 2 5 "" [])
    (fun cfg => isDone cfg 2 ∧ Begets cfg.log (token 'a') (token 'b') ∧ has cfg.st.keys.rt cfg.st.now (token 'b') ∧
      has cfg.st.keys.rt cfg.st.now (token 'c') = false ∧ (∀ e ∈ cfg.log, readsPointer e = false) ∧
      ∀ e ∈ cfg.log, presentsOnly (token 'a') e)
    (by decide +kernel) fun cfg h ⟨hdone, hbegets, hlive, hdead, hno, honly⟩ => ?_
  obtain ⟨⟨kept, l₁, l₂, hlists⟩, hall⟩ := others_ended h rfl (pool_of_isDone hdone)
  obtain rfl := kept_eq_of_unread hlists hno
  have hpresented : ∀ {tid pre a r}, ⟨tid, pre, .session (.refreshRotate a), r⟩ ∈ cfg.log → a.oldHash = token 'a' :=
    fun he => of_decide_eq_true (honly _ he)
  have hmoves : OnlyKeptMoves cfg.log subject (token 'a') l₂ := by
    constructor
    · intro tid pre a r he _ _
      obtain ⟨-, pre', ms, hl⟩ := id hlists
      rw [hpresented (hl ▸ mem_append_right _ (mem_cons_of_mem _ he))]
      exact .refl
    · intro tid pre a json pre' s r hg _ _ _ _
      rw [hpresented hg]
      exact .refl
  exact ⟨pool_of_isDone hdone, hbegets, hlive, by simp [Live, hdead], _, l₁, l₂, hlists,
    hmoves, hall _ l₁ l₂ hlists hmoves⟩

/-- The entry is a read of an account's index. -/
def readsIndex (e : Event) : Bool :=
  match e with
  | ⟨_, _, .session (.smembersSess _), _⟩ => true
  | _ => false

/-- A token that was neither rotated nor recovered from has no successor. -/
theorem not_begets_of_any {log : List Event} {p h : String}
    (hno : (log.any fun e => rotates p e || recovers log p e) = false) : ¬ Begets log p h := by
  intro hb
  obtain ⟨e, he, hand⟩ := any_eq_true.mp (begets_iff.mpr hb)
  rw [any_eq_false] at hno
  exact hno e he (and_eq_true_iff.mp hand).1

/-- Two logins, and a call that keeps the first. After it has read the index, the second session is
rotated; its revocation finds nothing, the call returns, and the successor is live. -/
theorem others_left : ∃ cfg kept l₁ l₂, (deployment [.issue alice "" "" false, .issue alice "" "" false,
      .revokeOthers "t1" "u1" (token 'a'), .refresh (token 'c') "" ""]).Reaches cfg ∧
    cfg.pool 2 = .ret (.ok .done) ∧
    Lists (deployment [.issue alice "" "" false, .issue alice "" "" false,
      .revokeOthers "t1" "u1" (token 'a'), .refresh (token 'c') "" ""]) 2 "t1" "u1"
      (token 'a') cfg.log kept l₁ l₂ ∧ ¬ KeptOnly cfg subject kept l₁ := by
  obtain ⟨cfg, h, hdone, hlive, hbegets, hchildless, ⟨e, he, hopen⟩, horder, hno⟩ := reaches_of_run
    (deployment [.issue alice "" "" false, .issue alice "" "" false,
      .revokeOthers "t1" "u1" (token 'a'), .refresh (token 'c') "" ""])
    (firstIssue ++ acts 1 8 (token 'c') ["", "", "", "j1", "", "f1"] ++ acts 2 6 "" [] ++
      acts 3 5 (token 'd') [] ++ acts 2 5 "" [])
    (fun cfg => isDone cfg 2 ∧ has cfg.st.keys.rt cfg.st.now (token 'd') ∧ Begets cfg.log (token 'c') (token 'd') ∧
      (cfg.log.any fun e => rotates (token 'a') e || recovers cfg.log (token 'a') e) = false ∧
      (∃ e ∈ cfg.log, opensFor subject (token 'c') e) ∧ precedes readsIndex storesLogin cfg.log = false ∧
      ∀ e ∈ cfg.log, readsPointer e = false) (by decide +kernel)
  obtain ⟨kept, l₁, l₂, hlists⟩ := h.lists rfl (pool_of_isDone hdone)
  refine ⟨cfg, kept, l₁, l₂, h, pool_of_isDone hdone, hlists, fun hkeptOnly => ?_⟩
  have hpresented : kept = token 'a' := kept_eq_of_unread hlists hno
  obtain ⟨-, pre, ms, hl⟩ := hlists
  unfold opensFor at hopen
  split at hopen
  · next tid' pre' s r =>
    simp only [and_eq_true, decide_eq_true_eq] at hopen
    -- The second login came before the call.
    have hbefore : ⟨tid', pre', .session (.createSession s), r⟩ ∈ l₁ := by
      rw [hl, mem_append, mem_cons] at he
      rcases he with he | he | he
      · exact he
      · cases he
      · obtain ⟨m₁, m₂, rfl⟩ := append_of_mem he
        rw [← cons_append, ← append_assoc] at hl
        exact absurd (precedes_iff.mpr ⟨_, _, m₂, hl, rfl, _, mem_append_right l₁ mem_cons_self, rfl⟩)
          (eq_false_iff.mp horder)
    have hdesc := hkeptOnly _ _ s r hbefore hopen.2 (token 'd') (hopen.1 ▸ .single hbegets) hlive
    rw [hpresented] at hdesc
    rcases Relation.ReflTransGen.cases_head hdesc with heq | ⟨x, hx, -⟩
    · exact absurd heq (by decide)
    · exact not_begets_of_any hchildless hx
  · cases hopen

end BymaxAuth
