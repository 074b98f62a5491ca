import BymaxAuth.Ticket.Flows
import BymaxAuth.History.Run
import BymaxAuth.Lib.Vault
import Mathlib.Data.Rat.Floor

/-!
# A ticket does not outlive its token

The expiry of a ticket is at most its token's: the mint counts from the clock rounded up and holds a second back,
which covers the second the write may take. The expiry of a blacklist entry is at least the token's: the logout
counts from the clock rounded down. So while a ticket of a logged-out token is there, so is the entry that refuses
it, at every sub-second offset of the three clock readings.

That a ticket is redeemed once is a matter of its key: it is drawn new (`BymaxAuth.Lib.Fresh`) and taken by one
command (`BymaxAuth.Lib.Vault`).
-/

namespace BymaxAuth.Ticket

open Concurrency List Option Function Prod

variable {R : Type} [Field R] [LinearOrder R] [IsStrictOrderedRing R] [FloorRing R]

/-! ### The two lifetimes -/

/-- A ticket whose clock was read at `read` and which the store wrote at most a second later is gone when its token
expires. -/
theorem expiry_le_exp {exp ttl : ℕ} {read written : R} (httl : ticketTtl exp ⌈read⌉ = some ttl)
    (hdelay : written ≤ read + 1) : written + ttl ≤ exp := by
  have hle : (ttl : ℤ) + 1 + ⌈read⌉ ≤ exp := by
    simp only [ticketTtl, ite_none_right_eq_some, Option.some.injEq] at httl
    omega
  have hcast : (ttl : R) + 1 + (⌈read⌉ : R) ≤ exp := by exact_mod_cast hle
  have := Int.le_ceil read
  linarith

omit [IsStrictOrderedRing R] in
/-- A whole second that the clock shows is not ahead of it. -/
theorem floor_toNat_le {t : R} (ht : 0 ≤ t) : ((⌊t⌋.toNat : ℕ) : R) ≤ t := by
  rcases le_total 0 ⌊t⌋ with h | h
  · rw [← Int.cast_natCast, Int.toNat_of_nonneg h]
    exact Int.floor_le t
  · rw [Int.toNat_of_nonpos h, Nat.cast_zero]
    exact ht

/-- A blacklist entry whose clock was read at `read` and which the store wrote then or later is there until its
token expires. -/
theorem le_blacklist_expiry {exp : ℕ} {read written : R} (hread : 0 ≤ read) (hwritten : read ≤ written) :
    (exp : R) ≤ written + (exp - ⌊read⌋.toNat : ℕ) := by
  have hfloor := floor_toNat_le hread
  have hle : (exp : R) ≤ (⌊read⌋.toNat : R) + (exp - ⌊read⌋.toNat : ℕ) := by
    have : exp ≤ ⌊read⌋.toNat + (exp - ⌊read⌋.toNat) := by omega
    exact_mod_cast this
  linarith

/-! ### What the handlers do -/

/-- What a call may issue: a ticket is stored under the key that was drawn for it, and lives as long as the clock
reading allows; a token is blacklisted for what its own clock reading leaves of it; a redemption begins with taking
the snapshot. -/
def Obeys (env : Env) (call : Call) (tr : List (Ev Reply)) : Op ⊕ Cmd → Prop
  | .inr (.setWst hash snapshot ttl) => pending (mints env) spends tr = some hash ∧
    ∃ claims now, call = .mint claims ∧ snapshot.jti = claims.jti ∧ ⟨.inr .nowUnixCeil, now⟩ ∈ tr ∧
      ticketTtl claims.exp now = some ttl
  | .inl (.account (.setRv jti ttl)) => ∃ claims now, call.token = some claims ∧ jti = claims.jti ∧
    ⟨.inl (.host .nowUnix), now⟩ ∈ tr ∧ ttl = claims.exp - now
  | .inr (.getdelWst _) => tr = []
  | .inl (.account (.existsRv _)) => ∃ hash taken, ⟨.inr (.getdelWst hash), taken⟩ ∈ tr
  | _ => True

/-- What a call has done when it answers: a mint has stored the ticket it returns; a redemption has taken the
snapshot and found its token not blacklisted; a logout has blacklisted the token, unless it read a clock at which
that had expired. -/
def Done (env : Env) (tr : List (Ev Reply)) : Call → Answer → Prop
  | .mint _, .issued issued => ∃ snapshot ttl, ⟨.inr (.setWst (env.sha256 issued.ticket) snapshot ttl), ()⟩ ∈ tr
  | .redeem ticket, _ => ∃ snapshot, ⟨.inr (.getdelWst (env.sha256 ticket)), some snapshot⟩ ∈ tr ∧
    ⟨.inl (.account (.existsRv snapshot.jti)), false⟩ ∈ tr
  | .logout (some claims) _, _ => ∃ now, ⟨.inl (.host .nowUnix), now⟩ ∈ tr ∧
    (claims.exp ≤ now ∨ ⟨.inl (.account (.setRv claims.jti (claims.exp - now))), ()⟩ ∈ tr)
  | _, _ => True

section Handlers

variable {env : Env}

theorem triple_mint (claims : AccessClaims) :
    Triple (Obeys env (.mint claims)) (fun tr issued => Done env tr (.mint claims) (.issued issued)) (fun _ => True) []
      (issueWsTicket env claims) := by
  refine .ite (fun _ => .throw trivial) fun _ => ?_
  refine .bind (Q := fun _ _ => True) (.of_lift ⟨trivial, fun _ => trivial⟩) fun tr found _ => ?_
  cases found with
  | none => exact .throw trivial
  | some user =>
    dsimp only
    split
    · exact .throw trivial
    · refine .step trivial fun now => ?_
      cases httl : ticketTtl claims.exp now with
      | none => exact .throw trivial
      | some ttl =>
        refine .bind (Q := fun tr ticket => ∃ snapshot ttl,
          (⟨.inr (.setWst (env.sha256 ticket) snapshot ttl), ()⟩ : Ev Reply) ∈ tr) ?_ fun tr ticket h => .pure h
        refine .step trivial fun ticket => .step ⟨?_, claims, now, rfl, rfl, by simp, httl⟩ fun _ => .pure ?_
        · rw [pending_snoc]
          rfl
        · exact ⟨_, _, mem_concat_self⟩

theorem triple_wsTicketIsRevoked {call : Call} {tr : List (Ev Reply)} {hash : String} {taken : Option WsTicketSnapshot}
    (htaken : ⟨.inr (.getdelWst hash), taken⟩ ∈ tr) (snapshot : WsTicketSnapshot) (tenant : String) :
    Triple (Obeys env call)
      (fun tr' revoked => tr <+: tr' ∧
        (revoked = false → ⟨.inl (.account (.existsRv snapshot.jti)), false⟩ ∈ tr')) (fun _ => True) tr
      (lift (wsTicketIsRevoked env snapshot tenant)) := by
  refine .of_lift (.ite (fun _ => .pure ?_) fun _ => .step ⟨hash, taken, mem_append_left _ htaken⟩ fun listed => ?_)
  · exact ⟨prefix_append .., nofun⟩
  · cases listed with
    | true => exact .pure ⟨prefix_append .., nofun⟩
    | false =>
      refine .bind (Q := fun tr' _ => ⟨.account (.existsRv snapshot.jti), false⟩ ∈ tr')
        ⟨trivial, fun _ => ?_⟩ fun tr' current h => .pure ⟨prefix_append .., fun _ => ?_⟩
      · exact mem_append_left _ mem_concat_self
      · exact mem_append_right _ (mem_map.mpr ⟨_, h, rfl⟩)

theorem triple_redeem (ticket : String) :
    Triple (Obeys env (.redeem ticket)) (fun tr claims => Done env tr (.redeem ticket) (.redeemed claims))
      (fun _ => True) [] (redeemWsTicket env ticket) := by
  refine .ite (fun _ => .throw trivial) fun _ => .step rfl fun taken => ?_
  cases taken with
  | none => exact .throw trivial
  | some snapshot =>
    dsimp only
    split
    · exact .throw trivial
    · next tenant _ =>
      refine .bind (triple_wsTicketIsRevoked mem_concat_self snapshot tenant) fun tr revoked ⟨hgrows, hread⟩ => ?_
      cases revoked with
      | true => exact .throw trivial
      | false =>
        have htaken : (⟨.inr (.getdelWst (env.sha256 ticket)), some snapshot⟩ : Ev Reply) ∈ tr := hgrows.subset (by simp)
        have hlisted := hread rfl
        refine .bind (Q := fun tr' _ => Done env tr' (.redeem ticket) .done)
          (.of_lift ⟨trivial, fun _ => ?_⟩) fun tr' now h => ?_
        · exact ⟨snapshot, mem_append_left _ htaken, mem_append_left _ hlisted⟩
        · obtain ⟨snapshot, htaken, hlisted⟩ := h
          refine .bind (Q := fun tr' _ => Done env tr' (.redeem ticket) .done)
            (.of_lift ⟨trivial, fun _ => ?_⟩) fun tr' jti h => .pure h
          exact ⟨snapshot, mem_append_left _ htaken, mem_append_left _ hlisted⟩

/-- A command that does not ask of the blacklist. -/
def Spares : Op → Prop
  | .account (.setRv ..) | .account (.existsRv _) => False
  | _ => True

theorem Spares.obeys {call : Call} {tr : List (Ev Reply)} {c : Op} (h : Spares c) : Obeys env call tr (.inl c) := by
  cases c with
  | account c =>
    cases c with
    | setRv => exact h.elim
    | existsRv => exact h.elim
    | _ => trivial
  | _ => trivial

theorem only_logoutOwner (hash : Option String) : Only Spares (logoutOwner env.toEnv hash) := by
  cases hash with
  | none => exact .pure _
  | some hash =>
    refine .bind (.issue trivial) fun found => ?_
    cases found with
    | none => exact .pure _
    | some json =>
      unfold decode
      dsimp only
      split
      · exact .pure _
      · exact .throw_bind _ _

theorem only_revokeLogoutSession (owner : Option SessionRecord) (hash : Option String) :
    Only Spares (revokeLogoutSession env.toEnv owner hash) := by
  cases hash with
  | none => exact .pure _
  | some hash => exact .bind (.bind (.issue trivial) fun _ => .pure _) fun _ => .issue trivial

theorem triple_logout (access : Option AccessClaims) (rawRefresh : String) :
    Triple (Obeys env (.logout access rawRefresh)) (fun tr _ => Done env tr (.logout access rawRefresh) .done)
      (fun _ => True) [] (lift (BymaxAuth.logout env.toEnv access rawRefresh)) := by
  refine .of_lift (.bind (Q := fun _ _ => True)
    (.of_only (only_logoutOwner _) (fun _ _ => Spares.obeys) (fun _ _ => trivial) fun _ => trivial) fun tr owner _ => ?_)
  cases access with
  | none =>
    exact .of_only (only_revokeLogoutSession owner _) (fun _ _ => Spares.obeys) (fun _ _ => trivial) fun _ => trivial
  | some claims =>
    have hmem : ∀ {ev : Ev Op.Reply} {tr : List (Ev Op.Reply)}, ev ∈ tr →
        (ev.inl : Ev Reply) ∈ [] ++ tr.map Ev.inl := fun h => mem_map.mpr ⟨_, h, rfl⟩
    refine .bind (Q := fun tr' _ => ∃ now, ⟨.host .nowUnix, now⟩ ∈ tr' ∧
      (claims.exp ≤ now ∨ ⟨.account (.setRv claims.jti (claims.exp - now)), ()⟩ ∈ tr')) ?_ ?_
    · refine .step trivial fun now => .ite (fun hzero => .pure ?_) fun _ => ⟨?_, fun _ => ?_⟩
      · exact ⟨now, mem_concat_self, .inl (Nat.sub_eq_zero_iff_le.mp hzero)⟩
      · exact ⟨claims, now, rfl, rfl, hmem mem_concat_self, rfl⟩
      · exact ⟨now, mem_append_left _ mem_concat_self, .inr mem_concat_self⟩
    · rintro tr' _ ⟨now, hnow, hlisted⟩
      refine .frame (only_revokeLogoutSession owner _) (fun _ _ => Spares.obeys) ?_ fun _ _ => trivial
      intro tr'' _ hgrows
      refine ⟨now, hmem (hgrows.subset hnow), hlisted.imp_right fun h => ?_⟩
      exact mem_map.mpr ⟨_, hgrows.subset h, rfl⟩

/-- Every call keeps to the discipline. -/
theorem triple_act (call : Call) :
    Triple (Obeys env call) (fun tr answer => Done env tr call answer) (fun _ => True) [] (call.act env) := by
  cases call with
  | mint claims => exact .map (triple_mint claims)
  | redeem ticket => exact .map (triple_redeem ticket)
  | logout access rawRefresh =>
    refine .map ((triple_logout access rawRefresh).mono (fun tr _ h => ?_) fun _ h => h)
    cases access <;> exact h

end Handlers

/-! ### What the commands do -/

section Commands

variable {env : Env}

omit [IsStrictOrderedRing R] in
/-- The engine's commands leave the clock and the tickets alone, and all but one the blacklist. -/
theorem execEngine_frame (env : Env) (w : World R) (i : BymaxAuth.Input) (c : Op) :
    (execEngine env w i c).2.now = w.now ∧ (execEngine env w i c).2.wst = w.wst ∧
      ∀ jti, (∀ ttl, c ≠ .account (.setRv jti ttl)) → (execEngine env w i c).2.rv jti = w.rv jti := by
  cases c with
  | account c =>
    cases c with
    | setRv jti' ttl =>
      refine ⟨rfl, rfl, fun jti h => update_of_ne ?_ ..⟩
      rintro rfl
      exact h ttl rfl
    | _ => exact ⟨rfl, rfl, fun _ _ => rfl⟩
  | _ => exact ⟨rfl, rfl, fun _ _ => rfl⟩

/-- No command moves the clock, and one blacklists. -/
theorem machine_frame (env : Env) (w : World R) (c : Op ⊕ Cmd) (i : Input R) :
    ((machine R env).exec w c i).2.now = w.now ∧
      ∀ jti, (∀ ttl, c ≠ .inl (.account (.setRv jti ttl))) → ((machine R env).exec w c i).2.rv jti = w.rv jti := by
  cases c with
  | inl c =>
    obtain ⟨hnow, -, hrv⟩ := execEngine_frame env w i.engine c
    exact ⟨hnow, fun jti h => hrv jti fun ttl hc => h ttl (congrArg Sum.inl hc)⟩
  | inr c => cases c <;> exact ⟨rfl, fun _ _ => rfl⟩

/-- The tickets, each with the instant at which it is gone. -/
def tickets (R : Type) [Field R] [LinearOrder R] : Vault (World R) Reply String (WsTicketSnapshot × R) where
  cell w := w.wst
  puts e :=
    match e with
    | ⟨_, pre, .inr (.setWst hash snapshot ttl), _⟩ => some (hash, snapshot, pre.now + ttl)
    | _ => none
  takes e :=
    match e with
    | ⟨_, pre, .inr (.getdelWst hash), some _⟩ => (pre.wst hash).map (hash, ·)
    | _ => none

omit [IsStrictOrderedRing R] [FloorRing R] in
theorem puts_eq_some {e : Event R} {hash : String} {snapshot : WsTicketSnapshot} {expireAt : R}
    (h : (tickets R).puts e = some (hash, snapshot, expireAt)) :
    ∃ ttl, e.op = .inr (.setWst hash snapshot ttl) ∧ expireAt = e.pre.now + (ttl : ℕ) := by
  rcases e with ⟨tid, pre, _ | (_ | _ | ⟨hash', snapshot', ttl⟩ | _), r⟩
  case inr.setWst =>
    simp only [tickets, Option.some.injEq, mk.injEq] at h
    obtain ⟨rfl, rfl, rfl⟩ := h
    exact ⟨ttl, rfl, rfl⟩
  all_goals cases h

/-- A ticket waits from its mint to its redemption. -/
theorem tickets_kept : (tickets R).Kept (machine R env) where
  effect := by
    rintro ⟨tid, pre, c, r⟩ after i hi hash
    cases c with
    | inl c =>
      refine .kept (fun _ => nofun) (fun _ => nofun) (.inl ?_)
      have hframe := (execEngine_frame env pre i.engine c).2.1
      rw [show execEngine env pre i.engine c = (r, after) from hi] at hframe
      exact congrFun hframe hash
    | inr c =>
      have hi : c.exec pre i = (r, after) := hi
      cases c with
      | nowUnixCeil | generateSecureToken =>
        cases hi
        exact .kept (fun _ => nofun) (fun _ => nofun) (.inl rfl)
      | setWst hash' snapshot ttl =>
        cases hi
        by_cases hh : hash' = hash
        · subst hh
          exact .put rfl rfl (update_self ..)
        · refine .kept (fun _ h => ?_) (fun _ => nofun) (.inl (update_of_ne (Ne.symm hh) ..))
          exact hh (congrArg fst (Option.some.inj h))
      | getdelWst hash' =>
        obtain ⟨hr, rfl⟩ := mk.inj hi
        by_cases hh : hash' = hash
        · subst hh
          have hgone : (pre.wst.del hash') hash' = none := update_self ..
          cases r with
          | none => exact .kept (fun _ => nofun) (fun _ => nofun) (.inr hgone)
          | some snapshot =>
            obtain ⟨expireAt, hcell, -⟩ := Timed.get_eq_some.mp hr
            refine .taken (v := (snapshot, expireAt)) rfl ?_ hcell hgone
            simp [tickets, hcell]
        · refine .kept (fun _ => nofun) (fun v h => ?_) (.inl (update_of_ne (Ne.symm hh) ..))
          cases r with
          | none => cases h
          | some snapshot =>
            obtain ⟨x, -, hx⟩ := map_eq_some_iff.mp h
            exact hh (congrArg fst hx)
  pass _ _ _ := rfl

end Commands

/-! ### Along a run -/

namespace Deployment

variable {D : Deployment R} {cfg : Snapshot R} {l₁ l₂ : List (Event R)} {e : Event R}
  {tid tid' : ℕ} {hash : String} {snapshot : WsTicketSnapshot} {pre : World R}

/-- What a call issues is what its discipline allows. -/
theorem Reaches.obeys (h : D.Reaches cfg) (hl : cfg.log = l₁ ++ e :: l₂) :
    Obeys D.env (D.calls e.tid) (localTrace e.tid l₁) e.op :=
  reach_issues (fun tid => triple_act (D.calls tid)) h hl

namespace Reaches

variable (h : D.Reaches cfg)
include h

/-- What a call that has answered has done. -/
theorem done {answer : Answer} (hok : cfg.pool tid = .ret (.ok answer)) :
    Done D.env (localTrace tid cfg.log) (D.calls tid) answer :=
  reach_ends (fun tid => triple_act (D.calls tid)) h hok

/-- The clock does not run backwards. -/
theorem clock : 0 ≤ cfg.st.now ∧ ∀ e ∈ cfg.log, 0 ≤ e.pre.now ∧ e.pre.now ≤ cfg.st.now := by
  refine reach_invariant (fun (w : World R) log => 0 ≤ w.now ∧ ∀ e ∈ log, 0 ≤ e.pre.now ∧ e.pre.now ≤ w.now)
    ⟨D.now_nonneg, fun _ => nofun⟩ ?_ ?_ h
  · intro c d e _ ih hm
    have hnow : d.st.now = c.st.now := by
      obtain ⟨i, hi⟩ := hm.exec
      rw [hm.st₁, ← (machine_frame D.env e.pre e.op i).1, hi]
    rw [hnow]
    refine ⟨ih.1, fun x hx => ?_⟩
    rcases mem_append.mp hx with hx | hx
    · exact ih.2 x hx
    · rw [mem_singleton.mp hx, ← hm.st₁]
      exact ⟨ih.1, le_rfl⟩
  · intro w log i ih
    have hle : w.now ≤ w.now + i.secs := le_add_of_nonneg_right i.secs_nonneg
    exact ⟨ih.1.trans hle, fun e he => ⟨(ih.2 e he).1, (ih.2 e he).2.trans hle⟩⟩

/-- The seconds a logout reads are the clock's, rounded down. -/
theorem nowUnix_eq {now : ℕ} (hread : ⟨.inl (.host .nowUnix), now⟩ ∈ localTrace tid cfg.log) :
    ∃ e ∈ cfg.log, e.tid = tid ∧ now = ⌊e.pre.now⌋.toNat := by
  obtain ⟨⟨t, pre, op, r⟩, he, ht, hev⟩ := mem_localTrace.mp hread
  obtain ⟨c, d, -, hm, -⟩ := h.at_mem he
  obtain ⟨i, hi⟩ := hm.exec
  cases hev
  exact ⟨_, he, ht, (congrArg fst hi).symm⟩

/-- The seconds a mint reads are the clock's, rounded up. -/
theorem nowUnixCeil_eq {now : ℤ} (hread : ⟨.inr .nowUnixCeil, now⟩ ∈ localTrace tid cfg.log) :
    ∃ pre, ⟨tid, pre, .inr .nowUnixCeil, now⟩ ∈ cfg.log ∧ now = ⌈pre.now⌉ := by
  obtain ⟨⟨t, pre, op, r⟩, he, rfl, hev⟩ := mem_localTrace.mp hread
  obtain ⟨c, d, -, hm, -⟩ := h.at_mem he
  obtain ⟨i, hi⟩ := hm.exec
  cases hev
  exact ⟨pre, he, (congrArg fst hi).symm⟩

/-- The history of the tickets is fresh. -/
theorem freshLog : FreshLog (mints D.env) spends cfg.log := by
  refine reach_freshLog ?_ ?_ (fun tid => triple_act (D.calls tid)) h
  · rintro log ⟨tid, pre, _ | (_ | _ | _ | _), r⟩ v hadmits hv
    case inr.generateSecureToken =>
      cases hv
      simp only [machine, admits, Bool.and_eq_true, Bool.not_eq_true', contains_eq_mem,
        decide_eq_false_iff_not] at hadmits
      exact hadmits.2
    all_goals cases hv
  · rintro tid tr (_ | (_ | _ | _ | _)) r v hobeys hv
    case inr.setWst =>
      cases hv
      exact hobeys.1
    all_goals cases hv

/-- What a redemption takes has not expired. -/
theorem takes_eq (he : ⟨tid, pre, .inr (.getdelWst hash), some snapshot⟩ ∈ cfg.log) :
    ∃ expireAt, (tickets R).takes ⟨tid, pre, .inr (.getdelWst hash), some snapshot⟩ = some (hash, snapshot, expireAt) ∧
      pre.now < expireAt := by
  obtain ⟨c, d, hc, hm, -⟩ := h.at_mem he
  obtain ⟨i, hi⟩ := hm.exec
  obtain ⟨expireAt, hcell, hlive⟩ := Timed.get_eq_some.mp (congrArg fst hi)
  refine ⟨expireAt, ?_, hlive⟩
  simp only [tickets]
  rw [hcell]
  rfl

/-- A ticket that was taken was minted, by a call whose token has not expired. -/
theorem minted_of_taken (hl : cfg.log = l₁ ++ ⟨tid, pre, .inr (.getdelWst hash), some snapshot⟩ :: l₂) :
    ∃ m ∈ l₁, ∃ claims ttl, m.op = .inr (.setWst hash snapshot ttl) ∧ D.calls m.tid = .mint claims ∧
      snapshot.jti = claims.jti ∧ pre.now < claims.exp := by
  obtain ⟨expireAt, htakes, hlive⟩ := h.takes_eq (hl ▸ mem_append_right _ mem_cons_self)
  obtain ⟨m, hmem, hputs⟩ := tickets_kept.put_of_take (fun _ => rfl) h hl htakes
  obtain ⟨ttl, hop, rfl⟩ := puts_eq_some hputs
  obtain ⟨m₁, m₂, rfl⟩ := append_of_mem hmem
  have hcut : cfg.log = m₁ ++ m :: (m₂ ++ ⟨tid, pre, .inr (.getdelWst hash), some snapshot⟩ :: l₂) := by
    rw [hl]
    simp
  have hobeys := h.obeys hcut
  rw [hop] at hobeys
  obtain ⟨-, claims, now, hcall, hjti, hread, httl⟩ := hobeys
  refine ⟨m, hmem, claims, ttl, hop, hcall, hjti, ?_⟩
  obtain ⟨c', d', hc', hm', -⟩ := h.at_entry hcut
  rw [← hm'.log₁] at hread
  obtain ⟨read, hreadmem, rfl⟩ := nowUnixCeil_eq hc' hread
  -- The write came within a second of the reading.
  have hdelay : m.pre.now ≤ read.now + 1 := by
    obtain ⟨t, p, op, r⟩ := m
    cases hop
    have hadmits := all_eq_true.mp hm'.admits _ (hm'.log₁ ▸ hreadmem)
    exact of_decide_eq_true hadmits rfl
  exact hlive.trans_le (expiry_le_exp httl hdelay)

/-- A token that was blacklisted is so until it has expired. -/
theorem blacklisted {x : Event R} (hx : x ∈ cfg.log) {jti : String} {ttl : ℕ}
    (hop : x.op = .inl (.account (.setRv jti ttl))) {claims : AccessClaims}
    (htoken : (D.calls tid).token = some claims) (hjti : claims.jti = jti) :
    ∃ expireAt, cfg.st.rv jti = some ((), expireAt) ∧ (claims.exp : R) ≤ expireAt := by
  refine reach_invariant (fun (w : World R) log => ∀ x ∈ log, ∀ ttl, x.op = .inl (.account (.setRv jti ttl)) →
    ∃ expireAt, w.rv jti = some ((), expireAt) ∧ (claims.exp : R) ≤ expireAt) (fun _ => nofun) ?_
    (fun _ _ _ ih => ih) h x hx ttl hop
  intro c d e hc ih hm x hx ttl hop
  obtain ⟨i, hi⟩ := hm.exec
  by_cases hlists : ∃ ttl', e.op = .inl (.account (.setRv jti ttl'))
  · -- The entry blacklists this token: its expiry is counted from a reading that is not ahead of the clock.
    obtain ⟨ttl', hop'⟩ := hlists
    obtain ⟨t, p, op, r⟩ := e
    cases hop'
    have hd : D.Reaches d := hc.tail (.by t hm.step)
    obtain ⟨claims', now, htoken', rfl, hread, rfl⟩ := hd.obeys hm.log₂
    obtain ⟨y, hy, -, rfl⟩ := nowUnix_eq hc hread
    obtain ⟨hnonneg, hle⟩ := (clock hc).2 y hy
    rw [hm.st₁] at hle
    have hst : d.st.rv = p.rv.setEx p.now claims'.jti () (claims'.exp - ⌊y.pre.now⌋.toNat) :=
      congrArg (World.rv ∘ snd) hi.symm
    refine ⟨_, (congrFun hst _).trans (update_self ..), ?_⟩
    rw [D.exp_eq htoken htoken' hjti]
    exact le_blacklist_expiry hnonneg hle
  · have hbefore : x ∈ c.log := by
      rcases mem_append.mp hx with hx | hx
      · exact hx
      · rw [mem_singleton.mp hx] at hop
        exact absurd ⟨ttl, hop⟩ hlists
    obtain ⟨expireAt, hcell, hle⟩ := ih x hbefore ttl hop
    refine ⟨expireAt, ?_, hle⟩
    rw [← hcell, hm.st₁, ← (machine_frame D.env e.pre e.op i).2 jti fun ttl h => hlists ⟨ttl, h⟩, hi]

/-- After a logout has returned, its token is found not blacklisted only once it has expired. -/
theorem expired_of_unlisted {cfg₀ : Snapshot R} (h₀ : D.Reaches cfg₀)
    {claims : AccessClaims} {rawRefresh : String} (hcall : D.calls tid = .logout (some claims) rawRefresh)
    {answer : Answer} (hok : cfg₀.pool tid = .ret (.ok answer)) {k₁ k₂ : List (Event R)} {x : Event R}
    (hl : cfg.log = cfg₀.log ++ k₁ ++ x :: k₂) {claims' : AccessClaims}
    (htoken : (D.calls tid').token = some claims') {jti : String} (hjti : jti = claims.jti)
    (hev : x.ev = ⟨.inl (.account (.existsRv jti)), false⟩) (hsame : claims'.jti = claims.jti) :
    (claims'.exp : R) ≤ x.pre.now := by
  have hlogout : (D.calls tid).token = some claims := by
    rw [hcall]
    rfl
  obtain ⟨c, d, hc, hm, -⟩ := h.at_entry hl
  have hmem : ∀ {y}, y ∈ cfg₀.log → y ∈ c.log := fun hy => hm.log₁ ▸ mem_append_left _ hy
  obtain ⟨now, hread, hdone⟩ : Done D.env _ (.logout (some claims) rawRefresh) answer := hcall ▸ h₀.done hok
  rcases hdone with hexp | hlisted
  · -- The logout read a clock at which the token had expired.
    obtain ⟨y, hy, -, rfl⟩ := h₀.nowUnix_eq hread
    obtain ⟨hnonneg, hle⟩ := (clock hc).2 y (hmem hy)
    calc (claims'.exp : R) ≤ ⌊y.pre.now⌋.toNat := by
          rw [D.exp_eq htoken hlogout hsame]
          exact_mod_cast hexp
      _ ≤ y.pre.now := floor_toNat_le hnonneg
      _ ≤ x.pre.now := hm.st₁ ▸ hle
  · -- The entry it wrote is there until the token has expired.
    obtain ⟨_, hy⟩ := exchange_mem.mp hlisted
    obtain ⟨expireAt, hcell, hle⟩ := blacklisted hc (hmem hy) rfl htoken hsame
    obtain ⟨t, p, op, r⟩ := x
    cases hev
    obtain ⟨i, hi⟩ := hm.exec
    refine hle.trans (not_lt.mp fun hlive => ?_)
    rw [hm.st₁, ← hjti] at hcell
    have hget : p.rv.get p.now jti = some () := Timed.get_eq_some.mpr ⟨expireAt, hcell, hlive⟩
    have hreply : (p.rv.get p.now jti).isSome = false := congrArg fst hi
    rw [hget] at hreply
    cases hreply

end Reaches

/-- Call `tid` has stored this ticket. -/
def Minted (D : Deployment R) (log : List (Event R)) (tid : ℕ) (ticket : String) : Prop :=
  ∃ e ∈ log, e.tid = tid ∧ ∃ snapshot ttl, e.op = .inr (.setWst (D.env.sha256 ticket) snapshot ttl)

/-- A command by which a redemption reads the store: the ticket, or whether its token is blacklisted. -/
def Reads : Op ⊕ Cmd → Prop
  | .inr (.getdelWst _) | .inl (.account (.existsRv _)) => True
  | _ => False

/-- A ticket is stored once. -/
theorem Reaches.minted_unique (h : D.Reaches cfg) {ticket : String} (hm : Minted D cfg.log tid ticket)
    (hm' : Minted D cfg.log tid' ticket) : tid = tid' := by
  obtain ⟨⟨t, p, op, r⟩, he, rfl, snapshot, ttl, rfl⟩ := hm
  obtain ⟨⟨t', p', op', r'⟩, he', rfl, snapshot', ttl', rfl⟩ := hm'
  exact congrArg Entry.tid (h.freshLog.eq_of_spend he he' rfl rfl)

/-- A ticket is taken once. -/
theorem Reaches.taken_unique (h : D.Reaches cfg) {snapshot' : WsTicketSnapshot}
    (htaken : ⟨.inr (.getdelWst hash), some snapshot⟩ ∈ localTrace tid cfg.log)
    (htaken' : ⟨.inr (.getdelWst hash), some snapshot'⟩ ∈ localTrace tid' cfg.log) : tid = tid' := by
  have hputs : cfg.log.countP ((tickets R).putsAt hash) ≤ 1 := by
    refine h.freshLog.countP_le_one (v := hash) ?_
    rintro ⟨t, p, op, r⟩ he
    obtain ⟨⟨_, snapshot, expireAt⟩, hputs, hhash⟩ := (Option.any_eq_true ..).mp he
    obtain ⟨ttl, rfl, -⟩ := puts_eq_some hputs
    exact congrArg some (of_decide_eq_true hhash)
  have htakes : ∀ {x : Event R} {snapshot}, x ∈ cfg.log → x.ev = ⟨.inr (.getdelWst hash), some snapshot⟩ →
      (tickets R).takesAt hash x = true := by
    rintro ⟨t, p, op, r⟩ snapshot hx ⟨⟩
    obtain ⟨expireAt, htakes, -⟩ := h.takes_eq hx
    simp [Vault.takesAt, htakes]
  obtain ⟨e, he, rfl, hev⟩ := mem_localTrace.mp htaken
  obtain ⟨e', he', rfl, hev'⟩ := mem_localTrace.mp htaken'
  exact congrArg Entry.tid (eq_of_countP_le_one ((tickets_kept.takes_le_puts (fun _ => rfl) h hash).trans hputs) he he'
    (htakes he hev) (htakes he' hev'))

/-- A redemption reads the store at the instant at which it takes the ticket. -/
theorem Reaches.reads_at (h : D.Reaches cfg) {taken : Option WsTicketSnapshot}
    (hg : ⟨tid, pre, .inr (.getdelWst hash), taken⟩ ∈ cfg.log) (he : e ∈ cfg.log) (htid : e.tid = tid)
    (hreads : Reads e.op) : e.pre.now = pre.now := by
  -- It takes one ticket: nothing it does comes before.
  have hone : ∀ {pre' hash' taken'}, ⟨tid, pre', .inr (.getdelWst hash'), taken'⟩ ∈ cfg.log → pre'.now = pre.now := by
    have hfirst : ∀ {x y : Event R} {l₁ l₂}, cfg.log = l₁ ++ x :: l₂ → y ∈ l₁ → x.tid = tid → y.tid = tid →
        ∀ {hash'}, x.op = .inr (.getdelWst hash') → False := by
      rintro ⟨t, p, op, r⟩ y l₁ l₂ hl hy rfl ht hash' rfl
      have hmem : y.ev ∈ localTrace t l₁ := mem_localTrace.mpr ⟨y, hy, ht, rfl⟩
      rw [show localTrace t l₁ = [] from h.obeys hl] at hmem
      cases hmem
    intro pre' hash' taken' hg'
    rcases eq_or_before hg' hg with heq | ⟨l₁, l₂, hl, hbefore⟩ | ⟨l₁, l₂, hl, hbefore⟩
    · cases heq
      rfl
    · exact (hfirst hl hbefore rfl rfl rfl).elim
    · exact (hfirst hl hbefore rfl rfl rfl).elim
  obtain ⟨t, pre', op, r⟩ := e
  obtain rfl : t = tid := htid
  rcases op with (_ | c | _ | _) | (_ | _ | _ | hash')
  case inr.getdelWst => exact hone he
  case inl.account =>
    cases c with
    | existsRv jti =>
      obtain ⟨l₁, l₂, hl⟩ := append_of_mem he
      obtain ⟨hash', taken', htaken⟩ := h.obeys hl
      obtain ⟨pre'', hy⟩ := exchange_mem.mp htaken
      obtain ⟨c, d, -, hm, -⟩ := h.at_entry hl
      rw [← hone (hl ▸ mem_append_left _ hy)]
      exact of_decide_eq_true (all_eq_true.mp hm.admits _ hy) rfl
    | _ => exact hreads.elim
  all_goals exact hreads.elim

end Deployment

/-- A ticket that is redeemed is redeemed once, before the token it was minted from expires, and by a call that began
before any logout of that token returned. -/
theorem redemption_bounded {D : Deployment R} {cfg : Snapshot R} (h : D.Reaches cfg) {tid : ℕ} {ticket : String}
    {answer : Answer} (hcall : D.calls tid = .redeem ticket) (hok : cfg.pool tid = .ret (.ok answer)) :
    (∀ tid' answer', D.calls tid' = .redeem ticket → cfg.pool tid' = .ret (.ok answer') → tid' = tid) ∧
      ∃ minter claims, D.calls minter = .mint claims ∧ D.Minted cfg.log minter ticket ∧
        (∀ tid' claims' expiresIn, D.calls tid' = .mint claims' →
          cfg.pool tid' = .ret (.ok (.issued ⟨ticket, expiresIn⟩)) → tid' = minter) ∧
        (∀ e ∈ cfg.log, e.tid = tid → Deployment.Reads e.op → e.pre.now < claims.exp) ∧
        ∀ tid' claims' rawRefresh cfg₀ answer', D.calls tid' = .logout (some claims') rawRefresh →
          claims'.jti = claims.jti → D.Reaches cfg₀ → Reach (machine R D.env) cfg₀ cfg →
          cfg₀.pool tid' = .ret (.ok answer') → ∃ e ∈ cfg₀.log, e.tid = tid := by
  obtain ⟨snapshot, htaken, hlisted⟩ : Done D.env _ (.redeem ticket) answer := hcall ▸ h.done hok
  obtain ⟨pre, hg⟩ := exchange_mem.mp htaken
  obtain ⟨l₁, l₂, hl⟩ := append_of_mem hg
  obtain ⟨m, hm, claims, ttl, hop, hmint, hjti, hbefore⟩ := h.minted_of_taken hl
  have hminted : D.Minted cfg.log m.tid ticket := ⟨m, hl ▸ mem_append_left _ hm, rfl, snapshot, ttl, hop⟩
  have hreads : ∀ e ∈ cfg.log, e.tid = tid → Deployment.Reads e.op → e.pre.now < claims.exp := by
    intro e he htid hread
    rw [h.reads_at hg he htid hread]
    exact hbefore
  refine ⟨?_, m.tid, claims, hmint, hminted, ?_, hreads, ?_⟩
  · intro tid' answer' hcall' hok'
    obtain ⟨snapshot', htaken', -⟩ : Done D.env _ (.redeem ticket) answer' := hcall' ▸ h.done hok'
    exact h.taken_unique htaken' htaken
  · intro tid' claims' expiresIn hcall' hok'
    obtain ⟨snapshot', ttl', hstored⟩ : Done D.env _ (.mint claims') (.issued ⟨ticket, expiresIn⟩) := hcall' ▸ h.done hok'
    obtain ⟨_, he⟩ := exchange_mem.mp hstored
    exact h.minted_unique ⟨_, he, rfl, snapshot', ttl', rfl⟩ hminted
  · intro tid' claims' rawRefresh cfg₀ answer' hcall' hjti' h₀ hreach hok'
    by_contra hnone
    obtain ⟨x, hx, hxt, hxev⟩ := mem_localTrace.mp hlisted
    obtain ⟨l, hl⟩ := hreach.log_prefix
    have hlater : x ∈ l := by
      rw [← hl, mem_append] at hx
      exact hx.resolve_left fun hx => hnone ⟨x, hx, hxt⟩
    obtain ⟨k₁, k₂, rfl⟩ := append_of_mem hlater
    rw [← append_assoc] at hl
    have hreads' : Deployment.Reads x.op := by
      obtain ⟨_, _, _, _⟩ := x
      cases hxev
      trivial
    have hmint' : (D.calls m.tid).token = some claims := by rw [hmint]; rfl
    have hexpired := h.expired_of_unlisted h₀ hcall' hok' hl.symm hmint' (hjti.trans hjti'.symm) hxev hjti'.symm
    exact absurd (hreads x hx hxt hreads') (not_lt.mpr hexpired)

namespace Demo

/-- A token that expires at second 20. -/
def claims : AccessClaims :=
  { sub := "u1", jti := "j1", tenantId := some "t1", role := "MEMBER", status := "active", mfaEnabled := false,
    mfaVerified := false, iat := 0, exp := 20, epoch := 0 }

open BymaxAuth.Demo

/-- A ticket is minted, redeemed and redeemed again, and the token is logged out. -/
def calls : ℕ → Call
  | 0 => .mint claims
  | 1 | 2 => .redeem (token 'a')
  | _ => .logout (some claims) ""

theorem token_calls {tid : ℕ} {token : AccessClaims} (h : (calls tid).token = some token) : token = claims := by
  match tid with
  | 0 | _ + 3 => exact (Option.some.inj h).symm
  | 1 | 2 => cases h

/-- The calls, on a clock that starts half a second past the epoch. -/
def deployment : Deployment ℚ where
  env := { env with sha256 := id }
  now := 1 / 2
  now_nonneg := by norm_num
  users := [alice]
  calls := calls
  exp_eq := by
    intro _ _ _ _ h h' _
    rw [token_calls h, token_calls h']

/-- What the run draws, and the time that passes. -/
def input (secs : ℚ) (h : 0 ≤ secs) : Input ℚ :=
  { engine := BymaxAuth.Demo.input "" "j2", ticket := BymaxAuth.Demo.token 'a', secs, secs_nonneg := h }

/-- The next `n` commands of call `tid`. -/
def acts (tid n : ℕ) : List (Move (Input ℚ)) := List.replicate n (.act tid (input 0 le_rfl))

/-- The mint, whose write takes three quarters of a second; then both redemptions, at second 19. -/
def moves : List (Move (Input ℚ)) :=
  acts 0 3 ++ [.wait (input (3 / 4) (by norm_num))] ++ acts 0 1 ++ [.wait (input (71 / 4) (by norm_num))] ++
    acts 1 5 ++ acts 2 1

end Demo

/-- The store writes the ticket three quarters of a second after the clock was read; it is redeemed a second before
the token expires, and a quarter before it is gone itself. -/
theorem redemption_bounded_near_expiry : ∃ cfg, Demo.deployment.Reaches cfg ∧
    (∃ answer, cfg.pool 1 = .ret (.ok answer)) ∧ (∀ answer, cfg.pool 2 ≠ .ret (.ok answer)) ∧
    ∀ e ∈ cfg.log, e.tid = 1 → Deployment.Reads e.op → e.pre.now < 20 := by
  obtain ⟨cfg, h, hp⟩ : ∃ cfg, Demo.deployment.Reaches cfg ∧ (cfg.pool 1).answered.isSome = true :=
    reach_of_schedule (show (run _ _ Demo.moves).any _ = true by decide +kernel)
  obtain ⟨answer, hanswer⟩ := isSome_iff_exists.mp hp
  have hok := Prog.answered_eq_some.mp hanswer
  obtain ⟨hone, minter, claims, hmint, -, -, hreads, -⟩ := redemption_bounded h rfl hok
  have htoken : (Demo.calls minter).token = some claims := congrArg Call.token hmint
  obtain rfl := Demo.token_calls htoken
  refine ⟨cfg, h, ⟨answer, hok⟩, fun answer' hok' => ?_, hreads⟩
  exact absurd (hone 2 answer' rfl hok') (by decide)

end BymaxAuth.Ticket
