import BymaxAuth.History.Factor

/-!
# Where the digests of recovery codes come from

The digests in an account's record come in with an enrolment or with new codes, and go one by one as codes are spent, or
all at once. `regenerate_recovery_codes` draws codes and writes their digests. `setup` draws codes and leaves their
digests, with a secret, in a pending record, which `verify_and_enable` reads, takes and writes.

`verify_and_enable` writes what it read and does not look at what it took. Where these differ, a pending record may be
written twice, and the digests of a set that was replaced come back.

## The model

The pending records are leases that are freed by whoever takes them (`pendingSetups`). `Brought` says where a handler has
a digest from that it did not find in the record. `Orderly` collects what is asked of a run: among it that an enrolment
takes the pending record it read.
-/

namespace BymaxAuth

open Redis Concurrency List Option Exchange

/-! ### Pending records -/

/-- The pending records. -/
def pendingSetups : Lease Store Op.Reply String MfaSetupData where
  keys st := st.mfaKeys.setup
  clock st := st.now
  takes ev :=
    match ev with
    | ⟨.mfa (.putSetupNx key data ttl), true⟩ => some (key, data, ttl)
    | _ => none
  frees ev :=
    match ev with
    | ⟨.mfa (.takeSetup key), some data⟩ => some (key, data)
    | _ => none

/-- The commands of the engine do nothing else to the pending records. -/
theorem pendingSetups_kept (env : Env) : pendingSetups.Kept (machine env) where
  clock := machine_now env
  pass _ _ := rfl
  later _ _ := Nat.le_add_right _ _
  step st tid c i k := by
    cases c with
    | session cmd => exact .kept nofun rfl
    | account cmd | host cmd => cases cmd <;> exact .kept nofun rfl
    | mfa cmd =>
      cases cmd with
      | putSetupNx key data ttl =>
        refine Lease.Step.of_setNx (k := key) (t := data) rfl ?_
        show pendingSetups.takes ⟨.mfa (.putSetupNx key data ttl), (setNx st.mfaKeys.setup st.now key data ttl).1⟩ =
          if (setNx st.mfaKeys.setup st.now key data ttl).1 then some (key, data, ttl) else none
        cases (setNx st.mfaKeys.setup st.now key data ttl).1 <;> rfl
      | takeSetup key =>
        show pendingSetups.Step k ⟨tid, st, .mfa (.takeSetup key), get st.mfaKeys.setup st.now key⟩
          { st with mfaKeys := { st.mfaKeys with setup := del st.mfaKeys.setup key } }
        by_cases hk : k = key
        · subst hk
          cases hget : get st.mfaKeys.setup st.now k with
          | none =>
            refine .lapsed nofun ?_ (del_self _ _)
            show has st.mfaKeys.setup st.now k = false
            rw [has_eq_isSome_get, hget]
            rfl
          | some data => exact .freed nofun rfl hget (del_self _ _)
        · exact .kept nofun (del_of_ne _ hk)
      | _ => exact .kept nofun rfl

theorem pendingSetups_takes {key : String} {data : MfaSetupData} {ttl : ℕ} {ev : Exchange} :
    pendingSetups.takes ev = some (key, data, ttl) ↔ ev = ⟨.mfa (.putSetupNx key data ttl), true⟩ := by
  constructor
  · intro h
    unfold pendingSetups at h
    dsimp only at h
    split at h
    · cases h
      rfl
    · cases h
  · rintro rfl
    rfl

theorem pendingSetups_frees {key : String} {data : MfaSetupData} {ev : Exchange} :
    pendingSetups.frees ev = some (key, data) ↔ ev = ⟨.mfa (.takeSetup key), some data⟩ := by
  constructor
  · intro h
    unfold pendingSetups at h
    dsimp only at h
    split at h
    · cases h
      rfl
    · cases h
  · rintro rfl
    rfl

/-- Whether an exchange took the pending record of a key. -/
def takesSetup (key : String) (ev : Exchange) : Bool := (pendingSetups.frees ev).any fun taken => taken.1 = key

/-- The exchange found this pending record under the key. -/
inductive FindsSetup (key : String) (data : MfaSetupData) (ev : Exchange) : Prop where
  /-- It was read. -/
  | read : ev = ⟨.mfa (.getSetup key), some data⟩ → FindsSetup key data ev
  /-- It was taken. -/
  | taken : ev = ⟨.mfa (.takeSetup key), some data⟩ → FindsSetup key data ev

/-- The codes of this digest were drawn in these exchanges. -/
def Drew (env : Env) (digest : String) (tr : Trace) : Prop := ∃ ev ∈ tr, digest ∈ digests env ev

/-- Where a handler with this trace has a digest from that it did not find in the record. -/
inductive Brought (env : Env) (digest : String) (tr : Trace) : Prop where
  /-- It drew the code. -/
  | drew : Drew env digest tr → Brought env digest tr
  /-- It read the digest in a pending record, and has taken one. -/
  | took {key : String} {data taken : MfaSetupData} : ⟨.mfa (.getSetup key), some data⟩ ∈ tr →
      ⟨.mfa (.takeSetup key), some taken⟩ ∈ tr → digest ∈ data.hashedCodes → Brought env digest tr

/-- An enrolment takes the pending record it read. -/
def TakesWhatItRead (log : List Event) : Prop :=
  ∀ tid key data taken, ⟨.mfa (.getSetup key), some data⟩ ∈ localTrace tid log →
    ⟨.mfa (.takeSetup key), some taken⟩ ∈ localTrace tid log → taken = data

/-- The digests in a record. -/
def digestsOf (record : Option MfaRecord) : List String := (record.bind (·.mfaRecoveryCodes)).getD []

/-- New codes take the place of those in the record. -/
theorem digestsOf_regenerated {hashed : List String} {current : AuthUser} {data : MfaRecord}
    (h : regenerated hashed current = some data) : digestsOf (some data) = hashed := by
  unfold regenerated at h
  split_ifs at h
  obtain ⟨secret, -, rfl⟩ := map_eq_some_iff.mp h
  rfl

/-- A challenge adds no digest. -/
theorem digestsOf_challenged {env : Env} {rawSecret storedSecret : String} {spent : Option String} {current : AuthUser}
    {data : MfaRecord} (h : env.spliced rawSecret storedSecret spent current = some data ∨
      env.rewritten rawSecret storedSecret current = some data) :
    (digestsOf (some data)).Sublist (digestsOf (some current.mfaRecord)) := by
  rcases h with h | h
  · unfold Env.spliced at h
    split_ifs at h
    obtain ⟨live, -, rfl⟩ := map_eq_some_iff.mp h
    exact eraseIdx_sublist _ _
  · unfold Env.rewritten at h
    split_ifs at h
    cases h
    exact List.Sublist.refl _

/-- What is asked of a run. -/
structure Orderly (D : Deployment) (cfg : Snapshot) (id : String) (tenantId : Option String) : Prop where
  /-- Only the library writes the record. -/
  host : HostLeaves D cfg id tenantId
  /-- No transition outlives its lock. -/
  lock : WithinLock cfg.log
  /-- An enrolment takes the pending record it read. -/
  takes : TakesWhatItRead cfg.log
  /-- The digests in the record at the start differ. -/
  nodup : (digestsOf ((Store.initial D.now D.users).record id tenantId)).Nodup
  /-- Their codes are not drawn again. -/
  undrawn : ∀ digest ∈ digestsOf ((Store.initial D.now D.users).record id tenantId), ∀ e ∈ cfg.log,
    digest ∉ digests D.env e.ev

theorem writesFactor_of_writesRecord {id : String} {tenantId : Option String} {e : Event}
    (h : writesRecord id tenantId e = true) : writesFactor e.op = true := by
  obtain ⟨data, hop⟩ := writesRecord_iff.mp h
  rw [hop]
  rfl

namespace Deployment

variable {D : Deployment} {cfg : Snapshot} {l₁ l₂ : List Event} {id : String} {tenantId : Option String}
  {digest : String} {e x : Event} {key : String} {data : MfaSetupData}

theorem held_of_found {c d : Snapshot} (hm : Moment (machine D.env) l₁ e c d) (he : FindsSetup key data e.ev) :
    ∃ cell, c.st.mfaKeys.setup key = some cell ∧ cell.val = data := by
  have hget : get c.st.mfaKeys.setup c.st.now key = some data := by
    rw [hm.st₁]
    obtain ⟨tid, pre, op, r⟩ := e
    cases he with
    | read hev | taken hev =>
      cases hev
      exact congrArg Prod.fst (moment_mfa hm)
  obtain ⟨cell, hk, -, hval⟩ := get_eq_some.mp hget
  exact ⟨cell, hk, hval⟩

/-- A pending record that is found was put there, and not taken since. -/
theorem Reaches.put_of_read (h : D.Reaches cfg) (hl : cfg.log = l₁ ++ e :: l₂) (he : FindsSetup key data e.ev) :
    ∃ k₁ p k₂ ttl, l₁ = k₁ ++ p :: k₂ ∧ p.ev = ⟨.mfa (.putSetupNx key data ttl), true⟩ ∧
      ∀ x ∈ k₂, takesSetup key x.ev = false := by
  obtain ⟨c, d, hc, hm, -⟩ := h.at_entry hl
  obtain ⟨cell, hk, rfl⟩ := held_of_found hm he
  obtain ⟨k₁, p, k₂, ttl, hlog, htakes, hlast⟩ := Lease.holder (pendingSetups_kept D.env) (fun _ => rfl) hc hk
  refine ⟨k₁, p, k₂, ttl, hm.log₁.symm.trans hlog, pendingSetups_takes.mp htakes, fun x hx =>
    Bool.eq_false_iff.mpr fun hfree => ?_⟩
  · -- Nobody has put a record there since it was taken.
    obtain ⟨n₁, n₂, rfl⟩ := append_of_mem hx
    have hcut : c.log = (k₁ ++ p :: n₁) ++ x :: n₂ := by
      rw [hlog]
      simp
    have hnone := Lease.gone (pendingSetups_kept D.env) hc hcut (k := key) (fun c' d' hm' => ?_)
      fun y hy => hlast y (mem_append_right _ (mem_cons_of_mem _ hy))
    · cases hk.symm.trans hnone
    · obtain ⟨tid, pre, op, r⟩ := x
      obtain ⟨⟨key', taken⟩, hfrees, hkey⟩ := any_eq_true _ _ |>.mp hfree
      obtain rfl : key' = key := of_decide_eq_true hkey
      cases pendingSetups_frees.mp hfrees
      exact (congrArg (fun p => p.2.mfaKeys.setup key') (moment_mfa hm')).symm.trans (del_self _ _)

/-! ### Draws -/

theorem Reaches.drawn_once (h : D.Reaches cfg) {g g' : Event} (hg : g ∈ cfg.log) (hg' : g' ∈ cfg.log)
    (hd : digest ∈ digests D.env g.ev) (hd' : digest ∈ digests D.env g'.ev) : g = g' := by
  let mint := fun ev : Exchange => if digest ∈ digests D.env ev then some digest else none
  have hdrawn : ∀ ev v, mint ev = some v → digest ∈ digests D.env ev :=
    fun ev v hv => (ite_none_right_eq_some.mp hv).1
  have hsource : ∀ log e v, (machine D.env).admits log e = true → mint e.ev = some v → v ∉ minted mint log := by
    intro log e v hadmits hv hmem
    obtain ⟨e', he', hv'⟩ := mem_filterMap.mp hmem
    have hbefore := hdrawn _ _ hv'
    have hnow := hdrawn _ _ hv
    obtain ⟨tid, pre, op, r⟩ := e
    unfold digests Entry.ev at hnow
    split at hnow
    · next heq =>
      cases heq
      obtain ⟨code, hcode, rfl⟩ := List.mem_map.mp hnow
      simp only [machine, admits, Bool.and_eq_true, List.all_eq_true] at hadmits
      simpa [hbefore] using hadmits.2 code hcode e' he'
    · cases hnow
  exact reach_mint_unique hsource h hg hg' (if_pos hd) (if_pos hd')

variable {y w : Event} {tid : ℕ}

theorem Reaches.writes_once (h : D.Reaches cfg) (hl : cfg.log = l₁ ++ x :: l₂) (hy : y ∈ l₁) (ht : y.tid = x.tid)
    (hx : writesFactor x.op = true) (hyw : writesFactor y.op = true) : False := by
  have hun : Unwritten (localTrace x.tid l₁) := by
    have ho := h.obeys hl
    obtain ⟨tid, pre, op, r⟩ := x
    change writesFactor op = true at hx
    unfold writesFactor at hx
    split at hx
    · exact Transits.once ho
    · exact Proposes.once ho
    · cases hx
  have hno := hun y.ev (mem_localTrace.mpr ⟨y, hy, ht, rfl⟩)
  rw [show writesFactor y.ev.op = true from hyw] at hno
  cases hno

/-- An entry that stores something of a second factor, by a handler that drew the code of this digest. -/
structure Deposits (D : Deployment) (log : List Event) (digest : String) (e : Event) : Prop where
  /-- It stores something. -/
  writes : writesFactor e.op = true
  /-- The handler drew the code. -/
  drew : Drew D.env digest (localTrace e.tid log)

namespace Reaches

variable (h : D.Reaches cfg)
include h

theorem deposit_once (hl : cfg.log = l₁ ++ x :: l₂) (hy : y ∈ l₁)
    (hdx : Deposits D cfg.log digest x) (hdy : Deposits D cfg.log digest y) : False := by
  obtain ⟨ev, hev, hd⟩ := hdx.drew
  obtain ⟨ev', hev', hd'⟩ := hdy.drew
  obtain ⟨g, hg, hgt, rfl⟩ := mem_localTrace.mp hev
  obtain ⟨g', hg', hgt', rfl⟩ := mem_localTrace.mp hev'
  have hgg := h.drawn_once hg hg' hd hd'
  exact h.writes_once hl hy (by rw [← hgt', ← hgt, hgg]) hdx.writes hdy.writes

theorem deposit_eq (hx : x ∈ cfg.log) (hy : y ∈ cfg.log)
    (hdx : Deposits D cfg.log digest x) (hdy : Deposits D cfg.log digest y) : x = y := by
  rcases eq_or_before hx hy with heq | ⟨k₁, k₂, hk, hmem⟩ | ⟨k₁, k₂, hk, hmem⟩
  · exact heq
  · exact (h.deposit_once hk hmem hdx hdy).elim
  · exact (h.deposit_once hk hmem hdy hdx).elim

/-- Whoever puts a pending record drew its codes. -/
theorem deposits_of_put {p : Event} (hp : p ∈ cfg.log) {ttl : ℕ}
    (hev : p.ev = ⟨.mfa (.putSetupNx key data ttl), true⟩) (hd : digest ∈ data.hashedCodes) :
    Deposits D cfg.log digest p := by
  obtain ⟨k₁, k₂, hk⟩ := append_of_mem hp
  obtain ⟨tid, pre, op, r⟩ := p
  cases hev
  obtain ⟨count, codes, hmem, hcodes⟩ := (h.obeys hk : Proposes D.env _ data).codes
  obtain ⟨g, hg, ht, hgev⟩ := mem_localTrace.mp hmem
  refine ⟨rfl, g.ev, mem_localTrace.mpr ⟨g, hk ▸ mem_append_left _ hg, ht, rfl⟩, ?_⟩
  rw [hgev]
  rw [hcodes] at hd
  exact hd

theorem taken_once (hl : cfg.log = l₁ ++ x :: l₂) (hy : y ∈ l₁) {key' : String}
    {data' : MfaSetupData} (hx : x.ev = ⟨.mfa (.takeSetup key), some data⟩)
    (hyev : y.ev = ⟨.mfa (.takeSetup key'), some data'⟩) (hd : digest ∈ data.hashedCodes)
    (hd' : digest ∈ data'.hashedCodes) : False := by
  obtain ⟨k₁, p, k₂, ttl, hk, hp, hfree⟩ := h.put_of_read hl (.taken hx)
  obtain ⟨n₁, n₂, hn⟩ := append_of_mem hy
  have hcut : cfg.log = n₁ ++ y :: (n₂ ++ x :: l₂) := by
    rw [hl, hn]
    simp
  obtain ⟨j₁, q, j₂, ttl', hj, hq, -⟩ := h.put_of_read hcut (.taken hyev)
  have hpmem : p ∈ cfg.log := by
    rw [hl, hk]
    simp
  have hqmem : q ∈ cfg.log := by
    rw [hcut, hj]
    simp
  have hdp := h.deposits_of_put hpmem hp hd
  have hdq := h.deposits_of_put hqmem hq hd'
  have hpq := h.deposit_eq hpmem hqmem hdp hdq
  rcases cut_cases (hk.symm.trans hn) with ⟨-, heq, -⟩ | ⟨m, -, hm⟩ | ⟨m, hm, -⟩
  · rw [heq, hyev] at hp
    cases hp
  · -- It was put before it was taken the first time, and not put again.
    have hno := hfree y (by rw [hm]; simp)
    rw [hpq, hq] at hp
    cases hp
    rw [hyev, takesSetup] at hno
    simp [pendingSetups] at hno
  · have hlp : cfg.log = k₁ ++ p :: (k₂ ++ x :: l₂) := by
      rw [hl, hk]
      simp
    exact h.deposit_once hlp (by rw [hm, hj]; simp) hdp hdq

/-- A pending record that a handler read, with the entry that put it. -/
theorem put_of_mem (hmem : ⟨.mfa (.getSetup key), some data⟩ ∈ localTrace tid cfg.log)
    (hd : digest ∈ data.hashedCodes) :
    ∃ p ∈ cfg.log, ∃ ttl, p.ev = ⟨.mfa (.putSetupNx key data ttl), true⟩ ∧ Deposits D cfg.log digest p := by
  obtain ⟨e, he, -, hev⟩ := mem_localTrace.mp hmem
  obtain ⟨k₁, k₂, hk⟩ := append_of_mem he
  obtain ⟨n₁, p, n₂, ttl, hn, hp, -⟩ := h.put_of_read hk (.read hev)
  have hpmem : p ∈ cfg.log := by
    rw [hk, hn]
    simp
  exact ⟨p, hpmem, ttl, hp, h.deposits_of_put hpmem hp hd⟩

/-- A digest that a handler brings was drawn. -/
theorem drawn_of_brought (hb : Brought D.env digest (localTrace tid cfg.log)) :
    ∃ g ∈ cfg.log, digest ∈ digests D.env g.ev := by
  have hdrew : ∃ tid, Drew D.env digest (localTrace tid cfg.log) := by
    cases hb with
    | drew hdrew => exact ⟨tid, hdrew⟩
    | took hget _ hd =>
      obtain ⟨p, -, -, -, hdep⟩ := h.put_of_mem hget hd
      exact ⟨p.tid, hdep.drew⟩
  obtain ⟨_, ev, hev, hd⟩ := hdrew
  obtain ⟨g, hg, -, rfl⟩ := mem_localTrace.mp hev
  exact ⟨g, hg, hd⟩

theorem brought_once (htakes : TakesWhatItRead cfg.log) {w' : Event}
    (hl : cfg.log = l₁ ++ w :: l₂) (hw' : w' ∈ l₁) (hw : writesRecord id tenantId w = true)
    (hww : writesRecord id tenantId w' = true) (hb : Brought D.env digest (localTrace w.tid cfg.log))
    (hb' : Brought D.env digest (localTrace w'.tid cfg.log)) : False := by
  have hmem : w ∈ cfg.log := by
    rw [hl]
    simp
  have hmem' : w' ∈ cfg.log := hl ▸ mem_append_left _ hw'
  obtain ⟨rec, hop⟩ := writesRecord_iff.mp hw
  obtain ⟨rec', hop'⟩ := writesRecord_iff.mp hww
  have hwf := writesFactor_of_writesRecord hw
  have hwf' := writesFactor_of_writesRecord hww
  cases hb with
  | drew hdrew =>
    cases hb' with
    | drew hdrew' => exact h.deposit_once hl hw' ⟨hwf, hdrew⟩ ⟨hwf', hdrew'⟩
    | took hget' _ hd' =>
      obtain ⟨p, hp, ttl, hpev, hdep⟩ := h.put_of_mem hget' hd'
      rw [← h.deposit_eq hmem hp ⟨hwf, hdrew⟩ hdep] at hpev
      cases hop.symm.trans (congrArg Ev.op hpev)
  | took hget htake hd =>
    obtain ⟨p, hp, ttl, hpev, hdep⟩ := h.put_of_mem hget hd
    cases hb' with
    | drew hdrew' =>
      rw [← h.deposit_eq hmem' hp ⟨hwf', hdrew'⟩ hdep] at hpev
      cases hop'.symm.trans (congrArg Ev.op hpev)
    | took hget' htake' hd' =>
      rw [htakes _ _ _ _ hget htake] at htake
      rw [htakes _ _ _ _ hget' htake'] at htake'
      obtain ⟨x, hx, hxt, hxev⟩ := mem_localTrace.mp htake
      obtain ⟨y, hy, hyt, hyev⟩ := mem_localTrace.mp htake'
      rcases eq_or_before hx hy with heq | ⟨k₁, k₂, hk, hbefore⟩ | ⟨k₁, k₂, hk, hbefore⟩
      · exact h.writes_once hl hw' (by rw [← hyt, ← hxt, heq]) hwf hwf'
      · exact h.taken_once hk hbefore hxev hyev hd hd'
      · exact h.taken_once hk hbefore hyev hxev hd' hd

/-! ### The record -/

/-- What `mutate` made of the record that is replaced. -/
theorem mutates_of_write (hh : HostLeaves D cfg id tenantId)
    (hlock : WithinLock cfg.log) {pre : Store} {data : MfaRecord} {u : Unit}
    (hl : cfg.log = l₁ ++ ⟨tid, pre, .host (.updateMfa id tenantId data), u⟩ :: l₂) :
    ∃ current, pre.record id tenantId = some current.mfaRecord ∧ Mutates D.env (localTrace tid l₁) current data := by
  obtain ⟨m₁, pre₁, token, m, current, rfl, hm, hmut⟩ := h.transition_of_write hl
  refine ⟨current, ?_, hmut.mono ?_⟩
  · rw [append_assoc, cons_append] at hl
    exact h.current_of_write hh hlock hl hm
  · rw [localTrace_append]
    exact prefix_append _ _

section

variable (ho : Orderly D cfg id tenantId)
include ho

/-- A digest that is in the record after a write was brought there by it, or was there before, with the same secret. -/
theorem codes_of_write (hl : cfg.log = l₁ ++ w :: l₂)
    (hw : writesRecord id tenantId w = true) (hd : digest ∈ digestsOf (recordAfter id tenantId w)) :
    Brought D.env digest (localTrace w.tid cfg.log) ∨ digest ∈ digestsOf (w.pre.record id tenantId) ∧
        D.env.factor (recordAfter id tenantId w) = D.env.factor (w.pre.record id tenantId) := by
  obtain ⟨data, hop⟩ := writesRecord_iff.mp hw
  obtain ⟨tid, pre, op, u⟩ := w
  cases hop
  obtain ⟨current, hcurrent, hmut⟩ := h.mutates_of_write ho.host ho.lock hl
  rw [recordAfter_of_write] at hd ⊢
  change Brought D.env digest (localTrace tid cfg.log) ∨ digest ∈ digestsOf (pre.record id tenantId) ∧
    D.env.factor ((pre.record id tenantId).map fun _ => data) = D.env.factor (pre.record id tenantId)
  rw [hcurrent, map_some] at hd ⊢
  have hsub : localTrace tid l₁ ⊆ localTrace tid cfg.log := by
    rw [hl, localTrace_append]
    exact subset_append_left _ _
  cases hmut with
  | cleared => cases hd
  | enrolled hget htake => exact .inl (.took (hsub hget) (hsub htake) hd)
  | regenerated hdraw hdata =>
    rw [digestsOf_regenerated hdata] at hd
    exact .inl (.drew ⟨_, hsub hdraw, hd⟩)
  | challenged _ hsecret hraw hstored hdata =>
    refine .inr ⟨(digestsOf_challenged hdata).subset hd, ?_⟩
    obtain ⟨hholds, hon, hstoredSecret⟩ := hdata.elim holds_of_spliced holds_of_rewritten
    rw [factor_of_holds hholds]
    show (if data.mfaEnabled then data.mfaSecret.bind D.env.mfa.decryptSecret else none) = _
    rw [hon, hstoredSecret]
    rcases hstored with rfl | hdrawn
    · exact hraw
    · exact h.decrypts (hsub hdrawn)

/-- A digest in the record was there at the start, or was brought there before. -/
theorem origin (hl : cfg.log = l₁ ++ e :: l₂) (hd : digest ∈ digestsOf (e.pre.record id tenantId)) :
    digest ∈ digestsOf ((Store.initial D.now D.users).record id tenantId) ∨
      ∃ w ∈ l₁, writesRecord id tenantId w = true ∧ Brought D.env digest (localTrace w.tid cfg.log) := by
  refine (ho.host.along (fun l record => digest ∈ digestsOf record →
    digest ∈ digestsOf ((Store.initial D.now D.users).record id tenantId) ∨
      ∃ w ∈ l, writesRecord id tenantId w = true ∧ Brought D.env digest (localTrace w.tid cfg.log)) .inl ?_).1
    l₁ e l₂ hl hd
  intro l a rest hl ih hd
  have hkept : digest ∈ digestsOf (a.pre.record id tenantId) →
      digest ∈ digestsOf ((Store.initial D.now D.users).record id tenantId) ∨
        ∃ w ∈ l ++ [a], writesRecord id tenantId w = true ∧ Brought D.env digest (localTrace w.tid cfg.log) :=
    fun hd => (ih hd).imp_right fun ⟨w, hw, hb⟩ => ⟨w, mem_append_left _ hw, hb⟩
  cases hw : writesRecord id tenantId a with
  | false =>
    rw [recordAfter_of_not_write hw] at hd
    exact hkept hd
  | true =>
    rcases h.codes_of_write ho hl hw hd with hb | ⟨hd, -⟩
    · exact .inr ⟨a, mem_append_right _ mem_cons_self, hw, hb⟩
    · exact hkept hd

/-- A digest that is in the record is not brought there again. -/
theorem not_brought_again
    (hl : cfg.log = l₁ ++ e :: l₂) (hd : digest ∈ digestsOf (e.pre.record id tenantId)) {k₁ k₂ : List Event}
    (hk : cfg.log = k₁ ++ w :: k₂) (hbefore : l₁ <+: k₁) (hw : writesRecord id tenantId w = true) :
    ¬ Brought D.env digest (localTrace w.tid cfg.log) := by
  intro hb
  rcases h.origin ho hl hd with hinit | ⟨w', hmem, hw', hb'⟩
  · obtain ⟨g, hg, hdrawn⟩ := h.drawn_of_brought hb
    exact ho.undrawn digest hinit g hg hdrawn
  · exact h.brought_once ho.takes hk (hbefore.subset hmem) hw hw' hb hb'

/-- A digest that left the record does not come back. -/
theorem gone_for_good {k₁ k₂ : List Event}
    (hk : cfg.log = k₁ ++ x :: k₂) (hd : digest ∈ digestsOf (x.pre.record id tenantId))
    (hl : cfg.log = l₁ ++ e :: l₂) (hbefore : k₁ <+: l₁) (hgone : digest ∉ digestsOf (recordAfter id tenantId e)) :
    (∀ z ∈ l₂, digest ∉ digestsOf (z.pre.record id tenantId)) ∧ digest ∉ digestsOf (cfg.st.record id tenantId) := by
  refine ho.host.ever_after (Q := fun record => digest ∉ digestsOf record) hl hgone ?_
  intro n₁ w n₂ hn hw hno hafter
  have hlw : cfg.log = (l₁ ++ e :: n₁) ++ w :: n₂ := by
    rw [hl, hn]
    simp
  rcases h.codes_of_write ho hlw hw hafter with hb | ⟨hin, -⟩
  · exact h.not_brought_again ho hk hd hlw (hbefore.trans (prefix_append _ _)) hw hb
  · exact hno hin

/-- As long as a digest stays in the record, so does the secret. -/
theorem factor_with_code {l₃ : List Event}
    (hl : cfg.log = l₁ ++ x :: (l₂ ++ e :: l₃)) (hx : writesRecord id tenantId x = false)
    (hd : digest ∈ digestsOf (x.pre.record id tenantId)) (hd' : digest ∈ digestsOf (e.pre.record id tenantId)) :
    D.env.factor (e.pre.record id tenantId) = D.env.factor (x.pre.record id tenantId) := by
  refine ho.host.since (Q := fun record => digest ∈ digestsOf record →
    D.env.factor record = D.env.factor (x.pre.record id tenantId)) hl ?_ ?_ hd'
  · intro _
    rw [recordAfter_of_not_write hx]
  · intro n₁ w n₂ hn hw ih hafter
    have hlw : cfg.log = (l₁ ++ x :: n₁) ++ w :: (n₂ ++ e :: l₃) := by
      rw [hl, hn]
      simp
    rcases h.codes_of_write ho hlw hw hafter with hb | ⟨hin, hfactor⟩
    · exact absurd hb (h.not_brought_again ho hl hd hlw (prefix_append _ _) hw)
    · exact hfactor.trans (ih hin)

end

theorem drawn_nodup {g : Event} (hg : g ∈ cfg.log) : (digests D.env g.ev).Nodup := by
  obtain ⟨c, d, -, hm, -⟩ := h.at_mem hg
  have hadmits := hm.admits
  obtain ⟨tid, pre, op, r⟩ := g
  unfold digests Entry.ev
  split
  · next heq =>
    cases heq
    simp only [machine, admits, Bool.and_eq_true, decide_eq_true_eq] at hadmits
    exact hadmits.1.2
  · exact nodup_nil

theorem codes_nodup (ho : Orderly D cfg id tenantId) (hl : cfg.log = l₁ ++ e :: l₂) :
    (digestsOf (e.pre.record id tenantId)).Nodup := by
  refine (ho.host.along (fun _ record => (digestsOf record).Nodup) ho.nodup ?_).1 l₁ e l₂ hl
  intro l w rest hl ih
  cases hw : writesRecord id tenantId w with
  | false =>
    rw [recordAfter_of_not_write hw]
    exact ih
  | true =>
    obtain ⟨data, hop⟩ := writesRecord_iff.mp hw
    obtain ⟨tid, pre, op, u⟩ := w
    cases hop
    obtain ⟨current, hcurrent, hmut⟩ := h.mutates_of_write ho.host ho.lock hl
    change (digestsOf (pre.record id tenantId)).Nodup at ih
    rw [hcurrent] at ih
    rw [recordAfter_of_write, hcurrent]
    have hdrawn : ∀ {tid} {l : List Event} {count : ℕ} {codes : List String}, l ⊆ cfg.log →
        ⟨.host (.generateRecoveryCodes count), codes⟩ ∈ localTrace tid l → (codes.map D.env.identifierHmac).Nodup := by
      intro tid l count codes hsub hmem
      obtain ⟨g, hg, -, hgev⟩ := mem_localTrace.mp hmem
      have hnodup := h.drawn_nodup (hsub hg)
      rw [hgev] at hnodup
      exact hnodup
    have hsub : l ⊆ cfg.log := by
      rw [hl]
      exact subset_append_left _ _
    cases hmut with
    | cleared => exact nodup_nil
    | enrolled hget _ =>
      obtain ⟨r, hr, -, hrev⟩ := mem_localTrace.mp hget
      obtain ⟨k₁, k₂, hk⟩ := append_of_mem (hsub hr)
      obtain ⟨n₁, ⟨t, prep, op, res⟩, n₂, ttl, rfl, hp, -⟩ := h.put_of_read hk (.read hrev)
      cases hp
      rw [append_assoc, cons_append] at hk
      obtain ⟨count, codes, hmem, hcodes⟩ := (h.obeys hk : Proposes D.env _ _).codes
      have hnodup := hdrawn (by rw [hk]; exact subset_append_left _ _) hmem
      rw [← hcodes] at hnodup
      exact hnodup
    | regenerated hdraw hdata =>
      rw [map_some, digestsOf_regenerated hdata]
      exact hdrawn hsub hdraw
    | challenged _ _ _ _ hdata => exact ih.sublist (digestsOf_challenged hdata)

end Reaches

end Deployment

end BymaxAuth
