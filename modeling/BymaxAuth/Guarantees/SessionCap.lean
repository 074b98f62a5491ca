import BymaxAuth.History.Run
import BymaxAuth.Session.Alone

/-!
# Which sessions the cap evicts

`enforce_session_limit` runs after a session was created. It lists the account's sessions, sorts them by the creation
time of their detail, a session with no readable detail first, and revokes as many as there are over the limit, from
the front, the session just created left out.

That as many are left out of the list as the exclusion takes away is what the count rests on: the limit is at least
one, so among the others there are as many as have to go.

## What is proved

For a listing of distinct live sessions that has the new one in it, when nothing else runs meanwhile
(`enforceSessionLimit_evicts_oldest`): the new session stays, exactly those over the limit go, none that stays is
strictly older than one that goes, and one with no readable detail stays only if all that go have none.
-/

namespace BymaxAuth

open Redis Concurrency List SessionKeys Member

/-! ### The order -/

/-- Both have a readable detail, and the first was created before the second. -/
def StrictlyOlder (a b : SessionEntry) : Prop :=
  ∃ x y, a.detail = some x ∧ b.detail = some y ∧ x.createdAt < y.createdAt

instance : Std.Total fun a b : SessionEntry => olderThan a b = true where
  total a b := by
    unfold olderThan
    cases a.detail <;> cases b.detail <;> simp [Int.le_total]

instance : IsTrans SessionEntry fun a b => olderThan a b = true where
  trans a b c := by
    unfold olderThan
    cases a.detail <;> cases b.detail <;> cases c.detail <;> simp
    exact le_trans

theorem not_strictlyOlder_of_olderThan {a b : SessionEntry} (h : olderThan a b = true) : ¬ StrictlyOlder b a := by
  rintro ⟨x, y, hx, hy, hlt⟩
  simp only [olderThan, hx, hy, decide_eq_true_eq] at h
  omega

theorem detail_none_of_olderThan {a b : SessionEntry} (h : olderThan a b = true) (hb : b.detail = none) :
    a.detail = none := by
  cases ha : a.detail with
  | none => rfl
  | some x => simp [olderThan, ha, hb] at h

/-! ### The choice -/

/-- The sessions that `enforce_session_limit` revokes. -/
def victims (entries : List SessionEntry) (limit : ℕ) (newHash : String) : List SessionEntry :=
  ((entries.insertionSort (olderThan · ·)).filter fun entry => entry.sessionHash ≠ newHash).take
    (entries.length - limit)

section Choice

variable {entries : List SessionEntry} {limit : ℕ} {newHash : String}

theorem mem_of_mem_victims {victim : SessionEntry} (h : victim ∈ victims entries limit newHash) :
    victim ∈ entries ∧ victim.sessionHash ≠ newHash := by
  have hf := mem_of_mem_take h
  rw [mem_filter, mem_insertionSort] at hf
  exact ⟨hf.1, by simpa using hf.2⟩

/-- A session that is left, and is not the new one, is no older than any that is taken. -/
theorem olderThan_of_not_mem_victims {kept victim : SessionEntry} (hkept : kept ∈ entries)
    (hne : kept.sessionHash ≠ newHash) (hnot : kept ∉ victims entries limit newHash)
    (hvictim : victim ∈ victims entries limit newHash) : olderThan victim kept = true := by
  have hsorted := (pairwise_insertionSort (fun a b => olderThan a b = true) entries).filter
    fun entry => decide (entry.sessionHash ≠ newHash)
  have hmem : kept ∈ (entries.insertionSort (olderThan · ·)).filter fun entry => entry.sessionHash ≠ newHash := by
    rw [mem_filter, mem_insertionSort]
    exact ⟨hkept, by simpa using hne⟩
  -- The choice is the front of the sorted list, so what is left of it stands behind.
  rw [← take_append_drop (entries.length - limit) (List.filter _ _)] at hmem hsorted
  rcases mem_append.mp hmem with htake | hdrop
  · exact absurd htake hnot
  · exact (pairwise_append.mp hsorted).2.2 _ hvictim _ hdrop

section

variable (hdistinct : (entries.map (·.sessionHash)).Nodup)
include hdistinct

theorem nodup_victims : (victims entries limit newHash).Nodup := by
  have hsorted : (entries.insertionSort (olderThan · ·)).Nodup :=
    (perm_insertionSort _ _).nodup_iff.mpr (List.Nodup.of_map _ hdistinct)
  exact (hsorted.filter _).sublist (take_sublist _ _)

theorem length_victims (hlimit : 1 ≤ limit) : (victims entries limit newHash).length = entries.length - limit := by
  have hperm : (entries.insertionSort (olderThan · ·)).Perm entries := perm_insertionSort _ _
  have hone : entries.countP (fun entry => entry.sessionHash = newHash) ≤ 1 := by
    have := nodup_iff_count_le_one.mp hdistinct newHash
    rwa [List.count, countP_map] at this
  have hsplit := length_eq_countP_add_countP (fun entry : SessionEntry => decide (entry.sessionHash = newHash))
    (l := entries)
  unfold victims
  rw [length_take, (hperm.filter _).length_eq, ← countP_eq_length_filter]
  simp only [decide_eq_true_eq, decide_not, ne_eq] at hsplit hone ⊢
  omega

/-- Distinct hashes: the hash of a session is one of a victim's only where the session is the victim. -/
theorem hash_mem_victims {entry : SessionEntry}
    (hentry : entry ∈ entries) : entry.sessionHash ∈ (victims entries limit newHash).map (·.sessionHash) ↔
      entry ∈ victims entries limit newHash := by
  rw [mem_map]
  refine ⟨?_, fun hin => ⟨entry, hin, rfl⟩⟩
  rintro ⟨victim, hvictim, hsame⟩
  rwa [← inj_on_of_nodup_map hdistinct (mem_of_mem_victims hvictim).1 hentry hsame]

theorem partition_victims {p : SessionEntry → Bool} (hlimit : 1 ≤ limit) (hnew : newHash ∈ entries.map (·.sessionHash))
    (hp : ∀ entry ∈ entries, p entry = true ↔ entry ∉ victims entries limit newHash) :
    newHash ∈ (entries.filter p).map (·.sessionHash) ∧ (entries.filter (!p ·)).length = entries.length - limit ∧
      (entries.filter p).length = min entries.length limit ∧
      (∀ kept ∈ entries.filter p, kept.sessionHash ≠ newHash → ∀ victim ∈ entries.filter (!p ·),
        ¬ StrictlyOlder kept victim) ∧
      ∀ kept ∈ entries.filter p, kept.sessionHash ≠ newHash → kept.detail = none →
        ∀ victim ∈ entries.filter (!p ·), victim.detail = none := by
  have hleft : ∀ entry, entry ∈ entries.filter p ↔ entry ∈ entries ∧ entry ∉ victims entries limit newHash := by
    intro entry
    rw [mem_filter]
    exact and_congr_right (hp entry)
  have hgone : ∀ entry, entry ∈ entries.filter (!p ·) ↔ entry ∈ victims entries limit newHash := by
    intro entry
    rw [mem_filter, Bool.not_eq_true']
    refine ⟨fun ⟨hentry, hout⟩ => ?_, fun hin => ⟨(mem_of_mem_victims hin).1, ?_⟩⟩
    · by_contra hnot
      rw [(hp entry hentry).mpr hnot] at hout
      cases hout
    · exact Bool.eq_false_iff.mpr fun htrue => (hp entry (mem_of_mem_victims hin).1).mp htrue hin
  have hperm : (entries.filter (!p ·)).Perm (victims entries limit newHash) :=
    (perm_ext_iff_of_nodup ((List.Nodup.of_map _ hdistinct).filter _) (nodup_victims hdistinct)).mpr hgone
  have hlength : (entries.filter (!p ·)).length = entries.length - limit := by
    rw [hperm.length_eq, length_victims hdistinct hlimit]
  have hsum : entries.length = (entries.filter p).length + (entries.filter (!p ·)).length :=
    length_eq_length_filter_add p
  have holder : ∀ kept ∈ entries.filter p, kept.sessionHash ≠ newHash → ∀ victim ∈ entries.filter (!p ·),
      olderThan victim kept = true :=
    fun kept hkept hne victim hvictim => olderThan_of_not_mem_victims ((hleft kept).mp hkept).1 hne
      ((hleft kept).mp hkept).2 ((hgone victim).mp hvictim)
  refine ⟨?_, hlength, by omega, ?_, ?_⟩
  · obtain ⟨entry, hentry, rfl⟩ := mem_map.mp hnew
    exact mem_map_of_mem ((hleft entry).mpr ⟨hentry, fun hin => (mem_of_mem_victims hin).2 rfl⟩)
  · exact fun kept hkept hne victim hvictim => not_strictlyOlder_of_olderThan (holder kept hkept hne victim hvictim)
  · exact fun kept hkept hne hnone victim hvictim =>
      detail_none_of_olderThan (holder kept hkept hne victim hvictim) hnone

end

end Choice

/-! ### The evictions -/

section Alone

variable {env : Env} {i : Input} {st : Store}

/-- What `resolve_session_limit` answers. -/
def resolvedLimit (env : Env) (st : Store) (tenantId : Option String) (userId : String) : ℕ :=
  match env.maxSessionsResolver with
  | none => env.config.defaultMaxSessions
  | some resolver => (st.findById userId tenantId).elim env.config.defaultMaxSessions resolver

theorem evalAt_resolveSessionLimit (tenantId : Option String) (userId : String) :
    evalAt (machine env) i st (resolveSessionLimit env tenantId userId).run =
      (.ok (resolvedLimit env st tenantId userId), st) := by
  unfold resolveSessionLimit resolvedLimit
  cases env.maxSessionsResolver with
  | none => rfl
  | some resolver =>
    have hfind : (machine env).exec st (.host (.findById userId tenantId)) i = (st.findById userId tenantId, st) := rfl
    show evalAt (machine env) i st (.op (Op.host (.findById userId tenantId)) _) = _
    rw [evalAt_op, hfind]
    cases st.findById userId tenantId <;> rfl

/-- The keys after the evictions. -/
def SessionKeys.evicted (now : ℕ) (subject : String) (hashes : List String) (k : SessionKeys) : SessionKeys :=
  hashes.foldl (fun k hash => (k.sessionRevoke now subject hash).2) k

theorem evalAt_evict (subject : String) (entries : List SessionEntry) :
    evalAt (machine env) i st (evict subject entries).run =
      (.ok (), { st with keys := st.keys.evicted st.now subject (entries.map (·.sessionHash)) }) := by
  induction entries generalizing st with
  | nil => rfl
  | cons entry entries ih => exact ih

end Alone

section Evicted

variable {now : ℕ} {subject : String} {k : SessionKeys}

theorem mem_smembers_sessionRevoke (hash : String) {m : Member} :
    m ∈ smembers (k.sessionRevoke now subject hash).2.sess now subject ↔
      m ∈ smembers k.sess now subject ∧ m ≠ .live hash := by
  unfold sessionRevoke
  split_ifs with hnot
  · refine ⟨fun hm => ⟨hm, ?_⟩, fun hm => hm.1⟩
    rintro rfl
    simp [sismember, hm] at hnot
  · rw [mem_smembers_srem]
    exact and_congr_right fun _ => ⟨fun h => h rfl, fun h _ => h⟩

/-- A session that is in the index is revoked; every other is left. -/
theorem has_sessionRevoke (hash h : String) : has (k.sessionRevoke now subject hash).2.rt now h =
      (has k.rt now h && !(h = hash && sismember k.sess now subject (.live hash))) := by
  unfold sessionRevoke
  cases hs : sismember k.sess now subject (.live hash) with
  | false => simp
  | true =>
    by_cases hh : h = hash
    · subst hh
      simp [has, find]
    · simp [has, find, del_of_ne k.rt hh, hh]

theorem mem_smembers_evicted (hashes : List String) {h : String} :
    live h ∈ smembers (k.evicted now subject hashes).sess now subject ↔
      live h ∈ smembers k.sess now subject ∧ h ∉ hashes := by
  induction hashes generalizing k with
  | nil => simp [evicted]
  | cons hash hashes ih =>
    unfold evicted at ih ⊢
    rw [foldl_cons, ih, mem_smembers_sessionRevoke, mem_cons, not_or, and_assoc]
    simp

/-- The evictions take the sessions they are given, when these are in the index, and no other. -/
theorem has_evicted (hashes : List String) {h : String} (hm : live h ∈ smembers k.sess now subject) :
    has (k.evicted now subject hashes).rt now h = (has k.rt now h && !hashes.contains h) := by
  induction hashes generalizing k with
  | nil => simp [evicted]
  | cons hash hashes ih =>
    by_cases hh : h = hash
    · subst hh
      have hgone : has (k.sessionRevoke now subject h).2.rt now h = false := by
        rw [has_sessionRevoke]
        simp [sismember, hm]
      have hstays : ∀ (l : List String) (k : SessionKeys), has k.rt now h = false →
          has (k.evicted now subject l).rt now h = false := by
        intro l
        induction l with
        | nil => exact fun k hk => hk
        | cons x l ihl =>
          intro k hk
          refine ihl _ ?_
          rw [has_sessionRevoke, hk, Bool.false_and]
      rw [show (k.evicted now subject (h :: hashes)) =
        (k.sessionRevoke now subject h).2.evicted now subject hashes from rfl, hstays _ _ hgone]
      simp
    · have hstep : has (k.sessionRevoke now subject hash).2.rt now h = has k.rt now h := by
        rw [has_sessionRevoke]
        simp [hh]
      rw [show (k.evicted now subject (hash :: hashes)) =
        (k.sessionRevoke now subject hash).2.evicted now subject hashes from rfl,
        ih ((mem_smembers_sessionRevoke hash).mpr ⟨hm, fun h' => hh (live.inj h')⟩), hstep]
      simp [hh]

theorem mem_smembers_pruneDead {h : String} (candidates : List Member)
    (hm : live h ∈ smembers k.sess now subject) (hlive : has k.rt now h = true) :
    live h ∈ smembers (k.pruneDead now subject candidates).2.sess now subject := by
  suffices hfold : ∀ (l : List Member) (acc : List Member × SessionKeys),
      live h ∈ smembers acc.2.sess now subject → has acc.2.rt now h = true →
      live h ∈ smembers (l.foldl (pruneMember now subject) acc).2.sess now subject from
    hfold candidates _ hm hlive
  intro l
  induction l with
  | nil => exact fun _ hm _ => hm
  | cons x l ih =>
    intro acc hm hlive
    rw [foldl_cons]
    unfold pruneMember
    split_ifs with hx
    · exact ih _ hm hlive
    · refine ih _ (mem_smembers_srem.mpr ⟨hm, fun _ hxe => hx ?_⟩) hlive
      rw [← hxe]
      exact hlive

end Evicted

/-! ### The whole of it -/

section Whole

variable {env : Env} {i : Input} {st st₁ : Store} {tenantId : Option String} {userId newHash : String}
  {entries : List SessionEntry}

/-- What a listing answers is in the index, and the listing takes no live session out of it. -/
theorem mem_of_listed {subject : String}
    (hlist : evalAt (machine env) i st (listSessionEntries subject).run = (.ok entries, st₁)) :
    st₁.now = st.now ∧ st₁.users = st.users ∧ st₁.keys.rt = st.keys.rt ∧
      ∀ entry ∈ entries, has st.keys.rt st.now entry.sessionHash = true →
        live entry.sessionHash ∈ smembers st₁.keys.sess st.now subject := by
  rw [evalAt_listSessionEntries] at hlist
  obtain ⟨hentries, rfl⟩ := Prod.mk.inj hlist
  obtain ⟨sess, hprune⟩ := foldl_pruneMember st.now subject
    (staleOf st.now st.keys (smembers st.keys.sess st.now subject)) ([], st.keys)
  have hrt : (st.keys.pruneDead st.now subject
      (staleOf st.now st.keys (smembers st.keys.sess st.now subject))).2.rt = st.keys.rt := by
    rw [pruneDead, hprune]
  refine ⟨rfl, rfl, hrt, fun entry hentry hlive => ?_⟩
  rw [← Except.ok.inj hentries] at hentry
  obtain ⟨h, hh, rfl⟩ := mem_map.mp (mem_of_mem_filter hentry)
  exact mem_smembers_pruneDead _ (mem_liveHashes.mp hh) hlive

theorem evalAt_enforceSessionLimit
    (hlist : evalAt (machine env) i st (listSessionEntries (env.subjectHash tenantId userId)).run =
      (.ok entries, st₁)) :
    evalAt (machine env) i st (enforceSessionLimit env tenantId userId newHash).run =
      (.ok (), { st₁ with
        keys := st₁.keys.evicted st₁.now (env.subjectHash tenantId userId)
          ((victims entries (max (resolvedLimit env st₁ tenantId userId) 1) newHash).map (·.sessionHash)) }) := by
  unfold enforceSessionLimit
  rw [run_bind, evalAt_bind, hlist]
  show evalAt (machine env) i st₁ (resolveSessionLimit env tenantId userId >>= fun limit =>
    evict (env.subjectHash tenantId userId) (victims entries (max limit 1) newHash) : Act Unit).run = _
  rw [run_bind, evalAt_bind, evalAt_resolveSessionLimit]
  exact evalAt_evict _ _

/-- Exactly the victims are revoked. -/
theorem enforceSessionLimit_revokes (newHash : String)
    (hlist : evalAt (machine env) i st (listSessionEntries (env.subjectHash tenantId userId)).run = (.ok entries, st₁))
    (hdistinct : (entries.map (·.sessionHash)).Nodup)
    (hlive : ∀ entry ∈ entries, has st.keys.rt st.now entry.sessionHash = true) :
    ∃ st₂, evalAt (machine env) i st (enforceSessionLimit env tenantId userId newHash).run = (.ok (), st₂) ∧
      ∀ entry ∈ entries, (has st₂.keys.rt st₂.now entry.sessionHash = true ↔
          entry ∉ victims entries (max (resolvedLimit env st tenantId userId) 1) newHash) ∧
        (live entry.sessionHash ∈ smembers st₂.keys.sess st₂.now (env.subjectHash tenantId userId) ↔
          entry ∉ victims entries (max (resolvedLimit env st tenantId userId) 1) newHash) := by
  obtain ⟨hnow, husers, hrt, hindexed⟩ := mem_of_listed hlist
  have hlimit : resolvedLimit env st₁ tenantId userId = resolvedLimit env st tenantId userId := by
    unfold resolvedLimit Store.findById
    rw [husers]
  refine ⟨_, evalAt_enforceSessionLimit hlist, fun entry hentry => ?_⟩
  have hin := hindexed entry hentry (hlive entry hentry)
  rw [hlimit, hnow, ← hash_mem_victims hdistinct hentry]
  refine ⟨?_, ?_⟩
  · rw [has_evicted _ hin, hrt, hlive entry hentry]
    simp
  · rw [mem_smembers_evicted]
    exact and_iff_right hin

/-- `enforce_session_limit`, with nothing else running meanwhile, on a listing of distinct live sessions that has the
new one in it. -/
theorem enforceSessionLimit_evicts_oldest
    (hlist : evalAt (machine env) i st (listSessionEntries (env.subjectHash tenantId userId)).run = (.ok entries, st₁))
    (hdistinct : (entries.map (·.sessionHash)).Nodup)
    (hlive : ∀ entry ∈ entries, has st.keys.rt st.now entry.sessionHash = true)
    (hnew : newHash ∈ entries.map (·.sessionHash)) :
    ∃ st₂, evalAt (machine env) i st (enforceSessionLimit env tenantId userId newHash).run = (.ok (), st₂) ∧
      let limit := max (resolvedLimit env st tenantId userId) 1
      let remaining := entries.filter fun entry => has st₂.keys.rt st₂.now entry.sessionHash
      let evicted := entries.filter fun entry => !has st₂.keys.rt st₂.now entry.sessionHash
      newHash ∈ remaining.map (·.sessionHash) ∧
      evicted.length = entries.length - limit ∧ remaining.length = min entries.length limit ∧
      (∀ kept ∈ remaining, kept.sessionHash ≠ newHash → ∀ victim ∈ evicted, ¬ StrictlyOlder kept victim) ∧
      (∀ kept ∈ remaining, kept.sessionHash ≠ newHash → kept.detail = none →
        ∀ victim ∈ evicted, victim.detail = none) ∧
      ∀ entry ∈ entries, live entry.sessionHash ∈
        smembers st₂.keys.sess st₂.now (env.subjectHash tenantId userId) ↔ entry ∈ remaining := by
  obtain ⟨st₂, heval, hrevoked⟩ := enforceSessionLimit_revokes newHash hlist hdistinct hlive
  obtain ⟨hkept, hevicted, hremaining, holder, hnone⟩ :=
    partition_victims hdistinct (le_max_right _ 1) hnew fun entry hentry => (hrevoked entry hentry).1
  refine ⟨st₂, heval, hkept, hevicted, hremaining, holder, hnone, fun entry hentry => ?_⟩
  rw [mem_filter, (hrevoked entry hentry).2, (hrevoked entry hentry).1]
  exact (and_iff_right hentry).symm

end Whole

namespace Demo

/-- The deployment, under a limit of two. -/
def capEnv : Env := { env with maxSessionsResolver := some fun _ => 2 }

/-- The account's index. -/
def capSubject : String := env.subjectHash (some "t1") "u1"

/-- A session of the account with this detail. -/
def capSession (hash : String) (detail : Json) : NewSession :=
  { subject := capSubject, hash, record := .null, detail, family := "", ttl := 100 }

/-- Three sessions: one whose detail is damaged, one of second ten, and one of second zero. -/
def capStore : Store :=
  { Store.initial 20 [alice] with
    keys := ((empty.createSession 20 (capSession "s1" .null)).createSession 20
      (capSession "s2" (SessionDetailValue.toJson ⟨"laptop", "ip", 10000000000, 10000000000⟩))).createSession 20
      (capSession "s3" (SessionDetailValue.toJson ⟨"phone", "ip", 0, 0⟩)) }

/-- What the listing answers. -/
def capEntries : List SessionEntry :=
  [⟨"s1", none⟩, ⟨"s2", some ⟨"s2", "laptop", "ip", 10000000000, 10000000000⟩⟩, ⟨"s3", some ⟨"s3", "phone", "ip", 0, 0⟩⟩]

end Demo

open Demo

/-- Under a limit of two, with `s3` the new session, two of the three are left. -/
theorem enforceSessionLimit_leaves_two : ∃ st₂, evalAt (machine capEnv) (input "" "") capStore
        (enforceSessionLimit capEnv (some "t1") "u1" "s3").run = (.ok (), st₂) ∧
      (capEntries.filter fun entry => has st₂.keys.rt st₂.now entry.sessionHash).length = 2 := by
  have hlist : evalAt (machine capEnv) (input "" "") capStore
      (listSessionEntries (capEnv.subjectHash (some "t1") "u1")).run = (.ok capEntries, capStore) := rfl
  have hnew : "s3" ∈ capEntries.map (·.sessionHash) := by decide
  obtain ⟨st₂, heval, -, -, hremaining, -⟩ :=
    enforceSessionLimit_evicts_oldest hlist (by decide) (by decide) hnew
  exact ⟨st₂, heval, hremaining⟩

end BymaxAuth
