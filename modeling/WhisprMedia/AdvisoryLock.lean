import WhisprMedia.AccessLogPartitions
import WhisprMedia.RelyGuarantee

/-! The advisory lock around the creation of a partition, for any number of replicas. Each query is
served on a connection of the replica's pool, and the lock belongs to the session of the connection
that it was taken on. -/
namespace WhisprMedia
open Awaiting MediaAccessLogPartitionService

/-- A connection of the pool of a replica. -/
structure Session where
  replica : ℕ
  connection : ℕ
  deriving DecidableEq

structure PartitionDb where
  partitions : List Partition
  /-- The advisory locks that are held, and how many times by their session. -/
  locks : ℕ → Option (Session × ℕ)
  /-- The connection that the next query is served on. -/
  connection : Session
  /-- Whether the next DDL statement fails. -/
  ddlFails : Bool

def PartitionCmd.exec (c : PartitionCmd) (w : PartitionDb) : c.Value × PartitionDb :=
  match c with
  | .pg_try_advisory_lock key =>
    match w.locks key with
    | none => (.ok true, { w with locks := Function.update w.locks key (some (w.connection, 1)) })
    | some (session, n) =>
      if session = w.connection then
        (.ok true, { w with locks := Function.update w.locks key (some (session, n + 1)) })
      else (.ok false, w)
  | .createTable name fromDate toDate =>
    if w.ddlFails then (.error "DDL failed", w)
    else
      let r := createPartition name fromDate toDate w.partitions
      (r.1, { w with partitions := r.2 })
  | .pg_advisory_unlock key =>
    match w.locks key with
    | none => (.ok false, w)
    | some (session, n) =>
      if session = w.connection then
        let left := if n = 1 then none else some (session, n - 1)
        (.ok true, { w with locks := Function.update w.locks key left })
      else (.ok false, w)

/-- A run of `ensurePartitionForMonth` on a replica. -/
structure PartitionCall where
  replica : ℕ
  date : Date
  deriving DecidableEq

inductive PartitionAct where
  | checkout (session : Session)
  | ddl (fails : Bool)
  deriving DecidableEq

def partitionJobs : System PartitionCmd PartitionCmd.Value PartitionDb PartitionCall PartitionAct
    (Except String Unit) where
  exec := PartitionCmd.exec
  body x := (ensurePartitionForMonth x.date).run
  forks _ := []
  act
    | .checkout session, w => { w with connection := session }
    | .ddl fails, w => { w with ddlFails := fails }

abbrev PartitionPool := Pool PartitionCmd PartitionCmd.Value PartitionDb PartitionCall (Except String Unit)

/-- A query is served by the pool of its own replica. -/
def Pooled (p : PartitionPool) : Label PartitionCall PartitionAct → Prop
  | .step i => ∀ t ∈ p.threads[i]?, p.world.connection.replica = t.call.replica
  | _ => True

/-- An unlock is served on the connection whose session holds the lock. -/
def UnlockedByHolder (p : PartitionPool) : Label PartitionCall PartitionAct → Prop
  | .step i => p.nextCmd i = some (.pg_advisory_unlock ADVISORY_LOCK_KEY) →
      (p.world.locks ADVISORY_LOCK_KEY).map (·.1) = some p.world.connection
  | _ => True

/-- How often the lock is held. -/
def lockCount (w : PartitionDb) : ℕ := ((w.locks ADVISORY_LOCK_KEY).map (·.2)).getD 0

/-- The lock is held once for every run that has acquired it and not yet unlocked. -/
structure LockInv (w : PartitionDb) (m : ℕ) : Prop where
  count : lockCount w = m
  held : ∀ session n, w.locks ADVISORY_LOCK_KEY = some (session, n) → 0 < n

/-- A run accounts for the lock from its acquire to its unlock. -/
def lockDiscipline : Discipline partitionJobs ℕ ℕ where
  start _ := 0
  next
    | g, .pg_try_advisory_lock _, .ok true => g + 1
    | g, .pg_advisory_unlock _, _ => g - 1
    | g, _, _ => g
  value g := g
  inv := LockInv
  rely _ _ _ _ := True
  may w _ _ c := c = .pg_advisory_unlock ADVISORY_LOCK_KEY →
    (w.locks ADVISORY_LOCK_KEY).map (·.1) = some w.connection
  rely_refl _ _ := trivial
  rely_trans _ _ := trivial

theorem lockInv_of_some {w : PartitionDb} {m : ℕ} (session : Session) (n : ℕ)
    (h : w.locks ADVISORY_LOCK_KEY = some (session, n)) (hn : 0 < n) (hm : n = m) : LockInv w m := by
  refine ⟨by simp only [lockCount, h, Option.map_some, Option.getD_some, hm], fun s k hk => ?_⟩
  obtain ⟨-, rfl⟩ := Prod.mk.inj (Option.some.inj (h.symm.trans hk))
  exact hn

theorem lockInv_of_none {w : PartitionDb} {m : ℕ} (h : w.locks ADVISORY_LOCK_KEY = none)
    (hm : m = 0) : LockInv w m := by
  refine ⟨by simp only [lockCount, h, hm, Option.map_none, Option.getD_none], fun s k hk => ?_⟩
  rw [h] at hk
  cases hk

theorem exec_acquire {w : PartitionDb} {f : ℕ} (h : LockInv w f) :
    let r := PartitionCmd.exec (.pg_try_advisory_lock ADVISORY_LOCK_KEY) w
    (r.1 = .ok true ∧ LockInv r.2 (1 + f)) ∨ (r.1 = .ok false ∧ LockInv r.2 f) := by
  intro r
  have hcount := h.count
  unfold lockCount at hcount
  cases hl : w.locks ADVISORY_LOCK_KEY with
  | none =>
    have hr : r = (.ok true, { w with
      locks := Function.update w.locks ADVISORY_LOCK_KEY (some (w.connection, 1)) }) := by
      simp only [r, PartitionCmd.exec, hl]
    rw [hl] at hcount
    rw [hr]
    refine Or.inl ⟨rfl, lockInv_of_some w.connection 1 (by simp only [Function.update_self]) one_pos ?_⟩
    rw [← hcount]
    rfl
  | some held =>
    obtain ⟨session, n⟩ := held
    rw [hl] at hcount
    by_cases hs : session = w.connection
    · -- the session that holds the lock may take it again
      have hr : r = (.ok true, { w with
        locks := Function.update w.locks ADVISORY_LOCK_KEY (some (session, n + 1)) }) := by
        simp only [r, PartitionCmd.exec, hl, hs, if_true]
      rw [hr]
      refine Or.inl ⟨rfl, lockInv_of_some session (n + 1) (by simp only [Function.update_self]) n.succ_pos ?_⟩
      rw [← hcount]
      exact Nat.add_comm n 1
    · have hr : r = (.ok false, w) := by
        simp only [r, PartitionCmd.exec, hl, hs, if_false]
      rw [hr]
      exact Or.inr ⟨rfl, h⟩

theorem exec_release {w : PartitionDb} {f : ℕ} (h : LockInv w (1 + f))
    (hholder : (w.locks ADVISORY_LOCK_KEY).map (·.1) = some w.connection) :
    LockInv (PartitionCmd.exec (.pg_advisory_unlock ADVISORY_LOCK_KEY) w).2 f := by
  obtain ⟨⟨session, n⟩, hl, hs⟩ := Option.map_eq_some_iff.mp hholder
  have hs : session = w.connection := hs
  have hcount := h.count
  unfold lockCount at hcount
  rw [hl] at hcount
  have hn : n = 1 + f := hcount
  have hr : (PartitionCmd.exec (.pg_advisory_unlock ADVISORY_LOCK_KEY) w).2 = { w with
      locks := Function.update w.locks ADVISORY_LOCK_KEY
        (if n = 1 then none else some (session, n - 1)) } := by
    simp only [PartitionCmd.exec, hl, hs, if_true]
  rw [hr]
  by_cases hone : n = 1
  · rw [if_pos hone]
    exact lockInv_of_none (by simp only [Function.update_self]) (by omega)
  · rw [if_neg hone]
    exact lockInv_of_some session (n - 1) (by simp only [Function.update_self]) (by omega) (by omega)

theorem exec_createTable_locks (name fromDate toDate : String) (w : PartitionDb) :
    (PartitionCmd.exec (.createTable name fromDate toDate) w).2.locks = w.locks := by
  simp only [PartitionCmd.exec]
  split <;> rfl

theorem LockInv.congr {w w' : PartitionDb} {m : ℕ} (h : LockInv w m) (hl : w'.locks = w.locks) :
    LockInv w' m := by
  refine ⟨?_, ?_⟩
  · rw [← h.count]
    unfold lockCount
    rw [hl]
  · rw [hl]
    exact h.held

theorem ddl_neutral (name fromDate toDate : String) (g : ℕ) :
    lockDiscipline.Neutral g (.createTable name fromDate toDate) := by
  intro w f hi _
  exact ⟨rfl, LockInv.congr hi (exec_createTable_locks name fromDate toDate w), trivial⟩

/-- A run gives back what it has acquired, whatever its DDL statement does. -/
theorem ensurePartitionForMonth_callable (x : PartitionCall) :
    lockDiscipline.Callable (fun _ _ g _ _ => g = 0) x := by
  refine ⟨rfl, fun w m hw => ?_⟩
  have hkeeps : lockDiscipline.Keeps (ensurePartitionForMonth x.date) 0 w m
      (fun _ g _ _ => g = 0) (fun _ g _ _ => g = 0) := by
    unfold ensurePartitionForMonth
    apply Discipline.Keeps.bind (Q := fun acquired g _ _ => g = if acquired then 1 else 0)
    · apply Discipline.keeps_issue
      intro w' f _ hi _
      have hi : LockInv w' f := Nat.zero_add f ▸ hi
      rcases exec_acquire hi with ⟨hr, hi'⟩ | ⟨hr, hi'⟩
      · have hr : (partitionJobs.exec (.pg_try_advisory_lock ADVISORY_LOCK_KEY) w').1 = .ok true := hr
        rw [hr]
        exact ⟨hi', trivial, fun _ _ _ _ => rfl⟩
      · have hr : (partitionJobs.exec (.pg_try_advisory_lock ADVISORY_LOCK_KEY) w').1 = .ok false := hr
        rw [hr]
        exact ⟨(Nat.zero_add f).symm ▸ hi', trivial, fun _ _ _ _ => rfl⟩
    · intro acquired g w' m' hi hg
      cases acquired with
      | false => exact Discipline.keeps_pure hg
      | true =>
        obtain rfl : g = 1 := hg.now hi
        -- the unlock runs after the DDL statement, also if that throws
        have hfin : ∀ u n, lockDiscipline.Keeps
            (ProgE.issue (.pg_advisory_unlock ADVISORY_LOCK_KEY) fun r => r.map fun _ => ()) 1 u n
            (fun _ g _ _ => g = 0) (fun _ g _ _ => g = 0) := by
          intro u n
          apply Discipline.keeps_issue
          intro w' f _ hi hmay
          have hrelease := exec_release hi (hmay rfl)
          refine ⟨(Nat.zero_add f).symm ▸ hrelease, trivial, fun _ _ _ _ => ?_⟩
          cases (partitionJobs.exec (.pg_advisory_unlock ADVISORY_LOCK_KEY) w').1 <;> rfl
        apply Discipline.Keeps.ensuring (Q := fun _ g _ _ => g = 1) (E := fun _ g _ _ => g = 1)
        · apply Discipline.keeps_issue
          intro w' f _ hi hmay
          obtain ⟨hg, hi', -⟩ := ddl_neutral _ _ _ 1 w' f hi hmay
          rw [hg]
          refine ⟨hi', trivial, fun _ _ _ _ => ?_⟩
          cases (partitionJobs.exec _ w').1 <;> rfl
        · intro _ g u n hi hg
          obtain rfl : g = 1 := hg.now hi
          exact hfin u n
        · intro _ g u n hi hg
          obtain rfl : g = 1 := hg.now hi
          exact hfin u n
  refine Discipline.Upholds.mono hkeeps.upholds fun r g w' m' _ h => ?_
  cases r <;> exact h

theorem lock_sound : lockDiscipline.Sound (fun _ _ g _ _ => g = 0)
    (fun p l => Pooled p l ∧ UnlockedByHolder p l) where
  call _ x _ := ensurePartitionForMonth_callable x
  fork _ x _ := ensurePartitionForMonth_callable x
  act p a m _ hi := by
    refine ⟨LockInv.congr hi ?_, trivial⟩
    cases a <;> rfl
  step p i x log c k hok ht hc := hok.2 (by simp only [Pool.nextCmd, ht, hc])

/-- At rest nobody holds the lock. -/
theorem locks_of_atRest {w : PartitionDb} (hw : w.locks ADVISORY_LOCK_KEY = none) {p : PartitionPool}
    (h : partitionJobs.Runs (fun p l => Pooled p l ∧ UnlockedByHolder p l) ⟨w, []⟩ p)
    (hrest : p.AtRest) : p.world.locks ADVISORY_LOCK_KEY = none := by
  have hp := ((Discipline.holds_of_empty (lockInv_of_none hw rfl)).runs lock_sound h).1
  have htotal : lockDiscipline.total p = 0 := by
    apply List.sum_eq_zero
    intro y hy
    obtain ⟨t, ht, rfl⟩ := List.mem_map.mp hy
    obtain ⟨r, hr⟩ := Option.isSome_iff_exists.mp (hrest t ht)
    exact hp.outcome ht hr
  have hinv : LockInv p.world 0 := htotal ▸ hp.inv
  cases hl : p.world.locks ADVISORY_LOCK_KEY with
  | none => rfl
  | some held =>
    -- a lock that is held is held at least once
    have hcount := hinv.count
    have hpos := hinv.held held.1 held.2 hl
    simp only [lockCount, hl, Option.map_some, Option.getD_some] at hcount
    omega

/-! The next run -/

/-- Only this thread takes steps. -/
def OnlyThread (n : ℕ) : Label PartitionCall PartitionAct → Prop
  | .call _ => False
  | .step i => i = n
  | .act _ => True

/-- What a DDL statement has reported as created is there. -/
def Created (log : List PartitionEvent) (w : PartitionDb) : Prop :=
  ∀ name fromDate toDate, ⟨.createTable name fromDate toDate, .ok ()⟩ ∈ log →
    ∃ part ∈ w.partitions, part.name = name

theorem Created.mono {log : List PartitionEvent} {w w' : PartitionDb} (h : Created log w)
    (hle : ∀ part ∈ w.partitions, part ∈ w'.partitions) : Created log w' := by
  intro name fromDate toDate he
  obtain ⟨part, hpart, hname⟩ := h name fromDate toDate he
  exact ⟨part, hle part hpart, hname⟩

theorem createPartition_mono (name fromDate toDate : String) {ps : List Partition} {part : Partition}
    (h : part ∈ ps) : part ∈ (createPartition name fromDate toDate ps).2 := by
  unfold createPartition
  split
  · exact h
  · split
    · split_ifs
      · exact h
      · exact h
      · exact List.mem_append_left _ h
    · exact h

theorem exec_partitions_mono (c : PartitionCmd) (w : PartitionDb) :
    ∀ part ∈ w.partitions, part ∈ (c.exec w).2.partitions := by
  intro part h
  cases c with
  | pg_try_advisory_lock key =>
    simp only [PartitionCmd.exec]
    split
    · exact h
    · split_ifs <;> exact h
  | createTable name fromDate toDate =>
    simp only [PartitionCmd.exec]
    split_ifs
    · exact h
    · exact createPartition_mono name fromDate toDate h
  | pg_advisory_unlock key =>
    simp only [PartitionCmd.exec]
    split
    · exact h
    · split_ifs <;> exact h

theorem Created.snoc {log : List PartitionEvent} {w : PartitionDb} (h : Created log w)
    (c : PartitionCmd) : Created (log ++ [⟨c, (c.exec w).1⟩]) (c.exec w).2 := by
  intro name fromDate toDate he
  rcases List.mem_append.mp he with he | he
  · exact (h.mono (exec_partitions_mono c w)) name fromDate toDate he
  · -- the statement of this step
    obtain ⟨rfl, hr⟩ := Sigma.mk.inj_iff.mp (List.mem_singleton.mp he)
    have hr := (eq_of_heq hr).symm
    simp only [PartitionCmd.exec] at hr ⊢
    split_ifs at hr ⊢
    rcases createPartition_ok hr with ⟨part, hpart, hname, hps⟩ | ⟨lower, upper, -, -, hps⟩
    · exact ⟨part, hps.symm ▸ hpart, hname⟩
    · refine ⟨⟨name, lower, upper⟩, ?_, rfl⟩
      rw [hps]
      exact List.mem_append_right _ List.mem_cons_self

/-- How far a run alone has come: it has not issued anything while the lock is free, or it has
acquired the lock. -/
structure NextRun (x : PartitionCall) (t : Thread PartitionCmd PartitionCmd.Value PartitionCall
    (Except String Unit)) (w : PartitionDb) : Prop where
  follows : (ensurePartitionForMonth x.date).run.Follows t.log t.rest
  acquired : (t.log = [] ∧ w.locks ADVISORY_LOCK_KEY = none) ∨
    ∃ log, t.log = ⟨.pg_try_advisory_lock ADVISORY_LOCK_KEY, .ok true⟩ :: log
  created : Created t.log w

theorem nextRun_step {x : PartitionCall} {w : PartitionDb} {log : List PartitionEvent}
    {c : PartitionCmd} {k : c.Value → Prog PartitionCmd PartitionCmd.Value (Except String Unit)}
    (h : NextRun x ⟨x, log, .step c k⟩ w) :
    NextRun x ⟨x, log ++ [⟨c, (c.exec w).1⟩], k (c.exec w).1⟩ (c.exec w).2 := by
  refine ⟨h.follows.snoc _, ?_, h.created.snoc c⟩
  rcases h.acquired with ⟨hlog, hfree⟩ | ⟨rest, hlog⟩
  · -- the first query is the lock, which is free
    have hlog : log = [] := hlog
    subst hlog
    have hfirst := h.follows
    cases hfirst
    refine Or.inr ⟨[], ?_⟩
    simp only [PartitionCmd.exec, hfree, List.nil_append]
  · have hlog : log = _ :: rest := hlog
    exact Or.inr ⟨rest ++ [⟨c, (c.exec w).1⟩], by rw [hlog]; rfl⟩

theorem nextRun_runs {ok : PartitionPool → Label PartitionCall PartitionAct → Prop}
    {x : PartitionCall} {p p₁ q : PartitionPool}
    (hfree : p.world.locks ADVISORY_LOCK_KEY = none) (hcall : partitionJobs.next p (.call x) = some p₁)
    (h : partitionJobs.Runs (fun q l => ok q l ∧ OnlyThread p.threads.length l) p₁ q) :
    ∃ t, q.threads[p.threads.length]? = some t ∧ t.call = x ∧ NextRun x t q.world := by
  induction h with
  | refl =>
    obtain rfl := Option.some.inj hcall
    refine ⟨partitionJobs.start x, by simp, rfl, .done _, Or.inl ⟨rfl, hfree⟩, ?_⟩
    intro name fromDate toDate he
    cases he
  | @tail q q' l _ hok hn ih =>
    obtain ⟨t, ht, rfl, hrun⟩ := ih
    rcases System.next_cases hn with ⟨y, rfl, rfl⟩ | ⟨a, rfl, rfl⟩ |
      ⟨i, pre, post, y, log, c, k, rfl, hts, hlen, rfl⟩
    · exact hok.2.elim
    · refine ⟨t, ht, rfl, hrun.follows, ?_, ?_⟩
      · cases a <;> exact hrun.acquired
      · cases a <;> exact hrun.created
    · obtain rfl : i = p.threads.length := hok.2
      have hat {u : Thread PartitionCmd PartitionCmd.Value PartitionCall (Except String Unit)} :
          (pre ++ u :: post)[p.threads.length]? = some u := by simp [← hlen]
      rw [hts] at ht
      obtain rfl := Option.some.inj (hat.symm.trans ht)
      refine ⟨⟨y, log ++ [⟨c, (c.exec q.world).1⟩], k (c.exec q.world).1⟩, ?_, rfl, nextRun_step hrun⟩
      show ((pre ++ _ :: post) ++ _)[p.threads.length]? = _
      rw [List.getElem?_append_left (by simp [← hlen])]
      exact hat

/-- Where every unlock is served on the connection that holds the lock, nobody holds it at rest: the
next run, on any replica and any connections, acquires it and issues its DDL statement, and its
partition is there if that succeeds. -/
theorem advisory_lock_returned (w : PartitionDb) (hw : w.locks ADVISORY_LOCK_KEY = none)
    (p : PartitionPool)
    (h : partitionJobs.Runs (fun p l => Pooled p l ∧ UnlockedByHolder p l) ⟨w, []⟩ p)
    (hrest : p.AtRest) :
    p.world.locks ADVISORY_LOCK_KEY = none ∧
    ∀ x p₁ q t r, partitionJobs.next p (.call x) = some p₁ →
      partitionJobs.Runs (fun q l => Pooled q l ∧ OnlyThread p.threads.length l) p₁ q →
      q.threads[p.threads.length]? = some t → t.outcome = some r →
      ⟨.pg_try_advisory_lock ADVISORY_LOCK_KEY, .ok true⟩ ∈ t.log ∧
      ∃ fromDate toDate ddl, ⟨.createTable (formatPartitionName (firstOfMonth x.date 0)) fromDate toDate,
        ddl⟩ ∈ t.log ∧ (ddl = .ok () → ∃ part ∈ q.world.partitions,
          part.name = formatPartitionName (firstOfMonth x.date 0)) := by
  have hfree := locks_of_atRest hw h hrest
  refine ⟨hfree, fun x p₁ q t r hcall hrun ht hr => ?_⟩
  obtain ⟨t', ht', -, hnext⟩ := nextRun_runs hfree hcall hrun
  obtain rfl := Option.some.inj (ht.symm.trans ht')
  have hfollows := hnext.follows
  rw [Thread.rest_of_outcome hr] at hfollows
  rcases hnext.acquired with ⟨hlog, -⟩ | ⟨log, hlog⟩
  · -- a run that has ended has issued something
    rw [hlog] at hfollows
    cases hfollows
  · have hcreated := hnext.created
    rw [hlog] at hfollows hcreated ⊢
    refine ⟨List.mem_cons_self, ?_⟩
    cases hfollows with
    | step hfollows =>
      cases hfollows with
      | @step _ _ ddl log _ hfollows =>
        have hmem := List.mem_cons_of_mem (⟨.pg_try_advisory_lock ADVISORY_LOCK_KEY, .ok true⟩ :
          PartitionEvent) (List.mem_cons_self (a := (⟨_, ddl⟩ : PartitionEvent)) (l := log))
        refine ⟨_, _, ddl, hmem, ?_⟩
        rintro rfl
        exact hcreated _ _ _ hmem

instance (p : PartitionPool) (l : Label PartitionCall PartitionAct) : Decidable (Pooled p l) :=
  match l with
  | .step _ => inferInstanceAs (Decidable (∀ t ∈ _, _))
  | .call _ | .act _ => inferInstanceAs (Decidable True)

instance (p : PartitionPool) (l : Label PartitionCall PartitionAct) :
    Decidable (UnlockedByHolder p l) :=
  match l with
  | .step _ => inferInstanceAs (Decidable (_ → _))
  | .call _ | .act _ => inferInstanceAs (Decidable True)

instance (p : PartitionPool) : Decidable p.AtRest :=
  inferInstanceAs (Decidable (∀ t ∈ p.threads, t.outcome.isSome))

/-- A database without partitions, whose first query comes on the first connection. -/
def PartitionDb.start : PartitionDb := ⟨[], fun _ => none, ⟨0, 0⟩, false⟩

instance (n : ℕ) (l : Label PartitionCall PartitionAct) : Decidable (OnlyThread n l) :=
  match l with
  | .call _ => inferInstanceAs (Decidable False)
  | .step i => inferInstanceAs (Decidable (i = n))
  | .act _ => inferInstanceAs (Decidable True)

/-- One run on a replica, and then one on another. -/
theorem advisory_lock_returned_to_replica :
    ∃ p q : PartitionPool, p.world.locks ADVISORY_LOCK_KEY = none ∧
      ∃ t ∈ q.threads[1]?, ⟨.pg_try_advisory_lock ADVISORY_LOCK_KEY, .ok true⟩ ∈ t.log := by
  have hplay : (partitionJobs.play (fun p l => Pooled p l ∧ UnlockedByHolder p l) ⟨.start, []⟩
      [.call ⟨0, some 1779789600000⟩, .step 0, .step 0, .step 0, .act (.checkout ⟨1, 0⟩)]).any fun p =>
        p.AtRest ∧ p.threads.length = 1 ∧
          ((partitionJobs.next p (.call ⟨1, some 1782864000000⟩)).bind fun p₁ =>
            partitionJobs.play (fun q l => Pooled q l ∧ OnlyThread 1 l) p₁
              [.step 1, .act (.checkout ⟨1, 1⟩), .step 1, .act (.checkout ⟨1, 0⟩), .step 1]).any
            fun q => (q.threads[1]?.bind Thread.outcome).isSome := by
    decide +kernel
  obtain ⟨p, hp, hat⟩ := (Option.any_eq_true _ _).mp hplay
  obtain ⟨hrest, hlen, hnext⟩ := of_decide_eq_true hat
  obtain ⟨q, hq, hdone⟩ := (Option.any_eq_true _ _).mp hnext
  obtain ⟨p₁, hcall, hq⟩ := Option.bind_eq_some_iff.mp hq
  obtain ⟨r, hr⟩ := Option.isSome_iff_exists.mp hdone
  obtain ⟨t, ht, hr⟩ := Option.bind_eq_some_iff.mp hr
  obtain ⟨hfree, hall⟩ := advisory_lock_returned .start rfl p (System.runs_of_play hp) hrest
  refine ⟨p, q, hfree, t, ht, (hall _ p₁ q t r hcall ?_ (hlen ▸ ht) hr).1⟩
  rw [hlen]
  exact System.runs_of_play hq

/-- The unlock goes to another connection of the pool: the lock stays with the session that took
it, and nobody is left to give it back. -/
theorem advisory_lock_kept :
    ¬ ∀ (w : PartitionDb) (p : PartitionPool), w.locks ADVISORY_LOCK_KEY = none →
      partitionJobs.Runs Pooled ⟨w, []⟩ p → p.AtRest → p.world.locks ADVISORY_LOCK_KEY = none := by
  intro h
  have hplay : (partitionJobs.play Pooled ⟨.start, []⟩ [.call ⟨0, some 1779789600000⟩, .step 0, .step 0,
      .act (.checkout ⟨0, 1⟩), .step 0]).any fun p =>
        p.AtRest ∧ p.world.locks ADVISORY_LOCK_KEY = some (⟨0, 0⟩, 1) := by
    decide +kernel
  obtain ⟨p, hp, hat⟩ := (Option.any_eq_true _ _).mp hplay
  obtain ⟨hrest, hheld⟩ := of_decide_eq_true hat
  have hfree := h .start p rfl (System.runs_of_play hp) hrest
  rw [hheld] at hfree
  cases hfree

end WhisprMedia
