import OpaFm.DbSync.SyncStatus
import Mathlib.Data.List.Basic

/-!
# Bookkeeping of the synchronizations

Along a run, every recorded status is the last one that was reported for that SM and that type of
data, and every counter the number of failures since the last success, as long as no outcome for
the dateline GUID is reported that its own and the service records' status do not show already, no
counter overflows and no request for a full synchronization is lost.
-/

namespace OpaFm.DbSync

structure Entry where
  recKey : Nat
  kind : SyncKind
  syncStatus : DBSyncStat

def CallEnv.enters (env : CallEnv) : Bool := !env.dbsyncMainExit && env.lockOk

/-- What a call reports: its status, or that a request got onto the queue. -/
def logged (st : SyncState) : SyncOp → List Entry
  | .upStat env recKey type syncStatus =>
    match type.kind with
    | none => []
    | some k => if env.enters then [⟨recKey, k, syncStatus⟩] else []
  | .fullCheck env recKey =>
    ((syncStep st (.fullCheck env recKey)).queue.drop st.queue.length).map fun _ =>
      ⟨recKey, .full, .inprogress⟩

def statuses (log : List Entry) (recKey : Nat) (k : SyncKind) : List DBSyncStat :=
  (log.filter fun e => e.recKey = recKey && e.kind = k).map Entry.syncStatus

def failuresSince (start : Nat) (reports : List DBSyncStat) : Nat :=
  (reports.takeWhile (· ≠ .synchronized)).count .failure +
    if .synchronized ∈ reports then 0 else start

structure Shows (f₀ : SyncFields) (reports : List DBSyncStat) (f : SyncFields) : Prop where
  status : f.syncStatus = reports.head?.getD f₀.syncStatus
  failCount : f.syncFailCount = failuresSince f₀.syncFailCount reports

structure Bookkept (start : Nat → Option SmRec) (log : List Entry) (st : SyncState) : Prop where
  sameKeys : ∀ key, st.smMap key = none ↔ start key = none
  shows : ∀ key r₀ r, start key = some r₀ → st.smMap key = some r →
    ∀ k, Shows (r₀.dbsync.fields k) (statuses log key k) (r.dbsync.fields k)

def SyncOp.recKey : SyncOp → Nat
  | .upStat _ recKey _ _ => recKey
  | .fullCheck _ recKey => recKey

def SyncOp.kind : SyncOp → Option SyncKind
  | .upStat _ _ type _ => type.kind
  | .fullCheck _ _ => some .full

structure Untouched (op : SyncOp) (st st' : SyncState) : Prop where
  others : ∀ key, key ≠ op.recKey → st'.smMap key = st.smMap key
  kinds : ∀ r r', st.smMap op.recKey = some r → st'.smMap op.recKey = some r' →
    ∀ k, op.kind ≠ some k → r'.dbsync.fields k = r.dbsync.fields k

def BookkeptRun (start : Nat → Option SmRec) : List Entry → SyncState → List SyncOp → Prop
  | log, st, [] => Bookkept start log st
  | log, st, op :: ops =>
    Bookkept start log st ∧ Untouched op st (syncStep st op) ∧
      BookkeptRun start (logged st op ++ log) (syncStep st op) ops

def StepOk (st : SyncState) : SyncOp → Prop
  | .upStat env recKey type syncStatus =>
    env.enters = true → ∀ r, st.smMap recKey = some r → ∀ k, type.kind = some k →
      (k = .datelineGuid → r.dbsync.service.syncStatus = syncStatus ∧
        r.dbsync.datelineGuid.syncStatus = syncStatus) ∧
      (syncStatus = .failure → (r.dbsync.fields k).syncFailCount + 1 < 0x100000000)
  | .fullCheck env recKey =>
    env.enters = true → 0 < env.dbSyncInterval → 0 ≤ env.time →
      ∀ r, st.smMap recKey = some r → fullSyncDue env r = true → env.queueOk = true

def StepsOk : SyncState → List SyncOp → Prop
  | _, [] => True
  | st, op :: ops => StepOk st op ∧ StepsOk (syncStep st op) ops

/-! ## Reports -/

def countAfter (n : Nat) : DBSyncStat → Nat
  | .synchronized => 0
  | .failure => n + 1
  | _ => n

theorem failuresSince_cons (start : Nat) (s : DBSyncStat) (reports : List DBSyncStat) :
    failuresSince start (s :: reports) = countAfter (failuresSince start reports) s := by
  cases s <;> simp [failuresSince, countAfter]
  omega

theorem statuses_cons_self (log : List Entry) (key : Nat) (k : SyncKind) (s : DBSyncStat) :
    statuses (⟨key, k, s⟩ :: log) key k = s :: statuses log key k := by
  simp [statuses]

theorem statuses_cons_other (log : List Entry) {key key' : Nat} {k k' : SyncKind} (s : DBSyncStat)
    (h : key = key' → k ≠ k') :
    statuses (⟨key, k, s⟩ :: log) key' k' = statuses log key' k' := by
  rw [statuses, List.filter_cons_of_neg]
  · rfl
  · simpa using h

theorem shows_cons_iff {f₀ f f' : SyncFields} {reports : List DBSyncStat} {s : DBSyncStat}
    (h : Shows f₀ reports f) :
    Shows f₀ (s :: reports) f' ↔
      f'.syncStatus = s ∧ f'.syncFailCount = countAfter f.syncFailCount s := by
  rw [h.failCount, ← failuresSince_cons]
  exact ⟨fun h' => ⟨h'.status, h'.failCount⟩, fun h' => ⟨h'.1, h'.2⟩⟩

theorem counted_failCount_iff (f : SyncFields) (time : Int) (s : DBSyncStat) :
    (f.counted time s).syncFailCount = countAfter f.syncFailCount s ↔
      (s = .failure → f.syncFailCount + 1 < 0x100000000) := by
  cases s with
  | failure =>
    simp only [SyncFields.counted, countAfter, inc32, forall_const]
    omega
  | _ => simp [SyncFields.counted, countAfter]

/-! ## One step -/

section

variable {start : Nat → Option SmRec} {log : List Entry} {st : SyncState}

theorem bookkept_idle (h : Bookkept start log st) (op : SyncOp) :
    Untouched op st st ∧ Bookkept start ([] ++ log) st := by
  refine ⟨⟨fun _ _ => rfl, fun r r' hr hr' k _ => ?_⟩, h⟩
  rw [hr, Option.some.injEq] at hr'
  rw [hr']

theorem bookkept_change_iff (h : Bookkept start log st) (op : SyncOp) (st' : SyncState)
    {r : SmRec} (d' : SmDbSync) {k : SyncKind} (s : DBSyncStat) (hr : st.smMap op.recKey = some r)
    (hk : op.kind = some k)
    (hmap : st'.smMap = Function.update st.smMap op.recKey (some { r with dbsync := d' })) :
    (Untouched op st st' ∧ Bookkept start (⟨op.recKey, k, s⟩ :: log) st') ↔
      (∀ k', k' ≠ k → d'.fields k' = r.dbsync.fields k') ∧
        (d'.fields k).syncStatus = s ∧
        (d'.fields k).syncFailCount = countAfter (r.dbsync.fields k).syncFailCount s := by
  have hself : st'.smMap op.recKey = some { r with dbsync := d' } := by
    rw [hmap, Function.update_self]
  have hother : ∀ key, key ≠ op.recKey → st'.smMap key = st.smMap key := by
    intro key hne
    rw [hmap, Function.update_of_ne hne]
  have hstart : ∃ r₀, start op.recKey = some r₀ := by
    rw [← Option.ne_none_iff_exists', ne_eq, ← h.sameKeys, hr]
    simp
  obtain ⟨r₀, hr₀⟩ := hstart
  have hshows := h.shows op.recKey r₀ r hr₀ hr
  constructor
  · rintro ⟨hun, hbook⟩
    have hnew := hbook.shows op.recKey r₀ _ hr₀ hself k
    rw [statuses_cons_self, shows_cons_iff (hshows k)] at hnew
    refine ⟨fun k' hne => ?_, hnew⟩
    apply hun.kinds r _ hr hself
    rw [hk]
    simpa using hne.symm
  · rintro ⟨hkinds, hnew⟩
    refine ⟨⟨hother, fun r₁ r' hr₁ hr' k' hne => ?_⟩, ⟨fun key => ?_, fun key r₁ r' h₁ h' k' => ?_⟩⟩
    · rw [hr, Option.some.injEq] at hr₁
      rw [hself, Option.some.injEq] at hr'
      subst hr₁ hr'
      apply hkinds
      rintro rfl
      exact hne hk
    · by_cases hkey : key = op.recKey
      · subst hkey
        simp [hself, hr₀]
      · rw [hother key hkey]
        exact h.sameKeys key
    · by_cases hkey : key = op.recKey
      · subst hkey
        rw [hr₀, Option.some.injEq] at h₁
        rw [hself, Option.some.injEq] at h'
        subst h₁ h'
        by_cases hk' : k' = k
        · subst hk'
          rw [statuses_cons_self]
          exact (shows_cons_iff (hshows k')).mpr hnew
        · have hsame : (SmRec.dbsync { r with dbsync := d' }).fields k' = r.dbsync.fields k' :=
            hkinds k' hk'
          rw [statuses_cons_other log s fun _ => Ne.symm hk', hsame]
          exact hshows k'
      · rw [hother key hkey] at h'
        rw [statuses_cons_other log s fun heq => absurd heq.symm hkey]
        exact h.shows key r₁ r' h₁ h' k'

theorem not_bookkept_of_status (h : Bookkept start log st) {key : Nat} {st' : SyncState}
    {r r' : SmRec} (hr : st.smMap key = some r) (hr' : st'.smMap key = some r') {k : SyncKind}
    (hne : (r'.dbsync.fields k).syncStatus ≠ (r.dbsync.fields k).syncStatus) :
    ¬Bookkept start log st' := by
  intro h'
  have hstart : ∃ r₀, start key = some r₀ := by
    rw [← Option.ne_none_iff_exists', ne_eq, ← h.sameKeys, hr]
    simp
  obtain ⟨r₀, hr₀⟩ := hstart
  apply hne
  rw [(h'.shows key r₀ r' hr₀ hr' k).status, (h.shows key r₀ r hr₀ hr k).status]

/-! ### Reports -/

theorem reported_fields_self (d : SmDbSync) (time : Int) (s : DBSyncStat) {k : SyncKind}
    (hk : k ≠ .datelineGuid) :
    (d.reported time s k).fields k = (d.fields k).reported time s := by
  cases k <;> first | rfl | exact absurd rfl hk

theorem reported_fields_other (d : SmDbSync) (time : Int) (s : DBSyncStat) {k k' : SyncKind}
    (hk : k ≠ .datelineGuid) (hne : k' ≠ k) :
    (d.reported time s k).fields k' = d.fields k' := by
  cases k <;> cases k' <;> first | rfl | exact absurd rfl hk | exact absurd rfl hne

theorem counted_status (f : SyncFields) (time : Int) (s : DBSyncStat) :
    (f.counted time s).syncStatus = f.syncStatus := by
  cases s <;> rfl

theorem reported_meets_iff (d : SmDbSync) (time : Int) (s : DBSyncStat) (k : SyncKind) :
    ((∀ k', k' ≠ k → (d.reported time s k).fields k' = d.fields k') ∧
        ((d.reported time s k).fields k).syncStatus = s ∧
        ((d.reported time s k).fields k).syncFailCount =
          countAfter (d.fields k).syncFailCount s) ↔
      (k = .datelineGuid → d.service.syncStatus = s ∧ d.datelineGuid.syncStatus = s) ∧
        (s = .failure → (d.fields k).syncFailCount + 1 < 0x100000000) := by
  by_cases hk : k = .datelineGuid
  · subst hk
    have hself : (d.reported time s .datelineGuid).fields .datelineGuid =
        d.datelineGuid.counted time s := rfl
    have hkinds : (∀ k', k' ≠ .datelineGuid →
        (d.reported time s .datelineGuid).fields k' = d.fields k') ↔
        d.service.syncStatus = s := by
      constructor
      · intro h
        have hservice := h .service (by decide)
        have hstatus : ((d.reported time s .datelineGuid).fields .service).syncStatus = s := rfl
        rw [hservice] at hstatus
        exact hstatus
      · intro h k' hne
        cases k' with
        | service => rw [← h]; rfl
        | datelineGuid => exact absurd rfl hne
        | _ => rfl
    rw [hkinds, hself, counted_status, ← counted_failCount_iff _ time]
    simp only [forall_const, and_assoc]
    rfl
  · have hkinds : ∀ k', k' ≠ k → (d.reported time s k).fields k' = d.fields k' :=
      fun k' => reported_fields_other d time s hk
    rw [reported_fields_self d time s hk, ← counted_failCount_iff _ time]
    simp only [hk, false_implies, true_and]
    exact ⟨fun h => h.2.2, fun h => ⟨hkinds, rfl, h⟩⟩

theorem Bookkept.no_record (h : Bookkept start log st) {recKey : Nat} (k : SyncKind)
    (s : DBSyncStat) (hnone : st.smMap recKey = none) :
    Bookkept start (⟨recKey, k, s⟩ :: log) st := by
  refine ⟨h.sameKeys, fun key r₀ r hr₀ hr k' => ?_⟩
  have hne : recKey ≠ key := by
    rintro rfl
    rw [hnone] at hr
    cases hr
  rw [statuses_cons_other log s fun heq => absurd heq hne]
  exact h.shows key r₀ r hr₀ hr k'

theorem syncStep_upStat (st : SyncState) (env : CallEnv) (recKey : Nat) (type : DBSyncDatTyp)
    (s : DBSyncStat) :
    syncStep st (.upStat env recKey type s) =
      match env.enters, st.smMap recKey, type.kind with
      | true, some r, some k =>
        st.setRec recKey { r with dbsync := r.dbsync.reported env.time s k }
      | _, _, _ => st := by
  simp only [syncStep, smDbsyncUpSmDbsyncStat, CallEnv.enters]
  cases env.dbsyncMainExit <;> cases env.lockOk <;> cases st.smMap recKey <;>
    cases type.kind <;> rfl

theorem upStat_meets_iff (h : Bookkept start log st) (env : CallEnv) (recKey : Nat)
    (type : DBSyncDatTyp) (s : DBSyncStat) :
    (Untouched (.upStat env recKey type s) st (syncStep st (.upStat env recKey type s)) ∧
        Bookkept start (logged st (.upStat env recKey type s) ++ log)
          (syncStep st (.upStat env recKey type s))) ↔
      StepOk st (.upStat env recKey type s) := by
  have hidle := bookkept_idle h (.upStat env recKey type s)
  rw [syncStep_upStat]
  simp only [logged, StepOk]
  cases hk : type.kind with
  | none =>
    have hstep : (match env.enters, st.smMap recKey, (none : Option SyncKind) with
        | true, some r, some k =>
          st.setRec recKey { r with dbsync := r.dbsync.reported env.time s k }
        | _, _, _ => st) = st := by
      split <;> first | rfl | contradiction
    rw [hstep]
    exact iff_of_true hidle fun _ _ _ _ hnone => nomatch hnone
  | some k =>
    cases henter : env.enters with
    | false => exact iff_of_true hidle fun hno => nomatch hno
    | true =>
      cases hr : st.smMap recKey with
      | none =>
        refine iff_of_true ⟨hidle.1, ?_⟩ fun _ _ hnone => nomatch hnone
        exact h.no_record k s hr
      | some r =>
        have hchange := bookkept_change_iff h (.upStat env recKey type s)
          (st.setRec recKey { r with dbsync := r.dbsync.reported env.time s k })
          (r.dbsync.reported env.time s k) s hr hk rfl
        rw [reported_meets_iff] at hchange
        refine hchange.trans ?_
        simp only [forall_const, Option.some.injEq, forall_eq']

/-! ### Requests -/

theorem fullSyncDue_ne {env : CallEnv} {r : SmRec} (h : fullSyncDue env r = true) :
    r.dbsync.full.syncStatus ≠ .inprogress := by
  intro heq
  simp [fullSyncDue, heq] at h

def Requests (env : CallEnv) (st : SyncState) (recKey : Nat) (r : SmRec) : Prop :=
  env.enters = true ∧ 0 < env.dbSyncInterval ∧ 0 ≤ env.time ∧ st.smMap recKey = some r ∧
    fullSyncDue env r = true

theorem syncStep_fullCheck_request {env : CallEnv} {recKey : Nat} {r : SmRec}
    (h : Requests env st recKey r) :
    syncStep st (.fullCheck env recKey) = requestFullSync env st recKey r := by
  obtain ⟨henter, hint, htime, hr, hdue⟩ := h
  simp only [CallEnv.enters, Bool.and_eq_true, Bool.not_eq_true'] at henter
  simp [syncStep, smDbsyncFullSyncCheck, henter.1, henter.2, Nat.ne_of_gt hint, hr, hdue,
    Int.not_lt.mpr htime]

theorem syncStep_fullCheck_idle {env : CallEnv} {recKey : Nat}
    (h : ∀ r, ¬Requests env st recKey r) : syncStep st (.fullCheck env recKey) = st := by
  simp only [syncStep, smDbsyncFullSyncCheck]
  split
  · rfl
  · rename_i hrun
    split
    · rfl
    · rename_i hlock
      cases hr : st.smMap recKey with
      | none => rfl
      | some r =>
        by_cases htime : env.time < 0
        · simp [htime]
        · cases hdue : fullSyncDue env r with
          | false => simp [htime, hdue]
          | true =>
            simp only [Bool.or_eq_true, decide_eq_true_eq, not_or, Bool.not_eq_true] at hrun
            refine absurd ⟨?_, Nat.pos_of_ne_zero hrun.1, Int.not_lt.mp htime, hr, hdue⟩ (h r)
            simpa [CallEnv.enters, hrun.2] using hlock

theorem fullCheck_meets_iff (h : Bookkept start log st) (env : CallEnv) (recKey : Nat) :
    (Untouched (.fullCheck env recKey) st (syncStep st (.fullCheck env recKey)) ∧
        Bookkept start (logged st (.fullCheck env recKey) ++ log)
          (syncStep st (.fullCheck env recKey))) ↔
      StepOk st (.fullCheck env recKey) := by
  by_cases hreq : ∃ r, Requests env st recKey r
  · obtain ⟨r, hreq⟩ := hreq
    have hok : StepOk st (.fullCheck env recKey) ↔ env.queueOk = true := by
      constructor
      · intro hok
        exact hok hreq.1 hreq.2.1 hreq.2.2.1 r hreq.2.2.2.1 hreq.2.2.2.2
      · intro hqueue _ _ _ _ _ _
        exact hqueue
    have hexit : env.dbsyncMainExit = false := by
      have henter := hreq.1
      simp only [CallEnv.enters, Bool.and_eq_true, Bool.not_eq_true'] at henter
      exact henter.1
    have hmsg : ∀ (st₁ : SyncState) req, smDbsyncQueueMsg env st₁ req =
        if env.queueOk then { st₁ with queue := st₁.queue ++ [req] } else st₁ := by
      intro st₁ req
      simp [smDbsyncQueueMsg, hexit, Nat.ne_of_gt hreq.2.1]
    rw [hok, logged, syncStep_fullCheck_request hreq, requestFullSync, hmsg]
    cases hqueue : env.queueOk with
    | true =>
      refine iff_of_true ?_ rfl
      rw [if_pos rfl]
      have hlog : (st.queue ++ [(⟨r.portguid, r.lid, r.isEmbedded⟩ : SMSyncReq)]).drop
          st.queue.length = [⟨r.portguid, r.lid, r.isEmbedded⟩] := List.drop_left
      simp only [SyncState.setRec, hlog, List.map_cons, List.map_nil, List.singleton_append]
      refine (bookkept_change_iff h (.fullCheck env recKey) _
        { r.dbsync with full := { r.dbsync.full with syncStatus := .inprogress } } .inprogress
        hreq.2.2.2.1 rfl rfl).mpr ⟨fun k' hne => ?_, rfl, rfl⟩
      cases k' <;> first | rfl | exact absurd rfl hne
    | false =>
      refine iff_of_false (fun hboth => ?_) (by decide)
      rw [if_neg (by decide)] at hboth
      have hlog : (st.setRec recKey { r with dbsync.full.syncStatus := .inprogress }).queue.drop
          st.queue.length = [] := List.drop_length
      rw [hlog] at hboth
      -- the status has changed and nothing tells of it
      refine not_bookkept_of_status h hreq.2.2.2.1 (Function.update_self _ _ _) (k := .full) ?_
        hboth.2
      exact (fullSyncDue_ne hreq.2.2.2.2).symm
  · have hidle := syncStep_fullCheck_idle fun r hr => hreq ⟨r, hr⟩
    rw [logged, hidle, List.drop_length]
    refine iff_of_true (bookkept_idle h _) ?_
    intro henter hint htime r hr hdue
    exact absurd ⟨r, henter, hint, htime, hr, hdue⟩ hreq

theorem step_meets_iff (h : Bookkept start log st) (op : SyncOp) :
    (Untouched op st (syncStep st op) ∧
        Bookkept start (logged st op ++ log) (syncStep st op)) ↔ StepOk st op := by
  cases op with
  | upStat env recKey type s => exact upStat_meets_iff h env recKey type s
  | fullCheck env recKey => exact fullCheck_meets_iff h env recKey

/-! ## Runs -/

theorem bookkeptRun_iff_of_bookkept (h : Bookkept start log st) (ops : List SyncOp) :
    BookkeptRun start log st ops ↔ StepsOk st ops := by
  induction ops generalizing log st with
  | nil => exact iff_of_true h trivial
  | cons op ops ih =>
    have hstep := step_meets_iff h op
    simp only [BookkeptRun, StepsOk, h, true_and]
    constructor
    · rintro ⟨hun, hrun⟩
      have hbook : Bookkept start (logged st op ++ log) (syncStep st op) := by
        cases ops with
        | nil => exact hrun
        | cons op' ops' => exact hrun.1
      exact ⟨hstep.mp ⟨hun, hbook⟩, (ih hbook).mp hrun⟩
    · rintro ⟨hok, hoks⟩
      obtain ⟨hun, hbook⟩ := hstep.mpr hok
      exact ⟨hun, (ih hbook).mpr hoks⟩

end

theorem bookkept_start (st : SyncState) : Bookkept st.smMap [] st := by
  refine ⟨fun _ => Iff.rfl, fun key r₀ r hr₀ hr k => ?_⟩
  rw [hr₀, Option.some.injEq] at hr
  subst hr
  exact ⟨rfl, by simp [failuresSince, statuses]⟩

/-- The books are kept along a run from any table in just these cases. -/
theorem bookkeptRun_iff (st : SyncState) (ops : List SyncOp) :
    BookkeptRun st.smMap [] st ops ↔ StepsOk st ops :=
  bookkeptRun_iff_of_bookkept (bookkept_start st) ops

def oneStandby : SyncState :=
  { smMap := fun key =>
      if key = 7 then some { portguid := 7, dbsync.service.syncStatus := .synchronized } else none }

/-- The dateline GUID could not be sent: the service records count as failed from then on, and
the dateline GUID as never sent. -/
theorem bookkeptRun_dateline :
    ¬BookkeptRun oneStandby.smMap [] oneStandby
      [.upStat { time := 1000, dbSyncInterval := 900 } 7 .datelineGuid .failure] := by
  rintro ⟨-, hun, -⟩
  have hservice := hun.kinds _ _ rfl rfl .service (by decide)
  exact absurd hservice (by decide)

end OpaFm.DbSync
