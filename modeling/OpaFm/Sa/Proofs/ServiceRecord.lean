import OpaFm.Sa.ServiceRecord
import OpaFm.Cs.Proofs.HashtableRefine
import OpaFm.Lib.Run

/-!
# The service records over whole runs

The table is compared with a map from the keys to the records and their leases.  Times are those of
the clock in microseconds, and a lease ends at a time that need not fit in the clock.
-/

namespace OpaFm.Sa

open OpaFm.Cs OpaFm.Lib

theorem serviceFns_keyed : serviceFns.Keyed (id : ServiceRecKey → ServiceRecKey) where
  eqfn_iff k k' := by
    show decide _ = true ↔ k = k'
    rw [decide_eq_true_eq]
    constructor
    · intro h
      cases k
      cases k'
      cases h.1
      cases h.2.1
      cases h.2.2
      rfl
    · rintro rfl
      exact ⟨rfl, rfl, rfl⟩
  hashfn_eq k k' h := by
    rw [show k = k' from h]

namespace ServiceTable

abbrev entry (t : ServiceTable) (k : ServiceRecKey) : Option (ServiceRecKey × OpaServiceRecord) :=
  t.entryAt id k

def record (t : ServiceTable) (k : ServiceRecKey) : Option OpaServiceRecord :=
  (t.entry k).map Prod.snd

abbrev IsMap (t : ServiceTable) : Prop := CsHashtable.IsMap serviceFns id t

end ServiceTable

variable {t : ServiceTable} {now : BitVec 64}

/-! ## Ageing -/

theorem ageFrom_spec (now : BitVec 64) (fuel : Nat) : ∀ (t : ServiceTable) (n records : Nat),
    t.IsMap → n ≤ t.entries.length → t.entries.length < n + fuel →
      (ageFrom now fuel t n records).1.IsMap ∧
        (ageFrom now fuel t n records).1.entries =
          t.entries.take n ++ (t.entries.drop n).filter fun x => ¬x.2.expireTime < now := by
  induction fuel with
  | zero => intro t n records _ hn hfuel; omega
  | succ fuel ih =>
    intro t n records h hn hfuel
    unfold ageFrom
    rw [h.valueAt]
    cases hat : t.entries[n]? with
    | none =>
      have hlength := List.getElem?_eq_none_iff.mp hat
      refine ⟨h, ?_⟩
      show t.entries = _
      rw [List.drop_of_length_le hlength, List.take_of_length_le hlength]
      exact (List.append_nil _).symm
    | some x =>
      have hlt : n < t.entries.length := (List.getElem?_eq_some_iff.mp hat).1
      have hdrop : t.entries.drop n = x :: t.entries.drop (n + 1) := by
        rw [List.drop_eq_getElem_cons hlt, (List.getElem?_eq_some_iff.mp hat).2]
      simp only [Option.map_some]
      by_cases hexpired : x.2.expireTime < now
      · rw [if_pos hexpired]
        obtain ⟨hmap, hentries⟩ := h.iteratorRemove serviceFns_keyed.consistent n
        have hlength := List.length_eraseIdx_of_lt hlt
        obtain ⟨hdone, hleft⟩ := ih (t.csHashtableIteratorRemove serviceFns n) n (records + 1)
          hmap (by rw [hentries]; omega) (by rw [hentries]; omega)
        refine ⟨hdone, hleft.trans ?_⟩
        have htake : (t.entries.take n).length = n := List.length_take_of_le hn
        rw [hentries, List.eraseIdx_eq_take_drop_succ, List.take_left' htake,
          List.drop_left' htake, hdrop, List.filter_cons_of_neg (by simp [hexpired])]
      · rw [if_neg hexpired]
        obtain ⟨hdone, hleft⟩ := ih t (n + 1) records h hlt (by omega)
        refine ⟨hdone, hleft.trans ?_⟩
        have htake : t.entries.take (n + 1) = t.entries.take n ++ [x] := by
          rw [List.take_add_one, hat]
          rfl
        rw [htake, hdrop, List.filter_cons_of_pos (by simp [hexpired]), List.append_assoc]
        rfl

theorem saServiceRecordAge_map (h : t.IsMap) (now : BitVec 64) :
    (saServiceRecordAge true t now).2.2.IsMap ∧
      ∀ k, (saServiceRecordAge true t now).2.2.entry k =
        if t.entrycount = 0 then t.entry k
        else (t.entry k).filter fun x => ¬x.2.expireTime < now := by
  unfold saServiceRecordAge
  rw [if_neg (by decide)]
  by_cases hcount : t.entrycount = 0
  · rw [if_neg (by omega)]
    exact ⟨h, fun _ => (if_pos hcount).symm⟩
  · rw [if_pos (by omega)]
    simp only [if_neg hcount]
    obtain ⟨hmap, hentries⟩ := ageFrom_spec now (t.allocated + 1) t 0 0 h (Nat.zero_le _)
      (by have hle := h.length_le; omega)
    refine ⟨hmap, fun k => ?_⟩
    unfold ServiceTable.entry CsHashtable.entryAt
    rw [hentries]
    exact CsHashtable.find?_filter h.nodup _ k

/-! ## Leases -/

structure GrantedRecord where
  record : ServiceRecord
  pkeyDefined : Bool
  grantedAt : BitVec 64
  timer : BitVec 32

def GrantedRecord.ends (g : GrantedRecord) : Option Nat :=
  if g.timer = 0xffffffff then none else some (g.grantedAt.toNat + 1000000 * g.timer.toNat)

def leaseEnd (expireTime : BitVec 64) : Option Nat :=
  if expireTime = vtimerEternity then none else some expireTime.toNat

def EndedBefore (now : BitVec 64) (ends : Option Nat) : Prop := ∃ e ∈ ends, e < now.toNat

instance (now : BitVec 64) (ends : Option Nat) : Decidable (EndedBefore now ends) :=
  decidable_of_iff (ends.any fun e => e < now.toNat) (by
    cases ends <;> simp [EndedBefore])

structure LeaseReport where
  key : ServiceRecKey
  lease : BitVec 32
  time : BitVec 64
  deriving DecidableEq

/-- The lease is the remaining time in whole seconds, and not more than was granted. -/
def LeaseReport.Right (r : LeaseReport) (g : GrantedRecord) : Prop :=
  r.lease ≤ g.timer ∧
    match g.ends with
    | none => r.lease = 0xffffffff
    | some e => (r.lease.toNat : Int) = ((e : Int) - r.time.toNat) / 1000000

/-! ## Runs -/

inductive ServiceCall where
  | add (env : AddEnv) (now : BitVec 64) (slid : BitVec 16) (r : ServiceRecord) (havepkey : Bool)
  | delete (lock : Bool) (k : ServiceRecKey)
  | age (lock : Bool) (now : BitVec 64)
  | getTable (env : QueryEnv) (template : ServiceRecord → Bool)
  | ibGetTable (env : QueryEnv) (mask : BitVec 64) (query : ServiceRecord)

abbrev ServiceMap := ServiceRecKey → Option GrantedRecord

/-- The table, the map it stands for, and what the last query has reported. -/
structure ServiceRun where
  table : ServiceTable
  spec : ServiceMap
  reports : List LeaseReport

namespace ServiceRun

def start (t : ServiceTable) : ServiceRun := ⟨t, fun _ => none, []⟩

def tableAfter (t : ServiceTable) : ServiceCall → ServiceTable
  | .add env now slid r havepkey => (saServiceRecordDoAdd env t now slid r havepkey).2.2
  | .delete lock k => (saServiceRecordDoDelete lock t k).2.2
  | .age lock now => (saServiceRecordAge lock t now).2.2
  | .getTable _ _ => t
  | .ibGetTable _ _ _ => t

def Adds (t : ServiceTable) (env : AddEnv) (now : BitVec 64) (slid : BitVec 16)
    (r : ServiceRecord) (havepkey : Bool) : Prop :=
  (saServiceRecordDoAdd env t now slid r havepkey).1 = .ok

instance (t : ServiceTable) (env : AddEnv) (now : BitVec 64) (slid : BitVec 16)
    (r : ServiceRecord) (havepkey : Bool) : Decidable (Adds t env now slid r havepkey) :=
  inferInstanceAs (Decidable (_ = _))

def specAfter (t : ServiceTable) (m : ServiceMap) : ServiceCall → ServiceMap
  | .add env now slid r havepkey =>
    if Adds t env now slid r havepkey then
      Function.update m r.key (some ⟨r.protect, havepkey, now, r.serviceLease⟩)
    else m
  | .delete lock k => if lock then Function.update m k none else m
  | .age lock now =>
    if lock then fun k => (m k).filter fun g => ¬EndedBefore now g.ends else m
  | .getTable _ _ => m
  | .ibGetTable _ _ _ => m

def leaseReports (now : BitVec 64) (found : List (ServiceRecKey × ServiceRecord)) :
    List LeaseReport :=
  found.map fun x => ⟨x.1, x.2.serviceLease, now⟩

def reportsOf (t : ServiceTable) : ServiceCall → List LeaseReport
  | .add _ _ _ _ _ => []
  | .delete _ _ => []
  | .age _ _ => []
  | .getTable env template => leaseReports env.now (saServiceRecordGetTable env t template).1
  | .ibGetTable env mask query =>
    leaseReports env.now (saIbServiceRecordGetTable env t mask query).1

def step (S : ServiceRun) (c : ServiceCall) : ServiceRun where
  table := tableAfter S.table c
  spec := specAfter S.table S.spec c
  reports := reportsOf S.table c

def storedAs (osr : OpaServiceRecord) : ServiceRecord × Bool × Option Nat :=
  (osr.serviceRecord, osr.pkeyDefined, leaseEnd osr.expireTime)

def grantedAs (g : GrantedRecord) : ServiceRecord × Bool × Option Nat :=
  (g.record, g.pkeyDefined, g.ends)

def askedFor (env : QueryEnv) (t : ServiceTable) (passes : ServiceRecord → Bool) :
    List (ServiceRecKey × OpaServiceRecord) :=
  if env.lock = true ∧ t.entrycount > 0 then
    (t.entries.filter fun x =>
      passes x.2.serviceRecord && !filtersRecord env x.1 x.2).take env.room
  else []

/-- The table has the granted records, one for each key, and what is reported is right. -/
structure Correct (S : ServiceRun) : Prop where
  nodup : (S.table.entries.map Prod.fst).Nodup
  represents : ∀ k, (S.table.record k).map storedAs = (S.spec k).map grantedAs
  reports : ∀ r ∈ S.reports, ∃ g, S.spec r.key = some g ∧ r.Right g

def EndFits (now : BitVec 64) (timer : BitVec 32) : Prop :=
  timer ≠ 0xffffffff → now.toNat + 1000000 * timer.toNat < 2 ^ 64 ∧
    now.toNat + 1000000 * timer.toNat ≠ vtimerEternity.toNat

/-- The clock has not got to where a lease without end is said to expire, or no record has one.
In a table whose count has wrapped to zero no lease may have ended. -/
def AgesWell (S : ServiceRun) (now : BitVec 64) : Prop :=
  ∀ k g, S.spec k = some g →
    if S.table.entrycount = 0 then ¬EndedBefore now g.ends
    else g.ends = none → now ≤ vtimerEternity

def InLease (S : ServiceRun) (now : BitVec 64) (k : ServiceRecKey) : Prop :=
  ∀ g, S.spec k = some g → ∀ e ∈ g.ends,
    now.toNat ≤ e ∧ g.grantedAt.toNat < now.toNat + 1000000

def Meets (S : ServiceRun) : ServiceCall → Prop
  | .add env now slid r havepkey =>
    Adds S.table env now slid r havepkey → EndFits now r.serviceLease
  | .delete _ _ => True
  | .age lock now => lock = true → S.AgesWell now
  | .getTable env template => ∀ x ∈ askedFor env S.table template, S.InLease env.now x.1
  | .ibGetTable env mask query =>
    ∀ x ∈ askedFor env S.table (ibQueryPasses mask query), S.InLease env.now x.1

end ServiceRun

/-! ### What the calls do to the map -/

theorem protect_key (r : ServiceRecord) : r.protect.key = r.key := by
  unfold ServiceRecord.key ServiceRecord.protect
  rfl

theorem record_eq (h : t.IsMap) (k : ServiceRecKey) :
    t.csHashtableSearch serviceFns k = t.record k :=
  h.search serviceFns_keyed k

theorem record_insert (h : t.IsMap) {k : ServiceRecKey} (hfree : t.record k = none)
    (osr : OpaServiceRecord) (tableMem entryMem : Bool) :
    (t.csHashtableInsert serviceFns k osr tableMem entryMem).1.IsMap serviceFns id ∧
      ∀ j, ServiceTable.record (t.csHashtableInsert serviceFns k osr tableMem entryMem).1 j =
        if (t.csHashtableInsert serviceFns k osr tableMem entryMem).2 = true ∧ j = k then some osr
        else t.record j := by
  have hinsert := h.insert serviceFns_keyed (Option.map_eq_none_iff.mp hfree) osr tableMem entryMem
  refine ⟨hinsert.1, fun j => (congrArg (Option.map Prod.snd) (hinsert.2 j)).trans ?_⟩
  rw [apply_ite (Option.map Prod.snd)]
  rfl

theorem record_change (h : t.IsMap) {k : ServiceRecKey} (hused : t.record k ≠ none)
    (osr : OpaServiceRecord) :
    (t.csHashtableChange serviceFns k osr).1.IsMap serviceFns id ∧
      ∀ j, ServiceTable.record (t.csHashtableChange serviceFns k osr).1 j =
        if j = k then some osr else t.record j := by
  have hchange := h.change serviceFns_keyed k osr
  refine ⟨hchange.1, fun j => (congrArg (Option.map Prod.snd) (hchange.2 j)).trans ?_⟩
  by_cases hj : j = k
  · obtain ⟨x, hx⟩ : ∃ x, t.entry k = some x :=
      Option.ne_none_iff_exists'.mp fun hnone => hused (Option.map_eq_none_iff.mpr hnone)
    rw [if_pos (show j = id k from hj), if_pos hj, hj, show t.entryAt id k = some x from hx]
    rfl
  · rw [if_neg (show ¬j = id k from hj), if_neg hj]
    rfl

theorem doAdd_map (h : t.IsMap) (env : AddEnv) (now : BitVec 64) (slid : BitVec 16)
    (r : ServiceRecord) (havepkey : Bool) :
    (saServiceRecordDoAdd env t now slid r havepkey).2.2.IsMap ∧
      ∀ k, (saServiceRecordDoAdd env t now slid r havepkey).2.2.record k =
        if ServiceRun.Adds t env now slid r havepkey ∧ k = r.key then
          some ⟨r.protect, leaseExpireTime now r.serviceLease, havepkey⟩
        else t.record k := by
  have hlease : r.protect.serviceLease = r.serviceLease := by
    unfold ServiceRecord.protect
    rfl
  unfold ServiceRun.Adds saServiceRecordDoAdd
  simp only [protect_key, hlease]
  split
  next => exact ⟨h, fun k => by simp⟩
  split
  next => exact ⟨h, fun k => by simp⟩
  split
  next => exact ⟨h, fun k => by simp⟩
  rw [record_eq h]
  cases hfound : t.record r.key with
  | none =>
    dsimp only
    split
    next => exact ⟨h, fun k => by simp⟩
    next =>
      have hinsert := record_insert h hfound
        ⟨r.protect, leaseExpireTime now r.serviceLease, havepkey⟩ env.tableMem env.entryMem
      split
      next hadded =>
        refine ⟨hinsert.1, fun k => (hinsert.2 k).trans ?_⟩
        simp only [hadded]
      next hadded =>
        refine ⟨hinsert.1, fun k => (hinsert.2 k).trans ?_⟩
        simp [hadded]
  | some osr =>
    have hchange := record_change h (k := r.key) (by rw [hfound]; exact Option.some_ne_none _)
      ⟨r.protect, leaseExpireTime now r.serviceLease, havepkey⟩
    refine ⟨hchange.1, fun k => (hchange.2 k).trans ?_⟩
    simp only [true_and]

theorem doDelete_map (h : t.IsMap) (lock : Bool) (k : ServiceRecKey) :
    (saServiceRecordDoDelete lock t k).2.2.IsMap ∧
      ∀ j, (saServiceRecordDoDelete lock t k).2.2.record j =
        if lock = true ∧ j = k then none else t.record j := by
  unfold saServiceRecordDoDelete
  cases lock with
  | false => exact ⟨h, fun _ => rfl⟩
  | true =>
    have hremove := h.remove serviceFns_keyed k
    refine ⟨hremove.1, fun j => (congrArg (Option.map Prod.snd) (hremove.2.2 j)).trans ?_⟩
    rw [apply_ite (Option.map Prod.snd)]
    simp only [true_and]
    rfl

theorem age_map (h : t.IsMap) (lock : Bool) (now : BitVec 64) :
    (saServiceRecordAge lock t now).2.2.IsMap ∧
      ∀ k, (saServiceRecordAge lock t now).2.2.record k =
        if lock = false ∨ t.entrycount = 0 then t.record k
        else (t.record k).filter fun osr => ¬osr.expireTime < now := by
  cases lock with
  | false => exact ⟨h, fun _ => rfl⟩
  | true =>
    have hage := saServiceRecordAge_map h now
    refine ⟨hage.1, fun k => (congrArg (Option.map Prod.snd) (hage.2 k)).trans ?_⟩
    simp only [Bool.true_eq_false, false_or]
    rw [apply_ite (Option.map Prod.snd)]
    unfold ServiceTable.record
    cases t.entry k with
    | none => rfl
    | some x =>
      rw [Option.map_some, Option.filter_some, Option.filter_some,
        apply_ite (Option.map Prod.snd)]
      rfl

/-! ### Leases -/

/-- The stored expiry time is the end of the lease just if the end fits in the clock and is not
the time that stands for no end. -/
theorem leaseEnd_iff (record : ServiceRecord) (havepkey : Bool) (timer : BitVec 32) :
    leaseEnd (leaseExpireTime now timer) = GrantedRecord.ends ⟨record, havepkey, now, timer⟩ ↔
      ServiceRun.EndFits now timer := by
  unfold leaseEnd leaseExpireTime GrantedRecord.ends ServiceRun.EndFits
  by_cases htimer : timer = 0xffffffff
  · rw [if_neg (not_not.mpr htimer), if_pos rfl, if_pos htimer]
    exact iff_of_true rfl fun hno => absurd htimer hno
  have hvalue : (now + 1000000 * timer.setWidth 64).toNat =
      (now.toNat + 1000000 * timer.toNat) % 2 ^ 64 := by
    have hmillion : (1000000 : BitVec 64).toNat = 1000000 := rfl
    have hlt := timer.isLt
    rw [BitVec.toNat_add, BitVec.toNat_mul, BitVec.toNat_setWidth_of_le (by decide), hmillion]
    omega
  rw [if_pos htimer, if_neg htimer]
  constructor
  · intro h _
    split at h
    next => nomatch h
    next hne =>
      have hend : (now + 1000000 * timer.setWidth 64).toNat =
          now.toNat + 1000000 * timer.toNat := Option.some.inj h
      rw [hvalue] at hend
      have hlt := Nat.mod_lt (now.toNat + 1000000 * timer.toNat) (by decide : 0 < 2 ^ 64)
      refine ⟨by omega, fun heq => hne (BitVec.eq_of_toNat_eq ?_)⟩
      rw [hvalue, hend]
      exact heq
  · intro h
    obtain ⟨hlt, hne⟩ := h htimer
    rw [Nat.mod_eq_of_lt hlt] at hvalue
    rw [if_neg fun heq => hne (by rw [← heq, hvalue]), hvalue]

theorem ends_of_leaseEnd {expireTime : BitVec 64} {ends : Option Nat}
    (h : leaseEnd expireTime = ends) :
    (expireTime = vtimerEternity ∧ ends = none) ∨
      (expireTime ≠ vtimerEternity ∧ ends = some expireTime.toNat) := by
  unfold leaseEnd at h
  split at h
  next heq => exact .inl ⟨heq, h.symm⟩
  next hne => exact .inr ⟨hne, h.symm⟩

theorem right_iff {osr : OpaServiceRecord} {g : GrantedRecord} {k : ServiceRecKey}
    (hlease : leaseEnd osr.expireTime = g.ends) :
    LeaseReport.Right ⟨k, reportedLease osr.expireTime now, now⟩ g ↔
      ∀ e ∈ g.ends, now.toNat ≤ e ∧ g.grantedAt.toNat < now.toNat + 1000000 := by
  unfold LeaseReport.Right reportedLease
  obtain ⟨heternal, hends⟩ | ⟨hfinite, hends⟩ := ends_of_leaseEnd hlease
  · rw [if_neg (not_not.mpr heternal), hends]
    have htimer : g.timer = 0xffffffff := by
      unfold GrantedRecord.ends at hends
      split at hends
      next h => exact h
      next => nomatch hends
    refine iff_of_true ⟨?_, rfl⟩ fun e he => nomatch he
    rw [htimer]
    exact BitVec.le_refl _
  · rw [if_pos hfinite, hends]
    have hend : osr.expireTime.toNat = g.grantedAt.toNat + 1000000 * g.timer.toNat := by
      unfold GrantedRecord.ends at hends
      split at hends
      next => nomatch hends
      next => exact (Option.some.inj hends).symm
    have hmillion : (1000000 : BitVec 64).toNat = 1000000 := rfl
    have hreported : ((osr.expireTime - now) / 1000000).toNat =
        (2 ^ 64 - now.toNat + osr.expireTime.toNat) % 2 ^ 64 / 1000000 := by
      rw [BitVec.toNat_udiv, BitVec.toNat_sub, hmillion]
    have hlease32 : (((osr.expireTime - now) / 1000000).setWidth 32).toNat =
        (2 ^ 64 - now.toNat + osr.expireTime.toNat) % 2 ^ 64 / 1000000 % 2 ^ 32 := by
      rw [BitVec.toNat_setWidth, hreported]
    have hnow := now.isLt
    have hexpire := osr.expireTime.isLt
    have htimer := g.timer.isLt
    simp only [BitVec.le_def, Option.mem_def, Option.some.injEq, forall_eq']
    rw [hlease32]
    constructor
    · intro h
      omega
    · intro h
      omega

/-! ### What is reported -/

theorem tableRecords_eq (env : QueryEnv) (passes : ServiceRecord → Bool)
    (l : List (ServiceRecKey × OpaServiceRecord)) : ∀ room,
      (tableRecords env passes room l).1 =
        ((l.filter fun x => passes x.2.serviceRecord && !filtersRecord env x.1 x.2).take room).map
          fun x => (x.1, reportedRecord env x.2) := by
  induction l with
  | nil => intro room; rw [List.filter_nil, List.take_nil]; rfl
  | cons y l ih =>
    intro room
    unfold tableRecords
    by_cases hpasses : passes y.2.serviceRecord = true
    case neg =>
      rw [if_pos (by simp [hpasses]), List.filter_cons_of_neg (by simp [hpasses])]
      exact ih room
    rw [if_neg (by simp [hpasses])]
    cases room with
    | zero => rw [List.take_zero]; rfl
    | succ room =>
      by_cases hfilters : filtersRecord env y.1 y.2 = true
      · rw [List.filter_cons_of_neg (by simp [hfilters])]
        dsimp only
        rw [if_pos hfilters]
        exact ih (room + 1)
      · rw [List.filter_cons_of_pos (by simp [hpasses, hfilters]), List.take_succ_cons,
          List.map_cons]
        dsimp only
        rw [if_neg hfilters, ← ih room]

namespace ServiceRun

variable {S : ServiceRun} {c : ServiceCall}

theorem queryTable_eq (env : QueryEnv) (t : ServiceTable) (passes : ServiceRecord → Bool) :
    (queryTable env t passes).1 =
      (askedFor env t passes).map fun x => (x.1, reportedRecord env x.2) := by
  unfold queryTable askedFor
  cases env.lock with
  | false => rfl
  | true =>
    by_cases hcount : t.entrycount > 0
    · rw [if_neg (by decide), if_pos hcount, if_pos ⟨rfl, hcount⟩]
      exact tableRecords_eq env passes t.entries env.room
    · rw [if_neg (by decide), if_neg hcount, if_neg fun h => hcount h.2]
      rfl

theorem mem_of_askedFor {passes : ServiceRecord → Bool} {env : QueryEnv}
    {x : ServiceRecKey × OpaServiceRecord} (hx : x ∈ askedFor env t passes) : x ∈ t.entries := by
  unfold askedFor at hx
  split at hx
  next => exact List.mem_of_mem_filter (List.mem_of_mem_take hx)
  next => nomatch hx

def leaseReport (now : BitVec 64) (x : ServiceRecKey × OpaServiceRecord) : LeaseReport :=
  ⟨x.1, reportedLease x.2.expireTime now, now⟩

theorem reportsOf_getTable (env : QueryEnv) (template : ServiceRecord → Bool) :
    reportsOf t (.getTable env template) =
      (askedFor env t template).map (leaseReport env.now) := by
  show leaseReports env.now (queryTable env t template).1 = _
  rw [queryTable_eq]
  exact List.map_map

theorem reportsOf_ibGetTable (env : QueryEnv) (mask : BitVec 64) (query : ServiceRecord) :
    reportsOf t (.ibGetTable env mask query) =
      (askedFor env t (ibQueryPasses mask query)).map (leaseReport env.now) := by
  show leaseReports env.now ((queryTable env t (ibQueryPasses mask query)).1.map _) = _
  rw [queryTable_eq, List.map_map]
  exact List.map_map

structure Inv (S : ServiceRun) : Prop where
  map : S.table.IsMap
  correct : S.Correct

theorem report_right_iff (h : S.Inv) {x : ServiceRecKey × OpaServiceRecord}
    (hx : x ∈ S.table.entries) (now : BitVec 64) :
    (∃ g, S.spec x.1 = some g ∧ (leaseReport now x).Right g) ↔ S.InLease now x.1 := by
  have hosr : S.table.record x.1 = some x.2 :=
    congrArg (Option.map Prod.snd) (h.map.entryAt_of_mem hx)
  have hrepresents := h.correct.represents x.1
  rw [hosr, Option.map_some] at hrepresents
  obtain ⟨g, hg, hgranted⟩ := Option.map_eq_some_iff.mp hrepresents.symm
  have hends : leaseEnd x.2.expireTime = g.ends := (congrArg (fun y => y.2.2) hgranted).symm
  unfold InLease
  rw [hg]
  simp only [Option.some.injEq, exists_eq_left', forall_eq']
  exact right_iff hends

theorem reports_right_iff (h : S.Inv) (env : QueryEnv) (passes : ServiceRecord → Bool) :
    (∀ r ∈ (askedFor env S.table passes).map (leaseReport env.now),
        ∃ g, S.spec r.key = some g ∧ r.Right g) ↔
      ∀ x ∈ askedFor env S.table passes, S.InLease env.now x.1 := by
  rw [List.forall_mem_map]
  exact forall₂_congr fun x hx => report_right_iff h (mem_of_askedFor hx) env.now

theorem start_inv {mem : Bool} (hinit : saServiceRecInit mem = some t) : (start t).Inv := by
  obtain ⟨hmap, hnone⟩ := CsHashtable.IsMap.create serviceFns_keyed hinit
  refine ⟨hmap, hmap.nodup, fun k => ?_, fun r hr => nomatch hr⟩
  show (t.record k).map storedAs = none
  unfold ServiceTable.record
  rw [show t.entry k = none from hnone k]
  rfl

theorem table_isMap (h : S.table.IsMap) : (S.step c).table.IsMap := by
  cases c with
  | add env now slid r havepkey => exact (doAdd_map h env now slid r havepkey).1
  | delete lock k => exact (doDelete_map h lock k).1
  | age lock now => exact (age_map h lock now).1
  | getTable env template => exact h
  | ibGetTable env mask query => exact h

/-! ### One step -/

theorem represents_add_iff (h : S.Inv) (env : AddEnv) (now : BitVec 64) (slid : BitVec 16)
    (r : ServiceRecord) (havepkey : Bool) :
    (∀ k, ((saServiceRecordDoAdd env S.table now slid r havepkey).2.2.record k).map storedAs =
        (specAfter S.table S.spec (.add env now slid r havepkey) k).map grantedAs) ↔
      (Adds S.table env now slid r havepkey → EndFits now r.serviceLease) := by
  have hrecord := (doAdd_map h.map env now slid r havepkey).2
  have hspec : specAfter S.table S.spec (.add env now slid r havepkey) =
      if Adds S.table env now slid r havepkey then
        Function.update S.spec r.key (some ⟨r.protect, havepkey, now, r.serviceLease⟩)
      else S.spec := rfl
  rw [hspec]
  by_cases hadds : Adds S.table env now slid r havepkey
  case neg =>
    refine iff_of_true (fun k => ?_) fun hyes => absurd hyes hadds
    rw [hrecord, if_neg hadds, if_neg fun hand => hadds hand.1]
    exact h.correct.represents k
  rw [if_pos hadds, ← leaseEnd_iff r.protect havepkey]
  constructor
  · intro hall _
    have hkey := hall r.key
    rw [hrecord, if_pos ⟨hadds, rfl⟩, Function.update_self] at hkey
    exact congrArg (fun y => y.2.2) (Option.some.inj hkey)
  · intro hend k
    rw [hrecord]
    by_cases hk : k = r.key
    · rw [if_pos ⟨hadds, hk⟩, hk, Function.update_self]
      show some (_, _, _) = some (_, _, _)
      rw [hend hadds]
    · rw [if_neg fun hand => hk hand.2, Function.update_of_ne hk]
      exact h.correct.represents k

theorem represents_delete (h : S.Inv) (lock : Bool) (k j : ServiceRecKey) :
    ((saServiceRecordDoDelete lock S.table k).2.2.record j).map storedAs =
      (specAfter S.table S.spec (.delete lock k) j).map grantedAs := by
  have hspec : specAfter S.table S.spec (.delete lock k) =
      if lock then Function.update S.spec k none else S.spec := rfl
  rw [(doDelete_map h.map lock k).2, hspec]
  cases lock with
  | false => exact h.correct.represents j
  | true =>
    rw [if_pos rfl]
    by_cases hj : j = k
    · rw [if_pos ⟨rfl, hj⟩, hj, Function.update_self]
      rfl
    · rw [if_neg fun hand => hj hand.2, Function.update_of_ne hj]
      exact h.correct.represents j

/-- A stored lease is over for the table just if it is over, as long as the clock is not past the
time that stands for no end. -/
theorem expired_iff {expireTime : BitVec 64} {ends : Option Nat} (h : leaseEnd expireTime = ends) :
    (expireTime < now ↔ EndedBefore now ends) ↔ (ends = none → now ≤ vtimerEternity) := by
  obtain ⟨heternal, hends⟩ | ⟨_, hends⟩ := ends_of_leaseEnd h
  · rw [heternal, hends]
    have hnever : ¬EndedBefore now none := fun ⟨e, he, _⟩ => nomatch he
    rw [iff_false_right hnever, BitVec.not_lt]
    exact (imp_iff_right rfl).symm
  · rw [hends]
    refine iff_of_true ?_ fun hnone => nomatch hnone
    unfold EndedBefore
    simp only [Option.mem_def, Option.some.injEq, exists_eq_left', BitVec.lt_def]

theorem represents_age_iff (h : S.Inv) (lock : Bool) (now : BitVec 64) :
    (∀ k, ((saServiceRecordAge lock S.table now).2.2.record k).map storedAs =
        (specAfter S.table S.spec (.age lock now) k).map grantedAs) ↔
      (lock = true → S.AgesWell now) := by
  have hrecord := (age_map h.map lock now).2
  have hspec : specAfter S.table S.spec (.age lock now) =
      if lock then fun k => (S.spec k).filter fun g => ¬EndedBefore now g.ends else S.spec := rfl
  rw [hspec]
  cases lock with
  | false =>
    refine iff_of_true (fun k => ?_) fun hyes => nomatch hyes
    rw [hrecord]
    exact h.correct.represents k
  | true =>
    rw [if_pos rfl, imp_iff_right rfl]
    unfold AgesWell
    refine forall_congr' fun k => ?_
    have hrepresents := h.correct.represents k
    rw [hrecord]
    cases hg : S.spec k with
    | none =>
      rw [hg, Option.map_none, Option.map_eq_none_iff] at hrepresents
      refine iff_of_true ?_ fun g hsome => nomatch hsome
      rw [hrepresents]
      simp
    | some g =>
      rw [hg] at hrepresents
      obtain ⟨osr, hosr, hstored⟩ := Option.map_eq_some_iff.mp hrepresents
      have hends : leaseEnd osr.expireTime = g.ends := congrArg (fun y => y.2.2) hstored
      simp only [hosr, Option.some.injEq, forall_eq', Option.filter_some]
      by_cases hcount : S.table.entrycount = 0
      · by_cases hended : EndedBefore now g.ends <;> simp [hcount, hended, hstored]
      · rw [← expired_iff hends]
        by_cases hended : EndedBefore now g.ends <;>
          by_cases hexpired : osr.expireTime < now <;>
            simp [hcount, hended, hexpired, hstored]

theorem step_correct_iff (h : S.Inv) : (S.step c).Correct ↔ S.Meets c := by
  have hnodup := (table_isMap (c := c) h.map).nodup
  cases c with
  | add env now slid r havepkey =>
    have hiff := represents_add_iff h env now slid r havepkey
    exact ⟨fun hc => hiff.mp hc.represents,
      fun hm => ⟨hnodup, hiff.mpr hm, fun r hr => nomatch hr⟩⟩
  | delete lock k =>
    exact ⟨fun _ => trivial,
      fun _ => ⟨hnodup, represents_delete h lock k, fun r hr => nomatch hr⟩⟩
  | age lock now =>
    have hiff := represents_age_iff h lock now
    exact ⟨fun hc => hiff.mp hc.represents,
      fun hm => ⟨hnodup, hiff.mpr hm, fun r hr => nomatch hr⟩⟩
  | getTable env template =>
    have hiff := reports_right_iff h env template
    rw [← reportsOf_getTable] at hiff
    exact ⟨fun hc => hiff.mp hc.reports,
      fun hm => ⟨hnodup, h.correct.represents, hiff.mpr hm⟩⟩
  | ibGetTable env mask query =>
    have hiff := reports_right_iff h env (ibQueryPasses mask query)
    rw [← reportsOf_ibGetTable] at hiff
    exact ⟨fun hc => hiff.mp hc.reports,
      fun hm => ⟨hnodup, h.correct.represents, hiff.mpr hm⟩⟩

/-- The store is the map, and the leases are reported as they are, just in the runs whose steps
meet their conditions. -/
theorem allStates_serviceCorrect_iff {mem : Bool} (hinit : saServiceRecInit mem = some t)
    (calls : List ServiceCall) :
    AllStates step Correct (start t) calls ↔ AllSteps step Meets (start t) calls :=
  allStates_iff (fun _ hinv => hinv.correct)
    (fun _ _ hinv hmeets => ⟨table_isMap hinv.map, (step_correct_iff hinv).mpr hmeets⟩)
    (fun _ _ hinv hnot hcorrect => hnot ((step_correct_iff hinv).mp hcorrect))
    calls (start t) (start_inv hinit)

def tenSeconds : ServiceRecord where
  serviceId := 1
  serviceLid := 5
  servicePKey := 0xFFFF
  serviceGid := 0xfe80000000000000#64 ++ 5#64
  serviceLease := 10
  serviceKey := 0
  serviceName := 0
  serviceData := 0

def addTenSeconds : ServiceCall :=
  .add ⟨true, true, true, true, true, fun _ _ => true, fun _ _ => true⟩ 0 5 tenSeconds true

def queryAt (now : BitVec 64) : ServiceCall :=
  .ibGetTable ⟨now, true, fun _ => true, 100, true⟩ 0 tenSeconds

theorem allStates_serviceCorrect_iff_ten :
    ∃ t, saServiceRecInit true = some t ∧
      (AllStates step Correct (start t) [addTenSeconds, queryAt 3000000] ↔
        AllSteps step Meets (start t) [addTenSeconds, queryAt 3000000]) := by
  obtain ⟨t, ht⟩ : ∃ t, saServiceRecInit true = some t := ⟨_, rfl⟩
  exact ⟨t, ht, allStates_serviceCorrect_iff ht _⟩

def lateReport : LeaseReport := ⟨tenSeconds.key, reportedLease 10000000 11000000, 11000000⟩

/-- The lease that has ended is reported with more seconds than it was granted for. -/
theorem not_allStates_serviceCorrect :
    ∃ t, saServiceRecInit true = some t ∧
      ¬AllStates step Correct (start t) [addTenSeconds, queryAt 11000000] := by
  refine ⟨_, rfl, fun h => ?_⟩
  obtain ⟨g, hg, hright⟩ := h.2.2.reports lateReport (by decide)
  have htimer := congrArg (Option.map GrantedRecord.timer) hg
  have hten : g.timer = 10 := (Option.some.inj htimer).symm
  have hle := hright.1
  rw [hten] at hle
  exact absurd hle (by decide)

end ServiceRun

end OpaFm.Sa
