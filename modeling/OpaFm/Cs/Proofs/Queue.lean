import OpaFm.Cs.Queue

/-!
# The circular queue is a bounded first-in first-out queue

Every call answers as it does on the list of the elements from `Front` on, and leaves that
list as the call on the list does.
-/

namespace OpaFm.Cs

open OpaFm.Lib

variable {α : Type}

namespace QueueRecord

variable {q : QueueRecord α}

structure Stands (q : QueueRecord α) : Prop where
  area : q.qData.length = q.Capacity
  size_le : q.Size ≤ q.Capacity
  front_lt : q.Front < q.Capacity
  rear_lt : q.Rear < q.Capacity
  rear : after q.Capacity q.Rear = onward q.Capacity q.Front q.Size

@[simp] theorem contents_length (q : QueueRecord α) : q.contents.length = q.Size := by
  simp [contents]

theorem succ_eq_after (Value Capacity : Nat) : succ Value Capacity = after Capacity Value := rfl

def areaBytes (MaxElements : BitVec 32) : Nat := 8 * MaxElements.toNat % 2 ^ 32

theorem vsPoolAlloc_qsize (MaxElements : BitVec 32) :
    Pool.vsPoolAlloc ((8 * MaxElements).signExtend 64).toNat =
      Pool.vsPoolAlloc (areaBytes MaxElements) := by
  have hqsize : (8 * MaxElements).toNat = areaBytes MaxElements := BitVec.toNat_mul ..
  have hlt : areaBytes MaxElements < 2 ^ 32 := Nat.mod_lt _ (Nat.two_pow_pos 32)
  -- the sign is cut off again
  have hsize : ((8 * MaxElements).signExtend 64).toNat =
      areaBytes MaxElements + if (8 * MaxElements).msb then 2 ^ 64 - 2 ^ 32 else 0 := by
    rw [BitVec.toNat_signExtend, BitVec.toNat_setWidth, hqsize, Nat.mod_eq_of_lt (by omega)]
  have hmsb : (8 * MaxElements).msb = true → areaBytes MaxElements ≠ 0 := by
    rw [BitVec.msb_eq_decide, hqsize, decide_eq_true_eq]
    omega
  rw [hsize]
  split
  next hneg =>
    have hpos := hmsb hneg
    have hcut : (areaBytes MaxElements + (2 ^ 64 - 2 ^ 32)) % 2 ^ 32 =
        areaBytes MaxElements % 2 ^ 32 := by omega
    rw [Pool.vsPoolAlloc, Pool.vsPoolAlloc, if_neg (by omega), if_neg hpos, hcut]
  next => rw [Nat.add_zero]

def Fits (MaxElements : BitVec 32) : Prop :=
  MaxElements.toNat < 2 ^ 28 - 6 ∨ areaBytes MaxElements = 0 ∨
    (2 ^ 31 - 48 ≤ areaBytes MaxElements ∧ areaBytes MaxElements < 2 ^ 32 - 48)

theorem createQueue_of_alloc {MaxElements : BitVec 32} (hmin : 5 ≤ MaxElements.toNat) {bytes : Nat}
    (hbytes : Pool.vsPoolAlloc (areaBytes MaxElements) = some bytes) (area : Nat → Option α) :
    createQueue (some area) MaxElements =
      some ⟨MaxElements.toNat, 0, 1, 0, (List.range (bytes / 8)).map area⟩ := by
  unfold createQueue
  dsimp only
  have hmin' : ¬MaxElements.toNat < minQueueSize := Nat.not_lt.mpr hmin
  rw [if_neg hmin', vsPoolAlloc_qsize, hbytes]
  rfl

theorem createQueue_eq_some {memory : Option (Nat → Option α)} {MaxElements : BitVec 32}
    (h : createQueue memory MaxElements = some q) :
    ∃ bytes area, 5 ≤ MaxElements.toNat ∧
      Pool.vsPoolAlloc (areaBytes MaxElements) = some bytes ∧
      q = ⟨MaxElements.toNat, 0, 1, 0, (List.range (bytes / 8)).map area⟩ := by
  unfold createQueue at h
  dsimp only at h
  split at h
  · cases h
  · rename_i hmin
    rw [vsPoolAlloc_qsize] at h
    split at h
    next bytes area hbytes =>
      exact ⟨bytes, area, Nat.le_of_not_lt hmin, hbytes, (Option.some.inj h).symm⟩
    next => cases h

theorem createQueue_stands {memory : Option (Nat → Option α)} {MaxElements : BitVec 32}
    (hfits : Fits MaxElements) (h : createQueue memory MaxElements = some q) :
    q.Stands ∧ q.contents = [] ∧ q.Capacity = MaxElements.toNat := by
  obtain ⟨bytes, area, hmin, hbytes, rfl⟩ := createQueue_eq_some h
  have hall : bytes / 8 = MaxElements.toNat := by
    rcases hfits with hsmall | hzero | ⟨hlow, hhigh⟩
    · have hmod : areaBytes MaxElements = 8 * MaxElements.toNat := Nat.mod_eq_of_lt (by omega)
      rw [hmod, Pool.vsPoolAlloc_of_lt (by omega) (by omega)] at hbytes
      have := Option.some.inj hbytes
      omega
    · rw [hzero] at hbytes
      cases hbytes
    · rw [Pool.vsPoolAlloc, if_neg (by omega), Nat.mod_eq_of_lt (by omega),
        Pool.vsImplpoolAlloc_eq_none hlow hhigh] at hbytes
      cases hbytes
  refine ⟨⟨by simp [hall], Nat.zero_le _, ?_, ?_, ?_⟩, rfl, rfl⟩
  · show 1 < MaxElements.toNat
    omega
  · show 0 < MaxElements.toNat
    omega
  · show after MaxElements.toNat 0 = onward MaxElements.toNat 1 0
    unfold after onward
    split_ifs <;> omega

/-! ## One call -/

theorem enqueue_full (X : Option α) (hfull : q.isFull = true) : q.enqueue X = some (q, .bad) := by
  simp [enqueue, hfull]

def entered (q : QueueRecord α) (rear : Nat) (X : Option α) : QueueRecord α :=
  { q with Size := q.Size + 1, Rear := rear, qData := q.qData.set rear X }

theorem enqueue_eq_entered (hq : q.Stands) (X : Option α) (hroom : q.Size < q.Capacity) :
    q.enqueue X = some (q.entered (onward q.Capacity q.Front q.Size) X, .ok) := by
  have hfull : q.isFull = false := by simpa [isFull] using Nat.ne_of_lt hroom
  have hplace : succ q.Rear q.Capacity = onward q.Capacity q.Front q.Size := hq.rear
  have hlt : onward q.Capacity q.Front q.Size < q.Capacity := onward_lt hq.front_lt hq.size_le
  simp [enqueue, entered, hfull, hplace, hq.area, hlt]

theorem stands_entered (hq : q.Stands) (X : Option α) (hroom : q.Size < q.Capacity) :
    (q.entered (onward q.Capacity q.Front q.Size) X).Stands where
  area := (List.length_set ..).trans hq.area
  size_le := hroom
  front_lt := hq.front_lt
  rear_lt := onward_lt hq.front_lt hq.size_le
  rear := after_onward hq.front_lt hroom

theorem contents_entered (hq : q.Stands) (X : Option α) (hroom : q.Size < q.Capacity) :
    (q.entered (onward q.Capacity q.Front q.Size) X).contents = q.contents ++ [X] := by
  have hlt : onward q.Capacity q.Front q.Size < q.Capacity := onward_lt hq.front_lt hq.size_le
  have hlast : (q.qData.set (onward q.Capacity q.Front q.Size) X).getD
      (onward q.Capacity q.Front q.Size) none = X := by
    simp [List.getD_eq_getElem?_getD, hq.area, hlt]
  have hothers : ∀ i ∈ List.range q.Size,
      (q.qData.set (onward q.Capacity q.Front q.Size) X).getD (onward q.Capacity q.Front i) none =
        q.qData.getD (onward q.Capacity q.Front i) none := by
    intro i hi
    have hne := onward_ne (p := q.Front) (List.mem_range.mp hi) hroom
    simp [List.getD_eq_getElem?_getD, List.getElem?_set_ne hne.symm]
  simp only [contents, entered, List.range_succ, List.map_append, List.map_cons, List.map_nil,
    hlast]
  rw [List.map_congr_left hothers]

theorem contents_eq_cons (hq : q.Stands) (hsome : q.Size ≠ 0) :
    ∃ X, q.qData[q.Front]? = some X ∧
      q.contents =
        X :: { q with Size := q.Size - 1, Front := succ q.Front q.Capacity }.contents := by
  have hlt : q.Front < q.qData.length := hq.area.symm ▸ hq.front_lt
  have hsize : q.Size = q.Size - 1 + 1 := by omega
  refine ⟨q.qData[q.Front], List.getElem?_eq_getElem hlt, ?_⟩
  unfold contents
  rw [hsize, List.range_succ_eq_map, List.map_cons, List.map_map]
  congr 1
  · simp [onward_zero hq.front_lt, List.getD_eq_getElem?_getD, hlt]
  · refine List.map_congr_left fun i hi => ?_
    have hi : i < q.Size - 1 := List.mem_range.mp hi
    have hnext : onward q.Capacity (after q.Capacity q.Front) i =
        onward q.Capacity q.Front (i + 1) :=
      onward_after (by have := hq.size_le; omega)
    simp only [Function.comp_apply, succ_eq_after, hnext]

theorem stands_advance (hq : q.Stands) (hsome : q.Size ≠ 0) :
    { q with Size := q.Size - 1, Front := succ q.Front q.Capacity }.Stands where
  area := hq.area
  size_le := Nat.le_trans (Nat.sub_le _ _) hq.size_le
  front_lt := after_lt hq.front_lt
  rear_lt := hq.rear_lt
  rear := by
    have hle := hq.size_le
    have hsize : q.Size = q.Size - 1 + 1 := by omega
    calc after q.Capacity q.Rear
        = onward q.Capacity q.Front (q.Size - 1 + 1) := by rw [hq.rear, ← hsize]
      _ = onward q.Capacity (after q.Capacity q.Front) (q.Size - 1) :=
          (onward_after (by omega)).symm

theorem contents_of_empty (hempty : q.isEmpty = true) : q.contents = [] := by
  have hsize : q.Size = 0 := by simpa [isEmpty] using hempty
  simp [contents, hsize]

theorem call_refines (hq : q.Stands) (c : FifoCall (Option α)) :
    ∃ q' reply, q.call c = some (q', reply) ∧ q'.Stands ∧ q'.Capacity = q.Capacity ∧
      fifoStep q.Capacity none q.contents c = (q'.contents, reply) := by
  cases c with
  | put X =>
    by_cases hfull : q.isFull = true
    · have hsize : q.Size = q.Capacity := by simpa [isFull] using hfull
      refine ⟨q, .accepted false, ?_, hq, rfl, ?_⟩
      · simp [call, enqueue_full X hfull]
      · simp [fifoStep, hsize]
    · have hne : q.Size ≠ q.Capacity := by simpa [isFull] using hfull
      have hroom : q.Size < q.Capacity := Nat.lt_of_le_of_ne hq.size_le hne
      refine ⟨_, .accepted true, ?_, stands_entered hq X hroom, rfl, ?_⟩
      · simp [call, enqueue_eq_entered hq X hroom]
      · simp [fifoStep, hne, contents_entered hq X hroom]
  | peek =>
    refine ⟨q, .element (q.contents.headD none), ?_, hq, rfl, rfl⟩
    by_cases hempty : q.isEmpty = true
    · simp [call, front, hempty, contents_of_empty hempty]
    · obtain ⟨X, hX, hcontents⟩ := contents_eq_cons hq (by simpa [isEmpty] using hempty)
      simp [call, front, hempty, hX, hcontents]
  | drop =>
    by_cases hempty : q.isEmpty = true
    · refine ⟨q, .done, ?_, hq, rfl, ?_⟩
      · simp [call, dequeue, hempty]
      · simp [fifoStep, contents_of_empty hempty]
    · have hsome : q.Size ≠ 0 := by simpa [isEmpty] using hempty
      obtain ⟨X, hX, hcontents⟩ := contents_eq_cons hq hsome
      refine ⟨_, .done, ?_, stands_advance hq hsome, rfl, ?_⟩
      · simp [call, dequeue, hempty]
      · rw [hcontents]
        rfl
  | take =>
    by_cases hempty : q.isEmpty = true
    · refine ⟨q, .element none, ?_, hq, rfl, ?_⟩
      · simp [call, frontAndDequeue, hempty]
      · simp [fifoStep, contents_of_empty hempty]
    · have hsome : q.Size ≠ 0 := by simpa [isEmpty] using hempty
      obtain ⟨X, hX, hcontents⟩ := contents_eq_cons hq hsome
      refine ⟨_, .element X, ?_, stands_advance hq hsome, rfl, ?_⟩
      · simp [call, frontAndDequeue, hempty, hX]
      · rw [hcontents]
        rfl

/-! ## Sequences of calls -/

theorem calls_refine (cs : List (FifoCall (Option α))) :
    ∀ q : QueueRecord α, q.Stands →
      ∃ q' replies, q.calls cs = some (q', replies) ∧ q'.Stands ∧ q'.Capacity = q.Capacity ∧
        fifoRun q.Capacity none q.contents cs = (q'.contents, replies) := by
  induction cs with
  | nil => exact fun q hq => ⟨q, [], rfl, hq, rfl, rfl⟩
  | cons c cs ih =>
    intro q hq
    obtain ⟨q₁, reply, hcall, hq₁, hcap₁, hstep⟩ := call_refines hq c
    obtain ⟨q', replies, hcalls, hq', hcap', hrun⟩ := ih q₁ hq₁
    refine ⟨q', reply :: replies, ?_, hq', hcap'.trans hcap₁, ?_⟩
    · simp [calls, hcall, hcalls]
    · rw [hcap₁] at hrun
      simp [fifoRun, hstep, hrun]

/-- The queue answers every sequence of calls as the list of its elements does.  It holds no
more than its capacity, its elements leave in the order in which they entered, and the calls that
a full or an empty queue cannot serve leave it as it is. -/
def IsFifo (q : QueueRecord α) (capacity : Nat) : Prop :=
  ∀ cs, ∃ q' replies, q.calls cs = some (q', replies) ∧
    fifoRun capacity none [] cs = (q'.contents, replies) ∧
    q'.contents.length ≤ capacity ∧
    fifoLeft capacity none [] cs ++ q'.contents = fifoEntered capacity none [] cs ∧
    (q'.contents.length = capacity → ∀ X, q'.enqueue X = some (q', .bad)) ∧
    (q'.contents = [] → q'.dequeue = q' ∧ q'.frontAndDequeue = some (q', none))

theorem Stands.isFifo (hq : q.Stands) (hnil : q.contents = []) : q.IsFifo q.Capacity := by
  intro cs
  obtain ⟨q', replies, hcalls, hq', hcap, hrun⟩ := calls_refine cs q hq
  rw [hnil] at hrun
  have hleft := fifoLeft_append_run q.Capacity none cs []
  rw [hrun] at hleft
  have hlength := fifoRun_length q.Capacity none cs [] (Nat.zero_le _)
  rw [hrun] at hlength
  refine ⟨q', replies, hcalls, hrun, hlength, hleft, ?_, ?_⟩
  · intro hfull X
    refine enqueue_full X ?_
    rw [contents_length] at hfull
    simp [isFull, hfull, hcap]
  · intro hempty
    have hsize : q'.Size = 0 := by
      rw [← contents_length, hempty]
      rfl
    have hnone : q'.isEmpty = true := by simp [isEmpty, hsize]
    simp [dequeue, frontAndDequeue, hnone]

theorem calls_outside (X : Option α) (n : Nat) :
    ∀ q : QueueRecord α, q.Rear = q.Size → q.qData.length ≤ q.Size + n + 1 →
      q.qData.length < q.Capacity → q.Size + 1 < q.Capacity →
      q.calls (List.replicate (n + 1) (.put X)) = none := by
  induction n with
  | zero =>
    intro q hrear harea hshort hroom
    have hfull : q.isFull = false := by
      rw [isFull, decide_eq_false_iff_not]
      omega
    have hnext : succ q.Rear q.Capacity = q.Size + 1 := by
      rw [succ, hrear, if_neg (by omega)]
    have hout : ¬q.Size + 1 < q.qData.length := by omega
    simp [calls, call, enqueue, hfull, hnext, hout]
  | succ n ih =>
    intro q hrear harea hshort hroom
    have hfull : q.isFull = false := by
      rw [isFull, decide_eq_false_iff_not]
      omega
    have hnext : succ q.Rear q.Capacity = q.Size + 1 := by
      rw [succ, hrear, if_neg (by omega)]
    by_cases hin : q.Size + 1 < q.qData.length
    · have hput : q.enqueue X = some (q.entered (q.Size + 1) X, .ok) := by
        simp [enqueue, entered, hfull, hnext, hin]
      have hlength : (q.entered (q.Size + 1) X).qData.length = q.qData.length :=
        List.length_set ..
      have hrest := ih (q.entered (q.Size + 1) X) rfl (hlength.trans_le (by
        show q.qData.length ≤ q.Size + 1 + n + 1
        omega)) (hlength.trans_lt hshort) (by
        show q.Size + 1 + 1 < q.Capacity
        omega)
      rw [List.replicate_succ]
      simp [calls, call, hput, hrest]
    · rw [List.replicate_succ]
      simp [calls, call, enqueue, hfull, hnext, hin]

theorem area_short {MaxElements : BitVec 32} {bytes : Nat} (hmisfit : ¬Fits MaxElements)
    (h : Pool.vsPoolAlloc (areaBytes MaxElements) = some bytes) : bytes / 8 < MaxElements.toNat := by
  unfold Fits at hmisfit
  have hlt : areaBytes MaxElements < 2 ^ 32 := Nat.mod_lt _ (Nat.two_pow_pos 32)
  have hle : bytes ≤ areaBytes MaxElements := by
    rcases Pool.vsPoolAlloc_cases hlt h with ⟨heq, -⟩ | ⟨hpad, hlow⟩ <;> omega
  have hmany : areaBytes MaxElements < 2 ^ 31 - 48 ∨ bytes ≤ 7 := by
    rcases Pool.vsPoolAlloc_cases hlt h with ⟨-, hsmall⟩ | ⟨hpad, -⟩
    · exact .inl hsmall
    · exact .inr hpad
  omega

/-- The queues that are handed out for a capacity are all first-in first-out queues of that
capacity if and only if the pool has room for all elements or for none. -/
theorem createQueue_fifo_iff (MaxElements : BitVec 32) :
    (∀ (memory : Option (Nat → Option α)) (q : QueueRecord α),
      createQueue memory MaxElements = some q → q.IsFifo MaxElements.toNat) ↔ Fits MaxElements := by
  constructor
  · intro hfifo
    by_contra hmisfit
    have hmin : 5 ≤ MaxElements.toNat := by
      unfold Fits at hmisfit
      omega
    have hlt : areaBytes MaxElements < 2 ^ 32 := Nat.mod_lt _ (Nat.two_pow_pos 32)
    obtain ⟨bytes, hbytes⟩ : ∃ bytes, Pool.vsPoolAlloc (areaBytes MaxElements) = some bytes := by
      unfold Fits at hmisfit
      rw [Pool.vsPoolAlloc, if_neg (by omega), Nat.mod_eq_of_lt hlt]
      by_cases hsmall : areaBytes MaxElements < 2 ^ 31 - 48
      · exact ⟨_, Pool.vsImplpoolAlloc_of_lt hsmall⟩
      · exact ⟨_, Pool.vsImplpoolAlloc_wraps (by omega) hlt⟩
    obtain ⟨q', replies, hcalls, -⟩ :=
      hfifo _ _ (createQueue_of_alloc hmin hbytes fun _ => none)
        (List.replicate (bytes / 8 + 1) (.put none))
    have hshort := area_short hmisfit hbytes
    have houtside := calls_outside (α := α) none (bytes / 8)
      ⟨MaxElements.toNat, 0, 1, 0, (List.range (bytes / 8)).map fun _ => none⟩ rfl (by simp)
      (by simpa using hshort) (show 0 + 1 < MaxElements.toNat by omega)
    rw [houtside] at hcalls
    cases hcalls
  · intro hfits memory q h
    obtain ⟨hq, hnil, hcap⟩ := createQueue_stands hfits h
    rw [← hcap]
    exact hq.isFifo hnil

/-- A capacity of 2 ^ 29 + 1 gets a data area of eight bytes. -/
theorem not_createQueue_fifo :
    ¬∀ (memory : Option (Nat → Option Nat)) (q : QueueRecord Nat),
      createQueue memory 0x20000001 = some q → q.IsFifo 0x20000001 := by
  intro hfifo
  obtain ⟨q', replies, hcalls, -⟩ := hfifo (some fun _ => none)
    ⟨0x20000001, 0, 1, 0, [none]⟩ (by rfl) [.put (some 7)]
  cases hcalls

end QueueRecord

end OpaFm.Cs
