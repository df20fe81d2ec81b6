import OpaFm.Multicast.Proofs.SaStep

/-!
# A request is answered as it was carried out

A reply with status 0 and one record should mean that the create, join or leave
was made, and any other reply that nothing changed.  Three exits break that: the
lifetime check of a Set and the virtual fabric check of a Delete store no status,
and a create that finds the MLID table full has already added its lid class.
-/

namespace OpaFm.Multicast

open OpaFm.Fabric OpaFm.Lib OpaFm.Partition

def repliesOk (reply : Option Reply) : Prop := reply = some ⟨madStatusOk, 1⟩

/-- The reply and the effect agree, and a request that is not granted leaves no
trace. -/
def Atomic (st st' : SaState) (reply : Option Reply) (effect : Option Effect) : Prop :=
  (repliesOk reply ↔ effect.isSome = true) ∧ (¬ repliesOk reply → st' = st)

/-! ## Exits of the checks -/

def Stores {α : Type} (x : Check α) : Prop := ∀ e, x = .error e → ∃ s, e = some s ∧ s ≠ madStatusOk

theorem bind_eq_error {ε α β : Type} {x : Except ε α} {f : α → Except ε β} {e : ε} :
    x >>= f = .error e ↔ x = .error e ∨ ∃ a, x = .ok a ∧ f a = .error e := by
  cases x with
  | error e' => simp [Bind.bind, Except.bind]
  | ok a => simp [Bind.bind, Except.bind]

theorem Stores.bind {α β : Type} {x : Check α} {f : α → Check β} (hx : Stores x)
    (hf : ∀ a, Stores (f a)) : Stores (x >>= f) := by
  intro e he
  rcases bind_eq_error.mp he with he | ⟨a, -, he⟩
  · exact hx e he
  · exact hf a e he

theorem stores_pure {α : Type} (a : α) : Stores (pure a : Check α) := by
  intro e he
  cases he

theorem stores_throw {α : Type} {s : Nat} (hs : s ≠ madStatusOk) :
    Stores (throw (some s) : Check α) := by
  intro e he
  cases he
  exact ⟨s, rfl, hs⟩

theorem stores_require (cond : Bool) {s : Nat} (hs : s ≠ madStatusOk) :
    Stores (require cond s) := by
  intro e he
  unfold require at he
  split at he
  · cases he
  · cases he
    exact ⟨s, rfl, hs⟩

theorem stores_orElseStatus {α : Type} (x : Option α) {s : Nat} (hs : s ≠ madStatusOk) :
    Stores (orElseStatus x s) := by
  intro e he
  unfold orElseStatus at he
  split at he
  · cases he
  · cases he
    exact ⟨s, rfl, hs⟩

theorem Stores.after_require {α : Type} {x : Check α} {cond : Bool} {s : Nat}
    (hs : s ≠ madStatusOk) (hx : Stores x) : Stores (require cond s >>= fun _ => x) :=
  (stores_require cond hs).bind fun _ => hx

theorem Stores.after_orElseStatus {α β : Type} {x : Option α} {f : α → Check β} {s : Nat}
    (hs : s ≠ madStatusOk) (hf : ∀ a, Stores (f a)) : Stores (orElseStatus x s >>= f) :=
  (stores_orElseStatus x hs).bind hf

theorem stores_setPorts (env : SaEnv) (req : Mai) : Stores (setPorts env req) := by
  apply Stores.after_require (by decide)
  apply Stores.after_require (by decide)
  apply Stores.after_orElseStatus (by split <;> decide)
  intro _
  apply Stores.after_require (by decide)
  apply Stores.after_require (by decide)
  apply Stores.after_orElseStatus (by split <;> decide)
  intro _
  exact stores_pure _

theorem stores_requestedMtu (env : SaEnv) (req : Mai) (d : PortData) (vfMaxMtu : Nat) :
    Stores (requestedMtu env req d vfMaxMtu) := by
  unfold requestedMtu
  simp only
  split
  · split <;>
      first
      | exact (stores_pure _).bind fun _ => (stores_require _ (by decide)).bind fun _ => stores_pure _
      | exact (stores_throw (by decide)).bind fun _ =>
        (stores_require _ (by decide)).bind fun _ => stores_pure _
  · split
    · exact Stores.after_require (by decide) (stores_pure _)
    · split <;> exact stores_pure _

theorem stores_requestedRate (env : SaEnv) (req : Mai) (d : PortData) (vfMaxRate : Nat) :
    Stores (requestedRate env req d vfMaxRate) := by
  unfold requestedRate
  simp only
  split
  · split <;>
      first
      | exact (stores_pure _).bind fun _ => (stores_require _ (by decide)).bind fun _ => stores_pure _
      | exact (stores_throw (by decide)).bind fun _ =>
        (stores_require _ (by decide)).bind fun _ => stores_pure _
  · split
    · exact Stores.after_require (by decide) (stores_pure _)
    · split <;> exact stores_pure _

theorem stores_setLinkChecks (env : SaEnv) (req : Mai) : Stores (setLinkChecks env req) := by
  apply (stores_setPorts env req).bind
  intro p
  apply (stores_requestedMtu env req _ _).bind
  intro _
  apply (stores_requestedRate env req _ _).bind
  intro _
  exact stores_pure _

theorem stores_createVfs (env : SaEnv) (sp : SetParams) (record : McMemberRecord) :
    Stores (createVfs env sp record) := by
  unfold createVfs
  split
  · exact stores_pure _
  · split
    · exact stores_orElseStatus _ (by decide)
    · exact stores_pure _

theorem stores_nullMgidCreate (env : SaEnv) (st : SaState) (req : Mai) (sp : SetParams) :
    Stores (nullMgidCreate env st req sp) := by
  apply Stores.after_require (by decide)
  apply Stores.after_require (by decide)
  apply Stores.after_require (by decide)
  apply Stores.after_require (by decide)
  exact (stores_createVfs env sp _).bind fun _ => stores_pure _

theorem stores_mgidCreate (env : SaEnv) (st : SaState) (req : Mai) (sp : SetParams) :
    Stores (mgidCreate env st req sp) := by
  apply Stores.after_require (by decide)
  apply Stores.after_require (by split <;> decide)
  apply Stores.after_require (by decide)
  apply Stores.after_require (by decide)
  exact (stores_createVfs env sp _).bind fun _ => stores_pure _

theorem stores_joinChecks (env : SaEnv) (req : Mai) (sp : SetParams) (g : McGroup) :
    Stores (joinChecks env req sp g) := by
  apply Stores.after_require (by decide)
  apply Stores.after_require (by decide)
  apply Stores.after_require (by decide)
  apply Stores.after_require (by decide)
  apply Stores.after_require (by decide)
  apply Stores.after_require (by decide)
  apply Stores.after_require (by decide)
  exact stores_pure _

/-! ## The exits without a status -/

def lifeDropped (env : SaEnv) (req : Mai) : Bool :=
  (setLinkChecks env req).toBool && req.mask.hasAll CompMask.okLife &&
    (selectedLife req (hopLife env req).2).any (lifeOutOfRange (hopLife env req).2)

/-- Neither port of the request shares a virtual fabric with the group it would
leave, and nothing before that check refuses it. -/
def vfDropped (env : SaEnv) (st : SaState) (req : Mai) : Bool :=
  match deletePorts env req with
  | .error _ => false
  | .ok (port, sender) =>
    match deleteMember st req port with
    | .error _ => false
    | .ok (g, _) => deleteVfMismatch env port sender g

theorem requestedLife_error {req : Mai} {saLife : Nat} {e : Option Nat}
    (h : requestedLife req saLife = .error e) :
    (∃ s, e = some s ∧ s ≠ madStatusOk) ∨
      e = none ∧ req.mask.hasAll CompMask.okLife = true ∧
        (selectedLife req saLife).any (lifeOutOfRange saLife) = true := by
  unfold requestedLife at h
  simp only at h
  split at h
  · rename_i hmask
    rcases bind_eq_error.mp h with h | ⟨life, hlife, h⟩
    · exact .inl (stores_orElseStatus _ (by decide) e h)
    · rw [orElseStatus_eq_ok] at hlife
      rcases bind_eq_error.mp h with h | ⟨-, -, h⟩
      · right
        unfold leaveIf at h
        split at h
        · rename_i hout
          refine ⟨(Except.error.inj h).symm, by simpa [CompMask.hasAll] using hmask, ?_⟩
          simp [hlife, hout]
        · cases h
      · cases h
  · split at h
    · exact .inl ((stores_require _ (by decide)).bind (fun _ => stores_pure _) e h)
    · cases h

theorem requestedLife_of_outOfRange {req : Mai} {saLife : Nat}
    (hmask : req.mask.hasAll CompMask.okLife = true)
    (hout : (selectedLife req saLife).any (lifeOutOfRange saLife) = true) :
    requestedLife req saLife = .error none := by
  obtain ⟨life, hlife, hout⟩ : ∃ life, selectedLife req saLife = some life ∧
      lifeOutOfRange saLife life = true := by
    cases hl : selectedLife req saLife with
    | none => simp [hl] at hout
    | some life => exact ⟨life, rfl, by simpa [hl] using hout⟩
  have hmask' : req.mask &&& CompMask.okLife = CompMask.okLife := by
    simpa [CompMask.hasAll] using hmask
  simp [requestedLife, hmask', hlife, orElseStatus, leaveIf, hout, Bind.bind, Except.bind]

theorem validateSet_error {env : SaEnv} {st : SaState} {req : Mai} {e : Option Nat}
    (h : validateSet env st req = .error e) :
    (∃ s, e = some s ∧ s ≠ madStatusOk) ∨ e = none ∧ lifeDropped env req = true := by
  unfold validateSet at h
  rcases bind_eq_error.mp h with h | ⟨sp, -, h⟩
  · unfold setChecks at h
    rcases bind_eq_error.mp h with h | ⟨⟨port, reqPort, mtu, rate⟩, hlink, h⟩
    · exact .inl (stores_setLinkChecks env req e h)
    · rcases bind_eq_error.mp h with h | ⟨life, -, h⟩
      · rcases requestedLife_error h with h | ⟨rfl, hmask, hout⟩
        · exact .inl h
        · exact .inr ⟨rfl, by simp [lifeDropped, hlink, Except.toBool, hmask, hout]⟩
      · refine .inl (Stores.bind (stores_require _ (by decide)) (fun _ => ?_) e h)
        exact Stores.after_require (by decide) (stores_pure _)
  · left
    split at h
    · exact stores_nullMgidCreate env st req sp e h
    · split at h
      · exact stores_mgidCreate env st req sp e h
      · exact stores_joinChecks env req sp _ e h

theorem validateSet_of_lifeDropped {env : SaEnv} (st : SaState) {req : Mai}
    (h : lifeDropped env req = true) : validateSet env st req = .error none := by
  simp only [lifeDropped, Bool.and_eq_true] at h
  obtain ⟨⟨hlink, hmask⟩, hout⟩ := h
  have hlife := requestedLife_of_outOfRange hmask hout
  cases hl : setLinkChecks env req with
  | error e => simp [hl, Except.toBool] at hlink
  | ok p => simp [validateSet, setChecks, hl, hlife, Bind.bind, Except.bind]

theorem stores_deletePorts (env : SaEnv) (req : Mai) : Stores (deletePorts env req) := by
  apply Stores.after_require (by decide)
  apply Stores.after_orElseStatus (by decide)
  intro _
  apply Stores.after_require (by decide)
  apply Stores.after_require (by decide)
  exact Stores.after_orElseStatus (by decide) fun _ => stores_pure _

theorem stores_deleteMember (st : SaState) (req : Mai) (port : ValidPort) :
    Stores (deleteMember st req port) := by
  apply Stores.after_orElseStatus (by decide)
  intro _
  apply Stores.after_orElseStatus (by decide)
  intro _
  apply Stores.after_require (by decide)
  exact Stores.after_require (by decide) (stores_pure _)

theorem validateDelete_error {env : SaEnv} {st : SaState} {req : Mai} {e : Option Nat}
    (h : validateDelete env st req = .error e) :
    (∃ s, e = some s ∧ s ≠ madStatusOk) ∨ e = none ∧ vfDropped env st req = true := by
  unfold validateDelete at h
  rcases bind_eq_error.mp h with h | ⟨⟨port, sender⟩, hports, h⟩
  · exact .inl (stores_deletePorts env req e h)
  · rcases bind_eq_error.mp h with h | ⟨⟨g, m⟩, hmember, h⟩
    · exact .inl (stores_deleteMember st req port e h)
    · rcases bind_eq_error.mp h with h | ⟨-, -, h⟩
      · right
        unfold leaveIf at h
        split at h
        · rename_i hmis
          exact ⟨(Except.error.inj h).symm, by simp [vfDropped, hports, hmember, hmis]⟩
        · cases h
      · cases h

theorem validateDelete_of_vfDropped {env : SaEnv} {st : SaState} {req : Mai}
    (h : vfDropped env st req = true) : validateDelete env st req = .error none := by
  unfold vfDropped at h
  split at h
  · cases h
  · rename_i port sender hports
    split at h
    · cases h
    · rename_i g m hmember
      simp [validateDelete, hports, hmember, leaveIf, h, Bind.bind, Except.bind]

/-! ## The pool -/

/-- The class has budget left and no lid class for the key, and the MLID table
is full: the lid class is added before the table is looked at. -/
def leavesLidClass (tcap : MlidTableCap) (p : McPool) (groups : List McGroup) (mGid : IbGid)
    (args : AssignArgs) : Prop :=
  let c := p.groupClass (findMcGroupClass p mGid)
  c.maximumLids ≠ 0 ∧ c.currentLids < c.maximumLids ∧
    getLidClass c args.pKey args.mtu args.rate = none ∧ smMcFindUnusedLid tcap groups = none

theorem setClass_eq_self (p : McPool) (ref : ClassRef) : p.setClass ref (p.groupClass ref) = p := by
  simp [McPool.setClass]

theorem setClass_addLidClass_ne (p : McPool) (ref : ClassRef) (pKey mtu rate : Nat) :
    p.setClass ref (addLidClass (p.groupClass ref) pKey mtu rate) ≠ p := by
  intro heq
  have hclass := congrArg (fun q => ((q.groupClass ref).usageMap).length) heq
  simp [addLidClass] at hclass

section Assign

variable {tcap : MlidTableCap} {p p' : McPool} {groups : List McGroup} {mGid : IbGid}
  {args : AssignArgs} {r : Except VStatus Nat}

theorem smMulticastAssignLid_of_leavesLidClass (h : leavesLidClass tcap p groups mGid args) :
    ∃ p', smMulticastAssignLid tcap p groups mGid args.pKey args.mtu args.rate =
      .ok (p', .error .bad) ∧ p' ≠ p := by
  obtain ⟨hmax, hroom, hget, hfree⟩ := h
  refine ⟨_, ?_, setClass_addLidClass_ne p (findMcGroupClass p mGid) args.pKey args.mtu args.rate⟩
  simp [smMulticastAssignLid, hmax, smMcGetGroupClassLid, hroom, getOrAddLidClass, hget, hfree,
    Bind.bind, Except.bind, Pure.pure, Except.pure]

theorem smMcGetGroupClassLid_error {c c' : McGroupClass} {pKey mtu rate : Nat} {e : VStatus}
    (h : smMcGetGroupClassLid tcap groups c pKey mtu rate 0 = .ok (c', .error e))
    (hnot : ¬ (c.currentLids < c.maximumLids ∧ getLidClass c pKey mtu rate = none ∧
      smMcFindUnusedLid tcap groups = none)) : c' = c := by
  unfold smMcGetGroupClassLid at h
  by_cases hroom : c.currentLids < c.maximumLids
  · simp only [if_pos hroom, ↓reduceIte] at h
    cases hfree : smMcFindUnusedLid tcap groups with
    | some lid =>
      simp only [hfree, bind_eq_ok] at h
      obtain ⟨l, -, h⟩ := h
      cases h
    | none =>
      cases hget : getLidClass c pKey mtu rate with
      | none => exact absurd ⟨hroom, hget, hfree⟩ hnot
      | some l =>
        simp only [hfree, getOrAddLidClass, hget] at h
        exact ((Prod.mk.inj (Except.ok.inj h)).1).symm
  · simp only [if_neg hroom, ↓reduceIte] at h
    cases hget : getLidClass c pKey mtu rate with
    | none =>
      simp only [hget] at h
      exact ((Prod.mk.inj (Except.ok.inj h)).1).symm
    | some l =>
      simp only [hget] at h
      split at h
      · cases h
      · rw [bind_eq_ok] at h
        obtain ⟨l', -, h⟩ := h
        cases h

theorem smMulticastAssignLid_error {e : VStatus}
    (h : smMulticastAssignLid tcap p groups mGid args.pKey args.mtu args.rate =
      .ok (p', .error e)) (hnot : ¬ leavesLidClass tcap p groups mGid args) : p' = p := by
  unfold smMulticastAssignLid at h
  by_cases hmax : (p.groupClass (findMcGroupClass p mGid)).maximumLids = 0
  · simp only [if_pos hmax] at h
    cases hfree : smMcFindUnusedLid tcap groups with
    | none =>
      rw [hfree] at h
      exact ((Prod.mk.inj (Except.ok.inj h)).1).symm
    | some lid =>
      rw [hfree] at h
      cases h
  · simp only [if_neg hmax, bind_eq_ok] at h
    obtain ⟨⟨c', r'⟩, hget, h⟩ := h
    obtain ⟨rfl, rfl⟩ := Prod.mk.inj (Except.ok.inj h)
    have hc := smMcGetGroupClassLid_error hget (fun hbad => hnot ⟨hmax, hbad⟩)
    rw [hc, setClass_eq_self]

end Assign

/-! ## Atomicity -/

structure AtomicOk (env : SaEnv) (st : SaState) (req : Mai) : Prop where
  life : req.method = .set → lifeDropped env req = false
  lid : req.method = .set → ∀ sp record groupVf args,
    validateSet env st req = .ok (.create sp record groupVf args) →
    ¬ leavesLidClass env.mlidTableCap st.pool st.mcGroups record.mGid args
  vf : req.method = .delete → vfDropped env st req = false

theorem repliesOk_of_stored {method : SaMethod} {s n : Nat} (hs : s ≠ madStatusOk)
    (effect : Option Effect) : ¬ repliesOk (saReply method ⟨s, n, effect⟩) := by
  intro h
  simp only [repliesOk, saReply, if_pos hs] at h
  split at h
  · cases h
  · exact hs (congrArg Reply.status (Option.some.inj h))

theorem saReply_ok (method : SaMethod) (effect : Option Effect) :
    repliesOk (saReply method ⟨madStatusOk, 1, effect⟩) := by
  cases method <;> rfl

theorem atomic_refused_stored (st : SaState) {method : SaMethod} {s n : Nat}
    (hs : s ≠ madStatusOk) : Atomic st st (saReply method ⟨s, n, none⟩) none :=
  ⟨⟨fun h => absurd h (repliesOk_of_stored hs none), fun h => by cases h⟩, fun _ => rfl⟩

theorem not_atomic_refused (st : SaState) (method : SaMethod) :
    ¬ Atomic st st (saReply method ⟨madStatusOk, 1, none⟩) none :=
  fun h => Bool.false_ne_true (h.1.mp (saReply_ok method none))

theorem atomic_applied (st st' : SaState) (method : SaMethod) (effect : Effect) :
    Atomic st st' (saReply method ⟨madStatusOk, 1, some effect⟩) (some effect) :=
  ⟨⟨fun _ => rfl, fun _ => saReply_ok method _⟩, fun h => absurd (saReply_ok method _) h⟩

theorem set_atomic_iff {env : SaEnv} {st st' : SaState} {req : Mai} {o : Outcome}
    (hm : req.method = .set) (h : saMcMemberRecordSet env st req = .ok (st', o)) :
    Atomic st st' (saReply .set o) o.effect ↔ AtomicOk env st req := by
  have hdel : req.method = .delete → vfDropped env st req = false :=
    fun hd => by rw [hm] at hd; cases hd
  unfold saMcMemberRecordSet at h
  cases hset : validateSet env st req with
  | error e =>
    rw [hset] at h
    obtain ⟨rfl, rfl⟩ := Prod.mk.inj (Except.ok.inj h)
    have hlid : ∀ sp record groupVf args,
        validateSet env st req ≠ .ok (.create sp record groupVf args) := by
      simp [hset]
    rcases validateSet_error hset with ⟨s, rfl, hs⟩ | ⟨rfl, hdrop⟩
    · refine iff_of_true (atomic_refused_stored st hs) ⟨fun _ => ?_, ?_, hdel⟩
      · by_contra hlife
        have := validateSet_of_lifeDropped st (Bool.not_eq_false _ ▸ hlife)
        rw [hset] at this
        cases this
      · exact fun _ sp record groupVf args heq => absurd heq (hlid sp record groupVf args)
    · refine iff_of_false (not_atomic_refused st .set) (fun hok => ?_)
      rw [hok.life hm] at hdrop
      cases hdrop
  | ok a =>
    have hlife : req.method = .set → lifeDropped env req = false := by
      intro _
      by_contra hlife
      have := validateSet_of_lifeDropped st (Bool.not_eq_false _ ▸ hlife)
      rw [hset] at this
      cases this
    rw [hset] at h
    cases a with
    | join sp g =>
      obtain ⟨rfl, rfl⟩ := Prod.mk.inj (Except.ok.inj h)
      refine iff_of_true (atomic_applied st _ .set .joined) ⟨hlife, ?_, hdel⟩
      intro _ sp' record groupVf args heq
      rw [hset] at heq
      cases heq
    | create sp record groupVf args =>
      simp only [bind_eq_ok] at h
      obtain ⟨⟨pool, r⟩, hassign, h⟩ := h
      cases r with
      | ok mLid =>
        obtain ⟨rfl, rfl⟩ := Prod.mk.inj (Except.ok.inj h)
        refine iff_of_true (atomic_applied st _ .set .created) ⟨hlife, ?_, hdel⟩
        intro _ sp' record' groupVf' args' heq hbad
        rw [hset] at heq
        cases heq
        obtain ⟨p', hp', -⟩ := smMulticastAssignLid_of_leavesLidClass hbad
        rw [hassign] at hp'
        cases hp'
      | error e =>
        obtain ⟨rfl, rfl⟩ := Prod.mk.inj (Except.ok.inj h)
        by_cases hbad : leavesLidClass env.mlidTableCap st.pool st.mcGroups record.mGid args
        · refine iff_of_false (fun hatomic => ?_) (fun hok => hok.lid hm _ _ _ _ hset hbad)
          obtain ⟨p', hp', hne⟩ := smMulticastAssignLid_of_leavesLidClass hbad
          rw [hassign] at hp'
          obtain ⟨rfl, -⟩ := Prod.mk.inj (Except.ok.inj hp')
          have hsame := hatomic.2 (repliesOk_of_stored (by decide) none)
          exact hne (congrArg SaState.pool hsame)
        · have hpool := smMulticastAssignLid_error hassign hbad
          subst hpool
          refine iff_of_true (atomic_refused_stored st (by decide)) ⟨hlife, ?_, hdel⟩
          intro _ sp' record' groupVf' args' heq
          rw [hset] at heq
          cases heq
          exact hbad

theorem delete_atomic_iff {env : SaEnv} {st st' : SaState} {req : Mai} {o : Outcome}
    (hm : req.method = .delete) (h : saMcMemberRecordDelete env st req = .ok (st', o)) :
    Atomic st st' (saReply .delete o) o.effect ↔ AtomicOk env st req := by
  have hset : req.method ≠ .set := fun hs => by rw [hm] at hs; cases hs
  have hvf : (req.method = .delete → vfDropped env st req = false) → AtomicOk env st req :=
    fun hvf => ⟨fun hs => absurd hs hset, fun hs => absurd hs hset, hvf⟩
  unfold saMcMemberRecordDelete at h
  cases hdel : validateDelete env st req with
  | error e =>
    rw [hdel] at h
    obtain ⟨rfl, rfl⟩ := Prod.mk.inj (Except.ok.inj h)
    rcases validateDelete_error hdel with ⟨s, rfl, hs⟩ | ⟨rfl, hdrop⟩
    · refine iff_of_true (atomic_refused_stored st hs) (hvf fun _ => ?_)
      by_contra hvf'
      have := validateDelete_of_vfDropped (Bool.not_eq_false _ ▸ hvf')
      rw [hdel] at this
      cases this
    · refine iff_of_false (not_atomic_refused st .delete) (fun hok => ?_)
      rw [hok.vf hm] at hdrop
      cases hdrop
  | ok gm =>
    obtain ⟨g, m⟩ := gm
    have hok : AtomicOk env st req := hvf fun _ => by
      by_contra hvf'
      have := validateDelete_of_vfDropped (Bool.not_eq_false _ ▸ hvf')
      rw [hdel] at this
      cases this
    rw [hdel] at h
    simp only at h
    split at h
    · rw [bind_eq_ok] at h
      obtain ⟨pool, -, h⟩ := h
      obtain ⟨rfl, rfl⟩ := Prod.mk.inj (Except.ok.inj h)
      exact iff_of_true (atomic_applied st _ .delete .left) hok
    · obtain ⟨rfl, rfl⟩ := Prod.mk.inj (Except.ok.inj h)
      exact iff_of_true (atomic_applied st _ .delete .left) hok

/-- A request that is answered at all is answered atomically exactly when it
takes none of the three exits. -/
theorem saMcMemberRecord_atomic_iff (env : SaEnv) (st st' : SaState) (req : Mai)
    (reply : Option Reply) (effect : Option Effect)
    (h : saMcMemberRecord env st req = .ok (st', reply, effect)) :
    Atomic st st' reply effect ↔ AtomicOk env st req := by
  unfold saMcMemberRecord at h
  rw [bind_eq_ok] at h
  obtain ⟨⟨st₁, o⟩, hrun, h⟩ := h
  obtain ⟨rfl, hrest⟩ := Prod.mk.inj (Except.ok.inj h)
  obtain ⟨rfl, rfl⟩ := Prod.mk.inj hrest
  unfold saMcMemberRecordHandler at hrun
  cases hm : req.method with
  | set =>
    rw [hm] at hrun
    exact set_atomic_iff hm hrun
  | delete =>
    rw [hm] at hrun
    exact delete_atomic_iff hm hrun

theorem saMcMemberRecord_refused {env : SaEnv} {st : SaState} {req : Mai} {e : Option Nat}
    (hm : req.method = .set) (h : validateSet env st req = .error e) :
    saMcMemberRecord env st req = .ok (st, saReply .set (setDone e none), none) := by
  simp only [saMcMemberRecord, saMcMemberRecordHandler, hm, saMcMemberRecordSet, h]
  rfl

/-- Host 1's create in an empty store, with a lifetime out of range as its
components allow. -/
def shortLifeReq : Mai :=
  { createReq 1 with
    mask := CompMask.okCreate ||| CompMask.mgid ||| CompMask.okLife
    record := { (createReq 1).record with pktLifeTimeSelector := prEq, pktLifeTime := 1 } }

/-- A plain create is answered atomically. -/
theorem saMcMemberRecord_atomic_create :
    ∃ st' reply effect, saMcMemberRecord threeHosts { pool := sharedPool } (createReq 1) =
        .ok (st', reply, effect) ∧
      (Atomic { pool := sharedPool } st' reply effect ↔
        AtomicOk threeHosts { pool := sharedPool } (createReq 1)) := by
  obtain ⟨st', ⟨reply, effect⟩, hstep, -⟩ := exists_of_stepsTo
    (fun st req => saMcMemberRecord threeHosts st req) { pool := sharedPool } (createReq 1)
    (fun _ => true) (by decide +kernel)
  exact ⟨st', reply, effect, hstep,
    saMcMemberRecord_atomic_iff threeHosts _ st' (createReq 1) reply effect hstep⟩

/-- A create that asks for a lifetime of 1, below the fabric's 0x12, is answered
with status 0 and one record, and there is no group. -/
theorem saMcMemberRecord_short_life :
    ∃ st' reply effect, saMcMemberRecord threeHosts { pool := sharedPool } shortLifeReq =
        .ok (st', reply, effect) ∧ ¬ Atomic { pool := sharedPool } st' reply effect := by
  refine ⟨{ pool := sharedPool }, some ⟨madStatusOk, 1⟩, none, ?_,
    fun h => Bool.false_ne_true (h.1.mp rfl)⟩
  have hdrop : lifeDropped threeHosts shortLifeReq = true := by decide +kernel
  exact saMcMemberRecord_refused rfl (validateSet_of_lifeDropped _ hdrop)

end OpaFm.Multicast
