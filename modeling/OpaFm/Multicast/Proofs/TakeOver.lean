import OpaFm.Multicast.Mft
import OpaFm.Multicast.Proofs.LidSharing

/-!
# What a take-over keeps of the groups

The pass does its work on every group it comes to.  When the first group goes, the second becomes
the head of the list and the walk goes on behind it, so that its members are not looked at.
-/

namespace OpaFm.Multicast

open OpaFm.Lib

variable {env : SaEnv} {g : McGroup} {groups new kept rest : List McGroup}

def Counted (g : McGroup) : Prop := g.membersFull = g.mcMembers.countP McMember.stateFull

def AllLive (env : SaEnv) (g : McGroup) : Prop := ∀ m ∈ g.mcMembers, m.isStale env = false

def FullOrStale (env : SaEnv) (g : McGroup) : Prop :=
  0 < g.mcMembers.countP McMember.stateFull ∨ ¬AllLive env g

/-- The side condition: every group has a full member or a stale one, and if no full member of
the first group is left, no member of the second is stale. -/
structure NoneSkipped (env : SaEnv) (groups : List McGroup) : Prop where
  fullOrStale : ∀ g ∈ groups, FullOrStale env g
  second : ∀ g next rest, groups = g :: next :: rest →
    (∀ m ∈ g.mcMembers, m.stateFull = true → m.isStale env = true) → AllLive env next

def fullMember (slid : Nat) : McMember := { slid := slid, state := 1, portGuid := slid }

def groupOf (slids : List Nat) : McGroup :=
  { membersFull := slids.length, mcMembers := slids.map fullMember }

theorem mcGroupDelete_ok {st : SaState} {rest : List McGroup} (h : TableInv st.pool groups)
    (hperm : groups.Perm (g :: rest)) :
    ∃ st', mcGroupDelete st g = .ok st' ∧ TableInv st'.pool rest := by
  obtain ⟨p', hrun, -, hinv⟩ := smMulticastDecommisionGroup_tables h hperm
  refine ⟨{ st with pool := p', numMcGroups := st.numMcGroups - 1 }, ?_, hinv⟩
  rw [mcGroupDelete, hrun]
  rfl

theorem upMembers_same {g' : McGroup} {kept rest : List McMember}
    (h : upMembers env g kept rest = some g') : SameGroup g g' := by
  induction rest generalizing g kept with
  | nil =>
    cases h
    exact ⟨rfl, rfl, rfl, rfl, rfl, rfl⟩
  | cons m rest ih =>
    simp only [upMembers] at h
    by_cases hm : m.isStale env = true
    · rw [if_pos hm] at h
      generalize (if m.stateFull = true then dec32 g.membersFull else g.membersFull) = n at h
      split at h
      · cases h
      · split at h
        · cases h
        · have hsame := ih h
          exact ⟨hsame.mGid, hsame.pKey, hsame.mtu, hsame.rate, hsame.mLid, hsame.vfMembers⟩
    · rw [if_neg hm] at h
      exact ih h

theorem TableInv.same {p : McPool} {g' : McGroup} (h : TableInv p (kept ++ g :: rest))
    (hsame : SameGroup g g') : TableInv p (kept ++ [g'] ++ rest) := by
  rw [List.append_assoc, List.singleton_append]
  constructor
  · rw [hsame.carriers]
    exact h.classes
  · intro g₁ hg₁
    have hmem : g₁ ∈ kept ∨ g₁ = g' ∨ g₁ ∈ rest := by simpa using hg₁
    rcases hmem with hk | rfl | hr
    · exact h.unmarked g₁ (by simp [hk])
    · rw [hsame.mLid]
      exact h.unmarked g (by simp)
    · exact h.unmarked g₁ (by simp [hr])

theorem TableInv.same_head {p : McPool} {g' : McGroup} (h : TableInv p (g :: rest))
    (hsame : SameGroup g g') : TableInv p ([g'] ++ rest) := by
  have hnil : TableInv p ([] ++ g :: rest) := h
  exact hnil.same hsame

theorem upGroups_ok {st : SaState} (hkept : kept ≠ []) (h : TableInv st.pool (kept ++ rest)) :
    ∃ st', upGroups env st kept rest = .ok st' ∧ TableInv st'.pool st'.mcGroups := by
  induction rest generalizing st kept with
  | nil => exact ⟨{ st with mcGroups := kept }, rfl, by simpa using h⟩
  | cons g rest ih =>
    rw [upGroups]
    cases hg : upGroup env g with
    | some g' => exact ih (by simp) (h.same (upMembers_same hg))
    | none =>
      obtain ⟨st₁, hdel, hinv⟩ := mcGroupDelete_ok h List.perm_middle
      simp only [hdel, Except.bind]
      cases kept with
      | nil => exact absurd rfl hkept
      | cons p ps => exact ih hkept hinv

/-- The pass comes to its end, and the pool counts the groups that are left. -/
theorem smDbsyncUpsmlist_ok {st : SaState} (h : TableInv st.pool st.mcGroups) :
    ∃ st', smDbsyncUpsmlist env st = .ok st' ∧ TableInv st'.pool st'.mcGroups := by
  rw [smDbsyncUpsmlist]
  cases hgroups : st.mcGroups with
  | nil =>
    rw [hgroups] at h
    exact ⟨{ st with mcGroups := [] }, rfl, h⟩
  | cons g rest =>
    rw [hgroups] at h
    rw [upGroups]
    cases hg : upGroup env g with
    | some g' => exact upGroups_ok (by simp) (h.same_head (upMembers_same hg))
    | none =>
      obtain ⟨st₁, hdel, hinv⟩ := mcGroupDelete_ok h (List.Perm.refl _)
      simp only [hdel, Except.bind]
      cases rest with
      | nil => exact ⟨{ st₁ with mcGroups := [] }, rfl, hinv⟩
      | cons next rest' => exact upGroups_ok (by simp) hinv

def canAssign (s : PoolState) : PoolOp → Bool
  | .assign g =>
    let c := assignClass s g
    c.currentLids < c.maximumLids ||
      ((getLidClass c g.pKey g.mtu g.rate).all fun l =>
        0 < l.lidsUsed ∧ (l.lids 0).usageCount < 0xFFFF)
  | .decommision _ => true

theorem poolStepOk_of_canAssign (s : PoolState) (op : PoolOp) (h : canAssign s op = true) :
    PoolStepOk s op := by
  cases op with
  | decommision pos => trivial
  | assign g =>
    intro _ hfull l hl
    unfold canAssign at h
    rw [Bool.or_eq_true, decide_eq_true_eq] at h
    have hall := h.resolve_left (Nat.not_lt.mpr hfull)
    rw [hl] at hall
    exact of_decide_eq_true hall

/-- Three groups share the only MLID of the pool.  The first has lost its port. -/
theorem smDbsyncUpsmlist_ok_three : ∃ s : PoolState,
    (s.groups.map McGroup.mLid = [0xC000, 0xC000, 0xC000] ∧
      s.groups.map (fun g => g.mcMembers.map McMember.slid) = [[7], [1], [2, 8]]) ∧
      ∃ st', smDbsyncUpsmlist threeHosts
          { pool := s.pool, mcGroups := s.groups, numMcGroups := 3 } = .ok st' ∧
        TableInv st'.pool st'.mcGroups := by
  have hrun : checkedRun (poolStep sixteenLids) canAssign
      (fun s => s.groups.map McGroup.mLid = [0xC000, 0xC000, 0xC000] ∧
        s.groups.map (fun g => g.mcMembers.map McMember.slid) = [[7], [1], [2, 8]])
      ⟨oneLidConfig.initial, []⟩
      [.assign (groupOf [2, 8]), .assign (groupOf [1]), .assign (groupOf [7])] = true := by
    decide +kernel
  obtain ⟨s, hreach, htest⟩ := exists_reach_of_checkedRun poolStepOk_of_canAssign .start hrun
  exact ⟨s, of_decide_eq_true htest, smDbsyncUpsmlist_ok (poolInv_of_reach hreach).tables⟩

end OpaFm.Multicast
