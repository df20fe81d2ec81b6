import OpaFm.Fabric.LidMap
import OpaFm.Fabric.Proofs.LidMap

/-!
# A check that fails

On whole entries the loops change what they change on `LidMap`.  A check that fails has
to give back every LID, and the pointers with it; it does when it has not taken one.
-/

namespace OpaFm.Fabric

namespace LidTable

variable {ν π : Type}

open LidMap (lids mem_lids lids_sorted)

/-! ## The owners alone -/

def forget (h : LidMap) (t : LidTable ν π) : LidMap :=
  { h with guid := fun l => (t.entry l).guid, guidToLid := t.guidToLid }

variable (h : LidMap) (t : LidTable ν π)

@[simp] theorem forget_guid (l : Nat) : (t.forget h).guid l = (t.entry l).guid := rfl

theorem entry_modify (lid l : Nat) (f : LidEntry ν π → LidEntry ν π) :
    (t.modify lid f).entry l = if l = lid then f (t.entry l) else t.entry l := by
  unfold modify
  by_cases hl : l = lid
  · subst hl
    rw [if_pos rfl]
    exact Function.update_self l _ _
  · rw [if_neg hl]
    exact Function.update_of_ne hl _ _

theorem forget_modify (lid guid : Nat) (f : LidEntry ν π → LidEntry ν π)
    (hf : ∀ e, (f e).guid = guid) : (t.modify lid f).forget h = (t.forget h).put lid guid := by
  apply LidMap.ext
  · ext l
    rw [forget_guid, entry_modify]
    by_cases hl : l = lid
    · subst hl
      rw [if_pos rfl, hf]
      simp [LidMap.put]
    · rw [if_neg hl]
      simp [LidMap.put, hl]
  all_goals rfl

theorem forget_assignLids (owner : LidEntry ν π) (ls : List Nat) :
    LidMap.assignLids owner.guid ls (t.forget h) =
      ((assignLids owner ls t).1.forget h, (assignLids owner ls t).2) := by
  induction ls generalizing t with
  | nil => rfl
  | cons lid ls ih =>
    unfold assignLids LidMap.assignLids
    rw [forget_guid]
    by_cases hfree : (t.entry lid).guid = 0
    · rw [if_pos hfree, if_pos hfree, ← ih]
      congr 1
      symm
      apply forget_modify
      exact fun _ => rfl
    · rw [if_neg hfree, if_neg hfree]
      by_cases hown : (t.entry lid).guid ≠ owner.guid
      · rw [if_pos hown, if_pos hown]
      · rw [if_neg hown, if_neg hown, ih]

/-! ## Whole entries -/

variable {t}

def Cleared (t : LidTable ν π) (guid : Nat) (ls : List Nat) (l : Nat) : Prop :=
  l ∈ ls ∧ l ≤ unicastLidMax ∧ (t.entry l).guid = guid

theorem cleared_cons {guid lid l : Nat} {ls : List Nat} (hl : l ≠ lid) :
    t.Cleared guid (lid :: ls) l ↔ t.Cleared guid ls l :=
  and_congr_left fun _ => ⟨fun h => (List.mem_cons.mp h).resolve_left hl, List.mem_cons_of_mem _⟩

theorem cleared_turn {base guid lid : Nat} {ls : List Nat} (hnot : lid ∉ ls) (x : Nat) :
    ((t.modify lid .free).modify base .unpoint).Cleared guid ls x ↔ t.Cleared guid ls x := by
  apply and_congr_right
  intro hx
  rw [entry_modify, entry_modify, if_neg fun h : x = lid => hnot (h ▸ hx)]
  split <;> rfl

theorem not_cleared_of_gt {guid lid : Nat} {ls : List Nat} (hlt : ∀ l ∈ ls, lid < l)
    (hmax : lid > unicastLidMax) (x : Nat) : ¬t.Cleared guid (lid :: ls) x := by
  rintro ⟨hx, hle, -⟩
  rcases List.mem_cons.mp hx with rfl | hin
  · omega
  · have := hlt x hin
    omega

theorem clearLids_idle (base guid : Nat) (ls : List Nat) (hidle : ∀ x, ¬t.Cleared guid ls x) :
    clearLids base guid ls t = t := by
  induction ls with
  | nil => rfl
  | cons lid ls ih =>
    unfold clearLids
    by_cases hmax : lid > unicastLidMax
    · rw [if_pos hmax]
    · rw [if_neg hmax, if_neg (fun hg => hidle lid ⟨List.mem_cons_self, by omega, hg⟩)]
      apply ih
      exact fun x hx => hidle x ⟨List.mem_cons_of_mem _ hx.1, hx.2⟩

open Classical in
theorem clearLids_of_ne (base guid : Nat) (ls : List Nat) (hsorted : ls.Pairwise (· < ·)) {l : Nat}
    (hl : l ≠ base) :
    (clearLids base guid ls t).entry l =
      if t.Cleared guid ls l then (t.entry l).free else t.entry l := by
  induction ls generalizing t with
  | nil =>
    rw [if_neg (fun h => absurd h.1 List.not_mem_nil)]
    rfl
  | cons lid ls ih =>
    obtain ⟨hlt, hsorted'⟩ := List.pairwise_cons.mp hsorted
    unfold clearLids
    by_cases hmax : lid > unicastLidMax
    · rw [if_pos hmax, if_neg (not_cleared_of_gt hlt hmax l)]
    · have hnot : lid ∉ ls := fun h => lt_irrefl lid (hlt lid h)
      rw [if_neg hmax, ih hsorted']
      by_cases hg : (t.entry lid).guid = guid
      · rw [if_pos hg, entry_modify, if_neg hl, entry_modify]
        simp only [cleared_turn hnot]
        by_cases heq : l = lid
        · subst heq
          rw [if_pos rfl, if_neg (fun h => hnot h.1), if_pos ⟨List.mem_cons_self, by omega, hg⟩]
        · rw [if_neg heq]
          simp only [cleared_cons heq]
      · rw [if_neg hg]
        by_cases heq : l = lid
        · subst heq
          rw [if_neg (fun h => hg h.2.2), if_neg (fun h => hg h.2.2)]
        · simp only [cleared_cons heq]

open Classical in
theorem clearLids_base (base guid : Nat) (ls : List Nat) (hsorted : ls.Pairwise (· < ·))
    (hsome : ∃ x, t.Cleared guid ls x) :
    (clearLids base guid ls t).entry base =
      (if t.Cleared guid ls base then (t.entry base).free else t.entry base).unpoint := by
  induction ls generalizing t with
  | nil => exact hsome.elim fun x hx => absurd hx.1 List.not_mem_nil
  | cons lid ls ih =>
    obtain ⟨hlt, hsorted'⟩ := List.pairwise_cons.mp hsorted
    unfold clearLids
    by_cases hmax : lid > unicastLidMax
    · exact hsome.elim fun x hx => absurd hx (not_cleared_of_gt hlt hmax x)
    · have hnot : lid ∉ ls := fun h => lt_irrefl lid (hlt lid h)
      rw [if_neg hmax]
      by_cases hg : (t.entry lid).guid = guid
      · rw [if_pos hg]
        have hentry : ((t.modify lid .free).modify base .unpoint).entry base =
            (if base = lid then (t.entry base).free else t.entry base).unpoint := by
          rw [entry_modify, if_pos rfl, entry_modify]
        have hlid : base = lid → t.Cleared guid (lid :: ls) base := by
          rintro rfl
          exact ⟨List.mem_cons_self, by omega, hg⟩
        have hcleared : t.Cleared guid (lid :: ls) base ↔ base = lid ∨ t.Cleared guid ls base := by
          by_cases heq : base = lid
          · exact ⟨fun _ => .inl heq, fun _ => hlid heq⟩
          · rw [cleared_cons heq, or_iff_right heq]
        by_cases hrest : ∃ x, t.Cleared guid ls x
        · rw [ih hsorted' (hrest.imp fun x hx => (cleared_turn hnot x).mpr hx), hentry]
          simp only [cleared_turn hnot, hcleared]
          by_cases heq : base = lid
          · have hc : ¬t.Cleared guid ls base := fun h => hnot (heq ▸ h.1)
            rw [if_neg hc, if_pos heq, if_pos (.inl heq)]
            rfl
          · rw [if_neg heq]
            by_cases hc : t.Cleared guid ls base
            · rw [if_pos hc, if_pos (.inr hc)]
              rfl
            · rw [if_neg hc, if_neg (not_or.mpr ⟨heq, hc⟩)]
              rfl
        · rw [clearLids_idle _ _ _ fun x hx => hrest ⟨x, (cleared_turn hnot x).mp hx⟩, hentry]
          simp only [hcleared, or_iff_left fun h => hrest ⟨base, h⟩]
      · rw [if_neg hg]
        have hsame : ∀ x, t.Cleared guid (lid :: ls) x ↔ t.Cleared guid ls x := by
          intro x
          by_cases heq : x = lid
          · subst heq
            exact ⟨fun h => absurd h.2.2 hg, fun h => absurd h.2.2 hg⟩
          · exact cleared_cons heq
        simp only [hsame] at hsome ⊢
        exact ih hsorted' hsome

def Taken (t : LidTable ν π) (guid : Nat) (ls : List Nat) (l : Nat) : Prop :=
  (t.entry l).guid = 0 ∧ l ∈ ls ∧ ∀ x ∈ ls, x < l → (t.entry x).guid = 0 ∨ (t.entry x).guid = guid

open Classical in
theorem assignLids_entry (owner : LidEntry ν π) (ls : List Nat) (hsorted : ls.Pairwise (· < ·))
    (l : Nat) :
    (assignLids owner ls t).1.entry l =
      if t.Taken owner.guid ls l then owner else t.entry l := by
  induction ls generalizing t with
  | nil =>
    rw [if_neg (fun h => absurd h.2.1 List.not_mem_nil)]
    rfl
  | cons lid ls ih =>
    obtain ⟨hlt, hsorted'⟩ := List.pairwise_cons.mp hsorted
    have hnot : lid ∉ ls := fun h => lt_irrefl lid (hlt lid h)
    -- behind an entry that fits, what is taken does not depend on it
    have hcons : (t.entry lid).guid = 0 ∨ (t.entry lid).guid = owner.guid → l ≠ lid →
        (t.Taken owner.guid (lid :: ls) l ↔ t.Taken owner.guid ls l) := by
      intro hfits hl
      unfold Taken
      rw [List.mem_cons, or_iff_right hl, List.forall_mem_cons]
      exact and_congr_right fun _ => and_congr_right fun _ => and_iff_right fun _ => hfits
    unfold assignLids
    by_cases hfree : (t.entry lid).guid = 0
    · have hturn : ∀ x, x ∈ ls → (t.modify lid fun _ => owner).entry x = t.entry x := by
        intro x hx
        rw [entry_modify, if_neg fun h : x = lid => hnot (h ▸ hx)]
      have hsame : (t.modify lid fun _ => owner).Taken owner.guid ls l ↔
          t.Taken owner.guid ls l := by
        unfold Taken
        by_cases hin : l ∈ ls
        · rw [hturn l hin]
          apply and_congr_right
          exact fun _ => and_congr_right fun _ => forall₂_congr fun x hx => by rw [hturn x hx]
        · exact ⟨fun h => absurd h.2.1 hin, fun h => absurd h.2.1 hin⟩
      rw [if_pos hfree, ih hsorted', entry_modify]
      simp only [hsame]
      by_cases hl : l = lid
      · subst hl
        have htaken : t.Taken owner.guid (l :: ls) l := by
          refine ⟨hfree, List.mem_cons_self, ?_⟩
          intro x hx hxl
          rcases List.mem_cons.mp hx with rfl | hin
          · omega
          · have := hlt x hin
            omega
        rw [if_neg (fun h => hnot h.2.1), if_pos rfl, if_pos htaken]
      · rw [if_neg hl]
        simp only [hcons (.inl hfree) hl]
    · rw [if_neg hfree]
      by_cases hown : (t.entry lid).guid ≠ owner.guid
      · rw [if_pos hown, if_neg]
        rintro ⟨hzero, hin, hbefore⟩
        rcases List.mem_cons.mp hin with rfl | hin
        · exact hfree hzero
        · exact (hbefore lid List.mem_cons_self (hlt l hin)).elim hfree hown
      · rw [if_neg hown, ih hsorted']
        by_cases hl : l = lid
        · subst hl
          rw [if_neg (fun h => hnot h.2.1), if_neg (fun h => hfree h.1)]
        · simp only [hcons (.inr (not_not.mp hown)) hl]

theorem assignLids_ok (owner : LidEntry ν π) (ls : List Nat) :
    (assignLids owner ls t).2 = true ↔
      ∀ x ∈ ls, (t.entry x).guid = 0 ∨ (t.entry x).guid = owner.guid := by
  have hforget := t.forget_assignLids
    { guid := fun _ => 0, guidToLid := fun _ => none, lmc0FreeLidHint := none,
      lmcE0FreeLidHint := none, lmcFreeLidHint := none } owner ls
  rw [LidMap.assignLids_eq] at hforget
  rw [← congrArg Prod.snd hforget, List.all_eq_true]
  exact forall₂_congr fun x _ => decide_eq_true_iff

/-! ## Giving back -/

/-- What a check that has failed leaves of the GUID: no entry of it, no change of another's, and
no pointer in a free one. -/
structure FailedClean (t t' : LidTable ν π) (guid : Nat) : Prop where
  disowned : ∀ l ≤ unicastLidMax, (t'.entry l).guid ≠ guid
  others : ∀ l ≤ unicastLidMax, (t.entry l).guid ≠ 0 → (t.entry l).guid ≠ guid →
    t'.entry l = t.entry l
  unpointed : ∀ l ≤ unicastLidMax, (t'.entry l).guid = 0 → (t'.entry l).newNodep = none

/-- `sm_clear_lid` gives all back that a GUID has and all of `taken`: it has its LIDs in `ls`, and
no pointer is left but at `base`. -/
structure GivesBack (t : LidTable ν π) (guid base : Nat) (ls : List Nat) (taken : Nat → Prop) :
    Prop where
  owned : ∀ l ≤ unicastLidMax, (t.entry l).guid = guid →
    l ∈ ls ∧ (l ≠ base → (t.entry l).newNodep = none)
  free : ∀ l ≤ unicastLidMax, (t.entry l).guid = 0 → l ≠ base → (t.entry l).newNodep = none
  only_base : ∀ l, taken l → l = base
  base_free : (t.entry base).guid = 0 →
    (t.entry base).newNodep = none ∨ taken base ∨ ∃ x, t.Cleared guid ls x
  base_other : (t.entry base).guid ≠ 0 → (t.entry base).guid ≠ guid →
    (∃ x, t.Cleared guid ls x) →
    (t.entry base).newNodep = none ∧ (t.entry base).newPortp = none

theorem failedClean_qmapRemove {t' : LidTable ν π} {guid g : Nat} :
    FailedClean t (t'.qmapRemove g) guid ↔ FailedClean t t' guid :=
  ⟨fun h => ⟨h.disowned, h.others, h.unpointed⟩, fun h => ⟨h.disowned, h.others, h.unpointed⟩⟩

theorem unpoint_eq_self {e : LidEntry ν π} :
    e.unpoint = e ↔ e.newNodep = none ∧ e.newPortp = none := by
  constructor
  · intro h
    exact ⟨(congrArg LidEntry.newNodep h).symm, (congrArg LidEntry.newPortp h).symm⟩
  · rintro ⟨hnode, hport⟩
    exact LidEntry.ext rfl rfl hnode.symm hport.symm

section

variable {t₁ : LidTable ν π} {owner : LidEntry ν π} {base : Nat} {ls : List Nat} {taken : Nat → Prop}
  (hguid : owner.guid ≠ 0) (hnode : owner.newNodep ≠ none) (hbase : base ∈ ls)
  (hmax : base ≤ unicastLidMax) (hsorted : ls.Pairwise (· < ·))
  (hfree : ∀ l, taken l → (t.entry l).guid = 0 ∧ l ≤ unicastLidMax)
  (htaken : ∀ l, taken l → t₁.entry l = owner) (hkept : ∀ l, ¬taken l → t₁.entry l = t.entry l)

include htaken hkept in
theorem cleared_taken (ls : List Nat) (l : Nat) :
    t₁.Cleared owner.guid ls l ↔
      l ∈ ls ∧ l ≤ unicastLidMax ∧ (taken l ∨ (t.entry l).guid = owner.guid) := by
  apply and_congr_right
  intro _
  apply and_congr_right
  intro _
  by_cases h : taken l
  · rw [htaken l h]
    exact ⟨fun _ => .inl h, fun _ => rfl⟩
  · rw [hkept l h, or_iff_right h]

include hguid hnode hbase hmax hsorted hfree htaken hkept in
theorem givesBack_of_clean (hclean : FailedClean t (clearLids base owner.guid ls t₁) owner.guid) :
    GivesBack t owner.guid base ls taken := by
  have hcleared := cleared_taken htaken hkept ls
  have hnot : ∀ l, taken l → (t.entry l).guid ≠ owner.guid := by
    intro l hl heq
    exact hguid (heq ▸ (hfree l hl).1)
  have hin : ∀ l ≤ unicastLidMax, taken l ∨ (t.entry l).guid = owner.guid → l ∈ ls := by
    intro l hl hown
    by_contra hout
    have hne : l ≠ base := fun h => hout (h ▸ hbase)
    apply hclean.disowned l hl
    rw [clearLids_of_ne _ _ _ hsorted hne, if_neg (fun h => hout h.1)]
    rcases hown with hown | hown
    · rw [htaken l hown]
    · rw [hkept l fun h => hnot l h hown, hown]
  have hfreed : ∀ l ≤ unicastLidMax, l ≠ base → taken l ∨ (t.entry l).guid = owner.guid →
      (t₁.entry l).newNodep = none := by
    intro l hl hne hown
    have hentry := clearLids_of_ne base owner.guid ls hsorted hne (t := t₁)
    rw [if_pos ((hcleared l).mpr ⟨hin l hl hown, hl, hown⟩)] at hentry
    have hzero := hclean.unpointed l hl
    rw [hentry] at hzero
    exact hzero rfl
  have honly : ∀ l, taken l → l = base := by
    intro l hl
    by_contra hne
    have hnone := hfreed l (hfree l hl).2 hne (.inl hl)
    rw [htaken l hl] at hnone
    exact hnode hnone
  constructor
  · intro l hl hown
    refine ⟨hin l hl (.inr hown), fun hne => ?_⟩
    rw [← hkept l fun h => hnot l h hown]
    exact hfreed l hl hne (.inr hown)
  · intro l hl hzero hne
    have hentry := clearLids_of_ne base owner.guid ls hsorted hne (t := t₁)
    have hkeep := hkept l fun h => hne (honly l h)
    rw [if_neg, hkeep] at hentry
    · have hnone := hclean.unpointed l hl
      rw [hentry] at hnone
      exact hnone hzero
    · intro h
      have := h.2.2
      rw [hkeep, hzero] at this
      exact hguid this.symm
  · exact honly
  · intro hzero
    by_contra hno
    rw [not_or, not_or] at hno
    obtain ⟨hpointed, hnotbase, hnone⟩ := hno
    have hidle : ∀ x, ¬t₁.Cleared owner.guid ls x := by
      intro x hx
      obtain ⟨hxin, hxmax, hxown⟩ := (hcleared x).mp hx
      rcases hxown with hxown | hxown
      · exact hnotbase (honly x hxown ▸ hxown)
      · exact hnone ⟨x, hxin, hxmax, hxown⟩
    have hunpointed := hclean.unpointed base hmax
    rw [clearLids_idle _ _ _ hidle, hkept base hnotbase] at hunpointed
    exact hpointed (hunpointed hzero)
  · intro hzero hother hsome
    have hkeep := hkept base fun h => hzero (hfree base h).1
    have hentry := clearLids_base base owner.guid ls hsorted (t := t₁)
      (hsome.imp fun x hx => (hcleared x).mpr ⟨hx.1, hx.2.1, .inr hx.2.2⟩)
    rw [if_neg (fun h => hother (hkeep ▸ h.2.2)), hkeep, hclean.others base hmax hzero hother]
      at hentry
    exact unpoint_eq_self.mp hentry.symm

include hbase hmax hsorted htaken hkept in
theorem clearLids_base_cases :
    ((taken base ∨ (t.entry base).guid = owner.guid) ∧
      (clearLids base owner.guid ls t₁).entry base = (t₁.entry base).free.unpoint) ∨
    (¬taken base ∧ (t.entry base).guid ≠ owner.guid ∧
      ((∃ x, t₁.Cleared owner.guid ls x) ∧
          (clearLids base owner.guid ls t₁).entry base = (t.entry base).unpoint ∨
        (∀ x, ¬t₁.Cleared owner.guid ls x) ∧
          (clearLids base owner.guid ls t₁).entry base = t.entry base)) := by
  have hcleared := cleared_taken htaken hkept ls base
  by_cases hown : taken base ∨ (t.entry base).guid = owner.guid
  · have hc := hcleared.mpr ⟨hbase, hmax, hown⟩
    left
    rw [clearLids_base _ _ _ hsorted ⟨base, hc⟩, if_pos hc]
    exact ⟨hown, rfl⟩
  · have hc : ¬t₁.Cleared owner.guid ls base := fun h => hown (hcleared.mp h).2.2
    right
    refine ⟨(not_or.mp hown).1, (not_or.mp hown).2, ?_⟩
    by_cases hsome : ∃ x, t₁.Cleared owner.guid ls x
    · left
      rw [clearLids_base _ _ _ hsorted hsome, if_neg hc, hkept base (not_or.mp hown).1]
      exact ⟨hsome, rfl⟩
    · right
      rw [clearLids_idle _ _ _ (not_exists.mp hsome), hkept base (not_or.mp hown).1]
      exact ⟨not_exists.mp hsome, rfl⟩

include hguid hbase hmax hsorted hfree htaken hkept in
theorem clean_of_givesBack (hback : GivesBack t owner.guid base ls taken) :
    FailedClean t (clearLids base owner.guid ls t₁) owner.guid := by
  have hcleared := cleared_taken htaken hkept ls
  have hbaseCases := clearLids_base_cases hbase hmax hsorted htaken hkept
  have hentry : ∀ l, l ≠ base → (l ∈ ls ∧ l ≤ unicastLidMax ∧ (t.entry l).guid = owner.guid ∧
      (clearLids base owner.guid ls t₁).entry l = (t.entry l).free) ∨
      (¬(l ∈ ls ∧ l ≤ unicastLidMax ∧ (t.entry l).guid = owner.guid) ∧
      (clearLids base owner.guid ls t₁).entry l = t.entry l) := by
    intro l hne
    have hnot : ¬taken l := fun h => hne (hback.only_base l h)
    have hcl := hcleared l
    rw [or_iff_right hnot] at hcl
    rw [clearLids_of_ne _ _ _ hsorted hne, hkept l hnot]
    by_cases hc : t₁.Cleared owner.guid ls l
    · rw [if_pos hc]
      exact .inl ⟨(hcl.mp hc).1, (hcl.mp hc).2.1, (hcl.mp hc).2.2, rfl⟩
    · rw [if_neg hc]
      exact .inr ⟨fun h => hc (hcl.mpr h), rfl⟩
  constructor
  · intro l hl
    by_cases hne : l = base
    · subst hne
      rcases hbaseCases with ⟨-, h⟩ | ⟨-, hother, ⟨-, h⟩ | ⟨-, h⟩⟩
      · rw [h]
        exact hguid.symm
      · rw [h]
        exact hother
      · rw [h]
        exact hother
    · rcases hentry l hne with ⟨-, -, -, h⟩ | ⟨hno, h⟩
      · rw [h]
        exact hguid.symm
      · rw [h]
        exact fun hown => hno ⟨(hback.owned l hl hown).1, hl, hown⟩
  · intro l hl hzero hother
    by_cases hne : l = base
    · subst hne
      rcases hbaseCases with ⟨hown, -⟩ | ⟨-, -, ⟨⟨x, hx⟩, h⟩ | ⟨-, h⟩⟩
      · exact (hown.elim (fun h => hzero (hfree l h).1) hother).elim
      · obtain ⟨hxin, hxmax, hxown⟩ := (hcleared x).mp hx
        have hxother : (t.entry x).guid = owner.guid := by
          apply hxown.resolve_left
          intro hxt
          exact hzero (hback.only_base x hxt ▸ (hfree x hxt).1)
        rw [h]
        exact unpoint_eq_self.mpr (hback.base_other hzero hother ⟨x, hxin, hxmax, hxother⟩)
      · exact h
    · rcases hentry l hne with ⟨-, -, hown, -⟩ | ⟨-, h⟩
      · exact absurd hown hother
      · exact h
  · intro l hl
    by_cases hne : l = base
    · subst hne
      rcases hbaseCases with ⟨-, h⟩ | ⟨hnot, -, ⟨-, h⟩ | ⟨hidle, h⟩⟩
      · rw [h]
        exact fun _ => rfl
      · rw [h]
        exact fun _ => rfl
      · rw [h]
        intro hzero
        rcases hback.base_free hzero with hnone | htk | ⟨x, hx⟩
        · exact hnone
        · exact absurd htk hnot
        · exact absurd ((hcleared x).mpr ⟨hx.1, hx.2.1, .inr hx.2.2⟩) (hidle x)
    · rcases hentry l hne with ⟨-, -, hown, h⟩ | ⟨-, h⟩
      · rw [h]
        exact fun _ => (hback.owned l hl hown).2 hne
      · rw [h]
        exact fun hzero => hback.free l hl hzero hne

include hmax hsorted hfree htaken hkept in
theorem clean_iff_zero (hzero : owner.guid = 0) :
    FailedClean t (clearLids base owner.guid ls t₁) owner.guid ↔
      ∀ l ≤ unicastLidMax, (t.entry l).guid ≠ 0 := by
  constructor
  · intro hclean l hl hfreeEntry
    have hfirst : (t₁.entry l).guid = 0 := by
      by_cases h : taken l
      · rw [htaken l h, hzero]
      · rw [hkept l h, hfreeEntry]
    apply hclean.disowned l hl
    rw [hzero]
    by_cases hne : l = base
    · subst hne
      by_cases hsome : ∃ x, t₁.Cleared 0 ls x
      · rw [clearLids_base _ _ _ hsorted hsome]
        split
        · rfl
        · exact hfirst
      · rw [clearLids_idle _ _ _ (not_exists.mp hsome), hfirst]
    · rw [clearLids_of_ne _ _ _ hsorted hne]
      split
      · rfl
      · exact hfirst
  · intro hfull
    have hnot : ∀ l, ¬taken l := fun l h => hfull l (hfree l h).2 (hfree l h).1
    have hidle : ∀ x, ¬t₁.Cleared owner.guid ls x := by
      rintro x ⟨-, hx, hown⟩
      rw [hkept x (hnot x), hzero] at hown
      exact hfull x hx hown
    rw [clearLids_idle _ _ _ hidle, hzero]
    constructor
    · intro l hl
      rw [hkept l (hnot l)]
      exact hfull l hl
    · exact fun l _ _ _ => hkept l (hnot l)
    · intro l hl h
      rw [hkept l (hnot l)] at h
      exact absurd h (hfull l hl)

include hnode hbase hmax hsorted hfree htaken hkept in
theorem clean_iff_givesBack :
    FailedClean t (clearLids base owner.guid ls t₁) owner.guid ↔
      (owner.guid = 0 → ∀ l ≤ unicastLidMax, (t.entry l).guid ≠ 0) ∧
        GivesBack t owner.guid base ls taken := by
  by_cases hzero : owner.guid = 0
  · rw [clean_iff_zero hmax hsorted hfree htaken hkept hzero]
    constructor
    · intro hfull
      refine ⟨fun _ => hfull, ?_⟩
      rw [hzero]
      constructor
      · exact fun l hl h => absurd h (hfull l hl)
      · exact fun l hl h => absurd h (hfull l hl)
      · exact fun l h => absurd (hfree l h).1 (hfull l (hfree l h).2)
      · exact fun h => absurd h (hfull base hmax)
      · exact fun _ _ ⟨x, hx⟩ => absurd hx.2.2 (hfull x hx.2.1)
    · exact fun h => h.1 hzero
  · constructor
    · intro hclean
      exact ⟨fun h => absurd h hzero,
        givesBack_of_clean hzero hnode hbase hmax hsorted hfree htaken hkept hclean⟩
    · exact fun h => clean_of_givesBack hzero hbase hmax hsorted hfree htaken hkept h.2

end

/-! ## The check -/

def Collides (t : LidTable ν π) (p : LidPort) (newLmc : Nat) : Prop :=
  ∃ l ∈ lids p.lid (2 ^ newLmc), (t.entry l).guid ≠ 0 ∧ (t.entry l).guid ≠ p.guid

def CheckFails (cfg : LidConfig) (t : LidTable ν π) (p : LidPort) (newLmc : Nat) : Prop :=
  p.lid < unicastLidMin ∨ p.lid > unicastLidMax ∨
    (t.suitable cfg p newLmc = true → t.Collides p newLmc)

/-- When a check that fails leaves nothing behind.  A port with a LID out of range must have
none.  Any other must have its LIDs in the range of its LMC with no pointers but at the base LID;
no free LID other than the base LID may stand before the one that belongs to another port; and
the base LID has no pointers to lose where it is another port's. -/
def CleanWhen (cfg : LidConfig) (t : LidTable ν π) (p : LidPort) (newLmc : Nat) : Prop :=
  (p.guid = 0 → ∀ l ≤ unicastLidMax, (t.entry l).guid ≠ 0) ∧
    if p.lid < unicastLidMin ∨ p.lid > unicastLidMax then
      ∀ l ≤ unicastLidMax, (t.entry l).guid ≠ p.guid ∧
        ((t.entry l).guid = 0 → (t.entry l).newNodep = none)
    else
      GivesBack t p.guid p.lid (lids p.lid (2 ^ p.lmc)) fun l =>
        t.suitable cfg p newLmc = true ∧ t.Taken p.guid (lids p.lid (2 ^ newLmc)) l

theorem suitable_top {cfg : LidConfig} {p : LidPort} {newLmc : Nat}
    (h : t.suitable cfg p newLmc = true) : p.lid + 2 ^ newLmc ≤ unicastLidMax + 1 := by
  simp only [suitable, decide_eq_true_eq] at h
  exact h.2.2

theorem not_collides {p : LidPort} {newLmc : Nat} :
    (∀ x ∈ lids p.lid (2 ^ newLmc), (t.entry x).guid = 0 ∨ (t.entry x).guid = p.guid) ↔
      ¬t.Collides p newLmc := by
  unfold Collides
  constructor
  · rintro hfits ⟨x, hx, hzero, hother⟩
    exact (hfits x hx).elim hzero hother
  · intro hno x hx
    by_contra h
    exact hno ⟨x, hx, (not_or.mp h).1, (not_or.mp h).2⟩

theorem base_mem (lid lmc : Nat) : lid ∈ lids lid (2 ^ lmc) :=
  mem_lids.mpr ⟨Nat.le_refl lid, Nat.lt_add_of_pos_right (Nat.two_pow_pos lmc)⟩

/-- A check that fails is clean exactly under `CleanWhen`. -/
theorem smCheckLid_clean_iff (cfg : LidConfig) (topologyPasscount : Nat) (t : LidTable ν π)
    (nodep : ν) (portp : π) (p : LidPort) (newLmc : Nat) :
    ((t.smCheckLid cfg topologyPasscount nodep portp p newLmc).1 = reservedLid →
        FailedClean t (t.smCheckLid cfg topologyPasscount nodep portp p newLmc).2.2 p.guid) ↔
      (CheckFails cfg t p newLmc → CleanWhen cfg t p newLmc) := by
  unfold smCheckLid CheckFails CleanWhen
  by_cases hrange : p.lid < unicastLidMin ∨ p.lid > unicastLidMax
  · rw [if_pos hrange, if_pos hrange]
    have hfails : p.lid < unicastLidMin ∨ p.lid > unicastLidMax ∨
        (t.suitable cfg p newLmc = true → t.Collides p newLmc) := by
      rw [← or_assoc]
      exact .inl hrange
    rw [forall_prop_of_true rfl, forall_prop_of_true hfails]
    constructor
    · intro hclean
      refine ⟨fun hzero l hl => hzero ▸ hclean.disowned l hl, fun l hl => ?_⟩
      exact ⟨hclean.disowned l hl, hclean.unpointed l hl⟩
    · rintro ⟨-, hnone⟩
      exact ⟨fun l hl => (hnone l hl).1, fun _ _ _ _ => rfl, fun l hl => (hnone l hl).2⟩
  · rw [if_neg hrange, if_neg hrange]
    rw [← or_assoc, or_iff_right hrange]
    have hmax : p.lid ≤ unicastLidMax := Nat.le_of_not_gt (not_or.mp hrange).2
    have hmin : p.lid ≠ reservedLid := by
      have := (not_or.mp hrange).1
      unfold unicastLidMin at this
      unfold reservedLid
      omega
    by_cases hs : t.suitable cfg p newLmc = true
    · rw [hs, Bool.not_true, if_neg Bool.false_ne_true, forall_prop_of_true rfl]
      have hentry := assignLids_entry (owner topologyPasscount nodep portp p)
        (lids p.lid (2 ^ newLmc)) (lids_sorted _ _) (t := t)
      have hok := assignLids_ok (owner topologyPasscount nodep portp p)
        (lids p.lid (2 ^ newLmc)) (t := t)
      rw [show (owner topologyPasscount nodep portp p).guid = p.guid from rfl] at hentry hok
      rw [not_collides] at hok
      generalize assignLids (owner topologyPasscount nodep portp p) (lids p.lid (2 ^ newLmc)) t =
        r at hentry hok
      obtain ⟨t₁, ok⟩ := r
      cases ok with
      | false =>
        have hcollides : t.Collides p newLmc := by
          by_contra hno
          exact Bool.false_ne_true (hok.mpr hno)
        rw [forall_prop_of_true hcollides]
        dsimp only [smClearLid]
        rw [forall_prop_of_true rfl, failedClean_qmapRemove]
        simp only [true_and]
        apply @clean_iff_givesBack ν π _ _ (owner topologyPasscount nodep portp p)
        · exact Option.some_ne_none _
        · exact base_mem _ _
        · exact hmax
        · exact lids_sorted _ _
        · intro l hl
          have := suitable_top hs
          have := mem_lids.mp hl.2.1
          exact ⟨hl.1, by omega⟩
        · intro l hl
          rw [hentry, if_pos hl]
        · intro l hl
          rw [hentry, if_neg hl]
      | true =>
        -- the LID that is returned is not 0
        constructor
        · exact fun _ hcollides => absurd hcollides (hok.mp rfl)
        · exact fun _ h => absurd h hmin
    · rw [Bool.not_eq_true] at hs
      rw [hs, Bool.not_false, if_pos rfl]
      dsimp only [smClearLid]
      rw [forall_prop_of_true rfl, forall_prop_of_true fun h => absurd h Bool.false_ne_true,
        failedClean_qmapRemove]
      simp only [Bool.false_eq_true, false_and]
      apply @clean_iff_givesBack ν π _ _ (owner topologyPasscount nodep portp p)
      · exact Option.some_ne_none _
      · exact base_mem _ _
      · exact hmax
      · exact lids_sorted _ _
      · exact fun _ h => h.elim
      · exact fun _ h => h.elim
      · exact fun _ _ => rfl

/-- Two LIDs of port 5 from LID 4 on would end before LID 6 of port 7; four do not. -/
def crowded : LidTable Nat Nat where
  entry := fun l =>
    if l = 4 then ⟨5, 1, none, none⟩
    else if l = 6 then ⟨7, 1, none, none⟩
    else ⟨0, 0, none, none⟩
  guidToLid := fun g => if g = 5 then some 4 else if g = 7 then some 6 else none

/-- LID 5 stays with port 5. -/
theorem smCheckLid_leaks :
    let r := crowded.smCheckLid ⟨0, 0, 1⟩ 1 0 0 ⟨5, 4, 0⟩ 2
    r.1 = reservedLid ∧ ¬FailedClean crowded r.2.2 5 := by
  refine ⟨by decide, ?_⟩
  intro hclean
  apply hclean.disowned 5
  · decide
  · decide

end LidTable

end OpaFm.Fabric
