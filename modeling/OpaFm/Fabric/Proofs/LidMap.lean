import OpaFm.Fabric.LidMap
import OpaFm.Lib.Run
import Mathlib.Data.List.TakeWhile

/-!
# Ownership of LIDs

A call changes the entries of its own GUID only, as long as it does not come to one of
the roll-backs that clear too little or another port's entry.
-/

namespace OpaFm.Fabric

open OpaFm.Lib

namespace LidMap

variable (m : LidMap)

theorem mem_lids {base count lid : Nat} : lid ∈ lids base count ↔ base ≤ lid ∧ lid < base + count :=
  List.mem_range'_1

theorem lids_sorted (base count : Nat) : (lids base count).Pairwise (· < ·) :=
  List.pairwise_lt_range'

/-! ## Loops over entries -/

theorem clearLids_eq (guid : Nat) (ls : List Nat) (hsorted : ls.Pairwise (· < ·)) :
    clearLids guid ls m =
      { m with
        guid := fun l => if l ∈ ls ∧ l ≤ unicastLidMax ∧ m.guid l = guid then 0 else m.guid l } := by
  induction ls generalizing m with
  | nil => simp [clearLids]
  | cons lid ls ih =>
    obtain ⟨hlt, hsorted'⟩ := List.pairwise_cons.mp hsorted
    unfold clearLids
    split
    next hmax =>
      -- all that follow are beyond the table as well
      ext l
      · simp only [List.mem_cons]
        rw [if_neg]
        rintro ⟨rfl | hl, hle, -⟩
        · omega
        · have := hlt l hl
          omega
      all_goals rfl
    next hmax =>
      rw [ih _ hsorted']
      ext l
      · have hnot : lid ∉ ls := fun h => lt_irrefl lid (hlt lid h)
        by_cases hl : l = lid
        · subst hl
          by_cases hg : m.guid l = guid
          · simp [hnot, hg, put, Nat.le_of_not_gt hmax]
          · simp [hnot, hg]
        · by_cases hg : m.guid lid = guid <;> simp [hg, put, hl]
      all_goals
        by_cases hg : m.guid lid = guid <;> simp [hg, put]

theorem clearExtra_eq (guid : Nat) (ls : List Nat) :
    clearExtra guid ls m =
      { m with guid := fun l => if l ∈ ls ∧ m.guid l = guid then 0 else m.guid l } := by
  induction ls generalizing m with
  | nil => simp [clearExtra]
  | cons lid ls ih =>
    unfold clearExtra
    rw [ih]
    by_cases hg : m.guid lid = guid
    · ext l
      · by_cases hl : l = lid
        · subst hl
          simp [put, hg]
        · simp [hg, put, hl]
      all_goals simp [hg, put]
    · ext l
      · by_cases hl : l = lid
        · subst hl
          simp [hg]
        · simp [hg, hl]
      all_goals simp [hg]

def fits (guid lid : Nat) : Bool := m.guid lid = 0 ∨ m.guid lid = guid

theorem assignLids_eq (guid : Nat) (ls : List Nat) :
    assignLids guid ls m =
      ({ m with guid := fun l => if l ∈ ls.takeWhile (m.fits guid) then guid else m.guid l },
        ls.all (m.fits guid)) := by
  induction ls generalizing m with
  | nil => simp [assignLids]
  | cons lid ls ih =>
    unfold assignLids
    by_cases hfree : m.guid lid = 0
    · have hfits : (m.put lid guid).fits guid = m.fits guid := by
        ext l
        by_cases hl : l = lid
        · subst hl
          simp [fits, put, hfree]
        · simp [fits, put, hl]
      rw [if_pos hfree, ih, hfits]
      have hhead : m.fits guid lid = true := by simp [fits, hfree]
      simp only [List.takeWhile_cons, hhead, if_true, List.all_cons, Bool.true_and, List.mem_cons]
      congr 1
      ext l
      · by_cases hl : l = lid
        · subst hl
          simp [put]
        · simp [put, hl]
      all_goals rfl
    · rw [if_neg hfree]
      by_cases hown : m.guid lid = guid
      · have hhead : m.fits guid lid = true := by simp [fits, hown]
        simp only [hown, ne_eq, not_true_eq_false, if_false, ih, List.takeWhile_cons, hhead, if_true,
          List.all_cons, Bool.true_and, List.mem_cons]
        congr 1
        ext l
        · by_cases hl : l = lid
          · subst hl
            simp [hown]
          · simp [hl]
        all_goals rfl
      · have hhead : m.fits guid lid = false := by simp [fits, hfree, hown]
        simp [hown, hhead]

theorem foldl_put_eq (guid : Nat) (ls : List Nat) :
    ls.foldl (fun m l => m.put l guid) m =
      { m with guid := fun l => if l ∈ ls then guid else m.guid l } := by
  induction ls generalizing m with
  | nil => simp
  | cons lid ls ih =>
    rw [List.foldl_cons, ih]
    ext l
    · by_cases hl : l = lid
      · subst hl
        simp [put]
      · simp [put, hl]
    all_goals rfl

/-! ## Searching -/

def FreeBlock (m : LidMap) (base count : Nat) : Prop :=
  ∀ l, base ≤ l → l < base + count → m.guid l = 0

variable {m}

theorem takenAfter_none {lid1 count : Nat} (hfree : m.guid lid1 = 0)
    (h : m.takenAfter lid1 count = none) : m.FreeBlock lid1 count := by
  intro l hle hlt
  rcases Nat.eq_or_lt_of_le hle with rfl | hlt'
  · exact hfree
  · have := List.find?_eq_none.mp h l (mem_lids.mpr ⟨hlt', by omega⟩)
    simpa using this

theorem takenAfter_lt {lid1 lid2 count : Nat} (h : m.takenAfter lid1 count = some lid2) :
    lid2 - lid1 < count := by
  have := mem_lids.mp (List.mem_of_find?_eq_some h)
  omega

structure HintsAligned (cfg : LidConfig) (m : LidMap) : Prop where
  e0 : ∀ h, m.lmcE0FreeLidHint = some h → 2 ^ cfg.lmcE0 ∣ h
  lmc : ∀ h, m.lmcFreeLidHint = some h → 2 ^ cfg.lmc ∣ h

structure SameOwners (m m' : LidMap) : Prop where
  guid : m'.guid = m.guid
  guidToLid : m'.guidToLid = m.guidToLid

theorem fillHint_cases {hint value : Option Nat} {h : Nat} (hfill : fillHint hint value = some h) :
    value = some h ∨ hint = some h := by
  unfold fillHint at hfill
  split at hfill
  · exact .inl hfill
  · exact .inr hfill

theorem dvd_of_space {j k lid space : Nat} (hlid : 2 ^ k ∣ lid) (hspace : 2 ^ j ≤ space)
    (hlt : space < 2 ^ k) : 2 ^ j ∣ lid := by
  have hjk : j ≤ k := by
    by_contra hkj
    have := Nat.pow_le_pow_right (n := 2) (by decide) (Nat.le_of_lt (Nat.not_le.mp hkj))
    omega
  exact Nat.dvd_trans (Nat.pow_dvd_pow 2 hjk) hlid

theorem HintsAligned.noteFreeSpace {cfg : LidConfig} {k lid1 space : Nat} (hm : HintsAligned cfg m)
    (hlid : 2 ^ k ∣ lid1) (hlt : space < 2 ^ k) :
    HintsAligned cfg (m.noteFreeSpace cfg lid1 space) := by
  constructor
  · intro h hh
    simp only [LidMap.noteFreeSpace] at hh
    split at hh
    next hspace =>
      rcases fillHint_cases hh with heq | hold
      · cases heq
        exact dvd_of_space hlid hspace hlt
      · exact hm.e0 h hold
    next => exact hm.e0 h hh
  · intro h hh
    simp only [LidMap.noteFreeSpace] at hh
    split at hh
    next hspace =>
      rcases fillHint_cases hh with heq | hold
      · cases heq
        exact dvd_of_space hlid hspace hlt
      · exact hm.lmc h hold
    next => exact hm.lmc h hh

theorem quickLoop_spec {cfg : LidConfig} {k : Nat} (ls : List Nat) (hls : ∀ l ∈ ls, 2 ^ k ∣ l)
    (hm : HintsAligned cfg m) :
    SameOwners m (quickLoop cfg (2 ^ k) ls m).1 ∧
    HintsAligned cfg (quickLoop cfg (2 ^ k) ls m).1 ∧
    ((quickLoop cfg (2 ^ k) ls m).2 ≠ 0 → (quickLoop cfg (2 ^ k) ls m).2 ∈ ls ∧
      m.FreeBlock (quickLoop cfg (2 ^ k) ls m).2 (2 ^ k)) := by
  induction ls generalizing m with
  | nil => exact ⟨⟨rfl, rfl⟩, hm, fun h => absurd rfl h⟩
  | cons lid1 ls ih =>
    have hls' : ∀ l ∈ ls, 2 ^ k ∣ l := fun l hl => hls l (List.mem_cons_of_mem _ hl)
    unfold quickLoop
    split
    next hfree =>
      split
      next hnone =>
        exact ⟨⟨rfl, rfl⟩, hm, fun _ => ⟨List.mem_cons_self, takenAfter_none hfree hnone⟩⟩
      next lid2 hsome =>
        have hnote := hm.noteFreeSpace (hls lid1 List.mem_cons_self) (takenAfter_lt hsome)
        obtain ⟨hsame, haligned, hfound⟩ := ih hls' hnote
        refine ⟨⟨hsame.guid, hsame.guidToLid⟩, haligned, fun hne => ?_⟩
        exact ⟨List.mem_cons_of_mem _ (hfound hne).1, (hfound hne).2⟩
    next =>
      obtain ⟨hsame, haligned, hfound⟩ := ih hls' hm
      exact ⟨hsame, haligned, fun hne => ⟨List.mem_cons_of_mem _ (hfound hne).1, (hfound hne).2⟩⟩

theorem alignLid_dvd (lmc lid2 : Nat) : 2 ^ lmc ∣ alignLid lmc lid2 := by
  unfold alignLid
  split
  · exact Nat.dvd_mul_left _ _
  next h =>
    by_cases hlmc : lmc = 0
    · subst hlmc
      exact Nat.one_dvd _
    · exact Nat.dvd_of_mod_eq_zero (not_not.mp fun hmod => h ⟨hlmc, hmod⟩)

theorem HintsAligned.resetHints {cfg : LidConfig} (hm : HintsAligned cfg m) (lid1 : Nat) :
    HintsAligned cfg (m.resetHints lid1) := by
  constructor
  · intro h hh
    simp only [LidMap.resetHints] at hh
    split_ifs at hh with heq
    · cases hh
      exact Nat.dvd_zero _
    · exact hm.e0 h hh
  · intro h hh
    simp only [LidMap.resetHints] at hh
    split_ifs at hh with heq
    · cases hh
      exact Nat.dvd_zero _
    · exact hm.lmc h hh

theorem HintsAligned.exhaustHints {cfg : LidConfig} (hm : HintsAligned cfg m) :
    HintsAligned cfg m.exhaustHints where
  e0 h hh := hm.e0 h ((fillHint_cases hh).resolve_left (by simp))
  lmc h hh := hm.lmc h ((fillHint_cases hh).resolve_left (by simp))

theorem HintsAligned.nextHints {cfg : LidConfig} (hm : HintsAligned cfg m) (count lid2 : Nat) :
    HintsAligned cfg (m.nextHints cfg count lid2) := by
  constructor
  · intro h hh
    simp only [LidMap.nextHints] at hh
    by_cases hz : m.lmcE0FreeLidHint = some 0
    · simp only [hz, fillHint, if_true] at hh
      split_ifs at hh
      cases hh
      exact alignLid_dvd _ _
    · simp only [fillHint, hz, if_false] at hh
      exact hm.e0 h hh
  · intro h hh
    simp only [LidMap.nextHints] at hh
    rcases fillHint_cases hh with hnew | hold
    · generalize (if m.lmcE0FreeLidHint = some 0 then alignLid cfg.lmcE0 lid2 else lid2) = lid at hnew
      split_ifs at hnew
      cases hnew
      exact alignLid_dvd _ _
    · exact hm.lmc h hold

theorem smFindLidQuick_spec {cfg : LidConfig} (k : Nat) (hm : HintsAligned cfg m) :
    SameOwners m (m.smFindLidQuick cfg (2 ^ k)).1 ∧
    HintsAligned cfg (m.smFindLidQuick cfg (2 ^ k)).1 ∧
    ((m.smFindLidQuick cfg (2 ^ k)).2 ≠ reservedLid →
      2 ^ k ∣ (m.smFindLidQuick cfg (2 ^ k)).2 ∧
      (m.smFindLidQuick cfg (2 ^ k)).2 + 2 ^ k ≤ unicastLidMax + 1 ∧
      m.FreeBlock (m.smFindLidQuick cfg (2 ^ k)).2 (2 ^ k)) := by
  have hpos : 0 < 2 ^ k := Nat.two_pow_pos k
  have hstart : ∀ h, m.startHint cfg (2 ^ k) = some h → 2 ^ k ∣ h := by
    intro h hh
    unfold startHint at hh
    split_ifs at hh with h1 h2 h3
    · rw [h1]
      exact Nat.one_dvd h
    · rw [h2]
      exact hm.lmc h hh
    · rw [h3]
      exact hm.e0 h hh
    · cases hh
      exact Nat.dvd_zero _
  unfold smFindLidQuick
  split
  next => exact ⟨⟨rfl, rfl⟩, hm, fun h => absurd rfl h⟩
  next lid1 hlid1 =>
    simp only
    have hblocks : ∀ l ∈ List.range' lid1 ((unicastLidMax + 1 - lid1) / 2 ^ k) (2 ^ k),
        2 ^ k ∣ l ∧ l + 2 ^ k ≤ unicastLidMax + 1 := by
      intro l hl
      obtain ⟨i, hi, rfl⟩ := List.mem_range'.mp hl
      refine ⟨Nat.dvd_add (hstart lid1 hlid1) (Nat.dvd_mul_right _ _), ?_⟩
      have hle : (i + 1) * 2 ^ k ≤ unicastLidMax + 1 - lid1 :=
        Nat.le_trans (Nat.mul_le_mul_right _ hi) (Nat.div_mul_le_self _ _)
      have hexp : (i + 1) * 2 ^ k = 2 ^ k * i + 2 ^ k := by
        rw [Nat.add_mul, Nat.one_mul, Nat.mul_comm]
      omega
    obtain ⟨hsame, haligned, hfound⟩ := quickLoop_spec _ (fun l hl => (hblocks l hl).1) (hm.resetHints lid1)
    generalize quickLoop cfg (2 ^ k) _ (m.resetHints lid1) = res at *
    obtain ⟨m', freeLid⟩ := res
    cases freeLid with
    | zero =>
      exact ⟨⟨hsame.guid, hsame.guidToLid⟩, haligned.exhaustHints, fun h => absurd rfl h⟩
    | succ n =>
      obtain ⟨hmem, hfree⟩ := hfound (Nat.succ_ne_zero n)
      exact ⟨⟨hsame.guid, hsame.guidToLid⟩, haligned.nextHints _ _,
        fun _ => ⟨(hblocks _ hmem).1, (hblocks _ hmem).2, hfree⟩⟩

end LidMap

namespace LidSystem

/-! ## Ownership -/

def Holds (s : LidSystem) (g l : Nat) : Prop :=
  ∃ b k, s.held g = some (b, k) ∧ b ≤ l ∧ l < b + 2 ^ k

/-- Who holds which LIDs, and that `lidmap` says the same. -/
structure Ownership (s : LidSystem) : Prop where
  disjoint : ∀ g g' l, g ≠ g' → s.Holds g l → ¬s.Holds g' l
  aligned : ∀ g b k, s.held g = some (b, k) → 2 ^ k ∣ b
  inRange : ∀ g l, s.Holds g l → unicastLidMin ≤ l ∧ l ≤ unicastLidMax
  owner : ∀ g l, g ≠ 0 → l ≤ unicastLidMax → (s.map.guid l = g ↔ s.Holds g l)

/-- The invariant behind it.  The GUID-to-LID map has the bases, and the searches start
from multiples of the blocks they look for. -/
structure Inv (cfg : LidConfig) (s : LidSystem) : Prop where
  owner : ∀ g l, g ≠ 0 → (s.map.guid l = g ↔ s.Holds g l)
  base : ∀ g, s.map.guidToLid g = (s.held g).map Prod.fst
  placed : ∀ g b k, s.held g = some (b, k) →
    2 ^ k ∣ b ∧ unicastLidMin ≤ b ∧ b + 2 ^ k ≤ unicastLidMax + 1
  zero : s.held 0 = none
  hints : s.map.HintsAligned cfg

theorem Inv.inRange {cfg : LidConfig} {s : LidSystem} (hs : Inv cfg s) {g l : Nat}
    (h : s.Holds g l) : unicastLidMin ≤ l ∧ l ≤ unicastLidMax := by
  obtain ⟨b, k, hheld, hle, hlt⟩ := h
  obtain ⟨-, hmin, hmax⟩ := hs.placed g b k hheld
  omega

theorem Inv.ownership {cfg : LidConfig} {s : LidSystem} (hs : Inv cfg s) : Ownership s where
  disjoint g g' l hne h h' := by
    have hpos : ∀ g, s.Holds g l → g ≠ 0 := by
      rintro g ⟨b, k, hheld, -⟩ rfl
      rw [hs.zero] at hheld
      cases hheld
    apply hne
    rw [← (hs.owner g l (hpos g h)).mpr h, ← (hs.owner g' l (hpos g' h')).mpr h']
  aligned g b k h := (hs.placed g b k h).1
  inRange g l h := hs.inRange h
  owner g l hg _ := hs.owner g l hg

theorem inv_init (cfg : LidConfig) : Inv cfg (init cfg) where
  owner g l hg := by
    constructor
    · intro h
      exact absurd h.symm hg
    · rintro ⟨b, k, h, -⟩
      cases h
  base g := rfl
  placed g b k h := by cases h
  zero := rfl
  hints :=
    { e0 := fun h hh => by
        cases hh
        exact Nat.dvd_refl _
      lmc := fun h hh => by
        cases hh
        exact Nat.dvd_refl _ }

/-! ## One GUID changes -/

def InBlock (block : Option (Nat × Nat)) (l : Nat) : Prop :=
  ∃ b k, block = some (b, k) ∧ b ≤ l ∧ l < b + 2 ^ k

/-- What a call has to leave behind for the invariant: entries of other GUIDs as they
are, and its own GUID exactly in the range it holds then. -/
theorem Inv.update {cfg : LidConfig} {s : LidSystem} (hs : Inv cfg s) {g : Nat} (hg : g ≠ 0)
    {map : LidMap} {block : Option (Nat × Nat)}
    (hothers : ∀ g' l, g' ≠ 0 → g' ≠ g → (map.guid l = g' ↔ s.map.guid l = g'))
    (hown : ∀ l, map.guid l = g ↔ InBlock block l)
    (hbase : map.guidToLid = Function.update s.map.guidToLid g (block.map Prod.fst))
    (hplaced : ∀ b k, block = some (b, k) →
      2 ^ k ∣ b ∧ unicastLidMin ≤ b ∧ b + 2 ^ k ≤ unicastLidMax + 1)
    (hhints : map.HintsAligned cfg) :
    Inv cfg { map := map, held := Function.update s.held g block } where
  owner g' l hg' := by
    by_cases heq : g' = g
    · subst heq
      simp only [Holds, Function.update_self]
      exact hown l
    · simp only [Holds, Function.update_of_ne heq]
      rw [hothers g' l hg' heq]
      exact hs.owner g' l hg'
  base g' := by
    by_cases heq : g' = g
    · subst heq
      simp only [hbase, Function.update_self]
    · simp only [hbase, Function.update_of_ne heq]
      exact hs.base g'
  placed g' b k h := by
    by_cases heq : g' = g
    · subst heq
      simp only [Function.update_self] at h
      exact hplaced b k h
    · simp only [Function.update_of_ne heq] at h
      exact hs.placed g' b k h
  zero := by
    simp only [Function.update_of_ne (Ne.symm hg)]
    exact hs.zero
  hints := hhints

/-! ## Conditions -/

def HeldWithin (s : LidSystem) (p : LidPort) : Prop :=
  ∀ b k, s.held p.guid = some (b, k) → p.lid ≤ b ∧ b + 2 ^ k ≤ p.lid + 2 ^ p.lmc

def Keeps (cfg : LidConfig) (s : LidSystem) (p : LidPort) (newLmc : Nat) : Prop :=
  s.map.suitable cfg p newLmc = true ∧
    ∀ l, p.lid ≤ l → l < p.lid + 2 ^ newLmc → s.map.fits p.guid l = true

structure CheckMeets (cfg : LidConfig) (s : LidSystem) (p : LidPort) (newLmc : Nat) : Prop where
  /-- 0 marks a free LID. -/
  guid : p.guid ≠ 0
  /-- A port that keeps its LID holds no other, and the larger LMC covers what it holds. -/
  kept : unicastLidMin ≤ p.lid → p.lid ≤ unicastLidMax → Keeps cfg s p newLmc →
    ∀ b k, s.held p.guid = some (b, k) → b = p.lid ∧ k ≤ max p.lmc newLmc
  /-- What a smaller LMC gives back lies in the table. -/
  extra : unicastLidMin ≤ p.lid → p.lid ≤ unicastLidMax → Keeps cfg s p newLmc →
    newLmc < p.lmc → p.lid + 2 ^ p.lmc ≤ unicastLidMax + 1
  /-- A port that loses its LID holds none outside the LIDs it came with. -/
  lost : unicastLidMin ≤ p.lid → p.lid ≤ unicastLidMax → ¬Keeps cfg s p newLmc → s.HeldWithin p
  /-- When an entry of another port is in the way, there is one not after the first
  LID that the old LMC does not cover. -/
  early : unicastLidMin ≤ p.lid → p.lid ≤ unicastLidMax → ¬Keeps cfg s p newLmc →
    s.map.suitable cfg p newLmc = true →
      ∃ l, p.lid ≤ l ∧ l ≤ p.lid + 2 ^ p.lmc ∧ s.map.fits p.guid l = false

/-- What a call of `sm_set_lid` must meet. -/
structure SetMeets (cfg : LidConfig) (s : LidSystem) (p : LidPort) (lmc : Nat) : Prop where
  guid : p.guid ≠ 0
  /-- LIDs are not spread. -/
  offset : lmc = 0 → cfg.topoLidOffset ≤ 1
  /-- The range that the port holds is where the new one can be, and not larger. -/
  remembered : ∀ b k, s.held p.guid = some (b, k) → k ≤ lmc ∧ 2 ^ lmc ∣ b ∧
    b + 2 ^ lmc ≤ unicastLidMax + 1 ∧ ∀ l, b < l → l < b + 2 ^ lmc → s.map.fits p.guid l = true

def Meets (cfg : LidConfig) (s : LidSystem) : LidCall → Prop
  | .check p newLmc => CheckMeets cfg s p newLmc
  | .set p lmc => SetMeets cfg s p lmc
  | .clear p => p.guid ≠ 0 ∧ s.HeldWithin p

/-! ## Steps -/

def heldAfter (s : LidSystem) (g : Nat) (result : Nat × LidPort × LidMap) : Option (Nat × Nat) :=
  if result.1 ≠ reservedLid then some (result.1, result.2.1.lmc)
  else (result.2.2.guidToLid g).bind fun _ => s.held g

def after (s : LidSystem) (g : Nat) (result : Nat × LidPort × LidMap) : LidSystem :=
  { map := result.2.2, held := Function.update s.held g (s.heldAfter g result) }

theorem step_eq (cfg : LidConfig) (s : LidSystem) (c : LidCall) :
    s.step cfg c = .ok (s.after c.guid (s.map.call cfg c), (s.map.call cfg c).1) := rfl

variable {cfg : LidConfig} {s : LidSystem}

theorem Inv.smClearLid (hs : Inv cfg s) {p : LidPort} (hg : p.guid ≠ 0) {map : LidMap}
    (hothers : ∀ g' l, g' ≠ 0 → g' ≠ p.guid → (map.guid l = g' ↔ s.map.guid l = g'))
    (hbase : map.guidToLid = s.map.guidToLid) (hhints : map.HintsAligned cfg)
    (hown : ∀ l, map.guid l = p.guid →
      l ≤ unicastLidMax ∧ p.lid ≤ l ∧ l < p.lid + 2 ^ p.lmc) :
    Inv cfg (s.after p.guid (map.smClearLid p)) := by
  have hmap : (map.smClearLid p).2.2 = LidMap.qmapRemove { map with
      guid := fun l => if l ∈ LidMap.lids p.lid (2 ^ p.lmc) ∧ l ≤ unicastLidMax ∧
        map.guid l = p.guid then 0 else map.guid l } p.guid := by
    rw [← LidMap.clearLids_eq map p.guid _ (LidMap.lids_sorted _ _)]
    rfl
  have hheld : s.heldAfter p.guid (map.smClearLid p) = none := by
    simp [heldAfter, LidMap.smClearLid, LidMap.qmapRemove]
  unfold after
  rw [hheld, hmap]
  apply hs.update hg
  · intro g' l hg' hne
    rw [← hothers g' l hg' hne]
    simp only [LidMap.qmapRemove]
    split
    next h => simp [h.2.2, Ne.symm hne, Ne.symm hg']
    next => rfl
  · intro l
    constructor
    · intro hl
      simp only [LidMap.qmapRemove] at hl
      split at hl
      next => exact absurd hl.symm hg
      next hno =>
        obtain ⟨hmax, hle, hlt⟩ := hown l hl
        exact absurd ⟨LidMap.mem_lids.mpr ⟨hle, hlt⟩, hmax, hl⟩ hno
    · rintro ⟨b, k, h, -⟩
      cases h
  · simp only [LidMap.qmapRemove, hbase, Option.map_none]
  · intro b k h
    cases h
  · exact ⟨hhints.e0, hhints.lmc⟩

theorem HeldWithin.own (hs : Inv cfg s) {p : LidPort} (hg : p.guid ≠ 0) (hp : s.HeldWithin p) {l : Nat}
    (hl : s.map.guid l = p.guid) : l ≤ unicastLidMax ∧ p.lid ≤ l ∧ l < p.lid + 2 ^ p.lmc := by
  have hholds := (hs.owner p.guid l hg).mp hl
  refine ⟨(hs.inRange hholds).2, ?_⟩
  obtain ⟨b, k, hheld, hle, hlt⟩ := hholds
  have := hp b k hheld
  omega

theorem clear_inv (hs : Inv cfg s) {p : LidPort} (hg : p.guid ≠ 0) (hp : s.HeldWithin p) :
    Inv cfg (s.after p.guid (s.map.smClearLid p)) :=
  hs.smClearLid hg (fun _ _ _ _ => Iff.rfl) rfl hs.hints fun _ hl => hp.own hs hg hl

theorem Inv.unchanged (hs : Inv cfg s) {p p' : LidPort} {map : LidMap}
    (hsame : s.map.SameOwners map) (hhints : map.HintsAligned cfg) :
    Inv cfg (s.after p.guid (reservedLid, p', map)) := by
  have hheld : s.heldAfter p.guid (reservedLid, p', map) = s.held p.guid := by
    simp only [heldAfter, ne_eq, not_true_eq_false, if_false, hsame.guidToLid, hs.base]
    cases s.held p.guid <;> rfl
  unfold after
  rw [hheld, Function.update_eq_self]
  exact
    { owner := fun g l hg => by
        simp only [hsame.guid]
        exact hs.owner g l hg
      base := fun g => by
        simp only [hsame.guidToLid]
        exact hs.base g
      placed := hs.placed
      zero := hs.zero
      hints := hhints }

theorem takeWhile_lt {f : Nat → Bool} {ls : List Nat} (hsorted : ls.Pairwise (· < ·)) {l x : Nat}
    (hl : l ∈ ls.takeWhile f) (hx : x ∈ ls) (hf : f x = false) : l < x := by
  induction ls with
  | nil => cases hx
  | cons a ls ih =>
    obtain ⟨hlt, hsorted'⟩ := List.pairwise_cons.mp hsorted
    rw [List.takeWhile_cons] at hl
    split at hl
    next ha =>
      have hxls : x ∈ ls := by
        rcases List.mem_cons.mp hx with rfl | hx
        · rw [hf] at ha
          cases ha
        · exact hx
      rcases List.mem_cons.mp hl with rfl | hl
      · exact hlt x hxls
      · exact ih hsorted' hl hxls
    next => cases hl

theorem others_of_fits {map : LidMap} {g : Nat} {ls : List Nat} (hfits : ∀ l ∈ ls, map.fits g l = true)
    {g' l : Nat} (hg' : g' ≠ 0) (hne : g' ≠ g) :
    (if l ∈ ls then g else map.guid l) = g' ↔ map.guid l = g' := by
  split
  next hl =>
    have := hfits l hl
    simp only [LidMap.fits, decide_eq_true_eq] at this
    constructor
    · intro h
      exact absurd h.symm hne
    · intro h
      rcases this with h0 | hown
      · exact absurd (h.symm.trans h0) hg'
      · exact absurd (h.symm.trans hown) hne
  next => rfl

theorem keeps_iff {p : LidPort} {newLmc : Nat} : Keeps cfg s p newLmc ↔
    s.map.suitable cfg p newLmc = true ∧
      (LidMap.lids p.lid (2 ^ newLmc)).all (s.map.fits p.guid) = true := by
  simp only [Keeps, List.all_eq_true, LidMap.mem_lids, and_imp]

theorem suitable_fits {p : LidPort} {newLmc : Nat} (h : s.map.suitable cfg p newLmc = true) :
    2 ^ newLmc ∣ p.lid ∧ p.lid + 2 ^ newLmc ≤ unicastLidMax + 1 := by
  simp only [LidMap.suitable, decide_eq_true_eq] at h
  exact ⟨Nat.dvd_of_mod_eq_zero h.2.1, h.2.2⟩

def keptEntries (m : LidMap) (p : LidPort) (newLmc : Nat) : Nat → Nat := fun l =>
  if p.lid + 2 ^ newLmc ≤ l ∧ l < p.lid + 2 ^ p.lmc ∧ m.guid l = p.guid then 0
  else if p.lid ≤ l ∧ l < p.lid + 2 ^ newLmc then p.guid else m.guid l

theorem smCheckLid_keeps {p : LidPort} {newLmc : Nat} (hmin : unicastLidMin ≤ p.lid)
    (hmax : p.lid ≤ unicastLidMax) (hkeeps : Keeps cfg s p newLmc) :
    s.map.smCheckLid cfg p newLmc = (p.lid, { p with lmc := newLmc },
      LidMap.qmapInsert { s.map with guid := keptEntries s.map p newLmc } p.guid p.lid) := by
  obtain ⟨hsuit, hall⟩ := keeps_iff.mp hkeeps
  have htake : (LidMap.lids p.lid (2 ^ newLmc)).takeWhile (s.map.fits p.guid) =
      LidMap.lids p.lid (2 ^ newLmc) := List.takeWhile_eq_self_iff.mpr (List.all_eq_true.mp hall)
  unfold LidMap.smCheckLid
  rw [if_neg (by omega)]
  simp only [hsuit, Bool.not_true, Bool.false_eq_true, if_false, LidMap.assignLids_eq, hall, htake,
    LidMap.clearExtra_eq, LidMap.mem_lids]
  congr 3
  have hpow : newLmc < p.lmc → 2 ^ newLmc ≤ 2 ^ p.lmc := fun h =>
    Nat.pow_le_pow_right (by decide) (Nat.le_of_lt h)
  have hpow' : ¬newLmc < p.lmc → 2 ^ p.lmc ≤ 2 ^ newLmc := fun h =>
    Nat.pow_le_pow_right (by decide) (Nat.le_of_not_lt h)
  split
  next hlt =>
    ext l
    · simp only [keptEntries]
      have := hpow hlt
      split_ifs <;> omega
    all_goals rfl
  next hlt =>
    ext l
    · simp only [keptEntries]
      have := hpow' hlt
      split_ifs <;> omega
    all_goals rfl

theorem keep_inv (hs : Inv cfg s) {p : LidPort} {newLmc : Nat} (hp : CheckMeets cfg s p newLmc)
    (hmin : unicastLidMin ≤ p.lid) (hmax : p.lid ≤ unicastLidMax) (hkeeps : Keeps cfg s p newLmc) :
    Inv cfg (s.after p.guid (s.map.smCheckLid cfg p newLmc)) := by
  have hg := hp.guid
  have hkept := hp.kept hmin hmax hkeeps
  have hplace := suitable_fits hkeeps.1
  rw [smCheckLid_keeps hmin hmax hkeeps]
  have hheld : ∀ map, s.heldAfter p.guid (p.lid, { p with lmc := newLmc }, map) =
      some (p.lid, newLmc) := by
    intro map
    unfold heldAfter
    rw [if_pos]
    exact Nat.ne_of_gt hmin
  unfold after
  rw [hheld]
  have hguid : ∀ map : LidMap, (map.qmapInsert p.guid p.lid).guid = map.guid := by
    intro map
    unfold LidMap.qmapInsert
    split <;> rfl
  apply hs.update hg
  · intro g' l hg' hne
    rw [hguid]
    simp only [keptEntries]
    split
    next h => simp [h.2.2, Ne.symm hne, Ne.symm hg']
    next =>
      have hfits := List.all_eq_true.mp (keeps_iff.mp hkeeps).2
      rw [← others_of_fits hfits hg' hne]
      simp only [LidMap.mem_lids]
  · intro l
    rw [hguid]
    simp only [keptEntries, InBlock, Option.some.injEq, Prod.mk.injEq]
    constructor
    · intro h
      refine ⟨p.lid, newLmc, ⟨rfl, rfl⟩, ?_⟩
      split at h
      next => exact absurd h.symm hg
      next hout =>
        split at h
        next hin => exact hin
        next hin =>
          obtain ⟨b, k, hheld, hle, hlt⟩ := (hs.owner p.guid l hg).mp h
          obtain ⟨rfl, hk⟩ := hkept b k hheld
          have hpow : 2 ^ k ≤ 2 ^ max p.lmc newLmc := Nat.pow_le_pow_right (by decide) hk
          rcases le_total p.lmc newLmc with hle' | hle'
          · rw [max_eq_right hle'] at hpow
            omega
          · rw [max_eq_left hle'] at hpow
            omega
    · rintro ⟨b, k, ⟨rfl, rfl⟩, hle, hlt⟩
      rw [if_neg (by omega), if_pos ⟨hle, hlt⟩]
  · unfold LidMap.qmapInsert
    simp only [hs.base, Option.map_eq_none_iff]
    split
    next => rfl
    next hsome =>
      obtain ⟨⟨b, k⟩, hbk⟩ := Option.ne_none_iff_exists'.mp hsome
      obtain ⟨rfl, -⟩ := hkept b k hbk
      simp only [Option.map_some]
      symm
      rw [Function.update_eq_self_iff]
      rw [hs.base, hbk]
      rfl
  · intro b k h
    cases h
    exact ⟨hplace.1, hmin, hplace.2⟩
  · unfold LidMap.qmapInsert
    split
    · exact ⟨hs.hints.e0, hs.hints.lmc⟩
    · exact ⟨hs.hints.e0, hs.hints.lmc⟩

theorem lose_inv (hs : Inv cfg s) {p : LidPort} {newLmc : Nat} (hp : CheckMeets cfg s p newLmc)
    (hmin : unicastLidMin ≤ p.lid) (hmax : p.lid ≤ unicastLidMax)
    (hsuit : s.map.suitable cfg p newLmc = true) (hkeeps : ¬Keeps cfg s p newLmc) :
    Inv cfg (s.after p.guid (s.map.smCheckLid cfg p newLmc)) := by
  have hg := hp.guid
  have hall : (LidMap.lids p.lid (2 ^ newLmc)).all (s.map.fits p.guid) = false := by
    rw [← Bool.not_eq_true]
    exact fun h => hkeeps (keeps_iff.mpr ⟨hsuit, h⟩)
  have hplace := suitable_fits hsuit
  unfold LidMap.smCheckLid
  rw [if_neg (by omega)]
  simp only [hsuit, Bool.not_true, Bool.false_eq_true, if_false, LidMap.assignLids_eq, hall]
  apply hs.smClearLid hg
  · intro g' l hg' hne
    apply others_of_fits _ hg' hne
    exact fun l hl => List.mem_takeWhile_imp hl
  · rfl
  · exact ⟨hs.hints.e0, hs.hints.lmc⟩
  · intro l hl
    simp only at hl
    split at hl
    next htake =>
      -- taken now, so before the entry in the way
      have hmem := LidMap.mem_lids.mp ((List.takeWhile_sublist _).subset htake)
      obtain ⟨x, hle, hxle, hx⟩ := hp.early hmin hmax hkeeps hsuit
      have hlt : l < x := by
        by_cases hxmem : x < p.lid + 2 ^ newLmc
        · exact takeWhile_lt (LidMap.lids_sorted _ _) htake (LidMap.mem_lids.mpr ⟨hle, hxmem⟩) hx
        · omega
      omega
    next => exact (hp.lost hmin hmax hkeeps).own hs hg hl

theorem check_inv (hs : Inv cfg s) {p : LidPort} {newLmc : Nat} (hp : CheckMeets cfg s p newLmc) :
    Inv cfg (s.after p.guid (s.map.smCheckLid cfg p newLmc)) := by
  by_cases hlid : p.lid < unicastLidMin ∨ p.lid > unicastLidMax
  · unfold LidMap.smCheckLid
    rw [if_pos hlid]
    exact hs.unchanged ⟨rfl, rfl⟩ hs.hints
  · have hmin : unicastLidMin ≤ p.lid := by omega
    have hmax : p.lid ≤ unicastLidMax := by omega
    by_cases hkeeps : Keeps cfg s p newLmc
    · exact keep_inv hs hp hmin hmax hkeeps
    · cases hsuit : s.map.suitable cfg p newLmc with
      | true => exact lose_inv hs hp hmin hmax hsuit hkeeps
      | false =>
        unfold LidMap.smCheckLid
        rw [if_neg hlid]
        simp only [hsuit, Bool.not_false, if_true]
        exact clear_inv hs hp.guid (hp.lost hmin hmax hkeeps)

theorem exhaustiveSearch_spec {m : LidMap} {lmc lid1 : Nat}
    (h : m.exhaustiveSearch (2 ^ lmc) lmc = some lid1) :
    2 ^ lmc ∣ lid1 ∧ unicastLidMin ≤ lid1 ∧ lid1 + 2 ^ lmc ≤ unicastLidMax + 1 ∧
      m.FreeBlock lid1 (2 ^ lmc) := by
  have hpos : 0 < 2 ^ lmc := Nat.two_pow_pos lmc
  have hfree := List.find?_some h
  simp only [decide_eq_true_eq] at hfree
  obtain ⟨i, hi, rfl⟩ := List.mem_range'.mp (List.mem_of_find?_eq_some h)
  have hle : (i + 1) * 2 ^ lmc ≤ unicastLidMax + 1 - 2 ^ lmc :=
    Nat.le_trans (Nat.mul_le_mul_right _ hi) (Nat.div_mul_le_self _ _)
  have hexp : (i + 1) * 2 ^ lmc = 2 ^ lmc * i + 2 ^ lmc := by
    rw [Nat.add_mul, Nat.one_mul, Nat.mul_comm]
  refine ⟨Nat.dvd_add (Nat.dvd_refl _) (Nat.dvd_mul_right _ _), ?_, ?_,
    LidMap.takenAfter_none hfree.1 hfree.2⟩
  · unfold unicastLidMin
    omega
  · omega

theorem newLids_spec {m : LidMap} (p : LidPort) (lmc : Nat) (hm : m.HintsAligned cfg)
    (hp : m.guidToLid p.guid = none) :
    (m.newLids cfg p (2 ^ lmc) lmc).1.guid = m.guid ∧
    (m.newLids cfg p (2 ^ lmc) lmc).1.HintsAligned cfg ∧
    (m.newLids cfg p (2 ^ lmc) lmc).1.guidToLid =
      Function.update m.guidToLid p.guid (m.newLids cfg p (2 ^ lmc) lmc).2 ∧
    ∀ lid1, (m.newLids cfg p (2 ^ lmc) lmc).2 = some lid1 →
      2 ^ lmc ∣ lid1 ∧ unicastLidMin ≤ lid1 ∧ lid1 + 2 ^ lmc ≤ unicastLidMax + 1 ∧
        m.FreeBlock lid1 (2 ^ lmc) := by
  obtain ⟨hsame, haligned, hquick⟩ := LidMap.smFindLidQuick_spec lmc hm
  unfold LidMap.newLids
  generalize m.smFindLidQuick cfg (2 ^ lmc) = res at *
  obtain ⟨m', quick⟩ := res
  have hfound : ∀ lid1, (if quick = reservedLid then m'.exhaustiveSearch (2 ^ lmc) lmc
      else some quick) = some lid1 →
      2 ^ lmc ∣ lid1 ∧ unicastLidMin ≤ lid1 ∧ lid1 + 2 ^ lmc ≤ unicastLidMax + 1 ∧
        m.FreeBlock lid1 (2 ^ lmc) := by
    intro lid1 h
    split at h
    next =>
      have hspec := exhaustiveSearch_spec h
      unfold LidMap.FreeBlock at *
      rw [hsame.guid] at hspec
      exact hspec
    next hne =>
      cases h
      obtain ⟨hdvd, hmax, hfree⟩ := hquick hne
      exact ⟨hdvd, Nat.pos_of_ne_zero hne, hmax, hfree⟩
  simp only at *
  generalize (if quick = reservedLid then m'.exhaustiveSearch (2 ^ lmc) lmc else some quick) = found
    at hfound
  cases found with
  | none =>
    refine ⟨hsame.guid, haligned, ?_, hfound⟩
    rw [hsame.guidToLid, eq_comm, Function.update_eq_self_iff]
    exact hp.symm
  | some lid1 =>
    have hnone : m'.guidToLid p.guid = none := by
      rw [hsame.guidToLid]
      exact hp
    simp only [LidMap.qmapInsert, hnone, if_true]
    refine ⟨hsame.guid, ⟨haligned.e0, haligned.lmc⟩, ?_, hfound⟩
    rw [hsame.guidToLid]

theorem Inv.take (hs : Inv cfg s) {p : LidPort} (hg : p.guid ≠ 0) {lmc lid1 : Nat} {map : LidMap}
    (hguid : map.guid = s.map.guid)
    (hbase : map.guidToLid = Function.update s.map.guidToLid p.guid (some lid1))
    (hhints : map.HintsAligned cfg)
    (hplaced : 2 ^ lmc ∣ lid1 ∧ unicastLidMin ≤ lid1 ∧ lid1 + 2 ^ lmc ≤ unicastLidMax + 1)
    (hfits : ∀ l, lid1 ≤ l → l < lid1 + 2 ^ lmc → s.map.fits p.guid l = true)
    (hown : ∀ l, s.map.guid l = p.guid → lid1 ≤ l ∧ l < lid1 + 2 ^ lmc) :
    Inv cfg (s.after p.guid (lid1, { p with lid := lid1, lmc := lmc },
      (LidMap.lids lid1 (2 ^ lmc)).foldl (fun m lid2 => m.put lid2 p.guid) map)) := by
  have hheld : ∀ map, s.heldAfter p.guid (lid1, { p with lid := lid1, lmc := lmc }, map) =
      some (lid1, lmc) := fun map => if_pos (Nat.ne_of_gt hplaced.2.1)
  unfold after
  rw [hheld, LidMap.foldl_put_eq]
  simp only [hguid]
  apply hs.update hg
  · intro g' l hg' hne
    apply others_of_fits _ hg' hne
    intro l hl
    have hmem := LidMap.mem_lids.mp hl
    exact hfits l hmem.1 hmem.2
  · intro l
    simp only [InBlock, LidMap.mem_lids, Option.some.injEq, Prod.mk.injEq]
    constructor
    · intro h
      refine ⟨lid1, lmc, ⟨rfl, rfl⟩, ?_⟩
      split at h
      next hin => exact hin
      next => exact hown l h
    · rintro ⟨b, k, ⟨rfl, rfl⟩, hin⟩
      rw [if_pos hin]
  · exact hbase
  · intro b k h
    cases h
    exact hplaced
  · exact ⟨hhints.e0, hhints.lmc⟩

theorem rememberedLid_held (hs : Inv cfg s) {p : LidPort} {lmc b k : Nat}
    (hheld : s.held p.guid = some (b, k))
    (hfits : ∀ l, b < l → l < b + 2 ^ lmc → s.map.fits p.guid l = true) :
    s.map.rememberedLid p (2 ^ lmc) = (s.map, some b) := by
  have hbase : s.map.guidToLid p.guid = some b := by rw [hs.base, hheld, Option.map_some]
  have hfind : (LidMap.lids (b + 1) (2 ^ lmc - 1)).find? (fun lid2 =>
      decide (s.map.guid lid2 ≠ p.guid ∧ s.map.guid lid2 ≠ 0)) = none := by
    rw [List.find?_eq_none]
    intro l hl
    have hmem := LidMap.mem_lids.mp hl
    have := hfits l (by omega) (by omega)
    simp only [LidMap.fits, decide_eq_true_eq] at this
    simp only [decide_eq_true_eq]
    exact fun h => this.elim h.2 h.1
  simp only [LidMap.rememberedLid, hbase, hfind]

theorem set_inv (hs : Inv cfg s) {p : LidPort} {lmc : Nat} (hp : SetMeets cfg s p lmc) :
    Inv cfg (s.after p.guid (s.map.smSetLid cfg p lmc)) := by
  have hg := hp.guid
  have hdelta : (if 2 ^ lmc = 1 ∧ cfg.topoLidOffset > 1 then cfg.topoLidOffset else 2 ^ lmc) =
      2 ^ lmc := by
    apply if_neg
    rintro ⟨hone, hoff⟩
    have hzero : lmc = 0 := (Nat.pow_eq_one.mp hone).resolve_left (by decide)
    have := hp.offset hzero
    omega
  have hbase := hs.base p.guid
  unfold LidMap.smSetLid
  simp only [hdelta]
  cases hheld : s.held p.guid with
  | some block =>
    obtain ⟨b, k⟩ := block
    obtain ⟨hk, hdvd, hmax, hfits⟩ := hp.remembered b k hheld
    have hmin := (hs.placed p.guid b k hheld).2.1
    have hpow : 2 ^ k ≤ 2 ^ lmc := Nat.pow_le_pow_right (by decide) hk
    have hfirst : s.map.guid b = p.guid :=
      (hs.owner p.guid b hg).mpr
        ⟨b, k, hheld, le_refl b, Nat.lt_add_of_pos_right (Nat.two_pow_pos k)⟩
    rw [rememberedLid_held hs hheld hfits]
    apply hs.take hg rfl _ hs.hints ⟨hdvd, hmin, hmax⟩
    · intro l hle hlt
      rcases Nat.eq_or_lt_of_le hle with rfl | hlt'
      · simp [LidMap.fits, hfirst]
      · exact hfits l hlt' hlt
    · intro l hl
      obtain ⟨b', k', hheld', hle, hlt⟩ := (hs.owner p.guid l hg).mp hl
      rw [hheld] at hheld'
      cases hheld'
      omega
    · rw [eq_comm, Function.update_eq_self_iff, hbase, hheld]
      rfl
  | none =>
    rw [hheld, Option.map_none] at hbase
    obtain ⟨hguid, hhints, hlid, hfound⟩ := newLids_spec p lmc hs.hints hbase
    simp only [LidMap.rememberedLid, hbase]
    generalize s.map.newLids cfg p (2 ^ lmc) lmc = res at *
    obtain ⟨map, found⟩ := res
    cases found with
    | none =>
      apply hs.unchanged ⟨hguid, ?_⟩ hhints
      rw [hlid, Function.update_eq_self_iff]
      exact hbase.symm
    | some lid1 =>
      obtain ⟨hdvd, hmin, hmax, hfree⟩ := hfound lid1 rfl
      apply hs.take hg hguid hlid hhints ⟨hdvd, hmin, hmax⟩
      · intro l hle hlt
        simp [LidMap.fits, hfree l hle hlt]
      · intro l hl
        obtain ⟨b, k, hheld', -⟩ := (hs.owner p.guid l hg).mp hl
        rw [hheld] at hheld'
        cases hheld'

theorem step_inv (hs : Inv cfg s) {c : LidCall} (hc : Meets cfg s c) {s' : LidSystem} {lid : Nat}
    (hstep : s.step cfg c = .ok (s', lid)) : Inv cfg s' := by
  rw [step_eq] at hstep
  cases hstep
  cases c with
  | check p newLmc => exact check_inv hs hc
  | set p lmc => exact set_inv hs hc
  | clear p => exact clear_inv hs hc.1 hc.2

/-- In every run whose calls meet the conditions, ports own disjoint ranges of LIDs, and
`lidmap` tells whose they are. -/
theorem reach_ownership (cfg : LidConfig) {s : LidSystem}
    (h : Reach (step cfg) (Meets cfg) (init cfg) s) : Ownership s := by
  have hinv : Inv cfg s :=
    h.invariant (Inv cfg) (inv_init cfg) fun _ _ _ _ hs hc hstep => step_inv hs hc hstep
  exact hinv.ownership

def lmcOne : LidConfig where
  lmc := 1
  lmcE0 := 0
  topoLidOffset := 1

/-- Two ports are given their LIDs one after the other. -/
theorem reach_ownership_two_ports :
    ∃ s, Reach (step lmcOne) (Meets lmcOne) (init lmcOne) s ∧ s.held 10 = some (2, 1) ∧
      s.held 11 = some (1, 0) ∧ Ownership s := by
  have hnew : ∀ (s : LidSystem) (p : LidPort) (lmc : Nat), p.guid ≠ 0 → s.held p.guid = none →
      Meets lmcOne s (.set p lmc) := fun s p lmc hg hheld =>
    ⟨hg, fun _ => by decide, fun _ _ h => by simp [hheld] at h⟩
  have hfirst := Reach.next .start (hnew (init lmcOne) ⟨10, 0, 0⟩ 1 (by decide) rfl)
    (step_eq lmcOne _ _)
  have hsecond := hfirst.next (hnew _ ⟨11, 0, 0⟩ 0 (by decide) (by decide +kernel))
    (step_eq lmcOne _ _)
  exact ⟨_, hsecond, by decide +kernel, by decide +kernel, reach_ownership lmcOne hsecond⟩

/-- Ports 10 and 11 keep LIDs 2 and 3; then port 10 is to get two.  The roll-back clears
the entry of port 11. -/
theorem reach_roll_back :
    ∃ s, Reach (step lmcOne) (fun _ _ => True) (init lmcOne) s ∧ ¬Ownership s := by
  have hrun : holdsAfter (step lmcOne) (init lmcOne)
      [.check ⟨10, 2, 0⟩ 0, .check ⟨11, 3, 0⟩ 0, .set ⟨10, 0, 0⟩ 1]
      (fun s => s.map.guid 3 = 0 ∧ s.held 11 = some (3, 0)) = true := by
    decide +kernel
  obtain ⟨s, hreach, htest⟩ := exists_reach_of_holdsAfter _ _ _ _ hrun
  obtain ⟨hfree, hheld⟩ := of_decide_eq_true htest
  refine ⟨s, hreach, fun hown => ?_⟩
  have hthree := (hown.owner 11 3 (by decide) (by decide)).mpr ⟨3, 0, hheld, by decide, by decide⟩
  rw [hfree] at hthree
  cases hthree

end LidSystem

end OpaFm.Fabric
