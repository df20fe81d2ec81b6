import OpaFm.Smp.LftBlocks
import OpaFm.Smp.Proofs.PortStates

/-!
# The packets program the table

The blocks that the senders of the whole table leave out are those that were programmed
before.
-/

namespace OpaFm.Smp

open OpaFm.Lib

variable {t : LftTopology} {sw : LftSwitch t}

def LftTopology.numBlocks (t : LftTopology) : Nat := t.maxLid / maxLftElementsBlock + 1

/-- A packet has one to `lft_multi_block` blocks and does not go past the last block. -/
def LftMad.Fits (m : LftMad) (t : LftTopology) : Prop :=
  1 ≤ m.numBlocks ∧ m.numBlocks ≤ t.lftMultiBlock ∧ m.block + m.numBlocks ≤ t.numBlocks

def LftMad.Piece (m : LftMad) (sw : LftSwitch t) : Prop :=
  ∃ count block, m = sw.lftMad count block (maxLftElementsBlock * block) ∧ 1 ≤ count ∧
    count ≤ t.lftMultiBlock ∧ block + count ≤ t.numBlocks

theorem lftMultiBlock_le (t : LftTopology) : t.lftMultiBlock ≤ 29 := by
  unfold LftTopology.lftMultiBlock maxLftElementsBlock
  split <;> omega

theorem lftMultiBlock_pos (h : 1 ≤ t.multiBlock) : 1 ≤ t.lftMultiBlock := by
  unfold LftTopology.lftMultiBlock maxLftElementsBlock
  split <;> omega

theorem numBlocks_le (t : LftTopology) : t.numBlocks ≤ 768 := by
  have hle := t.maxLid_le
  unfold LftTopology.numBlocks maxLftElementsBlock
  unfold unicastLidMax at hle
  omega

theorem numBlocks_lftMad {count block : Nat} (hcount : count < 256) (hblock : block < 2 ^ 24)
    (lid : Nat) : (sw.lftMad count block lid).numBlocks = count :=
  (portCount_amod count hblock).trans (Nat.mod_eq_of_lt hcount)

theorem block_lftMad {block : Nat} (hblock : block < 2 ^ 18) (count lid : Nat) :
    (sw.lftMad count block lid).block = block :=
  amod_and_mask count (show 18 ≤ 24 by decide) hblock

theorem LftMad.Piece.fields {m : LftMad} (h : m.Piece sw) :
    m.Fits t ∧ m = sw.lftMad m.numBlocks m.block (maxLftElementsBlock * m.block) := by
  obtain ⟨count, block, rfl, hpos, hle, hend⟩ := h
  have h29 := lftMultiBlock_le t
  have h768 := numBlocks_le t
  have hcount : (sw.lftMad count block (maxLftElementsBlock * block)).numBlocks = count :=
    numBlocks_lftMad (by omega) (by omega) _
  have hblock : (sw.lftMad count block (maxLftElementsBlock * block)).block = block :=
    block_lftMad (by omega) count _
  unfold LftMad.Fits
  rw [hcount, hblock]
  exact ⟨⟨hpos, hle, hend⟩, rfl⟩

theorem LftMad.Piece.writes {m : LftMad} (h : m.Piece sw) :
    m.writes = (List.range' (maxLftElementsBlock * m.block)
      (maxLftElementsBlock * m.numBlocks)).map fun lid => (lid, sw.lft lid) := by
  have hentries : m.entries = (List.range (maxLftElementsBlock * m.numBlocks)).map
      fun i => sw.lft (maxLftElementsBlock * m.block + i) := by
    have hfields := h.fields.2
    exact congrArg LftMad.entries hfields
  unfold LftMad.writes
  rw [hentries]
  apply List.ext_getElem
  · simp
  · intro i _ _
    simp

theorem programmed_eq {mads : List LftMad} (hpieces : ∀ m ∈ mads, m.Piece sw)
    (hcover : ∀ b < t.numBlocks, ∃ m ∈ mads, m.block ≤ b ∧ b < m.block + m.numBlocks) {lid : Nat}
    (hlid : lid < maxLftElementsBlock * t.numBlocks) : programmed mads lid = some (sw.lft lid) := by
  refine table_of_agree (f := sw.lft) ?_ ?_
  · intro w hw
    obtain ⟨m, hm, hw⟩ := List.mem_flatMap.mp hw
    rw [(hpieces m hm).writes] at hw
    obtain ⟨lid, -, rfl⟩ := List.mem_map.mp hw
    rfl
  · have hblock : lid / maxLftElementsBlock < t.numBlocks := by
      unfold maxLftElementsBlock at *
      omega
    obtain ⟨m, hm, hfrom, hto⟩ := hcover _ hblock
    refine ⟨(lid, sw.lft lid), List.mem_flatMap.mpr ⟨m, hm, ?_⟩, rfl⟩
    rw [(hpieces m hm).writes]
    refine List.mem_map_of_mem (List.mem_range'_1.mpr ?_)
    unfold maxLftElementsBlock at *
    omega

variable {send : LftMad → Bool}

/-! ## The blocks of the SM LID and of the switch LID -/

theorem and_blockMask {lid : Nat} (h : lid < 65536) :
    lid &&& 0xffc0 = maxLftElementsBlock * (lid >>> 6) := by
  have hmask : ∀ i < 16, Nat.testBit 0xffc0 i = decide (6 ≤ i) := by decide
  have hshift : maxLftElementsBlock * (lid >>> 6) = (lid >>> 6) <<< 6 := by
    rw [Nat.shiftLeft_eq, Nat.mul_comm]
    rfl
  rw [hshift]
  apply Nat.eq_of_testBit_eq
  intro i
  rw [Nat.testBit_and, Nat.testBit_shiftLeft, Nat.testBit_shiftRight]
  by_cases hhigh : i < 16
  · rw [hmask i hhigh]
    by_cases hlow : 6 ≤ i
    · simp [hlow]
    · simp [hlow]
  · have hzero : lid.testBit i = false :=
      Nat.testBit_lt_two_pow (Nat.lt_of_lt_of_le h
        (Nat.pow_le_pow_right (by decide) (Nat.le_of_not_lt hhigh) : 2 ^ 16 ≤ 2 ^ i))
    have hsub : 6 + (i - 6) = i := by omega
    simp [hsub, hzero]

theorem setupLftBlock_piece (hmb : 1 ≤ t.multiBlock) (sw : LftSwitch t) {lid : Nat}
    (hlid : lid ≤ t.maxLid) :
    (sw.lftMad 1 (lid >>> 6) (lid &&& 0xffc0)).Piece sw ∧
      (sw.lftMad 1 (lid >>> 6) (lid &&& 0xffc0)).block = lid / maxLftElementsBlock ∧
      (sw.lftMad 1 (lid >>> 6) (lid &&& 0xffc0)).numBlocks = 1 := by
  have hmax := t.maxLid_le
  unfold unicastLidMax at hmax
  have hblock : lid >>> 6 = lid / maxLftElementsBlock := Nat.shiftRight_eq_div_pow lid 6
  have hbound : lid / maxLftElementsBlock < t.numBlocks :=
    Nat.lt_succ_of_le (Nat.div_le_div_right hlid)
  have h768 := numBlocks_le t
  rw [and_blockMask (show lid < 65536 by omega), hblock]
  refine ⟨⟨1, _, rfl, Nat.le_refl 1, lftMultiBlock_pos hmb, hbound⟩, ?_, ?_⟩
  · exact block_lftMad (by omega) 1 _
  · exact numBlocks_lftMad (by decide) (by omega) _

theorem minimal_spec (hmb : 1 ≤ t.multiBlock) (send : LftMad → Bool) (sw : LftSwitch t) :
    (∀ m ∈ (smWriteMinimalLftBlocks send t sw).1, m.Piece sw) ∧
      ((smWriteMinimalLftBlocks send t sw).2 = true →
        ∀ lid, lid = t.smLid ∨ lid = sw.lid →
          ∃ m ∈ (smWriteMinimalLftBlocks send t sw).1,
            m.block = lid / maxLftElementsBlock ∧ m.numBlocks = 1) := by
  obtain ⟨hsm, hsmBlock, hsmCount⟩ := setupLftBlock_piece hmb sw t.smLid_le
  obtain ⟨hown, hownBlock, hownCount⟩ := setupLftBlock_piece hmb sw sw.lid_le
  have hshift : ∀ lid : Nat, lid >>> 6 = lid / maxLftElementsBlock :=
    fun lid => Nat.shiftRight_eq_div_pow lid 6
  unfold smWriteMinimalLftBlocks smSetupLftBlock
  dsimp only
  by_cases hsent : send (sw.lftMad 1 (t.smLid >>> 6) (t.smLid &&& 0xffc0)) = true
  · by_cases hvalid : sw.port0Valid = true
    · by_cases hsame : t.smLid >>> 6 = sw.lid >>> 6
      · -- one packet serves both LIDs
        have hblocks : sw.lid / maxLftElementsBlock = t.smLid / maxLftElementsBlock := by
          rw [← hshift, ← hshift, hsame]
        simp only [hsent, hvalid, ← hsame, Bool.not_true, Bool.false_eq_true, if_false, ne_eq,
          not_true_eq_false, List.mem_singleton, forall_eq, exists_eq_left, forall_const]
        refine ⟨hsm, fun lid hlid => ⟨?_, hsmCount⟩⟩
        rcases hlid with rfl | rfl
        · exact hsmBlock
        · exact hsmBlock.trans hblocks.symm
      · simp only [hsent, hvalid, hsame, Bool.not_true, Bool.false_eq_true, if_false, ne_eq,
          not_false_eq_true, if_true, List.mem_append, List.mem_singleton]
        constructor
        · rintro m (rfl | rfl)
          · exact hsm
          · exact hown
        · rintro - lid (rfl | rfl)
          · exact ⟨_, .inl rfl, hsmBlock, hsmCount⟩
          · exact ⟨_, .inr rfl, hownBlock, hownCount⟩
    · simp [hsent, hvalid, hsm]
  · simp [hsent, hsm]

/-! ## The whole table to a list of switches -/

def Sends (t : LftTopology) (rebalance : Bool) (sw : LftSwitch t) : Prop :=
  sw.old = false ∨ t.forceRebalance = true ∨ rebalance = true

theorem fullTurn_spec (hmb : 1 ≤ t.multiBlock) (send : LftMad → Bool) (rebalance : Bool)
    {block : Nat} (hblock : block < t.numBlocks) (sw : LftSwitch t) :
    (∀ m ∈ (fullTurn send t rebalance block sw).1, m.Piece sw) ∧
      (Sends t rebalance sw → (fullTurn send t rebalance block sw).2 = true →
        ∀ b, block ≤ b → b < block + t.lftMultiBlock → b < t.numBlocks →
          b = sw.lid / maxLftElementsBlock ∨
            ∃ m ∈ (fullTurn send t rebalance block sw).1,
              m.block ≤ b ∧ b < m.block + m.numBlocks) := by
  have hpos := lftMultiBlock_pos hmb
  have h29 := lftMultiBlock_le t
  have h768 := numBlocks_le t
  have hn : t.numBlocks = t.maxLid / maxLftElementsBlock + 1 := rfl
  unfold fullTurn
  dsimp only
  generalize hcount : (if block + t.lftMultiBlock - 1 ≤ t.maxLid / maxLftElementsBlock then
    t.lftMultiBlock else t.maxLid / maxLftElementsBlock - block + 1) = count
  have hmin : count = min t.lftMultiBlock (t.numBlocks - block) := by
    rw [← hcount]
    split <;> omega
  have hpiece : (sw.lftMad count block (block * maxLftElementsBlock)).Piece sw := by
    rw [Nat.mul_comm block]
    exact ⟨count, block, rfl, by omega, by omega, by omega⟩
  split
  · rename_i hskip
    constructor
    · simp
    · intro hsends
      simp only [Bool.and_eq_true, Bool.not_eq_true'] at hskip
      rcases hsends with h | h | h
      · exact absurd hskip.1.1 (by simp [h])
      · exact absurd hskip.1.2 (by simp [h])
      · exact absurd hskip.2 (by simp [h])
  · split
    · simp
    · split
      · rename_i hown
        refine ⟨by simp, fun _ _ b hfrom hto hb => .inl ?_⟩
        omega
      · refine ⟨by simpa using hpiece, fun _ _ b hfrom hto hb => .inr ?_⟩
        refine ⟨_, List.mem_singleton_self _, ?_, ?_⟩
        · rw [block_lftMad (by omega)]
          exact hfrom
        · rw [block_lftMad (by omega), numBlocks_lftMad (by omega) (by omega)]
          omega

theorem fullSwitches_spec (hmb : 1 ≤ t.multiBlock) (send : LftMad → Bool) (rebalance : Bool)
    {block : Nat} (hblock : block < t.numBlocks) (swlist : List (LftSwitch t)) :
    (∀ s ∈ (fullSwitches send t rebalance block swlist).1, s.2.Piece s.1) ∧
      ((fullSwitches send t rebalance block swlist).2 = true →
        ∀ sw ∈ swlist, Sends t rebalance sw →
          ∀ b, block ≤ b → b < block + t.lftMultiBlock → b < t.numBlocks →
            b = sw.lid / maxLftElementsBlock ∨
              ∃ m, (sw, m) ∈ (fullSwitches send t rebalance block swlist).1 ∧
                m.block ≤ b ∧ b < m.block + m.numBlocks) := by
  induction swlist with
  | nil => simp [fullSwitches]
  | cons first swlist ih =>
    obtain ⟨hpieces, hcover⟩ := fullTurn_spec hmb send rebalance hblock first
    have hfirst : ∀ s ∈ (fullTurn send t rebalance block first).1.map (first, ·),
        s.2.Piece s.1 := by
      intro s hs
      obtain ⟨m, hm, rfl⟩ := List.mem_map.mp hs
      exact hpieces m hm
    by_cases hok : (fullTurn send t rebalance block first).2 = true
    · simp only [fullSwitches, hok, if_true]
      constructor
      · intro s hs
        rcases List.mem_append.mp hs with hs | hs
        · exact hfirst s hs
        · exact ih.1 s hs
      · intro hrest sw hsw hsends b hfrom hto hb
        rcases List.mem_cons.mp hsw with rfl | hsw
        · refine (hcover hsends hok b hfrom hto hb).imp_right ?_
          rintro ⟨m, hm, hrange⟩
          exact ⟨m, List.mem_append_left _ (List.mem_map_of_mem hm), hrange⟩
        · refine (ih.2 hrest sw hsw hsends b hfrom hto hb).imp_right ?_
          rintro ⟨m, hm, hrange⟩
          exact ⟨m, List.mem_append_right _ hm, hrange⟩
    · simp only [fullSwitches, hok, Bool.false_eq_true, if_false]
      exact ⟨hfirst, fun h => absurd h (by simp)⟩

theorem fullBlock_spec (hmb : 1 ≤ t.multiBlock) (send : LftMad → Bool) (rebalance : Bool)
    {block : Nat} (hblock : block < t.numBlocks) (swlist : List (LftSwitch t)) {sent ok}
    (hturn : (if t.lftMultiBlock = 1 ∧ block = t.smLid / maxLftElementsBlock then ([], true)
      else fullSwitches send t rebalance block swlist) = (sent, ok)) :
    (∀ s ∈ sent, s.2.Piece s.1) ∧
      (ok = true → ∀ sw ∈ swlist, Sends t rebalance sw →
        ∀ b, block ≤ b → b < block + t.lftMultiBlock → b < t.numBlocks →
          (b = t.smLid / maxLftElementsBlock ∨ b = sw.lid / maxLftElementsBlock) ∨
            ∃ m, (sw, m) ∈ sent ∧ m.block ≤ b ∧ b < m.block + m.numBlocks) := by
  by_cases hskip : t.lftMultiBlock = 1 ∧ block = t.smLid / maxLftElementsBlock
  · rw [if_pos hskip] at hturn
    cases hturn
    refine ⟨by simp, fun _ sw _ _ b hfrom hto _ => .inl (.inl ?_)⟩
    omega
  · rw [if_neg hskip] at hturn
    obtain ⟨hpieces, hcover⟩ := fullSwitches_spec hmb send rebalance hblock swlist
    rw [hturn] at hpieces hcover
    refine ⟨hpieces, fun hok sw hsw hsends b hfrom hto hb => ?_⟩
    exact (hcover hok sw hsw hsends b hfrom hto hb).imp_left .inr

theorem fullBlocks_spec (hmb : 1 ≤ t.multiBlock) (send : LftMad → Bool) (rebalance : Bool)
    (swlist : List (LftSwitch t)) (fuel : Nat) :
    ∀ block, t.numBlocks ≤ fuel + block → ∃ sent ok,
      fullBlocks send t swlist rebalance (fuel + 1) block = some (sent, ok) ∧
        (∀ s ∈ sent, s.2.Piece s.1) ∧
        (ok = true → ∀ sw ∈ swlist, Sends t rebalance sw →
          ∀ b, block ≤ b → b < t.numBlocks →
            (b = t.smLid / maxLftElementsBlock ∨ b = sw.lid / maxLftElementsBlock) ∨
              ∃ m, (sw, m) ∈ sent ∧ m.block ≤ b ∧ b < m.block + m.numBlocks) := by
  have hpos := lftMultiBlock_pos hmb
  have hn : t.numBlocks = t.maxLid / maxLftElementsBlock + 1 := rfl
  induction fuel with
  | zero =>
    intro block hend
    refine ⟨[], true, if_neg (by omega), by simp, fun _ sw _ _ b hfrom hb => ?_⟩
    omega
  | succ fuel ih =>
    intro block hfuel
    by_cases hblock : block < t.numBlocks
    · have hin : block ≤ t.maxLid / maxLftElementsBlock := by omega
      rw [fullBlocks, if_pos hin]
      generalize hturn : (if t.lftMultiBlock = 1 ∧ block = t.smLid / maxLftElementsBlock then
        ([], true) else fullSwitches send t rebalance block swlist) = turn
      obtain ⟨sent, ok⟩ := turn
      obtain ⟨hpieces, hcover⟩ := fullBlock_spec hmb send rebalance hblock swlist hturn
      cases ok with
      | false => exact ⟨sent, false, rfl, hpieces, fun h => absurd h (by simp)⟩
      | true =>
        obtain ⟨sent', ok', hrun, hpieces', hcover'⟩ :=
          ih (block + t.lftMultiBlock) (by omega)
        refine ⟨sent ++ sent', ok', ?_, ?_, ?_⟩
        · simp [hrun]
        · intro s hs
          rcases List.mem_append.mp hs with hs | hs
          · exact hpieces s hs
          · exact hpieces' s hs
        · intro hok sw hsw hsends b hfrom hb
          by_cases hnear : b < block + t.lftMultiBlock
          · refine (hcover rfl sw hsw hsends b hfrom hnear hb).imp_right ?_
            rintro ⟨m, hm, hrange⟩
            exact ⟨m, List.mem_append_left _ hm, hrange⟩
          · refine (hcover' hok sw hsw hsends b (by omega) hb).imp_right ?_
            rintro ⟨m, hm, hrange⟩
            exact ⟨m, List.mem_append_right _ hm, hrange⟩
    · refine ⟨[], true, ?_, by simp, fun _ sw _ _ b hfrom hb => ?_⟩
      · rw [fullBlocks, if_neg (by omega)]
      · omega

/-! ## The whole table to one switch -/

theorem lidsPerMad_eq (t : LftTopology) : lidsPerMad t = maxLftElementsBlock * t.lftMultiBlock := by
  have h29 := lftMultiBlock_le t
  unfold lidsPerMad maxLftElementsBlock
  omega

theorem sendSets_spec (hmb : 1 ≤ t.multiBlock) (send : LftMad → Bool) (sw : LftSwitch t)
    (fuel : Nat) :
    ∀ block, t.numBlocks ≤ fuel + block → block < 1024 → ∃ sent ok,
      sendSets send t sw (fuel + 1) block (maxLftElementsBlock * block) = some (sent, ok) ∧
        (∀ m ∈ sent, m.Piece sw) ∧
        (ok = true → ∀ b, block ≤ b → b < t.numBlocks →
          ∃ m ∈ sent, m.block ≤ b ∧ b < m.block + m.numBlocks) := by
  have hpos := lftMultiBlock_pos hmb
  have h29 := lftMultiBlock_le t
  have h768 := numBlocks_le t
  have hmax := t.maxLid_le
  have hn : t.numBlocks = t.maxLid / maxLftElementsBlock + 1 := rfl
  induction fuel with
  | zero =>
    intro block hend _
    refine ⟨[], true, if_neg ?_, by simp, fun _ b hfrom hb => ?_⟩
    · unfold maxLftElementsBlock at *
      omega
    · omega
  | succ fuel ih =>
    intro block hfuel hsmall
    by_cases hblock : block < t.numBlocks
    · have hin : maxLftElementsBlock * block ≤ t.maxLid := by
        unfold maxLftElementsBlock at *
        omega
      rw [sendSets, if_pos hin, lidsPerMad_eq]
      dsimp only
      generalize hcount : (if maxLftElementsBlock * block +
          maxLftElementsBlock * t.lftMultiBlock ≤ t.maxLid then t.lftMultiBlock
        else t.lftMultiBlock - (maxLftElementsBlock * t.lftMultiBlock -
          (t.maxLid - maxLftElementsBlock * block + 1)) / maxLftElementsBlock) = count
      have hmin : count = min t.lftMultiBlock (t.numBlocks - block) := by
        rw [← hcount]
        unfold maxLftElementsBlock at *
        split <;> omega
      have hpiece : (sw.lftMad count block (maxLftElementsBlock * block)).Piece sw :=
        ⟨count, block, rfl, by omega, by omega, by omega⟩
      by_cases hsent : send (sw.lftMad count block (maxLftElementsBlock * block)) = true
      · have hset : (block + t.lftMultiBlock) % 65536 = block + t.lftMultiBlock := by omega
        have hlid : (maxLftElementsBlock * block +
            maxLftElementsBlock * t.lftMultiBlock) % 65536 =
              maxLftElementsBlock * (block + t.lftMultiBlock) := by
          unfold maxLftElementsBlock at *
          omega
        obtain ⟨sent, ok, hrun, hpieces, hcover⟩ :=
          ih (block + t.lftMultiBlock) (by omega) (by omega)
        rw [if_pos hsent, hset, hlid, hrun]
        refine ⟨_ :: sent, ok, rfl, ?_, fun hok b hfrom hb => ?_⟩
        · intro m hm
          rcases List.mem_cons.mp hm with rfl | hm
          · exact hpiece
          · exact hpieces m hm
        · by_cases hnear : b < block + t.lftMultiBlock
          · refine ⟨_, List.mem_cons_self, ?_, ?_⟩
            · rw [block_lftMad (by omega)]
              exact hfrom
            · rw [block_lftMad (by omega), numBlocks_lftMad (by omega) (by omega)]
              omega
          · obtain ⟨m, hm, hrange⟩ := hcover hok b (by omega) hb
            exact ⟨m, List.mem_cons_of_mem _ hm, hrange⟩
      · rw [if_neg hsent]
        exact ⟨_, false, rfl, by simpa using hpiece, fun h => absurd h (by simp)⟩
    · refine ⟨[], true, ?_, by simp, fun _ b hfrom hb => ?_⟩
      · refine if_neg ?_
        unfold maxLftElementsBlock at *
        omega
      · omega

/-! ## Both ways of sending -/

def AllSentTo (sw : LftSwitch t) (minimal : List LftMad) (full : List (LftSwitch t × LftMad))
    (mads : List LftMad) : Prop :=
  ∀ m, m ∈ mads ↔ m ∈ minimal ∨ (sw, m) ∈ full

/-- The sending of the minimal blocks and then of the whole table to a list of switches: it
ends, all packets fit, and where all were sent the table of the switch is programmed. -/
def FullProgrammed (t : LftTopology) (send : LftMad → Bool) (swlist : List (LftSwitch t))
    (rebalance : Bool) (sw : LftSwitch t) : Prop :=
  ∀ fuel, t.numBlocks < fuel → ∃ full ok,
    smWriteFullLftsByBlockLR send t swlist rebalance fuel = some (full, ok) ∧
      ∀ mads, AllSentTo sw (smWriteMinimalLftBlocks send t sw).1 full mads →
        (∀ m ∈ mads, m.Fits t) ∧
          ((smWriteMinimalLftBlocks send t sw).2 = true → ok = true →
            ∀ lid < maxLftElementsBlock * t.numBlocks, programmed mads lid = some (sw.lft lid))

def SendProgrammed (t : LftTopology) (send : LftMad → Bool) (sw : LftSwitch t) : Prop :=
  ∀ fuel, t.numBlocks < fuel → ∃ mads ok, smSendLft send t sw fuel = some (mads, ok) ∧
    (∀ m ∈ mads, m.Fits t) ∧
      (ok = true →
        ∀ lid < maxLftElementsBlock * t.numBlocks, programmed mads lid = some (sw.lft lid))

theorem fullProgrammed_of_sends (hmb : 1 ≤ t.multiBlock) (send : LftMad → Bool)
    (swlist : List (LftSwitch t)) (rebalance : Bool) (hsw : sw ∈ swlist)
    (hsends : Sends t rebalance sw) : FullProgrammed t send swlist rebalance sw := by
  intro fuel hfuel
  obtain ⟨fuel, rfl⟩ : ∃ f, fuel = f + 1 := ⟨fuel - 1, by omega⟩
  obtain ⟨full, ok, hrun, hpieces, hcover⟩ :=
    fullBlocks_spec hmb send rebalance swlist fuel 0 (by omega)
  obtain ⟨hmin, hminCover⟩ := minimal_spec hmb send sw
  refine ⟨full, ok, hrun, fun mads hall => ?_⟩
  have hparts : ∀ m ∈ mads, m.Piece sw := by
    intro m hm
    rcases (hall m).mp hm with h | h
    · exact hmin m h
    · exact hpieces _ h
  refine ⟨fun m hm => (hparts m hm).fields.1, fun hminOk hok lid hlid => ?_⟩
  refine programmed_eq hparts (fun b hb => ?_) hlid
  rcases hcover hok sw hsw hsends b (Nat.zero_le b) hb with hskipped | ⟨m, hm, hrange⟩
  · -- the blocks that are left out are the minimal ones
    have hlids : ∃ lid, (lid = t.smLid ∨ lid = sw.lid) ∧ b = lid / maxLftElementsBlock := by
      rcases hskipped with h | h
      · exact ⟨_, .inl rfl, h⟩
      · exact ⟨_, .inr rfl, h⟩
    obtain ⟨lid, hlid, rfl⟩ := hlids
    obtain ⟨m, hm, hblock, hcount⟩ := hminCover hminOk lid hlid
    exact ⟨m, (hall m).mpr (.inl hm), by omega, by omega⟩
  · exact ⟨m, (hall m).mpr (.inr hm), hrange⟩

theorem sendProgrammed (hmb : 1 ≤ t.multiBlock) (send : LftMad → Bool) (sw : LftSwitch t) :
    SendProgrammed t send sw := by
  intro fuel hfuel
  obtain ⟨fuel, rfl⟩ : ∃ f, fuel = f + 1 := ⟨fuel - 1, by omega⟩
  unfold smSendLft
  by_cases hvalid : sw.port0Valid = true
  · obtain ⟨sent, ok, hrun, hpieces, hcover⟩ :=
      sendSets_spec hmb send sw fuel 0 (by omega) (by omega)
    refine ⟨sent, ok, by simpa [hvalid] using hrun, fun m hm => (hpieces m hm).fields.1, ?_⟩
    exact fun hok lid hlid =>
      programmed_eq hpieces (fun b hb => hcover hok b (Nat.zero_le b) hb) hlid
  · exact ⟨[], false, by simp [hvalid], by simp, fun h => absurd h (by simp)⟩

/-- Both ways of sending program the whole table of a switch, in packets that fit. -/
theorem lftBlocks_program {t : LftTopology} (hmb : 1 ≤ t.multiBlock) (send : LftMad → Bool)
    (swlist : List (LftSwitch t)) (rebalance : Bool) {sw : LftSwitch t} (hsw : sw ∈ swlist)
    (hsends : Sends t rebalance sw) :
    FullProgrammed t send swlist rebalance sw ∧ SendProgrammed t send sw :=
  ⟨fullProgrammed_of_sends hmb send swlist rebalance hsw hsends, sendProgrammed hmb send sw⟩

theorem lids_in_twoBlocks : 64 ≤ unicastLidMax ∧ 1 ≤ 64 ∧ 2 ≤ 64 := by decide

def twoBlocks : LftTopology where
  maxLid := 64
  smLid := 1
  maxLid_le := lids_in_twoBlocks.1
  smLid_le := lids_in_twoBlocks.2.1
  multiBlock := 1
  forceRebalance := false

def twoBlocksSwitch (old : Bool) : LftSwitch twoBlocks where
  lid := 2
  lid_le := lids_in_twoBlocks.2.2
  port0Valid := true
  old := old
  lft := fun lid => lid % 7

theorem lftBlocks_program_twoBlocks :
    FullProgrammed twoBlocks (fun _ => true) [twoBlocksSwitch false] false
        (twoBlocksSwitch false) ∧
      SendProgrammed twoBlocks (fun _ => true) (twoBlocksSwitch false) :=
  lftBlocks_program (Nat.le_refl 1) (fun _ => true) [twoBlocksSwitch false] false
    (List.mem_singleton_self _) (.inl rfl)

/-- The second block of a switch that was in use before is not sent without a rebalance. -/
theorem not_lftBlocks_program :
    ¬∀ (t : LftTopology), 1 ≤ t.multiBlock → ∀ (send : LftMad → Bool)
      (swlist : List (LftSwitch t)) (rebalance : Bool), ∀ sw ∈ swlist,
        FullProgrammed t send swlist rebalance sw ∧ SendProgrammed t send sw := by
  intro h
  have hprogrammed := (h twoBlocks (Nat.le_refl 1) (fun _ => true) [twoBlocksSwitch true] false
    (twoBlocksSwitch true) (List.mem_singleton_self _)).1
  obtain ⟨full, ok, hrun, hall⟩ := hprogrammed 3 (by decide)
  have hnone : smWriteFullLftsByBlockLR (fun _ => true) twoBlocks [twoBlocksSwitch true] false 3 =
      some ([], true) := rfl
  rw [hnone] at hrun
  cases hrun
  obtain ⟨-, htable⟩ := hall (smWriteMinimalLftBlocks (fun _ => true) twoBlocks
    (twoBlocksSwitch true)).1 fun m => by simp
  have hlast := htable (by decide) rfl 64 (by decide)
  exact absurd hlast (by decide)

end OpaFm.Smp
