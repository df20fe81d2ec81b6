import OpaFm.Multicast.SetMft
import OpaFm.Multicast.Proofs.PortMasks

/-!
# Hardware tables

A block that is sent makes the hardware's rows equal to the new ones, and a block
that is not sent has to be equal already.  What decides is not the old mask but what
is visible of it: its low 16 bits up to the old maximum MLID, and nothing above.
-/

namespace OpaFm.Multicast

namespace SetMftEnv

variable (env : SetMftEnv) (sw : MftSwitch)

def InRange (row i : Nat) : Prop :=
  row ≤ env.mlidCount ∧ row < env.mlidTableCap ∧ i ∈ rowPositions sw.numPorts

def visibleOld (old : MftRows) (row i : Nat) : BitVec 64 :=
  if env.maxmcLid - env.mlidCount + row > env.oldMaxmcLid then 0
  else ((old row i).setWidth 16).setWidth 64

variable {env sw}

/-! ## One block -/

theorem fillBlock_other (offset i : Nat) {j : Nat} (js : List Nat) (mft : Nat → BitVec 64)
    (flag : Bool) (hj : j ∉ js) : (env.fillBlock sw offset i js mft flag).1 j = mft j := by
  induction js generalizing mft flag with
  | nil => rfl
  | cons k js ih =>
    obtain ⟨hne, hj'⟩ := not_or.mp (mt List.mem_cons.mpr hj)
    unfold fillBlock
    simp only
    split
    · rw [ih _ _ hj', Function.update_of_ne hne]
    · split
      · exact Function.update_of_ne hne _ _
      · rw [ih _ _ hj', Function.update_of_ne hne]

variable (env sw) in
theorem fillBlock_spec (offset i : Nat) (js : List Nat) (mft : Nat → BitVec 64) (flag : Bool)
    (hsorted : js.Pairwise (· < ·)) :
    (∀ j ∈ js, j ≤ env.mlidCount - offset →
      (env.fillBlock sw offset i js mft flag).1 j = env.blockRow sw offset i j) ∧
    ((env.fillBlock sw offset i js mft flag).2 = true ↔
      flag = true ∨ ∃ j ∈ js, j ≤ env.mlidCount - offset ∧ env.rowChange sw offset i j = true) := by
  induction js generalizing mft flag with
  | nil => simp [fillBlock]
  | cons k js ih =>
    obtain ⟨hk, hsorted'⟩ := List.pairwise_cons.mp hsorted
    have hnot : k ∉ js := fun h => absurd (hk k h) (lt_irrefl k)
    -- the row is stored and not overwritten by the later ones
    have hhead : ∀ flag', (env.fillBlock sw offset i js
        (Function.update mft k (env.blockRow sw offset i k)) flag').1 k =
          env.blockRow sw offset i k := by
      intro flag'
      rw [fillBlock_other offset i js _ flag' hnot, Function.update_self]
    unfold fillBlock
    simp only
    cases flag with
    | true =>
      obtain ⟨hrows, hflag⟩ := ih (Function.update mft k (env.blockRow sw offset i k)) true hsorted'
      simp only [if_true]
      refine ⟨fun j hj hle => ?_, by simp [hflag]⟩
      rcases List.mem_cons.mp hj with rfl | hj
      · exact hhead true
      · exact hrows j hj hle
    | false =>
      simp only [Bool.false_eq_true, if_false, false_or]
      by_cases hlast : k > env.mlidCount - offset
      · simp only [hlast, if_true]
        have hbeyond : ∀ j ∈ k :: js, ¬j ≤ env.mlidCount - offset := by
          intro j hj hle
          rcases List.mem_cons.mp hj with rfl | hj
          · omega
          · have := hk j hj
            omega
        refine ⟨fun j hj hle => absurd hle (hbeyond j hj), ?_⟩
        simp only [Bool.false_eq_true, false_iff, not_exists, not_and]
        exact fun j hj hle => absurd hle (hbeyond j hj)
      · simp only [hlast, if_false]
        obtain ⟨hrows, hflag⟩ := ih (Function.update mft k (env.blockRow sw offset i k))
          (env.rowChange sw offset i k) hsorted'
        refine ⟨fun j hj hle => ?_, ?_⟩
        · rcases List.mem_cons.mp hj with rfl | hj
          · exact hhead _
          · exact hrows j hj hle
        · rw [hflag]
          have hkle : k ≤ env.mlidCount - offset := by omega
          simp [hkle]

def BlockQuiet (env : SetMftEnv) (sw : MftSwitch) (offset i : Nat) : Prop :=
  ∀ j < stlNumMftElementsBlock, j ≤ env.mlidCount - offset → env.rowChange sw offset i j = false

instance (env : SetMftEnv) (sw : MftSwitch) (offset i : Nat) :
    Decidable (BlockQuiet env sw offset i) :=
  inferInstanceAs (Decidable (∀ j < stlNumMftElementsBlock, j ≤ env.mlidCount - offset →
    env.rowChange sw offset i j = false))

variable (env sw) in
theorem fillBlock_range (offset i : Nat) (mft : Nat → BitVec 64) :
    (∀ j < stlNumMftElementsBlock, j ≤ env.mlidCount - offset →
      (env.fillBlock sw offset i (List.range stlNumMftElementsBlock) mft false).1 j =
        env.blockRow sw offset i j) ∧
    ((env.fillBlock sw offset i (List.range stlNumMftElementsBlock) mft false).2 = false ↔
      BlockQuiet env sw offset i) := by
  obtain ⟨hrows, hflag⟩ := fillBlock_spec env sw offset i
    (List.range stlNumMftElementsBlock) mft false List.pairwise_lt_range
  refine ⟨fun j hj => hrows j (List.mem_range.mpr hj), ?_⟩
  rw [← Bool.not_eq_true, hflag]
  simp only [Bool.false_eq_true, false_or, List.mem_range, not_exists, not_and, BlockQuiet,
    Bool.not_eq_true]

/-! ## All blocks -/

def blockOf (row : Nat) : Nat := row / stlNumMftElementsBlock * stlNumMftElementsBlock

theorem writeBlock_other {hw : MftRows} {b : MftBlock} {row i k : Nat}
    (hoff : b.offset = k * stlNumMftElementsBlock) (hne : (b.offset, b.position) ≠ (blockOf row, i)) :
    writeBlock hw b row i = hw row i := by
  unfold writeBlock
  rw [if_neg]
  rintro ⟨rfl, hle, hlt⟩
  apply hne
  rw [Prod.mk.injEq]
  unfold blockOf
  unfold stlNumMftElementsBlock at *
  omega

theorem sendBlocks_row (blocks : List (Nat × Nat)) (hnodup : blocks.Nodup)
    (hmult : ∀ b ∈ blocks, ∃ k, b.1 = k * stlNumMftElementsBlock) (mft : Nat → BitVec 64)
    (hw : MftRows) {row i : Nat} (hrow : row ≤ env.mlidCount) :
    ((env.sendBlocks sw blocks mft).foldl writeBlock hw) row i =
      if (blockOf row, i) ∈ blocks ∧
          ¬(env.skipsBlock sw false = true ∧ BlockQuiet env sw (blockOf row) i) then
        env.blockRow sw (blockOf row) i (row % stlNumMftElementsBlock)
      else hw row i := by
  induction blocks generalizing mft hw with
  | nil => simp [sendBlocks]
  | cons b blocks ih =>
    obtain ⟨offset, p⟩ := b
    obtain ⟨hrows, hflag⟩ := fillBlock_range env sw offset p mft
    obtain ⟨hnot, hnodup'⟩ := List.nodup_cons.mp hnodup
    have hmult' := fun b hb => hmult b (List.mem_cons_of_mem _ hb)
    unfold sendBlocks
    simp only
    generalize env.fillBlock sw offset p (List.range stlNumMftElementsBlock) mft false = filled at *
    obtain ⟨buffer, changed⟩ := filled
    by_cases heq : (offset, p) = (blockOf row, i)
    · obtain ⟨rfl, rfl⟩ := Prod.mk.inj heq
      have hj : row % stlNumMftElementsBlock < stlNumMftElementsBlock :=
        Nat.mod_lt _ (by decide)
      have hback : blockOf row + row % stlNumMftElementsBlock = row := Nat.div_add_mod' _ _
      split
      next hskip =>
        -- the only block with the row is left out
        have hquiet : changed = false := by simp_all [skipsBlock]
        subst hquiet
        rw [ih hnodup' hmult', if_neg (fun h => hnot h.1), if_neg]
        exact fun h => h.2 ⟨hskip, hflag.mp rfl⟩
      next hsend =>
        rw [List.foldl_cons, ih hnodup' hmult', if_neg (fun h => hnot h.1), if_pos]
        · unfold writeBlock
          rw [if_pos ⟨rfl, by simp only; omega, by simp only; omega⟩]
          have hsub : row - blockOf row = row % stlNumMftElementsBlock := by omega
          simp only [hsub]
          exact hrows _ hj (by omega)
        · refine ⟨List.mem_cons_self, fun h => hsend ?_⟩
          rw [show changed = false from hflag.mpr h.2]
          exact h.1
    · have hmem : (blockOf row, i) ∈ (offset, p) :: blocks ↔ (blockOf row, i) ∈ blocks := by
        rw [List.mem_cons, or_iff_right (fun h => heq h.symm)]
      obtain ⟨k, hk⟩ := hmult _ List.mem_cons_self
      simp only [hmem]
      split
      next => exact ih hnodup' hmult' _ _
      next =>
        rw [List.foldl_cons, ih hnodup' hmult']
        rw [writeBlock_other (hk : (MftBlock.mk offset p buffer).offset = _) heq]

theorem blocks_multiple : ∀ b ∈ env.blocks sw, ∃ k, b.1 = k * stlNumMftElementsBlock := by
  intro b hb
  obtain ⟨k, _, hk⟩ := List.mem_flatMap.mp hb
  obtain ⟨i, _, rfl⟩ := List.mem_map.mp hk
  exact ⟨k, rfl⟩

theorem blocks_nodup : (env.blocks sw).Nodup := by
  unfold blocks
  rw [List.nodup_flatMap]
  constructor
  · intro k _
    exact (rowPositions_nodup sw.numPorts).map fun a b h => (Prod.mk.inj h).2
  · apply List.nodup_range.imp
    intro k k' hne b hk hk'
    obtain ⟨i, _, rfl⟩ := List.mem_map.mp hk
    obtain ⟨i', _, h⟩ := List.mem_map.mp hk'
    apply hne
    have hmul := (Prod.mk.inj h).1
    unfold stlNumMftElementsBlock at hmul
    omega

theorem mem_blocks {row i : Nat} (h : env.InRange sw row i) : (blockOf row, i) ∈ env.blocks sw := by
  apply List.mem_flatMap.mpr
  refine ⟨row / stlNumMftElementsBlock, ?_, List.mem_map_of_mem h.2.2⟩
  rw [List.mem_range]
  exact Nat.lt_succ_of_le (Nat.div_le_div_right h.1)

theorem blockOf_add_mod (row : Nat) : blockOf row + row % stlNumMftElementsBlock = row :=
  Nat.div_add_mod' _ _

theorem blockQuiet_iff {old : MftRows} {row i : Nat} (hforce : env.force = false)
    (hchange : sw.mftChange = false) (hold : env.oldswp sw = some old)
    (h : env.InRange sw row i) :
    BlockQuiet env sw (blockOf row) i ↔
      ∀ r, blockOf r = blockOf row → env.InRange sw r i → sw.mft r i = env.visibleOld old r i := by
  have hchanged : ∀ offset j, env.rowChange sw offset i j = false ↔
      (offset + j < env.mlidTableCap → sw.mft (offset + j) i = env.visibleOld old (offset + j) i) := by
    intro offset j
    unfold rowChange visibleOld blockRow oldPortMask
    simp only [hforce, hchange, hold, Nat.add_assoc]
    split_ifs <;> simp_all
  constructor
  · intro hquiet r hr hrange
    have hmod := blockOf_add_mod r
    have := (hchanged (blockOf row) (r % stlNumMftElementsBlock)).mp
      (hquiet _ (Nat.mod_lt _ (by decide)) (by have := hrange.1; omega))
    rw [← hr, hmod] at this
    exact this hrange.2.1
  · intro hrows j hj hle
    rw [hchanged]
    intro hcap
    have hoff : blockOf (blockOf row + j) = blockOf row := by
      unfold blockOf stlNumMftElementsBlock at *
      omega
    have hrow : blockOf row ≤ row := Nat.div_mul_le_self _ _
    exact hrows _ hoff ⟨by have := h.1; omega, hcap, h.2.2⟩

theorem skipsSwitch_rows {old : MftRows} (hold : sw.oldMft = some old)
    (hskip : env.skipsSwitch sw = true) {row i : Nat} (h : env.InRange sw row i)
    (hrow : row ≤ findMlidOffset env.calculatedMaxmcLid) : sw.mft row i = old row i := by
  have hi : i < stlNumMftPositionsMask :=
    List.mem_range.mp ((List.takeWhile_sublist _).subset h.2.2)
  by_contra hne
  have hmask : env.mftPortMaskChange sw = true := by
    simp only [skipsSwitch, decide_eq_true_eq] at hskip
    simp only [mftPortMaskChange, hold, Option.any_some, List.any_eq_true, List.mem_range,
      decide_eq_true_eq]
    exact ⟨by omega, row, by omega, i, hi, hne⟩
  simp [skipsSwitch, hmask] at hskip

/-! ## A switch -/

def Programmed (env : SetMftEnv) (sw : MftSwitch) (old : MftRows) (blocks : List MftBlock) : Prop :=
  ∀ row i, env.InRange sw row i → (blocks.foldl writeBlock old) row i = sw.mft row i

structure ChangesShow (env : SetMftEnv) (sw : MftSwitch) (old : MftRows) (reached : Bool) : Prop where
  /-- A switch that is not programmed at all has no change. -/
  passedOver : reached = false ∨ sw.port0Active = false →
    ∀ row i, env.InRange sw row i → sw.mft row i = old row i
  /-- A switch that is passed over has no change above the maximum when the tables
  were compared. -/
  quiet : reached = true → sw.port0Active = true → env.skipsSwitch sw = true →
    ∀ row i, env.InRange sw row i → findMlidOffset env.calculatedMaxmcLid < row →
      sw.mft row i = old row i
  /-- In a block whose new masks are what is visible of the old ones, nothing of the
  old ones is hidden. -/
  hidden : reached = true → sw.port0Active = true → env.skipsSwitch sw = false →
    env.force = false → sw.mftChange = false → env.topologyPasscount > 1 → env.prevTp = true →
    ∀ row i, env.InRange sw row i →
      (∀ r, blockOf r = blockOf row → env.InRange sw r i →
        sw.mft r i = env.visibleOld old r i) →
      old row i = env.visibleOld old row i

theorem sendBlocks_inRange (old : MftRows) {row i : Nat} (h : env.InRange sw row i) :
    ((env.sendBlocks sw (env.blocks sw) fun _ => 0).foldl writeBlock old) row i =
      if env.skipsBlock sw false = true ∧ BlockQuiet env sw (blockOf row) i then old row i
      else sw.mft row i := by
  rw [sendBlocks_row _ blocks_nodup blocks_multiple _ _ h.1]
  simp only [mem_blocks h, true_and, blockRow, blockOf_add_mod, h.2.1, if_true, ite_not]

theorem skipsBlock_false_iff {old : MftRows} (hold : sw.oldMft = some old) :
    env.skipsBlock sw false = true ↔
      env.force = false ∧ sw.mftChange = false ∧ env.topologyPasscount > 1 ∧ env.prevTp = true := by
  unfold skipsBlock oldswp
  rw [hold]
  split_ifs with h <;> simp_all

theorem oldswp_of {old : MftRows} (hold : sw.oldMft = some old) (hpass : env.topologyPasscount > 1)
    (hprev : env.prevTp = true) : env.oldswp sw = some old := by
  unfold oldswp
  rw [if_pos ⟨hpass, hprev⟩, hold]

theorem sendBlocks_programmed_iff {old : MftRows} (hold : sw.oldMft = some old) :
    Programmed env sw old (env.sendBlocks sw (env.blocks sw) fun _ => 0) ↔
      (env.force = false → sw.mftChange = false → env.topologyPasscount > 1 → env.prevTp = true →
        ∀ row i, env.InRange sw row i →
          (∀ r, blockOf r = blockOf row → env.InRange sw r i →
            sw.mft r i = env.visibleOld old r i) →
          old row i = env.visibleOld old row i) := by
  unfold Programmed
  constructor
  · intro hprog hforce hchange hpass hprev row i hrange hrows
    have hquiet := (blockQuiet_iff hforce hchange (oldswp_of hold hpass hprev) hrange).mpr hrows
    have hrow := hprog row i hrange
    rw [sendBlocks_inRange old hrange,
      if_pos ⟨(skipsBlock_false_iff hold).mpr ⟨hforce, hchange, hpass, hprev⟩, hquiet⟩] at hrow
    rw [hrow]
    exact hrows row rfl hrange
  · intro hhidden row i hrange
    rw [sendBlocks_inRange old hrange]
    split
    next h =>
      obtain ⟨hforce, hchange, hpass, hprev⟩ := (skipsBlock_false_iff hold).mp h.1
      have hrows := (blockQuiet_iff hforce hchange (oldswp_of hold hpass hprev) hrange).mp h.2
      rw [hhidden hforce hchange hpass hprev row i hrange hrows]
      exact (hrows row rfl hrange).symm
    next => rfl

theorem setMft_programmed_iff {old : MftRows} (hold : sw.oldMft = some old) (reached : Bool) :
    Programmed env sw old (if reached then env.setMft sw else []) ↔
      ChangesShow env sw old reached := by
  have hnone : Programmed env sw old [] ↔ ∀ row i, env.InRange sw row i → sw.mft row i = old row i :=
    forall₃_congr fun row i _ => eq_comm
  by_cases hvisit : reached = true ∧ sw.port0Active = true
  · obtain ⟨rfl, hactive⟩ := hvisit
    cases hskip : env.skipsSwitch sw with
    | true =>
      simp only [if_true, setMft, hactive, hskip, Bool.not_true, Bool.false_eq_true, false_or, hnone]
      constructor
      · intro heq
        exact ⟨fun _ => heq, fun _ _ _ row i h _ => heq row i h, fun _ _ h => by simp_all⟩
      · intro hshow row i hrange
        by_cases hrow : row ≤ findMlidOffset env.calculatedMaxmcLid
        · exact skipsSwitch_rows hold hskip hrange hrow
        · exact hshow.quiet rfl hactive hskip row i hrange (by omega)
    | false =>
      simp only [if_true, setMft, hactive, hskip, Bool.not_true, Bool.false_eq_true, false_or,
        if_false, sendBlocks_programmed_iff hold]
      constructor
      · intro hhidden
        exact ⟨fun h => by simp_all, fun _ _ h => by simp_all, fun _ _ _ => hhidden⟩
      · intro hshow
        exact hshow.hidden rfl hactive hskip
  · have hnil : (if reached then env.setMft sw else []) = [] := by
      unfold setMft
      cases reached <;> simp_all
    have hor : reached = false ∨ sw.port0Active = false := by
      cases reached <;> simp_all
    rw [hnil, hnone]
    constructor
    · intro heq
      exact ⟨fun _ => heq, fun h h' => absurd ⟨h, h'⟩ hvisit, fun h h' => absurd ⟨h, h'⟩ hvisit⟩
    · intro hshow
      exact hshow.passedOver hor

end SetMftEnv

/-! ## All switches -/

def mftReached (l : List (Bool × MftSwitch)) (k : Nat) : Bool :=
  (l.take (k + 1)).all Prod.fst

theorem smSetAllMft_getD (env : SetMftEnv) {l : List (Bool × MftSwitch)} {k : Nat} {m : Bool}
    {sw : MftSwitch} (hk : l[k]? = some (m, sw)) :
    (smSetAllMft env l)[k]?.getD [] = if mftReached l k then env.setMft sw else [] := by
  induction l generalizing k with
  | nil => cases hk
  | cons p l ih =>
    obtain ⟨isMaster, sw'⟩ := p
    cases isMaster with
    | false => simp [smSetAllMft, mftReached]
    | true =>
      cases k with
      | zero =>
        obtain ⟨rfl, rfl⟩ := Prod.mk.inj (Option.some.inj hk)
        simp [smSetAllMft, mftReached]
      | succ k =>
        have hreached : mftReached ((true, sw') :: l) (k + 1) = mftReached l k :=
          Bool.true_and _
        rw [hreached]
        exact ih hk

/-- Wherever the hardware held the old table of a switch, it holds the new one after
the blocks are written exactly if every change shows. -/
theorem smSetAllMft_programmed_iff (env : SetMftEnv) (l : List (Bool × MftSwitch)) (k : Nat)
    (m : Bool) (sw : MftSwitch) (old : MftRows) (hk : l[k]? = some (m, sw))
    (hold : sw.oldMft = some old) :
    env.Programmed sw old ((smSetAllMft env l)[k]?.getD []) ↔
      env.ChangesShow sw old (mftReached l k) := by
  rw [smSetAllMft_getD env hk]
  exact SetMftEnv.setMft_programmed_iff hold (mftReached l k)

def sweepEnv : SetMftEnv where
  force := false
  topologyPasscount := 2
  prevTp := true
  oldMaxmcLid := 0xC000
  newMaxmcLid := 0xC000
  calculatedMaxmcLid := 0xC000
  mlidTableCap := 1024

def sweepSwitch (oldMask newMask : BitVec 64) : MftSwitch where
  numPorts := 24
  port0Active := true
  mftChange := false
  mft := fun row i => if row = 0 ∧ i = 0 then newMask else 0
  oldMft := some fun row i => if row = 0 ∧ i = 0 then oldMask else 0

/-- Port 3 leaves the group: the block is sent. -/
theorem smSetAllMft_programmed_port_3 :
    sweepEnv.ChangesShow (sweepSwitch 0xE 0x6) (fun row i => if row = 0 ∧ i = 0 then 0xE else 0)
      (mftReached [(true, sweepSwitch 0xE 0x6)] 0) := by
  apply (smSetAllMft_programmed_iff sweepEnv [(true, sweepSwitch 0xE 0x6)] 0 true _ _ rfl rfl).mp
  intro row i h
  have hrow : row = 0 := Nat.le_zero.mp h.1
  have hpos : rowPositions 24 = [0] := by decide
  have hi : i = 0 := List.mem_singleton.mp (hpos ▸ h.2.2)
  subst hrow hi
  decide +kernel

/-- Port 16 leaves the group: no block is sent. -/
theorem smSetAllMft_port_16 :
    ¬sweepEnv.Programmed (sweepSwitch 0x10006 0x6)
      (fun row i => if row = 0 ∧ i = 0 then 0x10006 else 0)
      ((smSetAllMft sweepEnv [(true, sweepSwitch 0x10006 0x6)])[0]?.getD []) := by
  intro hprog
  have hrow := hprog 0 0 ⟨by decide, by decide, by decide⟩
  revert hrow
  decide +kernel

end OpaFm.Multicast
