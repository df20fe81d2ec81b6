import OpaFm.Routing.FatTree
import OpaFm.Routing.Proofs.FatTree

/-!
# The blocks of changed entries

A block is marked for the base LID of an end port that has come and for each LID of a host that has
gone.  With seven LMC bits the LIDs of an end port fill two blocks.
-/

namespace OpaFm.Routing

open OpaFm.Fabric

namespace LftTables

theorem attach_lft (t : LftTables) (x : Node) (lid port k lid' : Nat) :
    (t.attach x lid port).lft k lid' =
      if k = x.index ∧ lid' = lid then some port else t.lft k lid' := by
  show Function.update t.lft x.index (Function.update (t.lft x.index) lid (some port)) k lid' = _
  by_cases hk : k = x.index
  · rw [hk, Function.update_self]
    by_cases hlid : lid' = lid
    · rw [hlid, Function.update_self, if_pos ⟨rfl, rfl⟩]
    · rw [Function.update_of_ne hlid, if_neg fun h => hlid h.2]
  · rw [Function.update_of_ne hk, if_neg fun h => hk h.1]

end LftTables

namespace FatTree

variable {f : FatTree}

theorem fillEntries_other (x : Node) (portp : ValidPort) (t : LftTables) (r : XftResult) {k lid : Nat}
    (h : ¬(k = x.index ∧ lid ∈ portLids portp.port)) :
    (fillEntries x portp t r).lft k lid = t.lft k lid := by
  unfold fillEntries
  suffices hgen : ∀ (ls : List (Nat × Nat)) (t' : LftTables), (∀ l ∈ ls, l.1 ∈ portLids portp.port) →
      (ls.foldl (fun t l => t.attach x l.1 (r.portnos.getD l.2 0xff)) t').lft k lid = t'.lft k lid from
    hgen _ { t with load := r.load } fun l hl => List.fst_mem_of_mem_zipIdx hl
  intro ls
  induction ls with
  | nil => exact fun _ _ => rfl
  | cons l rest ih =>
    intro t' hls
    rw [List.foldl_cons, ih _ fun l' hl' => hls l' (List.mem_cons_of_mem _ hl'),
      LftTables.attach_lft, if_neg]
    intro hsame
    exact h ⟨hsame.1, hsame.2 ▸ hls l List.mem_cons_self⟩

theorem setupEntries_other {x nodep : Node} {portp : ValidPort} {t t' : LftTables}
    (hset : f.setupEntries x nodep t portp = some t') {k lid : Nat}
    (h : ¬(k = x.index ∧ lid ∈ portLids portp.port)) : t'.lft k lid = t.lft k lid := by
  obtain ⟨r, -, rfl⟩ := Option.map_eq_some_iff.mp hset
  exact fillEntries_other x portp t r h

theorem setupEntries_own {x nodep : Node} {portp : ValidPort} {t t' : LftTables} {q : Nat}
    (hset : f.setupEntries x nodep t portp = some t')
    (hdest : destinationSwitch f.topop nodep portp.port = some x.swIdx)
    (hport : portp.port.portno = some q) (hlmc : portp.data.lmc ≤ 7) {lid : Nat}
    (hlid : lid ∈ portLids portp.port) : t'.lft x.index lid = some q := by
  obtain ⟨r, hr, rfl⟩ := Option.map_eq_some_iff.mp hset
  have hnum : 2 ^ portp.data.lmc % 256 = 2 ^ portp.data.lmc := by
    apply Nat.mod_eq_of_lt
    calc 2 ^ portp.data.lmc ≤ 2 ^ 7 := Nat.pow_le_pow_right (by omega) hlmc
      _ < 256 := by omega
  have hportnos : r.portnos = List.replicate (2 ^ portp.data.lmc) q := by
    unfold smRoutingFuncSetupXft at hr
    rw [hdest] at hr
    dsimp only at hr
    rw [if_pos rfl, hport, hnum] at hr
    cases hr
    rfl
  have hlen : (portLids portp.port).length = 2 ^ portp.data.lmc := by
    unfold portLids
    rw [portp.valid]
    exact List.length_range'
  -- all entries are for the port of the link
  suffices hgen : ∀ (ls : List (Nat × Nat)) (t' : LftTables),
      (∀ l ∈ ls, r.portnos.getD l.2 0xff = q) →
      (t'.lft x.index lid = some q ∨ lid ∈ ls.map Prod.fst) →
      (ls.foldl (fun t l => t.attach x l.1 (r.portnos.getD l.2 0xff)) t').lft x.index lid = some q by
    apply hgen
    · intro l hl
      have hlt : l.2 < 2 ^ portp.data.lmc := hlen ▸ List.snd_lt_of_mem_zipIdx hl
      rw [hportnos, List.getD_eq_getElem?_getD, List.getElem?_replicate, if_pos hlt]
      rfl
    · right
      rw [List.zipIdx_map_fst]
      exact hlid
  intro ls
  induction ls with
  | nil => exact fun t' _ hor => hor.resolve_right List.not_mem_nil
  | cons l rest ih =>
    intro t' hls hor
    apply ih _ fun l' hl' => hls l' (List.mem_cons_of_mem _ hl')
    rw [LftTables.attach_lft]
    by_cases hsame : lid = l.1
    · left
      rw [if_pos ⟨rfl, hsame⟩, hls l List.mem_cons_self]
    · rw [if_neg fun h => hsame h.2]
      apply hor.imp_right
      intro hmem
      exact (List.mem_cons.mp hmem).resolve_left hsame

end FatTree

namespace DeltaState

variable {s : DeltaState}

theorem setCurBlock_tables (s : DeltaState) (lid : Nat) : (s.setCurBlock lid).tables = s.tables := by
  unfold setCurBlock
  split_ifs <;> rfl

def Current (s : DeltaState) : Prop := ∀ b, s.curBlock = some b → b ∈ s.deltaLidBlocks

theorem setCurBlock_blocks (h : s.Current) (lid : Nat) :
    (s.setCurBlock lid).deltaLidBlocks = insert (lid / lftableListCount) s.deltaLidBlocks := by
  unfold setCurBlock
  by_cases hcur : s.curBlock = some (lid / lftableListCount)
  · rw [if_pos hcur, Finset.insert_eq_of_mem (h _ hcur)]
  · rw [if_neg hcur]

theorem setCurBlock_current (h : s.Current) (lid : Nat) : (s.setCurBlock lid).Current := by
  intro b hb
  unfold setCurBlock at hb ⊢
  by_cases hcur : s.curBlock = some (lid / lftableListCount)
  · rw [if_pos hcur] at hb ⊢
    exact h b hb
  · rw [if_neg hcur] at hb ⊢
    cases hb
    exact Finset.mem_insert_self _ _

theorem removeLid_foldl (h : s.Current) (lid : Nat) (xs : List Node) :
    (xs.foldl (removeLid lid) s).Current ∧
      (xs.foldl (removeLid lid) s).deltaLidBlocks =
        (if xs = [] then s.deltaLidBlocks
          else insert (lid / lftableListCount) s.deltaLidBlocks) ∧
      ∀ k lid', lid' ≠ lid → (xs.foldl (removeLid lid) s).tables.lft k lid' = s.tables.lft k lid' := by
  induction xs generalizing s with
  | nil => exact ⟨h, rfl, fun _ _ _ => rfl⟩
  | cons x rest ih =>
    have hblocks : (removeLid lid s x).deltaLidBlocks =
        insert (lid / lftableListCount) s.deltaLidBlocks :=
      setCurBlock_blocks (s := { s with tables := s.tables.attach x lid 0xff }) h lid
    have hcur : (removeLid lid s x).Current :=
      setCurBlock_current (s := { s with tables := s.tables.attach x lid 0xff }) h lid
    obtain ⟨h1, h2, h3⟩ := ih hcur
    refine ⟨h1, ?_, ?_⟩
    · rw [List.foldl_cons, h2, hblocks, if_neg (List.cons_ne_nil x rest), Finset.insert_idem,
        ite_self]
    · intro k lid' hne
      rw [List.foldl_cons, h3 k lid' hne]
      unfold removeLid
      rw [setCurBlock_tables, LftTables.attach_lft, if_neg fun h => hne h.2]

end DeltaState

namespace FatTreeDeltas

section

variable (d : FatTreeDeltas)

def Removes (lid : Nat) : Prop :=
  d.topop.switches ≠ [] ∧ (d.lidmap lid).newNodep = none ∧
    ∃ n, (d.lidmap lid).oldNodep = some n ∧ n.nodeType = .ca

structure Adds (lid : Nat) (nodep : Node) (portp : ValidPort) : Prop where
  newNodep : (d.lidmap lid).newNodep = some nodep
  newPortp : (d.lidmap lid).newPortp.bind Port.toValid = some portp
  isUp : portp.port.state.isUp = true
  base : lid = portp.data.lid
  inUse : d.newEndnodesInUse nodep.index = true

def Marks (lid : Nat) : Prop := d.Removes lid ∨ ∃ nodep portp, d.Adds lid nodep portp

/-- Every block with a LID of an end port that has come also has the base LID of one or a LID of a
host that has gone. -/
def BlocksMeet : Prop :=
  ∀ base ≤ d.maxLid, ∀ nodep portp, d.Adds base nodep portp → ∀ lid ∈ portLids portp.port,
    ∃ lid' ≤ d.maxLid, lid' / lftableListCount = lid / lftableListCount ∧ d.Marks lid'

/-- The blocks in which an entry of a switch differs from the copied one are marked. -/
def ChangesMarked (copied : LftTables) (s : DeltaState) : Prop :=
  ∀ block, (∃ switchp ∈ d.topop.switches, ∃ lid, lid / lftableListCount = block ∧
      (s.tables.lft switchp.index lid).getD 0xff ≠ (copied.lft switchp.index lid).getD 0xff) →
    block ∈ s.deltaLidBlocks

structure Mapped : Prop where
  distinct : (d.topop.switches.map Node.index).Nodup
  lmc : ∀ base ≤ d.maxLid, ∀ nodep portp, d.Adds base nodep portp → portp.data.lmc ≤ 7
  lids : ∀ base ≤ d.maxLid, ∀ nodep portp, d.Adds base nodep portp →
    ∀ lid ∈ portLids portp.port, (d.lidmap lid).newNodep = some nodep ∧
      (d.lidmap lid).newPortp = some portp.port

/-- An end port that has come is at a switch that had no such entries for its LIDs. -/
def AtSwitches (copied : LftTables) : Prop :=
  ∀ base ≤ d.maxLid, ∀ nodep portp, d.Adds base nodep portp →
    ∃ switchp ∈ d.topop.switches, ∃ q,
      destinationSwitch d.topop nodep portp.port = some switchp.swIdx ∧
      portp.port.portno = some q ∧
      ∀ lid ∈ portLids portp.port, (copied.lft switchp.index lid).getD 0xff ≠ q

end

variable {d : FatTreeDeltas}

theorem deltaLid_cases {s s' : DeltaState} {lid : Nat} (h : d.deltaLid s lid = some s') :
    ((d.lidmap lid).newNodep = none ∧ (∃ n, (d.lidmap lid).oldNodep = some n ∧ n.nodeType = .ca) ∧
        s' = d.topop.switches.foldl (DeltaState.removeLid lid) s) ∨
      (∃ nodep portp, d.Adds lid nodep portp ∧ d.addEndPort s lid nodep portp = some s') ∨
      (¬d.Marks lid ∧ s' = s) := by
  unfold deltaLid at h
  cases hnew : (d.lidmap lid).newNodep with
  | none =>
    have hadds (nodep : Node) (portp : ValidPort) : ¬d.Adds lid nodep portp := by
      intro ha
      rw [ha.newNodep] at hnew
      cases hnew
    rw [hnew] at h
    dsimp only at h
    by_cases hold : ((d.lidmap lid).oldNodep.any fun n => n.nodeType = .ca) = true
    · rw [if_pos hold] at h
      cases h
      obtain ⟨n, hn, hca⟩ := (Option.any_eq_true _ _).mp hold
      exact Or.inl ⟨rfl, ⟨n, hn, of_decide_eq_true hca⟩, rfl⟩
    · rw [if_neg hold] at h
      cases h
      refine Or.inr (Or.inr ⟨?_, rfl⟩)
      rintro (⟨-, -, n, hn, hca⟩ | ⟨nodep, portp, ha⟩)
      · apply hold
        rw [hn, Option.any_some, hca]
        rfl
      · exact hadds nodep portp ha
  | some nodep =>
    have hnot (hno : ∀ portp, ¬d.Adds lid nodep portp) : ¬d.Marks lid := by
      rintro (⟨-, hnone, -⟩ | ⟨nodep', portp, ha⟩)
      · rw [hnew] at hnone
        cases hnone
      · have hsame := ha.newNodep
        rw [hnew] at hsame
        cases hsame
        exact hno portp ha
    rw [hnew] at h
    dsimp only at h
    cases hport : (d.lidmap lid).newPortp.bind Port.toValid with
    | none =>
      rw [hport] at h
      cases h
      refine Or.inr (Or.inr ⟨hnot fun portp ha => ?_, rfl⟩)
      have hsome := ha.newPortp
      rw [hport] at hsome
      cases hsome
    | some portp =>
      rw [hport] at h
      dsimp only at h
      by_cases hall : portp.port.state.isUp ∧ lid = portp.data.lid ∧
          d.newEndnodesInUse nodep.index
      · rw [if_pos hall] at h
        exact Or.inr (Or.inl ⟨nodep, portp, ⟨hnew, hport, hall.1, hall.2.1, hall.2.2⟩, h⟩)
      · rw [if_neg hall] at h
        cases h
        refine Or.inr (Or.inr ⟨hnot fun portp' ha => hall ?_, rfl⟩)
        have hsame := ha.newPortp
        rw [hport] at hsame
        cases hsame
        exact ⟨ha.isUp, ha.base, ha.inUse⟩

/-! ## One LID -/

theorem addEntries_other {nodep : Node} {portp : ValidPort} {k lid : Nat} (xs : List Node)
    (h : lid ∈ portLids portp.port → ∀ x ∈ xs, x.index ≠ k) {t t' : LftTables}
    (hfold : xs.foldlM (fun t switchp => d.setupEntries switchp nodep t portp) t = some t') :
    t'.lft k lid = t.lft k lid := by
  induction xs generalizing t with
  | nil =>
    cases hfold
    rfl
  | cons x rest ih =>
    rw [List.foldlM_cons] at hfold
    obtain ⟨u, hu, hrest⟩ := Option.bind_eq_some_iff.mp hfold
    rw [ih (fun hl y hy => h hl y (List.mem_cons_of_mem _ hy)) hrest,
      FatTree.setupEntries_other hu]
    intro hsame
    exact h hsame.2 x List.mem_cons_self hsame.1.symm

theorem addEntries_own (hnd : (d.topop.switches.map Node.index).Nodup) {nodep x : Node}
    (hx : x ∈ d.topop.switches) {portp : ValidPort} {q : Nat}
    (hdest : destinationSwitch d.topop nodep portp.port = some x.swIdx)
    (hport : portp.port.portno = some q) (hlmc : portp.data.lmc ≤ 7) {t t' : LftTables}
    (hfold : d.topop.switches.foldlM (fun t switchp => d.setupEntries switchp nodep t portp) t =
      some t') {lid : Nat} (hlid : lid ∈ portLids portp.port) : t'.lft x.index lid = some q := by
  obtain ⟨pre, post, hsplit⟩ := List.append_of_mem hx
  rw [hsplit] at hfold hnd
  rw [List.foldlM_append] at hfold
  obtain ⟨u, -, hrest⟩ := Option.bind_eq_some_iff.mp hfold
  rw [List.foldlM_cons] at hrest
  obtain ⟨v, hv, hpost⟩ := Option.bind_eq_some_iff.mp hrest
  have hother : ∀ y ∈ post, y.index ≠ x.index := by
    intro y hy heq
    rw [List.map_append, List.map_cons] at hnd
    apply (List.nodup_cons.mp (List.nodup_append.mp hnd).2.1).1
    rw [← heq]
    exact List.mem_map_of_mem hy
  rw [addEntries_other post (fun _ => hother) hpost]
  exact FatTree.setupEntries_own hv hdest hport hlmc hlid

theorem deltaLid_blocks {s s' : DeltaState} {lid : Nat} (hcur : s.Current)
    (h : d.deltaLid s lid = some s') :
    s'.Current ∧ ∀ b, b ∈ s'.deltaLidBlocks ↔
      b ∈ s.deltaLidBlocks ∨ lid / lftableListCount = b ∧ d.Marks lid := by
  rcases deltaLid_cases h with ⟨hnew, hold, rfl⟩ | ⟨nodep, portp, ha, hadd⟩ | ⟨hno, rfl⟩
  · obtain ⟨hcur', hblocks, -⟩ := DeltaState.removeLid_foldl hcur lid d.topop.switches
    refine ⟨hcur', fun b => ?_⟩
    rw [hblocks]
    by_cases hsw : d.topop.switches = []
    · have hno : ¬d.Marks lid := by
        rintro (hr | ⟨nodep, portp, ha⟩)
        · exact hr.1 hsw
        · rw [ha.newNodep] at hnew
          cases hnew
      rw [if_pos hsw]
      exact (or_iff_left fun hb => hno hb.2).symm
    · rw [if_neg hsw, Finset.mem_insert, or_comm, eq_comm]
      exact or_congr_right (and_iff_left (Or.inl ⟨hsw, hnew, hold⟩)).symm
  · obtain ⟨t, -, rfl⟩ := Option.map_eq_some_iff.mp hadd
    refine ⟨DeltaState.setCurBlock_current hcur lid, fun b => ?_⟩
    show b ∈ (s.setCurBlock lid).deltaLidBlocks ↔ _
    rw [DeltaState.setCurBlock_blocks hcur, Finset.mem_insert, or_comm, eq_comm]
    exact or_congr_right (and_iff_left (Or.inr ⟨nodep, portp, ha⟩)).symm
  · exact ⟨hcur, fun b => (or_iff_left fun hb => hno hb.2).symm⟩

theorem deltaLid_other {s s' : DeltaState} {lid k lid' : Nat} (hcur : s.Current)
    (h : d.deltaLid s lid = some s') (hgone : ¬(lid' = lid ∧ d.Removes lid))
    (hhas : ∀ nodep portp, d.Adds lid nodep portp → lid' ∉ portLids portp.port) :
    s'.tables.lft k lid' = s.tables.lft k lid' := by
  rcases deltaLid_cases h with ⟨hnew, hold, rfl⟩ | ⟨nodep, portp, ha, hadd⟩ | ⟨-, rfl⟩
  · by_cases hsw : d.topop.switches = []
    · rw [hsw]
      rfl
    · exact (DeltaState.removeLid_foldl hcur lid d.topop.switches).2.2 k lid'
        fun heq => hgone ⟨heq, hsw, hnew, hold⟩
  · obtain ⟨t, ht, rfl⟩ := Option.map_eq_some_iff.mp hadd
    show t.lft k lid' = _
    rw [addEntries_other d.topop.switches (fun hl => absurd hl (hhas nodep portp ha)) ht,
      DeltaState.setCurBlock_tables]
  · rfl

/-! ## The scan -/

theorem scan_blocks {lids : List Nat} {s s' : DeltaState} (hcur : s.Current)
    (h : lids.foldlM d.deltaLid s = some s') :
    s'.Current ∧ ∀ b, b ∈ s'.deltaLidBlocks ↔
      b ∈ s.deltaLidBlocks ∨ ∃ lid ∈ lids, lid / lftableListCount = b ∧ d.Marks lid := by
  induction lids generalizing s with
  | nil =>
    cases h
    exact ⟨hcur, fun b => by simp⟩
  | cons lid rest ih =>
    rw [List.foldlM_cons] at h
    obtain ⟨u, hu, hrest⟩ := Option.bind_eq_some_iff.mp h
    obtain ⟨hcur1, hblocks1⟩ := deltaLid_blocks hcur hu
    obtain ⟨hcur2, hblocks2⟩ := ih hcur1 hrest
    refine ⟨hcur2, fun b => ?_⟩
    rw [hblocks2, hblocks1, or_assoc]
    simp only [List.exists_mem_cons_iff]

theorem scan_other {lids : List Nat} {k lid' : Nat} {s s' : DeltaState} (hcur : s.Current)
    (h : lids.foldlM d.deltaLid s = some s')
    (hgone : ∀ lid ∈ lids, ¬(lid' = lid ∧ d.Removes lid))
    (hhas : ∀ lid ∈ lids, ∀ nodep portp, d.Adds lid nodep portp → lid' ∉ portLids portp.port) :
    s'.tables.lft k lid' = s.tables.lft k lid' := by
  induction lids generalizing s with
  | nil =>
    cases h
    rfl
  | cons lid rest ih =>
    rw [List.foldlM_cons] at h
    obtain ⟨u, hu, hrest⟩ := Option.bind_eq_some_iff.mp h
    rw [ih (deltaLid_blocks hcur hu).1 hrest (fun l hl => hgone l (List.mem_cons_of_mem _ hl))
      fun l hl => hhas l (List.mem_cons_of_mem _ hl)]
    exact deltaLid_other hcur hu (hgone lid List.mem_cons_self) (hhas lid List.mem_cons_self)

theorem scan_own (hmap : d.Mapped) {base : Nat} (hbase : base ≤ d.maxLid) {nodep : Node}
    {portp : ValidPort} (ha : d.Adds base nodep portp) {x : Node} (hx : x ∈ d.topop.switches) {q : Nat}
    (hdest : destinationSwitch d.topop nodep portp.port = some x.swIdx)
    (hport : portp.port.portno = some q) {s s' : DeltaState} (hcur : s.Current)
    (h : (List.range (d.maxLid + 1)).foldlM d.deltaLid s = some s') {lid : Nat}
    (hlid : lid ∈ portLids portp.port) : s'.tables.lft x.index lid = some q := by
  have hnd : (List.range (d.maxLid + 1)).Nodup := List.nodup_range
  have hmem : ∀ l ∈ List.range (d.maxLid + 1), l ≤ d.maxLid :=
    fun l hl => Nat.lt_succ_iff.mp (List.mem_range.mp hl)
  obtain ⟨pre, post, hsplit⟩ := List.append_of_mem (List.mem_range.mpr (Nat.lt_succ_of_le hbase))
  rw [hsplit] at h hnd hmem
  rw [List.foldlM_append] at h
  obtain ⟨u, hu, hrest⟩ := Option.bind_eq_some_iff.mp h
  rw [List.foldlM_cons] at hrest
  obtain ⟨v, hv, hpost⟩ := Option.bind_eq_some_iff.mp hrest
  have hcur' := (scan_blocks hcur hu).1
  obtain ⟨hnew, hnewport⟩ := hmap.lids base hbase nodep portp ha lid hlid
  -- the LIDs after the base LID leave these entries alone
  rw [scan_other (deltaLid_blocks hcur' hv).1 hpost]
  · rcases deltaLid_cases hv with ⟨hnone, -, -⟩ | ⟨nodep', portp', ha', hadd⟩ | ⟨hno, -⟩
    · rw [ha.newNodep] at hnone
      cases hnone
    · have hn := ha.newNodep.symm.trans ha'.newNodep
      have hp := ha.newPortp.symm.trans ha'.newPortp
      cases hn
      cases hp
      obtain ⟨t, ht, rfl⟩ := Option.map_eq_some_iff.mp hadd
      exact addEntries_own hmap.distinct hx hdest hport (hmap.lmc base hbase nodep portp ha) ht hlid
    · exact absurd (Or.inr ⟨nodep, portp, ha⟩) hno
  · intro l hl hgone
    have hnone := hgone.2.2.1
    rw [← hgone.1, hnew] at hnone
    cases hnone
  · intro l hl nodep' portp' ha' hin
    have hle := hmem l (List.mem_append_right _ (List.mem_cons_of_mem _ hl))
    have hport' := (hmap.lids l hle nodep' portp' ha' lid hin).2
    have hdata : portp'.data = portp.data := by
      apply Option.some.inj
      rw [← portp'.valid, ← portp.valid]
      exact congrArg Port.portData (Option.some.inj (hport'.symm.trans hnewport))
    have hsame : l = base := by rw [ha'.base, ha.base, hdata]
    apply (List.nodup_cons.mp (List.nodup_append.mp hnd).2.1).1
    rw [← hsame]
    exact hl

theorem blocksMeet_of_lmc
    (h : ∀ base ≤ d.maxLid, ∀ nodep portp, d.Adds base nodep portp →
      portp.data.lmc ≤ 6 ∧ portp.data.lid % 2 ^ portp.data.lmc = 0) : d.BlocksMeet := by
  intro base hbase nodep portp ha lid hlid
  obtain ⟨hlmc, halign⟩ := h base hbase nodep portp ha
  refine ⟨base, hbase, ?_, Or.inr ⟨nodep, portp, ha⟩⟩
  unfold portLids at hlid
  rw [portp.valid] at hlid
  obtain ⟨hle, hlt⟩ := List.mem_range'_1.mp hlid
  rw [← ha.base] at halign hle hlt
  obtain ⟨k, hk⟩ : 2 ^ portp.data.lmc ∣ 64 := pow_dvd_pow 2 hlmc
  obtain ⟨j, hj⟩ := Nat.dvd_of_mod_eq_zero halign
  show base / 64 = lid / 64
  have hquot : lid / 2 ^ portp.data.lmc = base / 2 ^ portp.data.lmc := by
    have hpos : 0 < 2 ^ portp.data.lmc := Nat.two_pow_pos _
    rw [hj, Nat.mul_div_cancel_left _ hpos]
    apply Nat.div_eq_of_lt_le
    · rw [Nat.mul_comm, ← hj]
      exact hle
    · rw [Nat.succ_mul, Nat.mul_comm, ← hj]
      exact hlt
  rw [hk, ← Nat.div_div_eq_div_mul, ← Nat.div_div_eq_div_mul, hquot]

/-- The blocks of changed entries are marked if each block of an end port that has come has a LID
that marks it, and only then if the entries at the switch of the end port are new. -/
theorem changesMarked_iff {t copied : LftTables} {s : DeltaState}
    (hcopy : d.copyBalancedLfts t = some copied) (hrun : d.calculateBalancedLftDeltas t = some s) :
    (d.BlocksMeet → d.ChangesMarked copied s) ∧
      (d.Mapped → d.AtSwitches copied → d.ChangesMarked copied s → d.BlocksMeet) := by
  unfold calculateBalancedLftDeltas at hrun
  rw [hcopy] at hrun
  change (List.range (d.maxLid + 1)).foldlM d.deltaLid { tables := copied } = some s at hrun
  have hcur : DeltaState.Current { tables := copied } := fun b hb => by cases hb
  have hblocks (b : Nat) : b ∈ s.deltaLidBlocks ↔
      ∃ lid ≤ d.maxLid, lid / lftableListCount = b ∧ d.Marks lid := by
    rw [(scan_blocks hcur hrun).2 b, or_iff_right (Finset.notMem_empty b)]
    simp only [List.mem_range, Nat.lt_succ_iff]
  constructor
  · intro hmeet block hchange
    obtain ⟨x, hx, lid, rfl, hne⟩ := hchange
    by_contra hno
    apply hne
    apply congrArg fun e : Option Nat => e.getD 0xff
    apply scan_other hcur hrun
    · intro l hl hgone
      exact hno ((hblocks _).mpr ⟨l, Nat.lt_succ_iff.mp (List.mem_range.mp hl), by rw [hgone.1],
        Or.inl hgone.2⟩)
    · intro l hl nodep portp ha hin
      exact hno ((hblocks _).mpr
        (hmeet l (Nat.lt_succ_iff.mp (List.mem_range.mp hl)) nodep portp ha lid hin))
  · intro hmap hat hmarked base hbase nodep portp ha lid hlid
    obtain ⟨x, hx, q, hdest, hport, hnew⟩ := hat base hbase nodep portp ha
    apply (hblocks _).mp
    apply hmarked
    refine ⟨x, hx, lid, rfl, ?_⟩
    rw [scan_own hmap hbase ha hx hdest hport hcur hrun hlid]
    exact (hnew lid hlid).symm

end FatTreeDeltas

/-! ## One host -/

def edgeOnly : Node where
  index := 0
  numPorts := 1
  port q :=
    if q = 1 then livePort q 1 1 {} else { index := q }

def newHost (lmc : Nat) : Node where
  index := 1
  nodeType := .ca
  numPorts := 1
  port q :=
    if q = 1 then livePort q 0 1 { lid := 128, lmc := lmc } else { index := q }

def newHostDeltas (lmc : Nat) : FatTreeDeltas where
  topop := { nodes := [edgeOnly, newHost lmc], maxSws := 1 }
  path := fun _ _ => ∅
  qsort := insertQsort _
  spineFirstRouting := false
  routeLast := ""
  fisOnSameTier := true
  tierCount := 1
  tierSwitches := fun _ => [edgeOnly]
  tierIndex := fun _ => 0
  uplinkTrunkCnt := fun _ => 0
  trunkGrouped := fun _ => false
  edgeSwitch := fun _ => true
  old := fun _ => some ⟨fun _ => none, 255, fun _ => none, 0⟩
  linearFdbTop := fun _ => 255
  lidmap := fun lid =>
    if 128 ≤ lid ∧ lid < 128 + 2 ^ lmc then
      { newNodep := some (newHost lmc), newPortp := some ((newHost lmc).port 1) }
    else {}
  maxLid := 255
  newEndnodesInUse := fun k => k == 1

/-- With seven LMC bits the second block of the host's LIDs is not marked. -/
theorem second_block_unmarked : ∃ copied s,
    (newHostDeltas 7).copyBalancedLfts { skipBalance := fun _ => false } = some copied ∧
      (newHostDeltas 7).calculateBalancedLftDeltas { skipBalance := fun _ => false } = some s ∧
        ¬(newHostDeltas 7).ChangesMarked copied s := by
  have hrun : ((newHostDeltas 7).calculateBalancedLftDeltas { skipBalance := fun _ => false }).any
      (fun s => decide (s.tables.lft 0 192 = some 1 ∧ 3 ∉ s.deltaLidBlocks)) = true := by
    decide +kernel
  obtain ⟨s, hs, hfacts⟩ := (Option.any_eq_true _ _).mp hrun
  obtain ⟨hentry, hblock⟩ := of_decide_eq_true hfacts
  refine ⟨_, s, rfl, hs, fun h => hblock (h 3 ⟨edgeOnly, List.mem_cons_self, 192, rfl, ?_⟩)⟩
  show (s.tables.lft 0 192).getD 0xff ≠ _
  rw [hentry]
  decide

theorem newHostDeltas_adds {lmc base : Nat} {nodep : Node} {portp : ValidPort}
    (ha : (newHostDeltas lmc).Adds base nodep portp) :
    nodep = newHost lmc ∧ portp.port = (newHost lmc).port 1 ∧
      portp.data = { lid := 128, lmc := lmc } := by
  have hnode := ha.newNodep
  have hport := ha.newPortp
  simp only [newHostDeltas] at hnode hport
  split_ifs at hnode hport
  cases hnode
  change some _ = some portp at hport
  cases hport
  exact ⟨rfl, rfl, rfl⟩

theorem newHostDeltas_mapped {lmc : Nat} (hlmc : lmc ≤ 7) : (newHostDeltas lmc).Mapped where
  distinct := List.nodup_singleton 0
  lmc := by
    intro base _ nodep portp ha
    rw [(newHostDeltas_adds ha).2.2]
    exact hlmc
  lids := by
    intro base _ nodep portp ha lid hlid
    obtain ⟨rfl, hport, -⟩ := newHostDeltas_adds ha
    rw [hport] at hlid ⊢
    have hin : 128 ≤ lid ∧ lid < 128 + 2 ^ lmc := List.mem_range'_1.mp hlid
    simp only [newHostDeltas, if_pos hin]
    exact ⟨trivial, trivial⟩

theorem changesMarked_six_bits : ∃ copied s,
    (newHostDeltas 6).copyBalancedLfts { skipBalance := fun _ => false } = some copied ∧
      (newHostDeltas 6).calculateBalancedLftDeltas { skipBalance := fun _ => false } = some s ∧
        (newHostDeltas 6).ChangesMarked copied s ∧ (newHostDeltas 6).BlocksMeet := by
  have hrun : ((newHostDeltas 6).calculateBalancedLftDeltas
      { skipBalance := fun _ => false }).isSome = true := by
    decide +kernel
  obtain ⟨s, hs⟩ := Option.isSome_iff_exists.mp hrun
  have hmeet : (newHostDeltas 6).BlocksMeet := by
    apply FatTreeDeltas.blocksMeet_of_lmc
    intro base _ nodep portp ha
    rw [(newHostDeltas_adds ha).2.2]
    decide
  obtain ⟨hmarked, hmeets⟩ := FatTreeDeltas.changesMarked_iff (d := newHostDeltas 6) rfl hs
  refine ⟨_, s, rfl, hs, hmarked hmeet, hmeets (newHostDeltas_mapped (by decide)) ?_ (hmarked hmeet)⟩
  intro base _ nodep portp ha
  obtain ⟨rfl, hport, -⟩ := newHostDeltas_adds ha
  rw [hport]
  exact ⟨edgeOnly, List.mem_cons_self, 1, rfl, rfl, fun lid _ => by
    show (if lid ≤ _ then none else none : Option Nat).getD 0xff ≠ 1
    rw [ite_self]
    decide⟩

end OpaFm.Routing
