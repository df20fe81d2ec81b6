import OpaFm.Lib.Fold
import OpaFm.Multicast.Proofs.PortMasks

/-!
# Forwarding tables and groups

The row of a group's MLID should hold the mask of the group's spanning tree and
the ports of the members on that MLID that are to receive, and nothing else.
The tree of a row is looked up under the mirrored MLID, so with more than one tree
this takes a lookup that finds the same tree there.
-/

namespace OpaFm.Multicast

open OpaFm.Fabric OpaFm.Lib

/-! ## Inputs -/

/-- What the tables are computed from.  MLIDs come from the table, and groups on
one MLID have one MTU and one rate. -/
structure MftInput where
  env : MftEnv
  groups : List McGroup
  trees : List McSpanningTree
  wf : ∀ t ∈ trees, TreeWf env.topo t.nodes
  slots : ∀ mtu rate i, env.spanningTrees mtu rate = some i → i < trees.length
  range : ∀ g ∈ groups, multicastLidMin ≤ g.mLid ∧ g.mLid < multicastLidMin + env.mlidTableCap.cap
  shared : ∀ g ∈ groups, ∀ g' ∈ groups, g.mLid = g'.mLid → g.mtu = g'.mtu ∧ g.rate = g'.rate

namespace MftInput

variable (I : MftInput)

def result : MftState := smCalculateMfts I.env ⟨I.groups, I.trees, fun _ _ _ => 0⟩

def flagged : List McGroup :=
  I.groups.map fun g => { g with unrealizable := !isRealizable I.env g }

def Realized (g : McGroup) : Prop := g ∈ I.flagged ∧ g.unrealizable = false

def firstMlid (i : Nat) : Nat := firstMlidOf I.env I.flagged i

def lookup (mlidOffset : Nat) : Option Nat :=
  rowTree I.env I.flagged I.trees.length mlidOffset

/-- The lookup for the row of a realizable group finds the group's tree; or it
finds none, and the tree is drawn in that row. -/
def RowsFound : Prop :=
  ∀ g, I.Realized g → I.lookup (findMlidOffset g.mLid) = I.env.treeOf g ∨
    I.lookup (findMlidOffset g.mLid) = none ∧
      ∃ i, I.env.treeOf g = some i ∧ I.firstMlid i = g.mLid

variable {I}

theorem mem_flagged {g : McGroup} (hg : g ∈ I.flagged) :
    ∃ g₀ ∈ I.groups, g = { g₀ with unrealizable := !isRealizable I.env g₀ } := by
  obtain ⟨g₀, hg₀, rfl⟩ := List.mem_map.mp hg
  exact ⟨g₀, hg₀, rfl⟩

theorem range_flagged {g : McGroup} (hg : g ∈ I.flagged) :
    multicastLidMin ≤ g.mLid ∧ g.mLid < multicastLidMin + I.env.mlidTableCap.cap := by
  obtain ⟨g₀, hg₀, rfl⟩ := mem_flagged hg
  exact I.range g₀ hg₀

theorem offset_flagged {g : McGroup} (hg : g ∈ I.flagged) :
    findMlidOffset g.mLid = g.mLid - multicastLidMin := by
  have hr := range_flagged hg
  have hcap := I.env.mlidTableCap.cap_le
  simp only [multicastLidMin, findMlidOffset, maxSizeMft] at *
  omega

theorem pos_flagged {g : McGroup} (hg : g ∈ I.flagged) : g.mLid ≠ 0 := by
  have hr := range_flagged hg
  simp only [multicastLidMin] at hr
  omega

theorem mLid_of_offset {g g' : McGroup} (hg : g ∈ I.flagged) (hg' : g' ∈ I.flagged)
    (h : findMlidOffset g.mLid = findMlidOffset g'.mLid) : g.mLid = g'.mLid := by
  have hr := range_flagged hg
  have hr' := range_flagged hg'
  rw [offset_flagged hg, offset_flagged hg'] at h
  omega

theorem treeOf_of_mLid {g g' : McGroup} (hg : g ∈ I.flagged) (hg' : g' ∈ I.flagged)
    (h : g.mLid = g'.mLid) : I.env.treeOf g = I.env.treeOf g' := by
  obtain ⟨g₀, hg₀, rfl⟩ := mem_flagged hg
  obtain ⟨g₀', hg₀', rfl⟩ := mem_flagged hg'
  obtain ⟨hmtu, hrate⟩ := I.shared g₀ hg₀ g₀' hg₀' h
  simp only [MftEnv.treeOf, hmtu, hrate]

theorem exists_tree {g : McGroup} (hg : I.Realized g) :
    ∃ i t, I.env.treeOf g = some i ∧ I.trees[i]? = some t := by
  obtain ⟨hmem, hreal⟩ := hg
  obtain ⟨g₀, hg₀, rfl⟩ := mem_flagged hmem
  have hr : isRealizable I.env g₀ = true := by simpa using hreal
  simp only [isRealizable, decide_eq_true_eq] at hr
  obtain ⟨i, hi⟩ := Option.isSome_iff_exists.mp hr.1
  have hlt : i < I.trees.length := I.slots _ _ i hi
  exact ⟨i, I.trees[i], hi, List.getElem?_eq_getElem hlt⟩

theorem rowsFound_of_one (hone : I.trees.length = 1) : I.RowsFound := by
  intro g hg
  obtain ⟨i, t, hi, ht⟩ := exists_tree hg
  obtain ⟨hlt, -⟩ := List.getElem?_eq_some_iff.mp ht
  obtain rfl : i = 0 := by omega
  left
  rw [hi, lookup, rowTree, if_pos hone]

/-! ## The masks -/

variable (I)

def noted : List McSpanningTree :=
  I.flagged.foldl (noteFirstMlid I.env) (I.trees.map fun t => { t with firstMlid := 0 })

def drawn : List McSpanningTree × Mfts :=
  smCalculateSpanningTreePortMask I.env.topo I.noted fun _ _ _ => 0

variable {I}

theorem noted_getElem? (i : Nat) :
    I.noted[i]? = I.trees[i]?.map fun t => { t with firstMlid := I.firstMlid i } := by
  rw [noted, foldl_noteFirstMlid I.env (fun g hg => pos_flagged hg), List.getElem?_map]
  cases I.trees[i]? <;> rfl

theorem exists_first {i : Nat} (h : I.firstMlid i ≠ 0) :
    ∃ g, I.Realized g ∧ I.env.treeOf g = some i ∧ I.firstMlid i = g.mLid := by
  obtain ⟨g, hg, hreal, htree, heq⟩ := firstMlidOf_spec h
  exact ⟨g, ⟨hg, hreal⟩, htree, heq⟩

theorem firstMlid_ne_zero {g : McGroup} (hg : I.Realized g) {i : Nat}
    (htree : I.env.treeOf g = some i) : I.firstMlid i ≠ 0 :=
  firstMlidOf_ne_zero (fun _ h => pos_flagged h) hg.1 hg.2 htree

theorem firstMlid_offset_inj {i j : Nat} (hi : I.firstMlid i ≠ 0) (hj : I.firstMlid j ≠ 0)
    (h : findMlidOffset (I.firstMlid i) = findMlidOffset (I.firstMlid j)) : i = j := by
  obtain ⟨g, hg, hgi, hieq⟩ := exists_first hi
  obtain ⟨g', hg', hgj, hjeq⟩ := exists_first hj
  rw [hieq, hjeq] at h
  have htree := treeOf_of_mLid hg.1 hg'.1 (mLid_of_offset hg.1 hg'.1 h)
  rw [hgi, hgj] at htree
  exact Option.some.inj htree

theorem rowsDistinct_noted : RowsDistinct I.noted := by
  rw [RowsDistinct, List.pairwise_iff_getElem]
  intro i j hi hj hij hfi hfj heq
  have hget : ∀ k (hk : k < I.noted.length), I.noted[k].firstMlid = I.firstMlid k := by
    intro k hk
    have h := List.getElem?_eq_getElem hk
    rw [noted_getElem?] at h
    obtain ⟨t, -, ht⟩ := Option.map_eq_some_iff.mp h
    rw [← ht]
  rw [hget] at hfi hfj
  rw [hget, hget] at heq
  exact absurd (firstMlid_offset_inj hfi hfj heq) (by omega)

theorem wf_noted : ∀ t ∈ I.noted, TreeWf I.env.topo t.nodes := by
  intro t ht
  obtain ⟨i, hi⟩ := List.mem_iff_getElem?.mp ht
  rw [noted_getElem?] at hi
  obtain ⟨t₀, ht₀, rfl⟩ := Option.map_eq_some_iff.mp hi
  exact I.wf t₀ (List.mem_of_getElem? ht₀)

theorem drawn_spec : I.drawn.1.map McSpanningTree.firstMlid = I.noted.map McSpanningTree.firstMlid ∧
    ∀ n o p, I.drawn.2.bit n o p = true ↔ ∃ t ∈ I.noted, t.firstMlid ≠ 0 ∧
      o = findMlidOffset t.firstMlid ∧ (n, p) ∈ treePorts I.env.topo t.nodes := by
  have hempty : ∀ n o p, Mfts.bit (fun _ _ _ => 0) n o p = false := by
    intro n o p
    simp [Mfts.bit]
  obtain ⟨hmap, hbits⟩ := smCalculateSpanningTreePortMask_spec (wf_noted (I := I))
    rowsDistinct_noted fun _ _ _ n p => hempty n _ p
  refine ⟨hmap, fun n o p => ?_⟩
  rw [drawn, hbits, hempty]
  simp only [Bool.false_eq_true, false_or]

theorem drawn_first (i : Nat) :
    I.drawn.1[i]?.map McSpanningTree.firstMlid = I.trees[i]?.map fun _ => I.firstMlid i := by
  rw [← List.getElem?_map, drawn_spec.1, List.getElem?_map, noted_getElem?, Option.map_map]
  rfl

theorem drawn_length : I.drawn.1.length = I.trees.length := by
  have hnone : ∀ k : Nat, I.drawn.1[k]? = none ↔ I.trees[k]? = none := by
    intro k
    rw [← Option.map_eq_none_iff (f := McSpanningTree.firstMlid), drawn_first,
      Option.map_eq_none_iff]
  simp only [List.getElem?_eq_none_iff] at hnone
  exact le_antisymm ((hnone _).mpr le_rfl) ((hnone _).mp le_rfl)

theorem drawn_bit {i : Nat} {t : McSpanningTree} (ht : I.trees[i]? = some t)
    (hfirst : I.firstMlid i ≠ 0) (n p : Nat) :
    I.drawn.2.bit n (findMlidOffset (I.firstMlid i)) p = true ↔
      (n, p) ∈ treePorts I.env.topo t.nodes := by
  have hnoted : I.noted[i]? = some { t with firstMlid := I.firstMlid i } := by
    rw [noted_getElem?, ht]
    rfl
  rw [drawn_spec.2]
  constructor
  · rintro ⟨t', ht', hfirst', hoff, hmem⟩
    obtain ⟨j, hj⟩ := List.mem_iff_getElem?.mp ht'
    rw [noted_getElem?] at hj
    obtain ⟨t₀, ht₀, rfl⟩ := Option.map_eq_some_iff.mp hj
    obtain rfl := firstMlid_offset_inj hfirst hfirst' hoff
    obtain rfl := Option.some.inj (ht.symm.trans ht₀)
    exact hmem
  · intro hmem
    exact ⟨_, List.mem_of_getElem? hnoted, hfirst, rfl, hmem⟩

/-! ## The rows -/

variable (I)

def FirstRowsKept (mft : Mfts) : Prop :=
  ∀ i, I.firstMlid i ≠ 0 → ∀ n,
    mft n (findMlidOffset (I.firstMlid i)) = I.drawn.2 n (findMlidOffset (I.firstMlid i))

def RowRight (mft : Mfts) (r : Nat × Nat) : Prop :=
  ∀ g i, I.Realized g → findMlidOffset g.mLid = r.2 → I.env.treeOf g = some i →
    mft r.1 r.2 = I.drawn.2 r.1 (findMlidOffset (I.firstMlid i))

variable {I}

theorem fillRow_cases (node : Nat) (mft : Mfts) (o : Nat) :
    (fillRow I.env I.flagged I.drawn.1 node mft o = mft ∧
      ∀ i, I.lookup o = some i → I.firstMlid i ≠ 0 → i < I.trees.length →
        o = findMlidOffset (I.firstMlid i)) ∨
    ∃ i, I.lookup o = some i ∧ I.firstMlid i ≠ 0 ∧ o ≠ findMlidOffset (I.firstMlid i) ∧
      fillRow I.env I.flagged I.drawn.1 node mft o =
        mft.copyRow node (findMlidOffset (I.firstMlid i)) o := by
  have hlookup : rowTree I.env I.flagged I.drawn.1.length o = I.lookup o := by
    rw [drawn_length]
    rfl
  unfold fillRow
  rw [hlookup]
  cases hl : I.lookup o with
  | none => exact .inl ⟨rfl, fun i h => by cases h⟩
  | some i =>
    have hfirst := drawn_first (I := I) i
    rw [Option.bind_some]
    cases ht : I.drawn.1[i]? with
    | none =>
      refine .inl ⟨rfl, fun j hj _ hlt => ?_⟩
      obtain rfl := Option.some.inj hj
      rw [ht, List.getElem?_eq_getElem hlt] at hfirst
      cases hfirst
    | some t =>
      rw [ht] at hfirst
      obtain ⟨-, -, hmlid⟩ := Option.map_eq_some_iff.mp hfirst.symm
      simp only [← hmlid]
      split
      · rename_i hzero
        refine .inl ⟨rfl, fun j hj hne _ => ?_⟩
        obtain rfl := Option.some.inj hj
        exact absurd hzero hne
      · rename_i hne
        split
        · rename_i hoff
          exact .inr ⟨i, rfl, hne, hoff, rfl⟩
        · rename_i hoff
          refine .inl ⟨rfl, fun j hj _ _ => ?_⟩
          obtain rfl := Option.some.inj hj
          exact not_not.mp hoff

theorem fillRow_spec (hfound : I.RowsFound) (node : Nat) (mft : Mfts) (o : Nat)
    (hkept : I.FirstRowsKept mft) :
    I.FirstRowsKept (fillRow I.env I.flagged I.drawn.1 node mft o) ∧
      ∀ r, I.RowRight mft r ∨ (node, o) = r →
        I.RowRight (fillRow I.env I.flagged I.drawn.1 node mft o) r := by
  rcases fillRow_cases node mft o with ⟨heq, hsame⟩ | ⟨j, hj, hfirst, hne, heq⟩
  · rw [heq]
    refine ⟨hkept, fun r hr => hr.elim id ?_⟩
    rintro rfl g i hg hoff htree
    have hfirst := firstMlid_ne_zero hg htree
    have hrow : o = findMlidOffset (I.firstMlid i) := by
      rcases hfound g hg with hl | ⟨-, i', htree', hl⟩
      · obtain ⟨k, t, hk, ht⟩ := exists_tree hg
        obtain rfl := Option.some.inj (htree.symm.trans hk)
        rw [hoff, htree] at hl
        exact hsame i hl hfirst (List.getElem?_eq_some_iff.mp ht).1
      · obtain rfl := Option.some.inj (htree.symm.trans htree')
        rw [hl, hoff]
    simp only
    rw [hrow]
    exact hkept i hfirst node
  · rw [heq]
    -- a group on this row has the tree that was looked up
    have hthis : ∀ g i, I.Realized g → findMlidOffset g.mLid = o → I.env.treeOf g = some i →
        i = j := by
      intro g i hg hoff htree
      rcases hfound g hg with hl | ⟨hl, -⟩
      · rw [hoff, hj, htree] at hl
        exact (Option.some.inj hl).symm
      · rw [hoff, hj] at hl
        cases hl
    constructor
    · intro i hi n
      have hother : findMlidOffset (I.firstMlid i) ≠ o := by
        intro hoff
        obtain ⟨g, hg, htree, hmlid⟩ := exists_first hi
        rw [hmlid] at hoff
        obtain rfl := hthis g i hg hoff htree
        exact hne (by rw [hmlid, hoff])
      rw [← hkept i hi n]
      funext q
      simp [Mfts.copyRow, hother]
    · intro r hr g i hg hoff htree
      by_cases hhere : r = (node, o)
      · subst hhere
        obtain rfl := hthis g i hg hoff htree
        rw [← hkept i hfirst node]
        funext q
        simp [Mfts.copyRow]
      · have hright := hr.resolve_right (Ne.symm hhere) g i hg hoff htree
        rw [← hright]
        funext q
        have hno : ¬(r.1 = node ∧ r.2 = o) := fun h => hhere (Prod.ext h.1 h.2)
        simp [Mfts.copyRow, hno]

theorem fillRows_spec (hfound : I.RowsFound) (mft : Mfts) (n : Node)
    (hkept : I.FirstRowsKept mft) :
    I.FirstRowsKept (fillRows I.env I.flagged I.drawn.1 mft n) ∧
      ∀ r, (I.RowRight mft r ∨
          ∃ o ∈ List.range (findMlidOffset (smMulticastGetMaxLid I.flagged) + 1),
            (n.index, o) = r) →
        I.RowRight (fillRows I.env I.flagged I.drawn.1 mft n) r :=
  foldl_establishes (fun o _ mft => fillRow_spec hfound n.index mft o) mft hkept

theorem foldl_maxLid (groups : List McGroup) : ∀ k,
    let maxLid := groups.foldl (fun maxLid g => if maxLid < g.mLid then g.mLid else maxLid) k
    k ≤ maxLid ∧ (∀ g ∈ groups, g.mLid ≤ maxLid) ∧ (maxLid = k ∨ ∃ g ∈ groups, maxLid = g.mLid) := by
  induction groups with
  | nil => simp
  | cons g groups ih =>
    intro k
    obtain ⟨hle, hall, hone⟩ := ih (if k < g.mLid then g.mLid else k)
    rw [List.foldl_cons]
    have hk : k ≤ (if k < g.mLid then g.mLid else k) := by split <;> omega
    have hg : g.mLid ≤ (if k < g.mLid then g.mLid else k) := by split <;> omega
    refine ⟨hk.trans hle, List.forall_mem_cons.mpr ⟨hg.trans hle, hall⟩, ?_⟩
    rcases hone with heq | ⟨g', hg', heq⟩
    · rw [heq]
      split
      · exact .inr ⟨g, .head _, rfl⟩
      · exact .inl rfl
    · exact .inr ⟨g', .tail _ hg', heq⟩

theorem offset_mem_range {g : McGroup} (hg : g ∈ I.flagged) :
    findMlidOffset g.mLid ∈
      List.range (findMlidOffset (smMulticastGetMaxLid I.flagged) + 1) := by
  obtain ⟨-, hall, hone⟩ := foldl_maxLid I.flagged 0
  have hle : g.mLid ≤ smMulticastGetMaxLid I.flagged := hall g hg
  rw [List.mem_range]
  rcases hone with hzero | ⟨g', hg', hmax⟩
  · have hpos := pos_flagged hg
    rw [smMulticastGetMaxLid, hzero] at hle
    omega
  · have hmax' : smMulticastGetMaxLid I.flagged = g'.mLid := hmax
    rw [hmax'] at hle ⊢
    rw [offset_flagged hg, offset_flagged hg']
    omega

variable (I)

def filled : Mfts := I.env.topo.switches.foldl (fillRows I.env I.flagged I.drawn.1) I.drawn.2

variable {I}

theorem filled_right (hfound : I.RowsFound) {n : Node} (hn : n ∈ I.env.topo.switches) {g : McGroup}
    (hg : I.Realized g) {i : Nat} (htree : I.env.treeOf g = some i) :
    I.filled n.index (findMlidOffset g.mLid) =
      I.drawn.2 n.index (findMlidOffset (I.firstMlid i)) := by
  have hall := (foldl_establishes (l := I.env.topo.switches) (fun n _ mft => fillRows_spec hfound mft n)
    I.drawn.2 (fun _ _ _ => rfl)).2
  exact hall (n.index, findMlidOffset g.mLid)
    (.inr ⟨n, hn, _, offset_mem_range hg.1, rfl⟩) g i hg rfl htree

end MftInput

/-! ## Members -/

theorem addMembers_bit (env : MftEnv) (mft : Mfts) (g : McGroup) (n o p : Nat) :
    (addMembers env mft g).bit n o p = true ↔ mft.bit n o p = true ∨
      g.unrealizable = false ∧ o = findMlidOffset g.mLid ∧
        ∃ m ∈ g.mcMembers, ∃ n', receivingPort env m = some (n', p) ∧ n'.index = n := by
  unfold addMembers
  by_cases hreal : g.unrealizable = true
  · simp [hreal]
  · simp only [hreal, Bool.false_eq_true, if_false, true_and]
    generalize g.mcMembers = members
    induction members generalizing mft with
    | nil => simp
    | cons m members ih =>
      rw [List.foldl_cons, ih]
      simp only [List.mem_cons, exists_eq_or_imp]
      cases hport : receivingPort env m with
      | none => simp
      | some np =>
        obtain ⟨n', p'⟩ := np
        simp only [Mfts.bit_orBit, Option.some.injEq, Prod.mk.injEq]
        rw [or_assoc]
        apply or_congr_right
        constructor
        · rintro (⟨rfl, rfl, rfl⟩ | ⟨ho, h⟩)
          · exact ⟨rfl, .inl ⟨n', ⟨rfl, rfl⟩, rfl⟩⟩
          · exact ⟨ho, .inr h⟩
        · rintro ⟨ho, ⟨_, ⟨rfl, rfl⟩, rfl⟩ | h⟩
          · exact .inl ⟨rfl, ho, rfl⟩
          · exact .inr ⟨ho, h⟩

theorem smAddMcmemberPortMasks_bit (env : MftEnv) (groups : List McGroup) (mft : Mfts)
    (n o p : Nat) :
    (smAddMcmemberPortMasks env groups mft).bit n o p = true ↔ mft.bit n o p = true ∨
      ∃ g ∈ groups, g.unrealizable = false ∧ o = findMlidOffset g.mLid ∧
        ∃ m ∈ g.mcMembers, ∃ n', receivingPort env m = some (n', p) ∧ n'.index = n := by
  unfold smAddMcmemberPortMasks
  induction groups generalizing mft with
  | nil => simp
  | cons g groups ih =>
    rw [List.foldl_cons, ih, addMembers_bit, or_assoc]
    simp only [List.mem_cons, exists_eq_or_imp]

/-! ## The tables -/

/-- The port of a switch leads to a receiving member of a realizable group on the
MLID. -/
def MftInput.MemberPort (I : MftInput) (mLid node p : Nat) : Prop :=
  ∃ g, I.Realized g ∧ g.mLid = mLid ∧
    ∃ m ∈ g.mcMembers, ∃ n, receivingPort I.env m = some (n, p) ∧ n.index = node

/-- The row of every realizable group holds the mask of the group's tree and the
ports that belong to the MLID, and nothing else. -/
def MftInput.RowsHold (I : MftInput) (Member : Nat → Nat → Nat → Prop) : Prop :=
  ∀ g ∈ I.result.groups, g.unrealizable = false → ∀ n ∈ I.env.topo.switches,
    ∃ i t, I.env.treeOf g = some i ∧ I.trees[i]? = some t ∧
      ∀ p, I.result.mft.bit n.index (findMlidOffset g.mLid) p = true ↔
        (n.index, p) ∈ treePorts I.env.topo t.nodes ∨ Member g.mLid n.index p

/-- Where the lookups find the right trees, the rows hold those and the ports of
the members that are to receive. -/
theorem smCalculateMfts_rows (I : MftInput) (hfound : I.RowsFound) : I.RowsHold I.MemberPort := by
  intro g hg hreal n hn
  have hrealized : I.Realized g := ⟨hg, hreal⟩
  obtain ⟨i, t, htree, ht⟩ := MftInput.exists_tree hrealized
  refine ⟨i, t, htree, ht, fun p => ?_⟩
  have hmft : I.result.mft = smAddMcmemberPortMasks I.env I.flagged I.filled := rfl
  rw [hmft, smAddMcmemberPortMasks_bit]
  apply or_congr
  · rw [Mfts.bit, MftInput.filled_right hfound hn hrealized htree]
    exact MftInput.drawn_bit ht (MftInput.firstMlid_ne_zero hrealized htree) n.index p
  · constructor
    · rintro ⟨g', hg', hreal', hoff, hmember⟩
      exact ⟨g', ⟨hg', hreal'⟩, MftInput.mLid_of_offset hg' hrealized.1 hoff.symm, hmember⟩
    · rintro ⟨g', ⟨hg', hreal'⟩, hmlid, hmember⟩
      exact ⟨g', hg', hreal', by rw [hmlid], hmember⟩

/-! A triangle of switches.  The link between switches 0 and 2 has a smaller MTU
than the other two, and each of these two has a host on its port 3. -/

def triangleHost (guid peer peerPort : Nat) : Port :=
  { islPort 1 stlMtu8192 peer peerPort with
    portData := some { guid := guid, maxVlMtu := stlMtu8192 } }

def triangleNode (k : Nat) (nodeType : NodeType) (ports : List Port) : Node :=
  { index := k
    nodeType := nodeType
    numPorts := ports.length
    port := fun i => { ports.getD (i - 1) {} with index := i } }

def triangleRoot : Node := triangleNode 0 .switch
  [islPort 1 stlMtu8192 1 1, islPort 2 ibMtu2048 2 2, islPort 3 stlMtu8192 3 1]

def triangle : RootedFabric where
  topop :=
    { nodes := [triangleRoot,
        triangleNode 1 .switch [islPort 1 stlMtu8192 0 1, islPort 2 stlMtu8192 2 1],
        triangleNode 2 .switch
          [islPort 1 stlMtu8192 1 2, islPort 2 ibMtu2048 0 2, islPort 3 stlMtu8192 4 1],
        triangleNode 3 .ca [triangleHost 0x10 0 3],
        triangleNode 4 .ca [triangleHost 0x11 2 3]]
      maxSws := 3 }
  root := triangleRoot
  distinct := by decide
  root_mem := List.mem_cons_self

def triangleTree (mtu : Nat) : McSpanningTree := { nodes := finalNodes triangle mtu ibStaticRate100G }

theorem triangleTree_wf (mtu : Nat) : TreeWf triangle.topop (triangleTree mtu).nodes := by
  refine treeWf_finalNodes triangle (fun n hn i => ?_) mtu ibStaticRate100G
  simp only [triangle, List.mem_cons, List.not_mem_nil, or_false] at hn
  rcases hn with rfl | rfl | rfl | rfl | rfl <;> rfl

def triangleEnv (spanningTrees : Nat → Nat → Option Nat) : MftEnv where
  topo := triangle.topop
  portMap := fun guid =>
    if guid = 0x10 then some ⟨triangleHost 0x10 0 3, _, rfl⟩
    else if guid = 0x11 then some ⟨triangleHost 0x11 2 3, _, rfl⟩
    else none
  mlidTableCap := sixteenLids
  spanningTrees := spanningTrees

def sendOnlyMember : McMember :=
  { portGuid := 0x11, record := { joinSendOnlyMember := true } }

def sendOnlyGroup : McGroup :=
  { mLid := 0xC000
    mtu := stlMtu8192
    rate := ibStaticRate100G
    mcMembers := [{ portGuid := 0x10, record := { joinFullMember := true } }, sendOnlyMember] }

/-- One tree, and a group with a full member behind switch 0 and a send-only member
behind switch 2. -/
def oneTree : MftInput where
  env := triangleEnv fun mtu rate =>
    if mtu = stlMtu8192 ∧ rate = ibStaticRate100G then some 0 else none
  groups := [sendOnlyGroup]
  trees := [triangleTree stlMtu8192]
  wf := List.forall_mem_singleton.mpr (triangleTree_wf stlMtu8192)
  slots := by
    intro mtu rate i h
    simp only [triangleEnv] at h
    split at h
    · cases h
      decide
    · cases h
  range := by decide
  shared := by decide

theorem smCalculateMfts_rows_triangle :
    (∃ g ∈ oneTree.result.groups, g.unrealizable = false) ∧
      oneTree.env.topo.switches.length = 3 ∧ oneTree.RowsHold oneTree.MemberPort :=
  ⟨by decide +kernel, by decide +kernel,
    smCalculateMfts_rows oneTree (MftInput.rowsFound_of_one rfl)⟩

def smallMtuGroup : McGroup := { mLid := 0xC000, mtu := ibMtu2048, rate := ibStaticRate100G }

def twoTrees : MftInput where
  env := triangleEnv fun mtu rate =>
    if rate = ibStaticRate100G then
      if mtu = ibMtu2048 then some 0 else if mtu = stlMtu8192 then some 1 else none
    else none
  groups := [smallMtuGroup, { mLid := 0xC001, mtu := stlMtu8192, rate := ibStaticRate100G }]
  trees := [triangleTree ibMtu2048, triangleTree stlMtu8192]
  wf := List.forall_mem_cons.mpr
    ⟨triangleTree_wf ibMtu2048, List.forall_mem_singleton.mpr (triangleTree_wf stlMtu8192)⟩
  slots := by
    intro mtu rate i h
    simp only [triangleEnv] at h
    split_ifs at h <;> cases h <;> decide
  range := by decide
  shared := by decide

def MftInput.AnyMemberPort (I : MftInput) (mLid node p : Nat) : Prop :=
  ∃ g ∈ I.result.groups, g.mLid = mLid ∧ ∃ m ∈ g.mcMembers, ∃ vp,
    I.env.portMap m.portGuid = some vp ∧ vp.port.nodeno = some node ∧ vp.port.portno = some p

/-- The port of the send-only member is left out.  With two trees, the lookup under
the mirrored MLID gives the group of the smaller MTU the tree of the other. -/
theorem smCalculateMfts_send_only :
    ¬oneTree.RowsHold oneTree.AnyMemberPort ∧ ¬twoTrees.RowsHold twoTrees.AnyMemberPort := by
  constructor
  · intro h
    have hmem : sendOnlyGroup ∈ oneTree.result.groups := by decide +kernel
    obtain ⟨i, t, -, -, hrow⟩ := h sendOnlyGroup hmem rfl _ (.tail _ (.tail _ (.head _)))
    have hbit := (hrow 3).mpr (.inr
      ⟨sendOnlyGroup, hmem, rfl, sendOnlyMember, .tail _ (.head _), _, rfl, rfl, rfl⟩)
    have hclear : oneTree.result.mft.bit 2 0 3 = false := by decide +kernel
    exact absurd (hclear.symm.trans hbit) (by decide)
  · intro h
    have hmem : smallMtuGroup ∈ twoTrees.result.groups := by decide +kernel
    obtain ⟨i, t, hi, ht, hrow⟩ := h smallMtuGroup hmem rfl _ (.head _)
    obtain rfl : 0 = i := Option.some.inj hi
    obtain rfl := Option.some.inj ht
    have hbit := (hrow 2).mpr (.inl (by decide +kernel))
    have hclear : twoTrees.result.mft.bit 0 0 2 = false := by decide +kernel
    exact absurd (hclear.symm.trans hbit) (by decide)

end OpaFm.Multicast
