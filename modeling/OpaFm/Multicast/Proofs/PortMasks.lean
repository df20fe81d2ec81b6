import OpaFm.Multicast.Mft
import OpaFm.Multicast.Proofs.SpanningTree

/-!
# Port masks of spanning trees

Each tree that is in use draws both ends of its links into the row of its first
MLID.  The first bit at a switch is assigned and the others are added, so the row
holds the mask and nothing else as long as it was empty.
-/

namespace OpaFm.Multicast

open OpaFm.Fabric

/-! ## Bits -/

theorem getLsbD_mftPortmaskBit (p i : Nat) (hi : i < stlPortMaskWidth) :
    (mftPortmaskBit p).getLsbD i = decide (i = p % stlPortMaskWidth) := by
  have hp : p % stlPortMaskWidth < stlPortMaskWidth := Nat.mod_lt _ (by decide)
  unfold mftPortmaskBit
  unfold stlPortMaskWidth at *
  rw [BitVec.getLsbD_shiftLeft, BitVec.getLsbD_one]
  simp only [hi, decide_true, Bool.true_and]
  by_cases heq : i = p % 64
  · simp [heq]
  · by_cases hlt : i < p % 64
    · simp [hlt, heq]
    · have hne : i - p % 64 ≠ 0 := by omega
      simp [heq, hne]

theorem port_eq_iff {p q : Nat} :
    q = p ↔ mftPosition q = mftPosition p ∧ q % stlPortMaskWidth = p % stlPortMaskWidth := by
  unfold mftPosition stlPortMaskWidth
  omega

namespace Mfts

theorem bit_orBit (mft : Mfts) (node offset port n o q : Nat) :
    (mft.orBit node offset port).bit n o q = true ↔
      mft.bit n o q = true ∨ n = node ∧ o = offset ∧ q = port := by
  have hq : q % stlPortMaskWidth < stlPortMaskWidth := Nat.mod_lt _ (by decide)
  simp only [orBit, store, bit]
  by_cases hword : n = node ∧ o = offset ∧ mftPosition q = mftPosition port
  · rw [if_pos hword, BitVec.getLsbD_or, getLsbD_mftPortmaskBit _ _ hq, Bool.or_eq_true,
      decide_eq_true_iff, @port_eq_iff port q]
    obtain ⟨rfl, rfl, hpos⟩ := hword
    simp only [hpos, true_and]
  · rw [if_neg hword]
    have hne : ¬(n = node ∧ o = offset ∧ q = port) := by
      rintro ⟨hn, ho, rfl⟩
      exact hword ⟨hn, ho, rfl⟩
    simp only [hne, or_false]

theorem store_other (mft : Mfts) {node n : Nat} (h : n ≠ node) (offset position o q : Nat)
    (word : BitVec 64) : mft.store node offset position word n o q = mft n o q := by
  simp [store, h]

theorem bit_assignBit {mft : Mfts} {node offset : Nat} (hzero : ∀ q, mft node offset q = 0)
    (port n o q : Nat) :
    (mft.assignBit node offset port).bit n o q = true ↔
      mft.bit n o q = true ∨ n = node ∧ o = offset ∧ q = port := by
  have hsame : mft.assignBit node offset port = mft.orBit node offset port := by
    simp [assignBit, orBit, hzero]
  rw [hsame, bit_orBit]

theorem zero_iff_bit (mft : Mfts) (node offset : Nat) :
    (∀ q, mft node offset q = 0) ↔ ∀ p, mft.bit node offset p = false := by
  constructor
  · intro h p
    simp [bit, h]
  · intro h q
    apply BitVec.eq_of_getLsbD_eq
    intro i hi
    have hbit := h (q * stlPortMaskWidth + i)
    have hpos : mftPosition (q * stlPortMaskWidth + i) = q := by
      unfold mftPosition stlPortMaskWidth
      omega
    have hmod : (q * stlPortMaskWidth + i) % stlPortMaskWidth = i := by
      unfold stlPortMaskWidth
      omega
    rw [bit, hpos, hmod] at hbit
    rw [hbit]
    simp

end Mfts

def SetsBits (mft mft' : Mfts) (offset : Nat) (ports : List (Nat × Nat)) : Prop :=
  ∀ n o q, mft'.bit n o q = true ↔ mft.bit n o q = true ∨ o = offset ∧ (n, q) ∈ ports

theorem SetsBits.refl (mft : Mfts) (offset : Nat) : SetsBits mft mft offset [] := by
  intro n o q
  simp

theorem SetsBits.trans {mft mft₁ mft₂ : Mfts} {offset : Nat} {l₁ l₂ : List (Nat × Nat)}
    (h₁ : SetsBits mft mft₁ offset l₁) (h₂ : SetsBits mft₁ mft₂ offset l₂) :
    SetsBits mft mft₂ offset (l₁ ++ l₂) := by
  intro n o q
  rw [h₂, h₁, or_assoc, List.mem_append, and_or_left]

/-! ## Masks of trees -/

def LinkEnds.childPorts (e : LinkEnds) : List (Nat × Nat) :=
  match e.port, e.node with
  | some p, some n => if smValidPort p then [(n.index, p.index)] else []
  | _, _ => []

def LinkEnds.parentPorts (e : LinkEnds) : List (Nat × Nat) :=
  match e.parentNode with
  | some n => [(n.index, e.parentPort.index)]
  | none => []

/-- The ports at the two ends of a link, each with the index of its switch. -/
def LinkEnds.ports (e : LinkEnds) : List (Nat × Nat) := e.childPorts ++ e.parentPorts

def entryPorts (topo : Topology) (m : McNode) : List (Nat × Nat) :=
  match linkEnds topo m with
  | none => []
  | some e => e.ports

def treePorts (topo : Topology) (nodes : List McNode) : List (Nat × Nat) :=
  nodes.flatMap (entryPorts topo)

structure TreeWf (topo : Topology) (nodes : List McNode) : Prop where
  distinct : (nodes.map McNode.index).Nodup
  child : ∀ m ∈ nodes, ∀ e, linkEnds topo m = some e → ∀ n ∈ e.node, n.index = m.index
  parent : ∀ m ∈ nodes, ∀ e, linkEnds topo m = some e → ∀ n ∈ e.parentNode,
    ∃ k m', m.parent = some k ∧ nodes[k]? = some m' ∧ m'.index = n.index

def Fresh (firstMlid : Nat) (nodes : List McNode) (mft : Mfts) : Prop :=
  ∀ m ∈ nodes, m.mftMlidInit ≠ firstMlid → ∀ q, mft m.index (findMlidOffset firstMlid) q = 0

def McNode.unmarked (m : McNode) : McNode := { m with mftMlidInit := 0 }

def SameEntries (nodes nodes' : List McNode) : Prop :=
  nodes'.map McNode.unmarked = nodes.map McNode.unmarked

theorem SameEntries.getElem? {nodes nodes' : List McNode} (h : SameEntries nodes nodes') {k : Nat}
    {m' : McNode} (hm' : nodes'[k]? = some m') :
    ∃ m, nodes[k]? = some m ∧ m'.unmarked = m.unmarked := by
  have hk : (nodes.map McNode.unmarked)[k]? = some m'.unmarked := by
    rw [← h, List.getElem?_map, hm']
    rfl
  rw [List.getElem?_map] at hk
  obtain ⟨m, hm, heq⟩ := Option.map_eq_some_iff.mp hk
  exact ⟨m, hm, heq.symm⟩

theorem SameEntries.symm {nodes nodes' : List McNode} (h : SameEntries nodes nodes') :
    SameEntries nodes' nodes :=
  Eq.symm h

theorem SameEntries.index {nodes nodes' : List McNode} (h : SameEntries nodes nodes') :
    nodes'.map McNode.index = nodes.map McNode.index := by
  have hindex : McNode.index ∘ McNode.unmarked = McNode.index := rfl
  rw [← hindex, ← List.map_map, ← List.map_map, h]

theorem McNode.of_unmarked {m m' : McNode} (h : m'.unmarked = m.unmarked) :
    m'.index = m.index ∧ m'.nodeno = m.nodeno ∧ m'.portno = m.portno ∧ m'.parent = m.parent := by
  simpa [McNode.unmarked] using h

theorem linkEnds_unmarked (topo : Topology) {m m' : McNode} (h : m'.unmarked = m.unmarked) :
    linkEnds topo m' = linkEnds topo m := by
  obtain ⟨-, hnodeno, hportno, -⟩ := McNode.of_unmarked h
  unfold linkEnds
  rw [hnodeno, hportno]

/-- What drawing some links of a tree leaves: the same entries up to marks, the
links' bits, and empty rows at the switches without a mark. -/
structure Drawn (firstMlid : Nat) (ports : List (Nat × Nat)) (s s' : List McNode × Mfts) :
    Prop where
  entries : SameEntries s.1 s'.1
  bits : SetsBits s.2 s'.2 (findMlidOffset firstMlid) ports
  fresh : Fresh firstMlid s'.1 s'.2

theorem Drawn.refl {firstMlid : Nat} {s : List McNode × Mfts} (hfresh : Fresh firstMlid s.1 s.2) :
    Drawn firstMlid [] s s :=
  ⟨rfl, .refl s.2 _, hfresh⟩

theorem Drawn.trans {firstMlid : Nat} {l₁ l₂ : List (Nat × Nat)} {s s₁ s₂ : List McNode × Mfts}
    (h₁ : Drawn firstMlid l₁ s s₁) (h₂ : Drawn firstMlid l₂ s₁ s₂) :
    Drawn firstMlid (l₁ ++ l₂) s s₂ :=
  ⟨h₂.entries.trans h₁.entries, h₁.bits.trans h₂.bits, h₂.fresh⟩

theorem sameEntries_modify (nodes : List McNode) (k firstMlid : Nat) :
    SameEntries nodes (nodes.modify k fun m => { m with mftMlidInit := firstMlid }) := by
  unfold SameEntries
  apply List.ext_getElem?
  intro i
  simp only [List.getElem?_map, List.getElem?_modify]
  by_cases hik : k = i
  · cases nodes[i]? <;> simp [hik, McNode.unmarked]
  · simp [hik]

theorem place_of_index {nodes : List McNode} (hdistinct : (nodes.map McNode.index).Nodup)
    {j k : Nat} {m m' : McNode} (hm : nodes[k]? = some m) (hm' : nodes[j]? = some m')
    (hindex : m'.index = m.index) : j = k := by
  have hk : (nodes.map McNode.index)[k]? = some m.index := by
    rw [List.getElem?_map, hm]
    rfl
  have hj : (nodes.map McNode.index)[j]? = some m.index := by
    rw [List.getElem?_map, hm', ← hindex]
    rfl
  obtain ⟨hjlt, -⟩ := List.getElem?_eq_some_iff.mp hj
  exact (List.getElem?_inj hjlt hdistinct).mp (hj.trans hk.symm)

theorem setMaskBit_spec {firstMlid k port : Nat} {node : Node} {s : List McNode × Mfts}
    (hdistinct : (s.1.map McNode.index).Nodup) (hfresh : Fresh firstMlid s.1 s.2) {m : McNode}
    (hm : s.1[k]? = some m) (hindex : m.index = node.index) :
    Drawn firstMlid [(node.index, port)] s (setMaskBit firstMlid k node port s.1 s.2) := by
  have hbits : ∀ mft' : Mfts, (∀ n o q, mft'.bit n o q = true ↔ s.2.bit n o q = true ∨
      n = node.index ∧ o = findMlidOffset firstMlid ∧ q = port) →
      SetsBits s.2 mft' (findMlidOffset firstMlid) [(node.index, port)] := by
    intro mft' h n o q
    rw [h, List.mem_singleton, Prod.mk.injEq, and_left_comm]
  by_cases hmark : m.mftMlidInit = firstMlid
  · have hset : setMaskBit firstMlid k node port s.1 s.2 =
        (s.1, s.2.orBit node.index (findMlidOffset firstMlid) port) := by
      simp [setMaskBit, hm, hmark]
    rw [hset]
    refine ⟨rfl, hbits _ (s.2.bit_orBit _ _ _), ?_⟩
    intro m' hm' hmark' q
    obtain ⟨j, hj⟩ := List.mem_iff_getElem?.mp hm'
    have hne : m'.index ≠ node.index := by
      intro heq
      obtain rfl := place_of_index hdistinct hm hj (heq.trans hindex.symm)
      obtain rfl := Option.some.inj (hj.symm.trans hm)
      exact hmark' hmark
    exact (Mfts.store_other _ hne _ _ _ _ _).trans (hfresh m' hm' hmark' q)
  · have hset : setMaskBit firstMlid k node port s.1 s.2 =
        (s.1.modify k fun m => { m with mftMlidInit := firstMlid },
          s.2.assignBit node.index (findMlidOffset firstMlid) port) := by
      simp [setMaskBit, hm, hmark]
    have hzero : ∀ q, s.2 node.index (findMlidOffset firstMlid) q = 0 := by
      rw [← hindex]
      exact hfresh m (List.mem_of_getElem? hm) hmark
    rw [hset]
    refine ⟨sameEntries_modify _ _ _, hbits _ (Mfts.bit_assignBit hzero _), ?_⟩
    intro m' hm' hmark' q
    obtain ⟨j, hj⟩ := List.mem_iff_getElem?.mp hm'
    rw [List.getElem?_modify] at hj
    -- the entry at `k` has its mark now, so this is another one
    have hjk : k ≠ j := by
      rintro rfl
      simp only [hm, if_true] at hj
      obtain rfl := Option.some.inj hj
      exact hmark' rfl
    simp only [hjk, if_false, id_map'] at hj
    have hne : m'.index ≠ node.index := fun heq =>
      hjk (place_of_index hdistinct hm hj (heq.trans hindex.symm)).symm
    exact (Mfts.store_other _ hne _ _ _ _ _).trans
      (hfresh m' (List.mem_of_getElem? hj) hmark' q)

theorem maskChild_spec {firstMlid j : Nat} {e : LinkEnds} {s : List McNode × Mfts}
    (hdistinct : (s.1.map McNode.index).Nodup) (hfresh : Fresh firstMlid s.1 s.2) {m : McNode}
    (hm : s.1[j]? = some m) (hnode : ∀ n ∈ e.node, n.index = m.index) :
    Drawn firstMlid e.childPorts s (maskChild firstMlid j e s) := by
  cases hp : e.port with
  | none =>
    simp only [maskChild, LinkEnds.childPorts, hp]
    exact .refl hfresh
  | some p =>
    cases hn : e.node with
    | none =>
      simp only [maskChild, LinkEnds.childPorts, hp, hn]
      exact .refl hfresh
    | some n =>
      simp only [maskChild, LinkEnds.childPorts, hp, hn]
      by_cases hvalid : smValidPort p = true
      · simp only [hvalid, if_true]
        exact setMaskBit_spec hdistinct hfresh hm (hnode n hn).symm
      · simp only [hvalid]
        exact .refl hfresh

theorem maskParent_spec {firstMlid : Nat} {parent : Option Nat} {e : LinkEnds}
    {s : List McNode × Mfts} (hdistinct : (s.1.map McNode.index).Nodup)
    (hfresh : Fresh firstMlid s.1 s.2)
    (hnode : ∀ n ∈ e.parentNode, ∃ k m, parent = some k ∧ s.1[k]? = some m ∧ m.index = n.index) :
    Drawn firstMlid e.parentPorts s (maskParent firstMlid parent e s) := by
  cases hn : e.parentNode with
  | none =>
    simp only [maskParent, LinkEnds.parentPorts, hn]
    exact .refl hfresh
  | some n =>
    obtain ⟨k, m, hk, hm, hindex⟩ := hnode n hn
    simp only [maskParent, LinkEnds.parentPorts, hn, hk]
    exact setMaskBit_spec hdistinct hfresh hm hindex

theorem maskEntry_spec {topo : Topology} {nodes : List McNode} (hwf : TreeWf topo nodes)
    {firstMlid j : Nat} {s : List McNode × Mfts} (hsame : SameEntries nodes s.1)
    (hfresh : Fresh firstMlid s.1 s.2) {m : McNode} (hm : nodes[j]? = some m) :
    Drawn firstMlid (entryPorts topo m) s (maskEntry topo firstMlid s j) := by
  have hdistinct : (s.1.map McNode.index).Nodup := by
    rw [hsame.index]
    exact hwf.distinct
  obtain ⟨m₁, hm₁, hun⟩ := hsame.symm.getElem? hm
  have hends : linkEnds topo m₁ = linkEnds topo m := linkEnds_unmarked topo hun.symm
  obtain ⟨hindex, -, -, hparent⟩ := McNode.of_unmarked hun.symm
  unfold maskEntry entryPorts
  simp only [hm₁, hends, hparent]
  cases he : linkEnds topo m with
  | none => exact .refl hfresh
  | some e =>
    have hmem : m ∈ nodes := List.mem_of_getElem? hm
    have hchild : Drawn firstMlid e.childPorts s (maskChild firstMlid j e s) :=
      maskChild_spec hdistinct hfresh hm₁ fun n hn =>
        (hwf.child m hmem e he n hn).trans hindex.symm
    have hsame' : SameEntries nodes (maskChild firstMlid j e s).1 := hchild.entries.trans hsame
    have hdistinct' : ((maskChild firstMlid j e s).1.map McNode.index).Nodup := by
      rw [hsame'.index]
      exact hwf.distinct
    refine hchild.trans (maskParent_spec hdistinct' hchild.fresh fun n hn => ?_)
    obtain ⟨k, m', hk, hm', hidx⟩ := hwf.parent m hmem e he n hn
    obtain ⟨m₂, hm₂, hun₂⟩ := hsame'.symm.getElem? hm'
    exact ⟨k, m₂, hk, hm₂, (McNode.of_unmarked hun₂.symm).1.trans hidx⟩

theorem maskEntries_spec {topo : Topology} {nodes : List McNode} (hwf : TreeWf topo nodes)
    {firstMlid : Nat} {mft : Mfts} (hfresh : Fresh firstMlid nodes mft) :
    ∀ k ≤ nodes.length, Drawn firstMlid ((nodes.take k).flatMap (entryPorts topo)) (nodes, mft)
      ((List.range k).foldl (maskEntry topo firstMlid) (nodes, mft)) := by
  intro k
  induction k with
  | zero =>
    intro _
    exact .refl hfresh
  | succ k ih =>
    intro hk
    have hprev := ih (by omega)
    have hget : nodes[k]? = some (nodes.get ⟨k, by omega⟩) := List.getElem?_eq_getElem _
    rw [List.range_succ, List.foldl_append, List.take_add_one, hget, List.flatMap_append]
    simp only [List.foldl_cons, List.foldl_nil, Option.toList_some, List.flatMap_singleton]
    exact hprev.trans (maskEntry_spec hwf hprev.entries hprev.fresh hget)

theorem maskTree_spec {topo : Topology} {t : McSpanningTree} (hwf : TreeWf topo t.nodes)
    (hfirst : t.firstMlid ≠ 0) {mft : Mfts}
    (hzero : ∀ n p, mft.bit n (findMlidOffset t.firstMlid) p = false) :
    (maskTree topo t mft).1.firstMlid = t.firstMlid ∧
      SetsBits mft (maskTree topo t mft).2 (findMlidOffset t.firstMlid)
        (treePorts topo t.nodes) := by
  have hfresh : Fresh t.firstMlid t.nodes mft := fun m _ _ =>
    (mft.zero_iff_bit m.index _).mpr (hzero m.index)
  have hdrawn := maskEntries_spec hwf hfresh t.nodes.length le_rfl
  rw [List.take_length] at hdrawn
  simp only [maskTree, hfirst, if_false, true_and]
  exact hdrawn.bits

def RowsDistinct (trees : List McSpanningTree) : Prop :=
  trees.Pairwise fun t t' => t.firstMlid ≠ 0 → t'.firstMlid ≠ 0 →
    findMlidOffset t.firstMlid ≠ findMlidOffset t'.firstMlid

theorem smCalculateSpanningTreePortMask_spec {topo : Topology} {trees : List McSpanningTree}
    (hwf : ∀ t ∈ trees, TreeWf topo t.nodes) (hrows : RowsDistinct trees) {mft : Mfts}
    (hzero : ∀ t ∈ trees, t.firstMlid ≠ 0 →
      ∀ n p, mft.bit n (findMlidOffset t.firstMlid) p = false) :
    (smCalculateSpanningTreePortMask topo trees mft).1.map McSpanningTree.firstMlid =
        trees.map McSpanningTree.firstMlid ∧
      ∀ n o p, (smCalculateSpanningTreePortMask topo trees mft).2.bit n o p = true ↔
        mft.bit n o p = true ∨ ∃ t ∈ trees, t.firstMlid ≠ 0 ∧
          o = findMlidOffset t.firstMlid ∧ (n, p) ∈ treePorts topo t.nodes := by
  induction trees generalizing mft with
  | nil => simp [smCalculateSpanningTreePortMask]
  | cons t trees ih =>
    obtain ⟨hhead, htail⟩ := List.pairwise_cons.mp hrows
    have hwf' : ∀ t' ∈ trees, TreeWf topo t'.nodes := fun t' h => hwf t' (.tail _ h)
    simp only [smCalculateSpanningTreePortMask, List.map_cons]
    by_cases hfirst : t.firstMlid = 0
    · have hskip : maskTree topo t mft = (t, mft) := by simp [maskTree, hfirst]
      obtain ⟨hmap, hbits⟩ := ih hwf' htail fun t' h => hzero t' (.tail _ h)
      rw [hskip]
      refine ⟨by rw [hmap], fun n o p => ?_⟩
      rw [hbits]
      simp [hfirst]
    · obtain ⟨hsame, hset⟩ := maskTree_spec (hwf t (.head _)) hfirst (hzero t (.head _) hfirst)
      -- the rows of the trees still to come are empty
      have hzero' : ∀ t' ∈ trees, t'.firstMlid ≠ 0 →
          ∀ n p, (maskTree topo t mft).2.bit n (findMlidOffset t'.firstMlid) p = false := by
        intro t' ht' hfirst' n p
        rw [Bool.eq_false_iff, Ne, hset]
        rintro (hold | ⟨heq, -⟩)
        · rw [hzero t' (.tail _ ht') hfirst' n p] at hold
          cases hold
        · exact hhead t' ht' hfirst hfirst' heq.symm
      obtain ⟨hmap, hbits⟩ := ih hwf' htail hzero'
      refine ⟨by rw [hmap, hsame], fun n o p => ?_⟩
      rw [hbits, hset, or_assoc]
      simp only [List.mem_cons, exists_eq_or_imp, ne_eq, hfirst, not_false_eq_true, true_and]

/-! ## The first MLID of a tree -/

def firstMlidOf (env : MftEnv) (groups : List McGroup) (i : Nat) : Nat :=
  match groups.find? fun g => !g.unrealizable && decide (env.treeOf g = some i) with
  | none => 0
  | some g => g.mLid

theorem foldl_noteFirstMlid (env : MftEnv) {groups : List McGroup}
    (hpos : ∀ g ∈ groups, g.mLid ≠ 0) (trees : List McSpanningTree) (i : Nat) :
    (groups.foldl (noteFirstMlid env) trees)[i]? = trees[i]?.map fun t =>
      if t.firstMlid = 0 then { t with firstMlid := firstMlidOf env groups i } else t := by
  induction groups generalizing trees with
  | nil =>
    cases htree : trees[i]? with
    | none => simp [htree]
    | some t =>
      by_cases h0 : t.firstMlid = 0
      · obtain ⟨nodes, first⟩ := t
        obtain rfl : first = 0 := h0
        simp [htree, firstMlidOf]
      · simp [htree, h0]
  | cons g groups ih =>
    have hpos' : ∀ g' ∈ groups, g'.mLid ≠ 0 := fun g' h => hpos g' (.tail _ h)
    rw [List.foldl_cons, ih hpos']
    by_cases hmine : g.unrealizable = false ∧ env.treeOf g = some i
    · obtain ⟨hreal, hof⟩ := hmine
      have hof' : firstMlidOf env (g :: groups) i = g.mLid := by
        simp [firstMlidOf, hreal, hof]
      have hg : g.mLid ≠ 0 := hpos g (.head _)
      simp only [noteFirstMlid, hreal, hof, hof', Bool.false_eq_true, if_false,
        List.getElem?_modify, if_true]
      cases trees[i]? with
      | none => rfl
      | some t => by_cases h0 : t.firstMlid = 0 <;> simp [h0, hg]
    · have hof' : firstMlidOf env (g :: groups) i = firstMlidOf env groups i := by
        unfold firstMlidOf
        rw [List.find?_cons_of_neg (by simpa using hmine)]
      have hkeep : (noteFirstMlid env trees g)[i]? = trees[i]? := by
        unfold noteFirstMlid
        split
        · rfl
        · rename_i hreal
          split
          · rfl
          · rename_i j hj
            have hji : j ≠ i := by
              rintro rfl
              exact hmine ⟨by simpa using hreal, hj⟩
            simp [hji]
      rw [hkeep, hof']

theorem firstMlidOf_spec {env : MftEnv} {groups : List McGroup} {i : Nat}
    (h : firstMlidOf env groups i ≠ 0) :
    ∃ g ∈ groups, g.unrealizable = false ∧ env.treeOf g = some i ∧
      firstMlidOf env groups i = g.mLid := by
  unfold firstMlidOf at h ⊢
  split at h
  · exact absurd rfl h
  · rename_i g hfind
    have htest := List.find?_some hfind
    simp only [Bool.and_eq_true, Bool.not_eq_true', decide_eq_true_eq] at htest
    exact ⟨g, List.mem_of_find?_eq_some hfind, htest.1, htest.2, rfl⟩

theorem firstMlidOf_ne_zero {env : MftEnv} {groups : List McGroup} {i : Nat}
    (hpos : ∀ g ∈ groups, g.mLid ≠ 0) {g : McGroup} (hg : g ∈ groups)
    (hreal : g.unrealizable = false) (htree : env.treeOf g = some i) :
    firstMlidOf env groups i ≠ 0 := by
  unfold firstMlidOf
  split
  · rename_i hfind
    exact absurd (List.find?_eq_none.mp hfind g hg) (by simp [hreal, htree])
  · rename_i g' hfind
    exact hpos g' (List.mem_of_find?_eq_some hfind)

/-! ## Trees of the search -/

theorem treeWf_finalNodes (F : RootedFabric)
    (hports : ∀ n ∈ F.topop.nodes, ∀ i, (n.port i).index = i) (mtu rate : Nat) :
    TreeWf F.topop (finalNodes F mtu rate) := by
  have hends : ∀ m ∈ finalNodes F mtu rate, ∀ e, linkEnds F.topop m = some e →
      ∃ u n, firstParent F mtu rate m.index = some u ∧ e.parentNode = some n ∧ n.index = u ∧
        ∀ n' ∈ e.node, n'.index = m.index := by
    intro m hm e he
    cases hu : firstParent F mtu rate m.index with
    | none =>
      obtain ⟨n, -, hindex, hatt⟩ := mem_finalNodes hm
      have hnone : m.nodeno = none := by
        rw [hatt, attachFirst_nodeno rfl, Bool.eq_false_iff, ne_eq, hasLink_iff_firstParent,
          not_not]
        exact hindex ▸ hu
      simp [linkEnds, hnone] at he
    | some u =>
      obtain ⟨l, hl, hpeer, rfl, hnodeno, hportno, -⟩ := exists_firstLink hm hu
      obtain ⟨-, -, -, n, hn, p, hp, d, hnindex, hpindex, hto, -⟩ := mem_linksAlong hl
      have hfind : smFindNode F.topop (some l.nodeno) = some n :=
        (smFindNode_iff F.distinct).mpr ⟨hn, hnindex⟩
      have hport : smFindPort F.topop (some l.nodeno) (some l.portno) = some p := by
        obtain ⟨i, -, hle, rfl⟩ := mem_physicalPorts.mp hp
        rw [hports n hn] at hpindex
        simp [smFindPort, hfind, smGetPort, ← hpindex, hle]
      simp only [linkEnds, hnodeno, hportno, hport] at he
      split at he
      · obtain rfl := Option.some.inj he
        refine ⟨_, n, rfl, hfind, hnindex, fun n' hn' => ?_⟩
        rw [hto] at hn'
        exact ((smFindNode_iff F.distinct).mp hn').2.trans hpeer
      · cases he
  refine ⟨?_, ?_, ?_⟩
  · rw [finalNodes_index]
    exact switches_distinct F.distinct
  · intro m hm e he
    obtain ⟨-, -, -, -, -, hchild⟩ := hends m hm e he
    exact hchild
  · intro m hm e he n' hn'
    obtain ⟨u, n, hu, hparent, rfl, -⟩ := hends m hm e he
    obtain rfl := Option.some.inj (hparent.symm.trans hn')
    obtain ⟨k, -, ⟨i, hi, hk⟩, hindex⟩ := parentOf_firstParent hm hu
    exact ⟨i, k, hi, hk, hindex⟩

end OpaFm.Multicast
