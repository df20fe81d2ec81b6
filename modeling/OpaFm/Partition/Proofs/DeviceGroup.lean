import OpaFm.Lib.FirstMatch
import OpaFm.Partition.Proofs.DescriptionArrays
import OpaFm.Partition.Proofs.DgSearch

/-!
# Device groups as a closure

A port belongs to a group that its own criteria, or those of its node, satisfy,
and to every group that includes one it belongs to.  `smSetupNodeDGs` evaluates a
group that it has not come to yet by port criteria alone, follows includes
without a check for cycles, and lets a later port range narrow a description
that matched without one.  The main result says for which configurations the
outcome is still the closure, in whatever order the groups are defined.
-/

namespace OpaFm.Partition

open OpaFm.Fabric OpaFm.Lib

/-! ## The loop over the groups -/

section Loop

variable {own node : Nat → Bool} {included : Nat → List Nat} {C : Nat → Prop}

theorem setupDG_eq_some {eval : Nat → DgBits → Option (Bool × DgBits)} {s s' : DgBits} {i : Nat} :
    setupDG node eval s i = some s' ↔
      ∃ b t, eval i (if node i then (s.setMember i).setEvaluated i else s) = some (b, t) ∧
        t.settle i b = s' := by
  unfold setupDG
  simp only
  cases eval i (if node i then (s.setMember i).setEvaluated i else s) with
  | none => simp
  | some r =>
    obtain ⟨b, t⟩ := r
    cases b <;> simp [DgBits.settle]

theorem setupDG_mono {fuel fuel' i : Nat} {s s' : DgBits} (hle : fuel ≤ fuel')
    (h : setupDG node (evaluatePortDG own included fuel) s i = some s') :
    setupDG node (evaluatePortDG own included fuel') s i = some s' := by
  obtain ⟨b, t, hrun, heq⟩ := setupDG_eq_some.mp h
  exact setupDG_eq_some.mpr ⟨b, t, evaluatePortDG_mono hle hrun, heq⟩

theorem foldlM_setupDG_mono {fuel fuel' : Nat} (hle : fuel ≤ fuel') {l : List Nat}
    {s s' : DgBits} (h : l.foldlM (setupDG node (evaluatePortDG own included fuel)) s = some s') :
    l.foldlM (setupDG node (evaluatePortDG own included fuel')) s = some s' := by
  induction l generalizing s with
  | nil => exact h
  | cons i l ih =>
    rw [List.foldlM_cons, Option.bind_eq_bind, Option.bind_eq_some_iff] at h ⊢
    obtain ⟨t, ht, hrest⟩ := h
    exact ⟨t, setupDG_mono hle ht, ih hrest⟩

theorem foldlM_setupDG_settled {fuel j : Nat} {l : List Nat} (hj : j ∉ l) {s s' : DgBits}
    (hev : j ∈ s.dgsEvaluated)
    (h : l.foldlM (setupDG node (evaluatePortDG own included fuel)) s = some s') :
    j ∈ s'.dgMember ↔ j ∈ s.dgMember := by
  induction l generalizing s with
  | nil =>
    cases h
    rfl
  | cons i l ih =>
    rw [List.mem_cons, not_or] at hj
    rw [List.foldlM_cons, Option.bind_eq_bind, Option.bind_eq_some_iff] at h
    obtain ⟨t, ht, hrest⟩ := h
    obtain ⟨b, t', hrun, rfl⟩ := setupDG_eq_some.mp ht
    have hle := evaluatePortDG_le hrun
    have hstart : (j ∈ (if node i then (s.setMember i).setEvaluated i else s).dgMember ↔
        j ∈ s.dgMember) ∧
        j ∈ (if node i then (s.setMember i).setEvaluated i else s).dgsEvaluated := by
      split
      · exact ⟨Finset.mem_insert.trans (or_iff_right hj.1), Finset.mem_insert_of_mem hev⟩
      · exact ⟨Iff.rfl, hev⟩
    have hcall : (j ∈ (t'.settle i b).dgMember ↔ j ∈ t'.dgMember) ∧
        (t'.settle i b).dgsEvaluated = t'.dgsEvaluated := by
      cases b with
      | true => exact ⟨Finset.mem_insert.trans (or_iff_right hj.1), rfl⟩
      | false => exact ⟨Iff.rfl, rfl⟩
    have hmem : j ∈ t'.dgMember ↔ j ∈ s.dgMember := by
      rw [← hstart.1]
      exact ⟨hle.settled j hstart.2, fun hin => hle.member hin⟩
    rw [ih hj.2 (hcall.2 ▸ hle.evaluated hstart.2) hrest, hcall.1, hmem]

/-- The loop over the groups ends with the bits of `C`, if every group that the
node does not select has a search that ends and misses nothing of `C`. -/
theorem foldlM_setupDG_closure (hown : ∀ i, own i = true → C i)
    (hinc : ∀ i, ∀ j ∈ included i, C j → C i) (hnode : ∀ i, node i = true → C i)
    {l : List Nat}
    (hsearch : ∀ i ∈ l, node i = false → ∃ b, Scan own included [i] b ∧ (C i → b = true))
    {s : DgBits} (hs : Between own included C s) :
    ∃ fuel s', l.foldlM (setupDG node (evaluatePortDG own included fuel)) s = some s' ∧
      Between own included C s' ∧ s.dgMember ⊆ s'.dgMember ∧
      ∀ i ∈ l, C i → i ∈ s'.dgMember := by
  induction l generalizing s with
  | nil => exact ⟨0, s, rfl, hs, Finset.Subset.refl _, fun i hi => by cases hi⟩
  | cons i l ih =>
    have hstep : ∃ fuel t, setupDG node (evaluatePortDG own included fuel) s i = some t ∧
        Between own included C t ∧ s.dgMember ⊆ t.dgMember ∧ (C i → i ∈ t.dgMember) := by
      cases hsel : node i with
      | true =>
        have hCi := hnode i hsel
        refine ⟨1, (((s.setMember i).setEvaluated i).setEvaluated i).setMember i, ?_, ?_,
          ?_, fun _ => Finset.mem_insert_self _ _⟩
        · refine setupDG_eq_some.mpr ⟨true, ((s.setMember i).setEvaluated i).setEvaluated i,
            ?_, rfl⟩
          simp [evaluatePortDG, hsel, DgBits.setEvaluated, DgBits.setMember]
        · exact ((hs.setMember_setEvaluated hCi).setEvaluated
            fun _ => Finset.mem_insert_self _ _).setMember hCi
        · exact (Finset.subset_insert _ _).trans (Finset.subset_insert _ _)
      | false =>
        obtain ⟨b, hscan, hC⟩ := hsearch i List.mem_cons_self hsel
        obtain ⟨fuel, b', t, hrun, hend⟩ := evaluatePortDG_of_scan hown hinc hscan hs
        refine ⟨fuel, t.settle i b', setupDG_eq_some.mpr ⟨b', t, by simpa [hsel] using hrun, rfl⟩,
          hend.between, ?_, fun hCi => ?_⟩
        · have hle := (evaluatePortDG_le hrun).member
          cases b' with
          | true => exact hle.trans (Finset.subset_insert _ _)
          | false => exact hle
        · obtain rfl := hend.found (hC hCi)
          exact Finset.mem_insert_self _ _
    obtain ⟨fuel₁, t, hrun, ht, hsub, hCi⟩ := hstep
    obtain ⟨fuel₂, s', hrest, hs', hsub', hC'⟩ :=
      ih (fun j hj => hsearch j (List.mem_cons_of_mem _ hj)) ht
    refine ⟨max fuel₁ fuel₂, s', ?_, hs', hsub.trans hsub', fun j hj hC => ?_⟩
    · rw [List.foldlM_cons, Option.bind_eq_bind, Option.bind_eq_some_iff]
      exact ⟨t, setupDG_mono (Nat.le_max_left _ _) hrun,
        foldlM_setupDG_mono (Nat.le_max_right _ _) hrest⟩
    · rcases List.mem_cons.mp hj with rfl | hj
      · exact hsub' (hCi hC)
      · exact hC' j hj hC

/-- The first group of all is evaluated with nothing known, so that its bit is
the answer of a search by port criteria alone. -/
theorem foldlM_setupDG_first {fuel i : Nat} {l : List Nat} (hi : i ∉ l) (hsel : node i = false)
    {s' : DgBits}
    (h : (i :: l).foldlM (setupDG node (evaluatePortDG own included fuel)) {} = some s') :
    ∃ b, Scan own included [i] b ∧ (i ∈ s'.dgMember ↔ b = true) := by
  rw [List.foldlM_cons, Option.bind_eq_bind, Option.bind_eq_some_iff] at h
  obtain ⟨t, ht, hrest⟩ := h
  obtain ⟨b, t', hrun, rfl⟩ := setupDG_eq_some.mp ht
  rw [if_neg (by simp [hsel])] at hrun
  have hstart : PortOnly own included {} :=
    ⟨fun j hj => absurd hj (Finset.notMem_empty j), fun j hj => absurd hj (Finset.notMem_empty j)⟩
  obtain ⟨hscan, hport⟩ := evaluatePortDG_scan hstart hrun
  have hev : i ∈ (t'.settle i b).dgsEvaluated := by
    have hin := evaluatePortDG_evaluated hrun
    cases b <;> exact hin
  refine ⟨b, hscan, ?_⟩
  rw [foldlM_setupDG_settled hi hev hrest]
  constructor
  · intro hmem
    exact hscan.functional (hport.member i hmem)
  · rintro rfl
    exact Finset.mem_insert_self _ _

end Loop

/-! ## Groups of a configuration -/

def includedGroups (cfg : DGXmlConfig) (g : DGConfig) : List DGConfig :=
  g.includedGroup.filterMap fun name => cfg.dg.find? fun h => h.name = name

def DescUnion (nodeDesc : String) (l : List RegExp) (portIndex : Nat) : Prop :=
  ∃ e ∈ l, e.isMatch nodeDesc = some true ∧ ∀ r ∈ e.portRange, inRange portIndex r = true

def NodeOwn (n : Node) (portIndex : Nat) (g : DGConfig) : Prop :=
  nodeCriteria n g = true ∨ DescUnion n.nodeDesc g.regExpr portIndex

inductive DgMember (env : DgEnv) (cfg : DGXmlConfig) (n : Node) (vp : ValidPort) :
    DGConfig → Prop
  | node {g : DGConfig} (h : NodeOwn n vp.port.index g) : DgMember env cfg n vp g
  | port {g : DGConfig} (h : portCriteria env n vp g = true) : DgMember env cfg n vp g
  | included {g h : DGConfig} (hdef : h ∈ cfg.dg) (hname : h.name ∈ g.includedGroup)
      (hmem : DgMember env cfg n vp h) : DgMember env cfg n vp g

theorem mem_includedGroups {cfg : DGXmlConfig} {g h : DGConfig} :
    h ∈ includedGroups cfg g ↔ h ∈ cfg.dg ∧ h.name ∈ g.includedGroup := by
  simp only [includedGroups, List.mem_filterMap, find?_key_iff cfg.distinct]
  constructor
  · rintro ⟨name, hname, hmem, rfl⟩
    exact ⟨hmem, hname⟩
  · rintro ⟨hmem, hname⟩
    exact ⟨h.name, hname, hmem, rfl⟩

theorem includedGroups_perm {cfg cfg' : DGXmlConfig} (hperm : cfg'.dg.Perm cfg.dg) :
    includedGroups cfg' = includedGroups cfg := by
  funext g
  unfold includedGroups
  congr 1
  funext name
  apply Option.ext
  intro h
  rw [find?_key_iff cfg'.distinct, find?_key_iff cfg.distinct, hperm.mem_iff]

theorem DgMember.of_perm {env : DgEnv} {cfg cfg' : DGXmlConfig} (hperm : cfg'.dg.Perm cfg.dg)
    {n : Node} {vp : ValidPort} {g : DGConfig} (h : DgMember env cfg' n vp g) :
    DgMember env cfg n vp g := by
  induction h with
  | node h => exact .node h
  | port h => exact .port h
  | included hdef hname _ ih => exact .included (hperm.mem_iff.mp hdef) hname ih

theorem DgMember.exists_own {env : DgEnv} {cfg : DGXmlConfig} {n : Node} {vp : ValidPort}
    {g : DGConfig} (h : DgMember env cfg n vp g) :
    ∃ h, Relation.ReflTransGen (fun x y => y ∈ includedGroups cfg x) g h ∧
      (NodeOwn n vp.port.index h ∨ portCriteria env n vp h = true) := by
  induction h with
  | @node g h => exact ⟨g, .refl, .inl h⟩
  | @port g h => exact ⟨g, .refl, .inr h⟩
  | included hdef hname _ ih =>
    obtain ⟨k, hk, hown⟩ := ih
    exact ⟨k, .head (mem_includedGroups.mpr ⟨hdef, hname⟩) hk, hown⟩

theorem dgMember_of_reaches {env : DgEnv} {cfg : DGXmlConfig} {n : Node} {vp : ValidPort}
    {g h : DGConfig} (hreach : Relation.ReflTransGen (fun x y => y ∈ includedGroups cfg x) g h)
    (hh : DgMember env cfg n vp h) : DgMember env cfg n vp g := by
  induction hreach using Relation.ReflTransGen.head_induction_on with
  | refl => exact hh
  | head hstep _ ih =>
    obtain ⟨hdef, hname⟩ := mem_includedGroups.mp hstep
    exact .included hdef hname ih

/-! ## Node criteria -/

structure DescSound (all : List RegExp) (nodeDesc : String) (r : NodeDg) : Prop where
  whole : r.isDgMember = true → r.portRanges = [] →
    ∃ e ∈ all, e.isMatch nodeDesc = some true ∧ e.portRange = none
  ranges : ∀ range ∈ r.portRanges,
    ∃ e ∈ all, e.isMatch nodeDesc = some true ∧ e.portRange = some range

theorem DescSound.step {all : List RegExp} {nodeDesc : String} {r : NodeDg}
    (h : DescSound all nodeDesc r) {e : RegExp} (he : e ∈ all) :
    DescSound all nodeDesc (describe nodeDesc r e) := by
  by_cases hmatch : e.isMatch nodeDesc = some true
  · cases hrange : e.portRange with
    | none =>
      rw [describe_whole hmatch hrange]
      exact ⟨fun _ _ => ⟨e, he, hmatch, hrange⟩, fun q hq => by cases hq⟩
    | some range =>
      rw [describe_range hmatch hrange]
      refine ⟨fun _ hnil => absurd hnil (by simp), fun q hq => ?_⟩
      rcases List.mem_append.mp hq with hq | hq
      · exact h.ranges q hq
      · obtain rfl := List.mem_singleton.mp hq
        exact ⟨e, he, hmatch, hrange⟩
  · rw [describe_other hmatch]
    exact h

theorem DescSound.foldl {all l : List RegExp} (hl : l ⊆ all) {nodeDesc : String} {r : NodeDg}
    (h : DescSound all nodeDesc r) : DescSound all nodeDesc (l.foldl (describe nodeDesc) r) := by
  induction l generalizing r with
  | nil => exact h
  | cons e l ih =>
    rw [List.cons_subset] at hl
    exact ih hl.2 (h.step hl.1)

theorem descSound_foldl (l : List RegExp) (nodeDesc : String) :
    DescSound l nodeDesc (l.foldl (describe nodeDesc) {}) := by
  apply DescSound.foldl (List.Subset.refl l)
  exact ⟨fun hfalse => Bool.noConfusion hfalse, fun q hq => absurd hq List.not_mem_nil⟩

theorem descUnion_of_selects {l : List RegExp} {nodeDesc : String} {portIndex : Nat}
    (h : (l.foldl (describe nodeDesc) {}).selects portIndex = true) :
    DescUnion nodeDesc l portIndex := by
  have hsound := descSound_foldl l nodeDesc
  unfold NodeDg.selects at h
  rw [Bool.and_eq_true, Bool.or_eq_true, List.isEmpty_iff, List.any_eq_true] at h
  obtain ⟨hmem, hempty | ⟨range, hin, hrange⟩⟩ := h
  · obtain ⟨e, he, hmatch, hnone⟩ := hsound.whole hmem hempty
    exact ⟨e, he, hmatch, by simp [hnone]⟩
  · obtain ⟨e, he, hmatch, hsome⟩ := hsound.ranges range hin
    exact ⟨e, he, hmatch, by simpa [hsome] using hrange⟩

def nodeSelects (n : Node) (portIndex : Nat) (dg : DGConfig) : Bool :=
  (smEvaluateNodeDG n dg).any fun r => r.selects portIndex

theorem nodeOwn_of_nodeSelects {n : Node} {portIndex : Nat} {g : DGConfig}
    (h : nodeSelects n portIndex g = true) : NodeOwn n portIndex g := by
  cases hcrit : nodeCriteria n g with
  | true => exact .inl hcrit
  | false =>
    unfold nodeSelects at h
    cases hr : smEvaluateNodeDG n g with
    | none =>
      rw [hr] at h
      cases h
    | some r =>
      rw [hr, Option.any_some] at h
      obtain ⟨_, rfl⟩ := (smEvaluateNodeDG_descriptions hcrit).mp hr
      exact .inr (descUnion_of_selects h)

/-! ## Indices and groups -/

theorem forall₂_included (cfg : DGXmlConfig) {i : Nat} {g : DGConfig} (hg : cfg.dg[i]? = some g) :
    List.Forall₂ (fun j h => cfg.dg[j]? = some h) (includedDgs cfg i) (includedGroups cfg g) := by
  simp only [includedDgs, hg, includedGroups]
  induction g.includedGroup with
  | nil => exact .nil
  | cons name names ih =>
    have hfind : cfg.dg.find? (fun h => h.name = name) =
        (smGetDgIdx cfg name).bind (cfg.dg[·]?) := List.find?_eq_bind_findIdx?_getElem?
    rw [List.filterMap_cons, List.filterMap_cons, hfind]
    cases hidx : smGetDgIdx cfg name with
    | none => exact ih
    | some j =>
      obtain ⟨hj, -, -⟩ := List.findIdx?_eq_some_iff_getElem.mp hidx
      simp only [Option.bind_some, List.getElem?_eq_getElem hj]
      exact .cons (List.getElem?_eq_getElem hj) ih

theorem dgHolds_eq {cfg : DGXmlConfig} {test : DGConfig → Bool} {i : Nat} {g : DGConfig}
    (hg : cfg.dg[i]? = some g) : dgHolds cfg test i = test g := by
  simp [dgHolds, hg]

theorem dgHolds_iff {cfg : DGXmlConfig} {test : DGConfig → Bool} {i : Nat} :
    dgHolds cfg test i = true ↔ ∃ g, cfg.dg[i]? = some g ∧ test g = true := by
  simp only [dgHolds, Option.any_eq_true_iff_get, Option.isSome_iff_exists]
  constructor
  · rintro ⟨⟨g, hg⟩, htest⟩
    exact ⟨g, hg, by simpa [hg] using htest⟩
  · rintro ⟨g, hg, htest⟩
    exact ⟨⟨g, hg⟩, by simpa [hg] using htest⟩

theorem scan_index_iff (cfg : DGXmlConfig) (test : DGConfig → Bool) {i : Nat} {g : DGConfig}
    (hg : cfg.dg[i]? = some g) {b : Bool} :
    Scan (dgHolds cfg test) (includedDgs cfg) [i] b ↔ Scan test (includedGroups cfg) [g] b := by
  constructor
  · refine Scan.transport (R := fun j h => cfg.dg[j]? = some h) ?_ ?_ (.cons hg .nil)
    · exact fun j h hj => (dgHolds_eq hj).symm
    · exact fun j h hj => forall₂_included cfg hj
  · refine Scan.transport (R := fun h j => cfg.dg[j]? = some h) ?_ ?_ (.cons hg .nil)
    · exact fun h j hj => dgHolds_eq hj
    · exact fun h j hj => (forall₂_included cfg hj).flip

theorem mapM_eq_some_iff {α β : Type} {f : α → Option β} {l : List α} {r : List β} :
    l.mapM f = some r ↔ List.Forall₂ (fun a b => f a = some b) l r := by
  induction l generalizing r with
  | nil =>
    constructor
    · intro h
      cases h
      exact .nil
    · intro h
      cases h
      rfl
  | cons a l ih =>
    simp only [List.mapM_cons, Option.bind_eq_bind, Option.bind_eq_some_iff, Option.pure_def,
      Option.some.injEq]
    constructor
    · rintro ⟨b, hb, r', hr', rfl⟩
      exact .cons hb (ih.mp hr')
    · intro h
      cases h with
      | cons hb hrest => exact ⟨_, hb, _, ih.mpr hrest, rfl⟩

theorem exists_mapM_iff {α β : Type} {f : α → Option β} {l : List α} :
    (∃ r, l.mapM f = some r) ↔ ∀ a ∈ l, ∃ b, f a = some b := by
  induction l with
  | nil => simp
  | cons a l ih =>
    simp only [List.mapM_cons, Option.bind_eq_bind, Option.bind_eq_some_iff, Option.pure_def,
      Option.some.injEq, List.forall_mem_cons]
    rw [← ih]
    constructor
    · rintro ⟨_, b, hb, r, hr, _⟩
      exact ⟨⟨b, hb⟩, r, hr⟩
    · rintro ⟨⟨b, hb⟩, r, hr⟩
      exact ⟨b :: r, b, hb, r, hr, rfl⟩

theorem getElem?_of_forall₂ {α β : Type} {R : α → β → Prop} {as : List α} {bs : List β}
    (h : List.Forall₂ R as bs) (i : Nat) : Option.Rel R as[i]? bs[i]? := by
  induction h generalizing i with
  | nil => exact .none
  | cons hab _ ih =>
    cases i with
    | zero => exact .some hab
    | succ i => exact ih i

theorem savedSelects_eq {cfg : DGXmlConfig} {n : Node} {saved : List NodeDg}
    (h : cfg.dg.mapM (smEvaluateNodeDG n) = some saved) (portIndex : Nat) :
    (fun dgIdx => saved[dgIdx]?.any fun r => r.selects portIndex) =
      dgHolds cfg (nodeSelects n portIndex) := by
  funext i
  have hrel := getElem?_of_forall₂ (mapM_eq_some_iff.mp h) i
  unfold dgHolds
  generalize cfg.dg[i]? = dg, saved[i]? = r at hrel ⊢
  cases hrel with
  | none => rfl
  | some hr => rw [Option.any_some, Option.any_some, nodeSelects, hr, Option.any_some]

/-! ## One port -/

def PortExact (env : DgEnv) (cfg : DGXmlConfig) (n : Node) (vp : ValidPort)
    (dgMember : Finset Nat) : Prop :=
  ∀ i g, cfg.dg[i]? = some g → (i ∈ dgMember ↔ DgMember env cfg n vp g)

/-- Every group that the node pass does not select has a search by port criteria,
through its included groups in their order, that ends; and one that finds nothing
passes no group of which the node satisfies the node criteria. -/
def DgSearchable (env : DgEnv) (cfg : DGXmlConfig) (n : Node) (vp : ValidPort) : Prop :=
  ∀ g ∈ cfg.dg, nodeSelects n vp.port.index g = false →
    ∃ b, Scan (portCriteria env n vp) (includedGroups cfg) [g] b ∧
      (b = false → ∀ h, Relation.ReflTransGen (fun x y => y ∈ includedGroups cfg x) g h →
        ¬NodeOwn n vp.port.index h)

theorem DgSearchable.of_perm {env : DgEnv} {cfg cfg' : DGXmlConfig} {n : Node} {vp : ValidPort}
    (hperm : cfg'.dg.Perm cfg.dg) (h : DgSearchable env cfg n vp) :
    DgSearchable env cfg' n vp := by
  intro g hg hsel
  rw [includedGroups_perm hperm]
  exact h g (hperm.mem_iff.mp hg) hsel

def IndexMember (env : DgEnv) (cfg : DGXmlConfig) (n : Node) (vp : ValidPort) (i : Nat) : Prop :=
  ∃ g, cfg.dg[i]? = some g ∧ DgMember env cfg n vp g

theorem indexMember_iff {env : DgEnv} {cfg : DGXmlConfig} {n : Node} {vp : ValidPort} {i : Nat}
    {g : DGConfig} (hg : cfg.dg[i]? = some g) :
    IndexMember env cfg n vp i ↔ DgMember env cfg n vp g := by
  simp [IndexMember, hg]

theorem IndexMember.of_included {env : DgEnv} {cfg : DGXmlConfig} {n : Node} {vp : ValidPort}
    {i j : Nat} (hj : j ∈ includedDgs cfg i) (h : IndexMember env cfg n vp j) :
    IndexMember env cfg n vp i := by
  obtain ⟨k, hk, hmem⟩ := h
  cases hg : cfg.dg[i]? with
  | none => simp [includedDgs, hg] at hj
  | some g =>
    simp only [includedDgs, hg, List.mem_filterMap] at hj
    obtain ⟨name, hname, hidx⟩ := hj
    obtain ⟨hlt, htest, -⟩ := List.findIdx?_eq_some_iff_getElem.mp hidx
    have hkname : k.name = name := by
      rw [List.getElem?_eq_getElem hlt] at hk
      rw [← Option.some.inj hk]
      simpa using htest
    exact ⟨g, hg, .included (List.mem_of_getElem? hk) (hkname ▸ hname) hmem⟩

theorem DgSearchable.exists_scan {env : DgEnv} {cfg : DGXmlConfig} {n : Node} {vp : ValidPort}
    (h : DgSearchable env cfg n vp) {g : DGConfig} (hg : g ∈ cfg.dg)
    (hsel : nodeSelects n vp.port.index g = false) :
    ∃ b, Scan (portCriteria env n vp) (includedGroups cfg) [g] b ∧
      (DgMember env cfg n vp g → b = true) := by
  obtain ⟨b, hscan, hnone⟩ := h g hg hsel
  refine ⟨b, hscan, fun hmem => ?_⟩
  obtain ⟨k, hreach, hown⟩ := hmem.exists_own
  cases b with
  | true => rfl
  | false =>
    have hport := hscan.own_eq_false rfl g (List.mem_singleton.mpr rfl) k hreach
    rcases hown with hown | hown
    · exact absurd hown (hnone rfl k hreach)
    · rw [hport] at hown
      cases hown

theorem smSetupPortDGs_eq {env : DgEnv} {cfg : DGXmlConfig} {n : Node} {saved : List NodeDg}
    (hsaved : cfg.dg.mapM (smEvaluateNodeDG n) = some saved) (fuel : Nat) (vp : ValidPort) :
    smSetupPortDGs env cfg n saved fuel vp =
      ((List.range cfg.dg.length).foldlM
        (setupDG (dgHolds cfg (nodeSelects n vp.port.index))
          (evaluatePortDG (dgHolds cfg (portCriteria env n vp)) (includedDgs cfg) fuel))
        {}).map DgBits.dgMember := by
  unfold smSetupPortDGs smEvaluatePortDG
  rw [savedSelects_eq hsaved]

theorem smSetupPortDGs_of_searchable {env : DgEnv} {cfg : DGXmlConfig} {n : Node}
    {vp : ValidPort} {saved : List NodeDg}
    (hsaved : cfg.dg.mapM (smEvaluateNodeDG n) = some saved) (h : DgSearchable env cfg n vp) :
    ∃ fuel dgMember, smSetupPortDGs env cfg n saved fuel vp = some dgMember ∧
      PortExact env cfg n vp dgMember := by
  have hown : ∀ i, dgHolds cfg (portCriteria env n vp) i = true → IndexMember env cfg n vp i := by
    intro i hi
    obtain ⟨g, hg, hcrit⟩ := dgHolds_iff.mp hi
    exact ⟨g, hg, .port hcrit⟩
  have hnode : ∀ i, dgHolds cfg (nodeSelects n vp.port.index) i = true →
      IndexMember env cfg n vp i := by
    intro i hi
    obtain ⟨g, hg, hsel⟩ := dgHolds_iff.mp hi
    exact ⟨g, hg, .node (nodeOwn_of_nodeSelects hsel)⟩
  have hsearch : ∀ i ∈ List.range cfg.dg.length,
      dgHolds cfg (nodeSelects n vp.port.index) i = false →
      ∃ b, Scan (dgHolds cfg (portCriteria env n vp)) (includedDgs cfg) [i] b ∧
        (IndexMember env cfg n vp i → b = true) := by
    intro i hi hsel
    have hg := List.getElem?_eq_getElem (List.mem_range.mp hi)
    rw [dgHolds_eq hg] at hsel
    obtain ⟨b, hscan, hmem⟩ := h.exists_scan (List.mem_of_getElem? hg) hsel
    exact ⟨b, (scan_index_iff cfg _ hg).mpr hscan, fun hC => hmem ((indexMember_iff hg).mp hC)⟩
  have hstart : Between (dgHolds cfg (portCriteria env n vp)) (includedDgs cfg)
      (IndexMember env cfg n vp) {} :=
    ⟨fun i hi => absurd hi (Finset.notMem_empty i), fun i hi => absurd hi (Finset.notMem_empty i)⟩
  obtain ⟨fuel, s, hrun, hbetween, -, hall⟩ := foldlM_setupDG_closure hown
    (fun i j hj => IndexMember.of_included hj) hnode hsearch hstart
  refine ⟨fuel, s.dgMember, ?_, fun i g hg => ⟨fun hi => ?_, fun hC => ?_⟩⟩
  · rw [smSetupPortDGs_eq hsaved, hrun]
    rfl
  · exact (indexMember_iff hg).mp (hbetween.member i hi)
  · obtain ⟨hlt, -⟩ := List.getElem?_eq_some_iff.mp hg
    exact hall i (List.mem_range.mpr hlt) ((indexMember_iff hg).mpr hC)

theorem smSetupPortDGs_mono {env : DgEnv} {cfg : DGXmlConfig} {n : Node} {vp : ValidPort}
    {saved : List NodeDg} {fuel fuel' : Nat} (hle : fuel ≤ fuel') {dgMember : Finset Nat}
    (h : smSetupPortDGs env cfg n saved fuel vp = some dgMember) :
    smSetupPortDGs env cfg n saved fuel' vp = some dgMember := by
  obtain ⟨s, hrun, rfl⟩ := Option.map_eq_some_iff.mp h
  exact Option.map_eq_some_iff.mpr ⟨s, foldlM_setupDG_mono hle hrun, rfl⟩

theorem scan_of_setup_first {env : DgEnv} {cfg : DGXmlConfig} {n : Node} {vp : ValidPort}
    {g : DGConfig} {rest : List DGConfig} (hcfg : cfg.dg = g :: rest)
    (hsel : nodeSelects n vp.port.index g = false) {saved : List NodeDg}
    (hsaved : cfg.dg.mapM (smEvaluateNodeDG n) = some saved) {fuel : Nat}
    {dgMember : Finset Nat} (hrun : smSetupPortDGs env cfg n saved fuel vp = some dgMember)
    (hexact : PortExact env cfg n vp dgMember) :
    ∃ b, Scan (portCriteria env n vp) (includedGroups cfg) [g] b ∧
      (b = true ↔ DgMember env cfg n vp g) := by
  have hg : cfg.dg[0]? = some g := by rw [hcfg]; rfl
  have hrange : List.range cfg.dg.length = 0 :: List.range' 1 rest.length := by
    rw [hcfg, List.length_cons, List.range_eq_range', List.range'_succ]
  have hsel' : dgHolds cfg (nodeSelects n vp.port.index) 0 = false := by
    rw [dgHolds_eq hg, hsel]
  rw [smSetupPortDGs_eq hsaved] at hrun
  obtain ⟨s, hfold, rfl⟩ := Option.map_eq_some_iff.mp hrun
  rw [hrange] at hfold
  obtain ⟨b, hscan, hbit⟩ := foldlM_setupDG_first (by simp) hsel' hfold
  exact ⟨b, (scan_index_iff cfg _ hg).mp hscan, by rw [← hbit, hexact 0 g hg]⟩

/-! ## All ports -/

/-- `smSetupNodeDGs` ends, and gives every live port the closure. -/
def SetupExact (env : DgEnv) (cfg : DGXmlConfig) (n : Node) : Prop :=
  ∃ fuel members, smSetupNodeDGs env cfg fuel n = some members ∧
    List.Forall₂ (PortExact env cfg n) (livePorts n) members

theorem setupExact_iff {env : DgEnv} {cfg : DGXmlConfig} {n : Node} :
    SetupExact env cfg n ↔ ∃ saved, cfg.dg.mapM (smEvaluateNodeDG n) = some saved ∧
      ∀ vp ∈ livePorts n, ∃ fuel dgMember,
        smSetupPortDGs env cfg n saved fuel vp = some dgMember ∧
          PortExact env cfg n vp dgMember := by
  unfold SetupExact smSetupNodeDGs
  simp only [Option.bind_eq_bind, Option.bind_eq_some_iff, mapM_eq_some_iff]
  have hports : ∀ saved, (∃ fuel members,
      List.Forall₂ (fun vp m => smSetupPortDGs env cfg n saved fuel vp = some m) (livePorts n)
        members ∧ List.Forall₂ (PortExact env cfg n) (livePorts n) members) ↔
      ∀ vp ∈ livePorts n, ∃ fuel dgMember,
        smSetupPortDGs env cfg n saved fuel vp = some dgMember ∧
          PortExact env cfg n vp dgMember := by
    intro saved
    induction livePorts n with
    | nil =>
      constructor
      · intro _ vp hvp
        cases hvp
      · intro _
        exact ⟨0, [], .nil, .nil⟩
    | cons vp vps ih =>
      constructor
      · rintro ⟨fuel, members, hrun, hexact⟩ vp' hvp'
        cases hrun with
        | cons hr hrest =>
          cases hexact with
          | cons he hexact =>
            rcases List.mem_cons.mp hvp' with rfl | hvp'
            · exact ⟨fuel, _, hr, he⟩
            · exact ih.mp ⟨fuel, _, hrest, hexact⟩ vp' hvp'
      · intro h
        obtain ⟨fuel₁, m, hr, he⟩ := h vp List.mem_cons_self
        obtain ⟨fuel₂, members, hrest, hexact⟩ :=
          ih.mpr fun vp' hvp' => h vp' (List.mem_cons_of_mem _ hvp')
        refine ⟨max fuel₁ fuel₂, m :: members, .cons ?_ ?_, .cons he hexact⟩
        · exact smSetupPortDGs_mono (Nat.le_max_left _ _) hr
        · exact hrest.imp fun _ _ => smSetupPortDGs_mono (Nat.le_max_right _ _)
  constructor
  · rintro ⟨fuel, members, ⟨saved, hsaved, hrun⟩, hexact⟩
    exact ⟨saved, hsaved, (hports saved).mp ⟨fuel, members, hrun, hexact⟩⟩
  · rintro ⟨saved, hsaved, h⟩
    obtain ⟨fuel, members, hrun, hexact⟩ := (hports saved).mpr h
    exact ⟨fuel, members, ⟨saved, hsaved, hrun⟩, hexact⟩

theorem exists_moved_front (cfg : DGXmlConfig) {g : DGConfig} (hg : g ∈ cfg.dg) :
    ∃ (cfg' : DGXmlConfig) (rest : List DGConfig), cfg'.dg = g :: rest ∧ cfg'.dg.Perm cfg.dg := by
  obtain ⟨l₁, l₂, hl⟩ := List.append_of_mem hg
  have hperm : (g :: (l₁ ++ l₂)).Perm cfg.dg := by
    rw [hl]
    exact List.perm_middle.symm
  exact ⟨⟨g :: (l₁ ++ l₂), (hperm.map _).nodup_iff.mpr cfg.distinct⟩, l₁ ++ l₂, rfl, hperm⟩

theorem exists_saved_iff {cfg : DGXmlConfig} {n : Node} :
    (∃ saved, cfg.dg.mapM (smEvaluateNodeDG n) = some saved) ↔ ∀ g ∈ cfg.dg, CriteriaFit n g := by
  rw [exists_mapM_iff]
  simp only [exists_smEvaluateNodeDG_iff]

/-- In every order of the groups the setup ends with the closure, if and only if the
descriptions of every group fit the arrays and every live port meets `DgSearchable`. -/
theorem smSetupNodeDGs_closure_iff (env : DgEnv) (cfg : DGXmlConfig) (n : Node) :
    (∀ cfg' : DGXmlConfig, cfg'.dg.Perm cfg.dg → SetupExact env cfg' n) ↔
      (∀ g ∈ cfg.dg, CriteriaFit n g) ∧ ∀ vp ∈ livePorts n, DgSearchable env cfg n vp := by
  constructor
  · intro h
    constructor
    · obtain ⟨saved, hsaved, _⟩ := setupExact_iff.mp (h cfg (List.Perm.refl _))
      exact exists_saved_iff.mp ⟨saved, hsaved⟩
    · intro vp hvp g hg hsel
      obtain ⟨cfg', rest, hcfg, hperm⟩ := exists_moved_front cfg hg
      obtain ⟨saved, hsaved, hexact⟩ := setupExact_iff.mp (h cfg' hperm)
      obtain ⟨fuel, m, hrun, hexact⟩ := hexact vp hvp
      obtain ⟨b, hscan, hb⟩ := scan_of_setup_first hcfg hsel hsaved hrun hexact
      rw [includedGroups_perm hperm] at hscan
      refine ⟨b, hscan, ?_⟩
      rintro rfl k hreach hown
      have hmem : DgMember env cfg n vp g := dgMember_of_reaches hreach (.node hown)
      exact absurd (hb.mpr (hmem.of_perm hperm.symm)) (by decide)
  · rintro ⟨hfit, h⟩ cfg' hperm
    obtain ⟨saved, hsaved⟩ :=
      exists_saved_iff.mpr fun g hg => hfit g (hperm.mem_iff.mp hg)
    apply setupExact_iff.mpr
    refine ⟨saved, hsaved, ?_⟩
    intro vp hvp
    exact smSetupPortDGs_of_searchable hsaved ((h vp hvp).of_perm hperm)

/-! A group whose description list matches the node once without a port range and
once for port 2 only.  Port 1 of the node is left out. -/

def anyNode (portRange : Option (Nat × Nat)) : RegExp :=
  { regexec := fun _ => some fun _ => none, portRange := portRange }

def mixedRanges : DGXmlConfig where
  dg := [{ name := "Hosts", regExpr := [anyNode none, anyNode (some (2, 2))] }]
  distinct := by decide

def liveHost : Node :=
  { index := 1
    nodeType := .ca
    numPorts := 1
    port := fun i => { index := i, state := .active, portData := some {} } }

theorem smSetupNodeDGs_mixed_ranges :
    ¬∀ cfg' : DGXmlConfig, cfg'.dg.Perm mixedRanges.dg → SetupExact {} cfg' liveHost := by
  intro h
  have hlive : livePorts liveHost = [⟨liveHost.port 1, {}, rfl⟩] := rfl
  obtain ⟨saved, hsaved, hports⟩ := setupExact_iff.mp (h mixedRanges (List.Perm.refl _))
  obtain rfl : saved = [⟨true, [(2, 2)]⟩] := (Option.some.inj hsaved).symm
  obtain ⟨fuel, m, hrun, hexact⟩ :=
    hports ⟨liveHost.port 1, {}, rfl⟩ (by rw [hlive]; exact List.mem_singleton.mpr rfl)
  cases fuel with
  | zero => cases hrun
  | succ fuel =>
    have hempty : m = ∅ := (Option.some.inj hrun).symm
    have hmem : 0 ∈ m := (hexact 0 _ rfl).mpr
      (.node (.inr ⟨anyNode none, List.mem_cons_self, rfl, by simp [anyNode]⟩))
    rw [hempty] at hmem
    cases hmem

end OpaFm.Partition
