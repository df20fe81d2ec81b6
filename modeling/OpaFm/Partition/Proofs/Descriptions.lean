import OpaFm.Partition.Proofs.DeviceGroup

/-!
# Port ranges of node descriptions

A description that matches without a port range selects all ports, and the loop of
`smEvaluateNodeDG` drops the ranges found before it.  The loop goes on, though, and ranges found
after it narrow the group again.
-/

namespace OpaFm.Partition

open OpaFm.Fabric

variable {env : DgEnv} {cfg : DGXmlConfig} {n : Node} {vp : ValidPort} {dg : DGConfig}
  {l : List RegExp} {nodeDesc : String} {r : NodeDg} {e : RegExp}

/-! ## A group with descriptions alone -/

section Bits

variable {own node : Nat → Bool} {included : Nat → List Nat} {i : Nat}

theorem evaluateIncluded_keeps {eval : Nat → DgBits → Option (Bool × DgBits)}
    (heval : ∀ j s b s', i ∉ s.dgMember → eval j s = some (b, s') →
      i ∉ s'.dgMember ∧ (j = i → b = false))
    {g : Nat} (hg : g ≠ i) {js : List Nat} {s s' : DgBits} {b : Bool} (hs : i ∉ s.dgMember)
    (h : evaluateIncluded eval g js s = some (b, s')) : i ∉ s'.dgMember := by
  induction js generalizing s with
  | nil =>
    cases h
    exact hs
  | cons a js ih =>
    rw [evaluateIncluded] at h
    split at h
    · cases he : eval a s with
      | none =>
        rw [he] at h
        cases h
      | some q =>
        obtain ⟨b₁, s₁⟩ := q
        obtain ⟨hkeep, hfalse⟩ := heval a s b₁ s₁ hs he
        rw [he] at h
        cases b₁ with
        | true =>
          obtain ⟨rfl, rfl⟩ := Prod.mk.inj (Option.some.inj h)
          have ha : a ≠ i := fun heq => Bool.noConfusion (hfalse heq)
          simp [DgBits.setMember, hkeep, ha.symm, hg.symm]
        | false => exact ih hkeep h
    · split at h
      · obtain ⟨rfl, rfl⟩ := Prod.mk.inj (Option.some.inj h)
        exact hs
      · exact ih hs h

theorem evaluatePortDG_keeps (hown : own i = false) (hinc : included i = []) {fuel j : Nat}
    {s s' : DgBits} {b : Bool} (hs : i ∉ s.dgMember)
    (h : evaluatePortDG own included fuel j s = some (b, s')) :
    i ∉ s'.dgMember ∧ (j = i → b = false) := by
  induction fuel generalizing j s s' b with
  | zero => cases h
  | succ fuel ih =>
    rw [evaluatePortDG] at h
    split at h
    · split at h
      · rename_i hj
        have hne : j ≠ i := by
          rintro rfl
          rw [hown] at hj
          cases hj
        obtain ⟨rfl, rfl⟩ := Prod.mk.inj (Option.some.inj h)
        refine ⟨?_, fun heq => absurd heq hne⟩
        simp [DgBits.setMember, DgBits.setEvaluated, hs, hne.symm]
      · obtain ⟨⟨b₁, s₁⟩, hq, heq⟩ := Option.map_eq_some_iff.mp h
        obtain ⟨rfl, rfl⟩ := Prod.mk.inj heq
        by_cases hji : j = i
        · subst hji
          rw [hinc, evaluateIncluded] at hq
          obtain ⟨rfl, rfl⟩ := Prod.mk.inj (Option.some.inj hq)
          exact ⟨hs, fun _ => rfl⟩
        · have hkeep : i ∉ s₁.dgMember :=
            evaluateIncluded_keeps (fun _ _ _ _ => ih) hji hs hq
          exact ⟨hkeep, fun heq => absurd heq hji⟩
    · obtain ⟨rfl, rfl⟩ := Prod.mk.inj (Option.some.inj h)
      refine ⟨hs, ?_⟩
      rintro rfl
      exact decide_eq_false hs

theorem foldlM_setupDG_keeps (hown : own i = false) (hinc : included i = []) {fuel : Nat}
    {js : List Nat} (hi : i ∉ js) {s s' : DgBits} (hs : i ∉ s.dgMember)
    (h : js.foldlM (setupDG node (evaluatePortDG own included fuel)) s = some s') :
    i ∉ s'.dgMember := by
  induction js generalizing s with
  | nil =>
    cases h
    exact hs
  | cons j js ih =>
    rw [List.mem_cons, not_or] at hi
    rw [List.foldlM_cons, Option.bind_eq_bind, Option.bind_eq_some_iff] at h
    obtain ⟨t, ht, hrest⟩ := h
    obtain ⟨b, t', hrun, rfl⟩ := setupDG_eq_some.mp ht
    have hstart : i ∉ (if node j then (s.setMember j).setEvaluated j else s).dgMember := by
      split
      · simp [DgBits.setMember, DgBits.setEvaluated, hs, hi.1]
      · exact hs
    have hkeep := (evaluatePortDG_keeps hown hinc hstart hrun).1
    apply ih hi.2 _ hrest
    cases b with
    | true => simp [DgBits.settle, DgBits.setMember, hkeep, hi.1]
    | false => exact hkeep

theorem foldlM_setupDG_node (hown : own i = false) (hinc : included i = []) {fuel len : Nat}
    (hi : i < len) {s' : DgBits}
    (h : (List.range len).foldlM (setupDG node (evaluatePortDG own included fuel)) {} = some s') :
    i ∈ s'.dgMember ↔ node i = true := by
  obtain ⟨l₁, l₂, hl⟩ := List.append_of_mem (List.mem_range.mpr hi)
  have hnodup : (l₁ ++ i :: l₂).Nodup := by
    rw [← hl]
    exact List.nodup_range
  rw [List.nodup_middle, List.nodup_cons, List.mem_append, not_or] at hnodup
  rw [hl, List.foldlM_append, Option.bind_eq_bind, Option.bind_eq_some_iff] at h
  obtain ⟨s₁, h₁, h⟩ := h
  rw [List.foldlM_cons, Option.bind_eq_bind, Option.bind_eq_some_iff] at h
  obtain ⟨s₂, h₂, hrest⟩ := h
  have hs₁ : i ∉ s₁.dgMember :=
    foldlM_setupDG_keeps hown hinc hnodup.1.1 (Finset.notMem_empty i) h₁
  obtain ⟨b, t, hrun, rfl⟩ := setupDG_eq_some.mp h₂
  have hev : i ∈ (t.settle i b).dgsEvaluated := by
    have hin := evaluatePortDG_evaluated hrun
    cases b <;> exact hin
  rw [foldlM_setupDG_settled hnodup.1.2 hev hrest]
  cases hnode : node i with
  | true =>
    rw [hnode, if_pos rfl] at hrun
    have hmem : i ∈ t.dgMember := (evaluatePortDG_le hrun).member (Finset.mem_insert_self i _)
    have hset : i ∈ (t.settle i b).dgMember := by
      cases b with
      | true => exact Finset.mem_insert_self i _
      | false => exact hmem
    exact iff_of_true hset rfl
  | false =>
    rw [hnode, if_neg Bool.false_ne_true] at hrun
    obtain ⟨hkeep, hfalse⟩ := evaluatePortDG_keeps hown hinc hs₁ hrun
    rw [hfalse rfl]
    exact iff_of_false hkeep Bool.false_ne_true

end Bits

structure DescribedOnly (env : DgEnv) (n : Node) (dg : DGConfig) : Prop where
  node : nodeCriteria n dg = false
  port : ∀ vp ∈ livePorts n, portCriteria env n vp dg = false
  included : dg.includedGroup = []

theorem smSetupPortDGs_described (hdg : DescribedOnly env n dg) {i : Nat}
    (hi : cfg.dg[i]? = some dg) (hvp : vp ∈ livePorts n) {saved : List NodeDg}
    (hsaved : cfg.dg.mapM (smEvaluateNodeDG n) = some saved) {fuel : Nat} {m : Finset Nat}
    (h : smSetupPortDGs env cfg n saved fuel vp = some m) :
    i ∈ m ↔ nodeSelects n vp.port.index dg = true := by
  rw [smSetupPortDGs_eq hsaved] at h
  obtain ⟨s, hrun, rfl⟩ := Option.map_eq_some_iff.mp h
  have hlt : i < cfg.dg.length := (List.getElem?_eq_some_iff.mp hi).1
  have hown : dgHolds cfg (portCriteria env n vp) i = false := by
    rw [dgHolds_eq hi]
    exact hdg.port vp hvp
  have hinc : includedDgs cfg i = [] := by
    simp [includedDgs, hi, hdg.included]
  rw [foldlM_setupDG_node hown hinc hlt hrun, dgHolds_eq hi]

/-! ## The loop over the descriptions -/

theorem descUnion_perm {l' : List RegExp} (hperm : l.Perm l') (portIndex : Nat) :
    DescUnion nodeDesc l portIndex ↔ DescUnion nodeDesc l' portIndex := by
  unfold DescUnion
  simp only [hperm.mem_iff]

theorem nodeSelects_eq (hcrit : nodeCriteria n dg = false)
    (hfit : DescriptionsFit n.nodeDesc dg.regExpr) (portIndex : Nat) :
    nodeSelects n portIndex dg =
      (dg.regExpr.foldl (describe n.nodeDesc) {}).selects portIndex := by
  unfold nodeSelects
  rw [(smEvaluateNodeDG_descriptions hcrit).mpr ⟨hfit, rfl⟩, Option.any_some]

theorem describe_isDgMember (h : r.isDgMember = true ∨ e.isMatch nodeDesc = some true) :
    (describe nodeDesc r e).isDgMember = true := by
  by_cases hmatch : e.isMatch nodeDesc = some true
  · cases hrange : e.portRange with
    | none => rw [describe_whole hmatch hrange]
    | some range => rw [describe_range hmatch hrange]
  · rw [describe_other hmatch]
    exact h.resolve_right hmatch

theorem foldl_isDgMember
    (h : r.isDgMember = true ∨ ∃ e ∈ l, e.isMatch nodeDesc = some true) :
    (l.foldl (describe nodeDesc) r).isDgMember = true := by
  induction l generalizing r with
  | nil =>
    rcases h with h | ⟨e, he, _⟩
    · exact h
    · exact absurd he List.not_mem_nil
  | cons a l ih =>
    rw [List.foldl_cons]
    apply ih
    rcases h with h | ⟨e, he, hmatch⟩
    · exact Or.inl (describe_isDgMember (Or.inl h))
    · rcases List.mem_cons.mp he with rfl | he
      · exact Or.inl (describe_isDgMember (Or.inr hmatch))
      · exact Or.inr ⟨e, he, hmatch⟩

theorem foldl_mem_portRanges
    (hwhole : ∀ e ∈ l, e.isMatch nodeDesc = some true → e.portRange ≠ none) {range : Nat × Nat}
    (h : range ∈ r.portRanges ∨ ∃ e ∈ l, e.isMatch nodeDesc = some true ∧ e.portRange = some range) :
    range ∈ (l.foldl (describe nodeDesc) r).portRanges := by
  induction l generalizing r with
  | nil =>
    rcases h with h | ⟨e, he, _⟩
    · exact h
    · exact absurd he List.not_mem_nil
  | cons a l ih =>
    rw [List.foldl_cons]
    apply ih (fun e he => hwhole e (List.mem_cons_of_mem a he))
    by_cases hmatch : a.isMatch nodeDesc = some true
    · cases hrange : a.portRange with
      | none => exact absurd hrange (hwhole a List.mem_cons_self hmatch)
      | some range' =>
        rw [describe_range hmatch hrange]
        rcases h with h | ⟨e, he, hmatch', hrange'⟩
        · exact Or.inl (List.mem_append_left _ h)
        · rcases List.mem_cons.mp he with rfl | he
          · rw [hrange] at hrange'
            injection hrange' with heq
            exact Or.inl (List.mem_append_right _ (List.mem_singleton.mpr heq.symm))
          · exact Or.inr ⟨e, he, hmatch', hrange'⟩
    · rw [describe_other hmatch]
      rcases h with h | ⟨e, he, hmatch', hrange'⟩
      · exact Or.inl h
      · rcases List.mem_cons.mp he with rfl | he
        · exact absurd hmatch' hmatch
        · exact Or.inr ⟨e, he, hmatch', hrange'⟩

/-- The ranges, if any, hold all ports that are live, or no description matches without one. -/
def NotNarrowed (n : Node) (l : List RegExp) : Prop :=
  (∀ e ∈ l, e.isMatch n.nodeDesc = some true → e.portRange ≠ none) ∨
    ∀ e ∈ l, e.isMatch n.nodeDesc = some true → ∀ range ∈ e.portRange, ∀ vp ∈ livePorts n,
      inRange vp.port.index range = true

theorem selects_of_descUnion (h : NotNarrowed n l) (hvp : vp ∈ livePorts n)
    (hunion : DescUnion n.nodeDesc l vp.port.index) :
    (l.foldl (describe n.nodeDesc) {}).selects vp.port.index = true := by
  obtain ⟨e, he, hmatch, hrange⟩ := hunion
  unfold NodeDg.selects
  rw [Bool.and_eq_true, Bool.or_eq_true, List.isEmpty_iff, List.any_eq_true]
  refine ⟨foldl_isDgMember (Or.inr ⟨e, he, hmatch⟩), ?_⟩
  rcases h with hwhole | hall
  · cases hr : e.portRange with
    | none => exact absurd hr (hwhole e he hmatch)
    | some range =>
      right
      exact ⟨range, foldl_mem_portRanges hwhole (Or.inr ⟨e, he, hmatch, hr⟩),
        hrange range (by rw [hr]; exact rfl)⟩
  · cases hr : (l.foldl (describe n.nodeDesc) {}).portRanges with
    | nil => exact Or.inl rfl
    | cons range rest =>
      right
      have hin : range ∈ (l.foldl (describe n.nodeDesc) {}).portRanges := by
        rw [hr]
        exact List.mem_cons_self
      obtain ⟨e', he', hmatch', hsome⟩ := (descSound_foldl l n.nodeDesc).ranges range hin
      exact ⟨range, List.mem_cons_self, hall e' he' hmatch' range (by rw [hsome]; exact rfl) vp hvp⟩

/-! ## Runs -/

/-- In every configuration where descriptions `l`, in any order, are all that can put a port of
the node in a group, `smEvaluateNodeDG` stays within its arrays, and in every run that ends the
group has the ports that they select. -/
def DescMeets (n : Node) (l : List RegExp) : Prop :=
  ∀ (env : DgEnv) (cfg : DGXmlConfig) (i : Nat) (dg : DGConfig),
    cfg.dg[i]? = some dg → DescribedOnly env n dg → dg.regExpr.Perm l →
    smEvaluateNodeDG n dg ≠ none ∧ ∀ fuel members, smSetupNodeDGs env cfg fuel n = some members →
      List.Forall₂ (fun vp m => i ∈ m ↔ DescUnion n.nodeDesc l vp.port.index)
        (livePorts n) members

theorem forall₂_of_mem {α β : Type} {R T : α → β → Prop} {as : List α} {bs : List β}
    (h : List.Forall₂ R as bs) (himp : ∀ a ∈ as, ∀ b, R a b → T a b) : List.Forall₂ T as bs := by
  induction h with
  | nil => exact .nil
  | cons hab _ ih =>
    apply List.Forall₂.cons
    · exact himp _ List.mem_cons_self _ hab
    · exact ih fun a ha => himp a (List.mem_cons_of_mem _ ha)

theorem exists_of_mem_forall₂ {α β : Type} {R T : α → β → Prop} {as : List α} {bs : List β} {a : α}
    (h : List.Forall₂ R as bs) (h' : List.Forall₂ T as bs) (ha : a ∈ as) :
    ∃ b, R a b ∧ T a b := by
  induction h with
  | nil => exact absurd ha List.not_mem_nil
  | cons hab _ ih =>
    cases h' with
    | cons hab' hrest' =>
      rcases List.mem_cons.mp ha with rfl | ha
      · exact ⟨_, hab, hab'⟩
      · exact ih hrest' ha

theorem NotNarrowed.of_perm {l' : List RegExp} (h : NotNarrowed n l) (hperm : l'.Perm l) :
    NotNarrowed n l' := by
  unfold NotNarrowed at h ⊢
  simp only [hperm.mem_iff]
  exact h

theorem descriptionsFit_of_countP (hfits : ∀ e ∈ l, e.Fits nodeDesc)
    (hcount : l.countP (rangeMatches nodeDesc) ≤ maxNodeDescEntries) :
    DescriptionsFit nodeDesc l where
  entries := hfits
  ranges _ hrun _ := hrun.sublist.countP_le.trans hcount

theorem descMeets_of_notNarrowed (h : NotNarrowed n l) (hfits : ∀ e ∈ l, e.Fits n.nodeDesc)
    (hcount : l.countP (rangeMatches n.nodeDesc) ≤ maxNodeDescEntries) : DescMeets n l := by
  intro env cfg i dg hi hdg hperm
  have hfit : DescriptionsFit n.nodeDesc dg.regExpr := by
    apply descriptionsFit_of_countP
    · exact fun e he => hfits e (hperm.mem_iff.mp he)
    · rw [hperm.countP_eq]
      exact hcount
  constructor
  · rw [(smEvaluateNodeDG_descriptions hdg.node).mpr ⟨hfit, rfl⟩]
    exact Option.some_ne_none _
  · intro fuel members hrun
    obtain ⟨saved, hsaved, hports⟩ := Option.bind_eq_some_iff.mp hrun
    apply forall₂_of_mem (mapM_eq_some_iff.mp hports)
    intro vp hvp m hm
    rw [smSetupPortDGs_described hdg hi hvp hsaved hm, nodeSelects_eq hdg.node hfit,
      descUnion_perm hperm.symm]
    constructor
    · exact descUnion_of_selects
    · exact selects_of_descUnion (h.of_perm hperm) hvp

/-! ## A configuration with one group -/

def describedGroup (l : List RegExp) : DGConfig where
  name := "Described"
  regExpr := l

def describedConfig (l : List RegExp) : DGXmlConfig where
  dg := [describedGroup l]
  distinct := by simp

theorem describedGroup_describedOnly (env : DgEnv) (n : Node) (l : List RegExp) :
    DescribedOnly env n (describedGroup l) where
  node := by simp [nodeCriteria, describedGroup]
  port vp _ := by simp [portCriteria, describedGroup]
  included := rfl

theorem describedConfig_run (n : Node) (l : List RegExp) {r : NodeDg}
    (hr : smEvaluateNodeDG n (describedGroup l) = some r) :
    ∃ members, smSetupNodeDGs {} (describedConfig l) 1 n = some members := by
  have hport : ∀ vp ∈ livePorts n, ∃ m,
      smSetupPortDGs {} (describedConfig l) n [r] 1 vp = some m := by
    intro vp _
    have hown : dgHolds (describedConfig l) (portCriteria {} n vp) 0 = false := by
      simp [dgHolds, describedConfig, describedGroup, portCriteria]
    have hinc : includedDgs (describedConfig l) 0 = [] := rfl
    have hcall : ∀ s, ∃ b s', smEvaluatePortDG {} (describedConfig l) n vp 1 0 s =
        some (b, s') := by
      intro s
      unfold smEvaluatePortDG
      rw [evaluatePortDG, hown, hinc]
      split
      · exact ⟨_, _, rfl⟩
      · exact ⟨_, _, rfl⟩
    have hrange : List.range (describedConfig l).dg.length = [0] := rfl
    unfold smSetupPortDGs
    rw [hrange, List.foldlM_cons]
    obtain ⟨b, s', hs'⟩ := hcall (if r.selects vp.port.index then
      (({} : DgBits).setMember 0).setEvaluated 0 else {})
    exact ⟨(s'.settle 0 b).dgMember, Option.map_eq_some_iff.mpr ⟨s'.settle 0 b,
      Option.bind_eq_some_iff.mpr ⟨s'.settle 0 b, setupDG_eq_some.mpr ⟨b, s', hs', rfl⟩, rfl⟩,
      rfl⟩⟩
  obtain ⟨members, hmembers⟩ := exists_mapM_iff.mpr hport
  refine ⟨members, Option.bind_eq_some_iff.mpr ⟨[r], ?_, hmembers⟩⟩
  exact mapM_eq_some_iff.mpr (.cons hr .nil)

theorem DescMeets.fit {l' : List RegExp} (h : DescMeets n l) (hperm : l'.Perm l) :
    DescriptionsFit n.nodeDesc l' := by
  have hdg := describedGroup_describedOnly {} n l'
  obtain ⟨r, hr⟩ := Option.ne_none_iff_exists'.mp
    (h {} (describedConfig l') 0 (describedGroup l') rfl hdg hperm).1
  exact ((smEvaluateNodeDG_descriptions hdg.node).mp hr).1

theorem DescMeets.selects_iff {l' : List RegExp} (h : DescMeets n l) (hperm : l'.Perm l)
    (hvp : vp ∈ livePorts n) :
    (l'.foldl (describe n.nodeDesc) {}).selects vp.port.index = true ↔
      DescUnion n.nodeDesc l vp.port.index := by
  have hdg := describedGroup_describedOnly {} n l'
  have hfit : DescriptionsFit n.nodeDesc (describedGroup l').regExpr := h.fit hperm
  obtain ⟨members, hrun⟩ :=
    describedConfig_run n l' ((smEvaluateNodeDG_descriptions hdg.node).mpr ⟨hfit, rfl⟩)
  have hmeets := (h {} (describedConfig l') 0 (describedGroup l') rfl hdg hperm).2 1 members hrun
  obtain ⟨saved, hsaved, hports⟩ := Option.bind_eq_some_iff.mp hrun
  obtain ⟨m, hm, hiff⟩ := exists_of_mem_forall₂ (mapM_eq_some_iff.mp hports) hmeets hvp
  have hnode := nodeSelects_eq hdg.node hfit vp.port.index
  rw [← hiff, smSetupPortDGs_described hdg rfl hvp hsaved hm, hnode]
  rfl

theorem notNarrowed_of_meets (h : DescMeets n l) : NotNarrowed n l := by
  by_contra hnot
  unfold NotNarrowed at hnot
  push Not at hnot
  obtain ⟨⟨f, hf, hfmatch, hfnone⟩, e, he, hmatch, range, hrange, vp, hvp, hout⟩ := hnot
  have hrange : e.portRange = some range := hrange
  obtain ⟨a, b, rfl⟩ := List.append_of_mem hf
  have he : e ∈ a ++ b := by
    rcases List.mem_append.mp he with he | he
    · exact List.mem_append_left b he
    · rcases List.mem_cons.mp he with rfl | he
      · rw [hrange] at hfnone
        cases hfnone
      · exact List.mem_append_right a he
  obtain ⟨c, d, hcd⟩ := List.append_of_mem he
  have hperm : ((c ++ d) ++ [f, e]).Perm (a ++ f :: b) := by
    calc List.Perm ((c ++ d) ++ [f, e]) ([f, e] ++ (c ++ d)) := List.perm_append_comm
      _ = f :: e :: (c ++ d) := rfl
      List.Perm _ (f :: (c ++ e :: d)) := List.Perm.cons f List.perm_middle.symm
      _ = f :: (a ++ b) := by rw [hcd]
      List.Perm _ (a ++ f :: b) := List.perm_middle.symm
  have hselects := h.selects_iff hperm hvp
  rw [List.foldl_append, List.foldl_cons, List.foldl_cons, List.foldl_nil,
    describe_whole hfmatch hfnone, describe_range hmatch hrange] at hselects
  have hunion : DescUnion n.nodeDesc (a ++ f :: b) vp.port.index :=
    ⟨f, hf, hfmatch, by simp [hfnone]⟩
  have hin := hselects.mpr hunion
  simp [NodeDg.selects] at hin
  exact hout hin

theorem countP_le_of_meets (h : DescMeets n l) :
    l.countP (rangeMatches n.nodeDesc) ≤ maxNodeDescEntries := by
  have hfit := h.fit (List.filter_append_perm (rangeMatches n.nodeDesc) l)
  have hle := hfit.ranges (l.filter (rangeMatches n.nodeDesc)) (List.prefix_append _ _).isInfix (by
    intro e he
    have hrange := (List.mem_filter.mp he).2
    simp only [rangeMatches, decide_eq_true_eq, Option.isSome_iff_ne_none] at hrange
    simp [wholeMatches, hrange.2])
  rwa [List.countP_filter, List.countP_congr fun e _ => by rw [Bool.and_self]] at hle

/-- The arrays suffice, and the ports of a group are those that its descriptions select, in any
order of these, exactly if no match of all ports meets a range that leaves out a live port, every
description fits, and the port ranges of the matches do. -/
theorem smSetupNodeDGs_descriptions_iff (n : Node) (l : List RegExp) :
    DescMeets n l ↔
      NotNarrowed n l ∧ (∀ e ∈ l, e.Fits n.nodeDesc) ∧
        l.countP (rangeMatches n.nodeDesc) ≤ maxNodeDescEntries := by
  constructor
  · intro h
    exact ⟨notNarrowed_of_meets h, (h.fit (List.Perm.refl l)).entries, countP_le_of_meets h⟩
  · rintro ⟨hwide, hfits, hcount⟩
    exact descMeets_of_notNarrowed hwide hfits hcount

/-- A match of all ports, and then one of port 2. -/
theorem smSetupNodeDGs_descriptions_narrowed :
    ¬DescMeets liveHost [anyNode none, anyNode (some (2, 2))] := by
  intro hmeets
  have hlive : livePorts liveHost = [⟨liveHost.port 1, {}, rfl⟩] := rfl
  have hunion : DescUnion liveHost.nodeDesc [anyNode none, anyNode (some (2, 2))] 1 :=
    ⟨anyNode none, List.mem_cons_self, rfl, by simp [anyNode]⟩
  have hrun : smSetupNodeDGs {} mixedRanges 1 liveHost = some [∅] := rfl
  have hdg : DescribedOnly {} liveHost
      { name := "Hosts", regExpr := [anyNode none, anyNode (some (2, 2))] } := by
    constructor
    · rfl
    · intro vp _
      simp [portCriteria]
    · rfl
  have hports := (hmeets {} mixedRanges 0 _ rfl hdg (List.Perm.refl _)).2 1 _ hrun
  rw [hlive] at hports
  cases hports with
  | cons hiff _ => exact absurd (hiff.mpr hunion) (Finset.notMem_empty 0)

end OpaFm.Partition
