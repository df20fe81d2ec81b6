import OpaFm.Lib.Fold
import OpaFm.Routing.SelectPorts

/-!
# Selection and balancing

A selection is not empty as soon as one port of the mask can be used, and it
holds only such ports.  Balancing ends and permutes the selection.
-/

namespace OpaFm.Routing

open OpaFm.Fabric OpaFm.Lib

theorem smGetSpeed_pos (d : PortData) : 0 < smGetSpeed d := by
  unfold smGetSpeed
  cases d.linkSpeed <;> cases d.linkWidth <;> decide

/-! ## Selection -/

theorem smGetPort_index {switchp : Node} (hindex : ∀ i, (switchp.port i).index = i) {p : Nat}
    {portp : Port} (h : smGetPort switchp p = some portp) : portp.index = p := by
  unfold smGetPort at h
  by_cases hle : p ≤ switchp.numPorts
  · rw [if_pos hle] at h
    rw [← Option.some.inj h]
    exact hindex p
  · rw [if_neg hle] at h
    cases h

theorem maskedPort_some {topop : Topology} {switchp : Node} {cport : Nat} {portp : Port}
    {d : PortData} {n : Node} (h : maskedPort topop switchp cport = some (portp, d, n)) :
    smGetPort switchp cport = some portp ∧ portp.portData = some d ∧ portp.state.isUp = true ∧
      smFindNode topop portp.nodeno = some n := by
  unfold maskedPort at h
  cases hget : smGetPort switchp cport with
  | none => rw [hget] at h; cases h
  | some q =>
    rw [hget] at h
    dsimp only at h
    cases hdata : q.portData with
    | none => rw [hdata] at h; cases h
    | some d' =>
      rw [hdata] at h
      dsimp only at h
      by_cases hup : q.state.isUp = true
      · rw [if_pos hup] at h
        obtain ⟨m, hm, heq⟩ := Option.map_eq_some_iff.mp h
        cases heq
        exact ⟨rfl, hdata, hup, (Option.filter_eq_some_iff.mp hm).1⟩
      · rw [if_neg hup] at h
        cases h

section Select

variable (topop : Topology) (load : RouteLoad) (doSpineCheck selectBest : Bool) (switchp : Node)

def FromMask (ports : Finset Nat) (e : SwitchportToNextGuid) : Prop :=
  e.guid = e.nextSwp.nodeGuid ∧ ∃ cport ∈ ports, ∃ d,
    maskedPort topop switchp cport = some (e.portp, d, e.nextSwp)

structure Selecting (ports : Finset Nat) (s : SelectState) : Prop where
  entries : ∀ e ∈ s.orderedPorts, FromMask topop switchp ports e
  empty : s.orderedPorts = [] → s.bestSpeed = 0 ∧ s.matching = false

variable {topop switchp}

theorem considerPort_spec {ports : Finset Nat} {s : SelectState}
    (hs : ∀ e ∈ s.orderedPorts, FromMask topop switchp ports e) {entry : SwitchportToNextGuid}
    (hentry : FromMask topop switchp ports entry) (curSpeed lids swLids : Nat)
    (hspeed : s.orderedPorts = [] → s.bestSpeed < curSpeed) :
    (∀ e ∈ (considerPort selectBest entry curSpeed lids swLids s).orderedPorts,
        FromMask topop switchp ports e) ∧
      (considerPort selectBest entry curSpeed lids swLids s).orderedPorts ≠ [] := by
  have hone : ∀ e ∈ [entry], FromMask topop switchp ports e := by
    simpa using hentry
  have hnone : ¬s.bestSpeed < curSpeed → s.orderedPorts ≠ [] := fun h h' => h (hspeed h')
  unfold considerPort
  split
  · split
    · exact ⟨hone, List.cons_ne_nil _ _⟩
    · rename_i hslower
      split
      · split
        · exact ⟨hone, List.cons_ne_nil _ _⟩
        · split
          · exact ⟨hone, List.cons_ne_nil _ _⟩
          · exact ⟨hs, hnone hslower⟩
      · refine ⟨fun e he => ?_, by simp⟩
        rcases List.mem_append.mp he with he | he
        · exact hs e he
        · exact hone e he
  · rename_i hslower
    exact ⟨hs, hnone (by omega)⟩

theorem mem_considerPort {s : SelectState} {entry e : SwitchportToNextGuid}
    {curSpeed lids swLids : Nat}
    (he : e ∈ (considerPort selectBest entry curSpeed lids swLids s).orderedPorts) :
    e = entry ∨ e ∈ s.orderedPorts := by
  unfold considerPort at he
  split_ifs at he
  · exact Or.inl (List.mem_singleton.mp he)
  · exact Or.inl (List.mem_singleton.mp he)
  · exact Or.inl (List.mem_singleton.mp he)
  · exact Or.inr he
  · exact (List.mem_append.mp he).elim Or.inr fun h => Or.inl (List.mem_singleton.mp h)
  · exact Or.inr he

theorem selectPort_spec {ports : Finset Nat} {s : SelectState}
    (hs : Selecting topop switchp ports s) {cport : Nat} (hcport : cport ∈ ports) :
    Selecting topop switchp ports (selectPort topop load doSpineCheck selectBest switchp s cport) ∧
      ((s.orderedPorts ≠ [] ∨ maskedPort topop switchp cport ≠ none) →
        (selectPort topop load doSpineCheck selectBest switchp s cport).orderedPorts ≠ []) := by
  unfold selectPort
  split
  · rename_i hnone
    exact ⟨hs, fun h => h.resolve_right (not_not.mpr hnone)⟩
  · rename_i portp d n hport
    let entry : SwitchportToNextGuid := { guid := n.nodeGuid, portp := portp, nextSwp := n }
    have hentry : FromMask topop switchp ports entry := ⟨rfl, cport, hcport, d, hport⟩
    have hone : ∀ e ∈ [entry], FromMask topop switchp ports e := by
      simpa using hentry
    -- a test without a spine so far cannot discard the port
    have hspine : (if doSpineCheck then spineFirstTest s.matching switchp d n
        else (.none, s.matching)).1 = .noMatch → s.orderedPorts ≠ [] := by
      intro hno hempty
      rw [(hs.empty hempty).2] at hno
      cases doSpineCheck with
      | false => simp at hno
      | true =>
        simp only [if_true, spineFirstTest, Bool.false_eq_true, if_false] at hno
        split at hno <;> simp at hno
    generalize (if doSpineCheck then spineFirstTest s.matching switchp d n
      else (.none, s.matching)) = r at hspine
    obtain ⟨sfres, matching⟩ := r
    have hconsider := considerPort_spec (s := { s with matching := matching }) selectBest hs.entries
      hentry (smGetSpeed d) (load.lidsRouted switchp.index portp.index)
      (load.numLidsRouted n.index) (fun h => (hs.empty h).1 ▸ smGetSpeed_pos d)
    cases sfres with
    | first => exact ⟨⟨hone, fun h => absurd h (List.cons_ne_nil _ _)⟩, fun _ => List.cons_ne_nil _ _⟩
    | noMatch =>
      have hne := hspine rfl
      exact ⟨⟨hs.entries, fun h => absurd h hne⟩, fun _ => hne⟩
    | found => exact ⟨⟨hconsider.1, fun h => absurd h hconsider.2⟩, fun _ => hconsider.2⟩
    | none => exact ⟨⟨hconsider.1, fun h => absurd h hconsider.2⟩, fun _ => hconsider.2⟩

theorem mem_maskPorts {ports : Finset Nat} {p : Nat} :
    p ∈ maskPorts ports ↔ 1 ≤ p ∧ p ≤ maxStlPorts ∧ p ∈ ports := by
  simp only [maskPorts, List.mem_filter, List.mem_range'_1, decide_eq_true_eq]
  constructor
  · rintro ⟨⟨h1, h2⟩, h3⟩
    exact ⟨h1, by omega, h3⟩
  · rintro ⟨h1, h2, h3⟩
    exact ⟨⟨h1, by omega⟩, h3⟩

variable (topop switchp) in
theorem smRoutingFuncSelectPorts_spec (path : Nat → Nat → Finset Nat) (endIndex : Nat) :
    (∀ e ∈ smRoutingFuncSelectPorts topop path load doSpineCheck switchp endIndex selectBest,
        FromMask topop switchp (path switchp.swIdx endIndex) e) ∧
      ((∃ p ∈ path switchp.swIdx endIndex, 1 ≤ p ∧ p ≤ maxStlPorts ∧
          maskedPort topop switchp p ≠ none) →
        smRoutingFuncSelectPorts topop path load doSpineCheck switchp endIndex selectBest ≠ []) := by
  have hstart : Selecting topop switchp (path switchp.swIdx endIndex) {} :=
    ⟨fun e he => absurd he List.not_mem_nil, fun _ => ⟨rfl, rfl⟩⟩
  have hfold := foldl_establishes (β := Unit)
    (fun p hp s (hs : Selecting topop switchp (path switchp.swIdx endIndex) s) =>
      have hspec := selectPort_spec load doSpineCheck selectBest hs (mem_maskPorts.mp hp).2.2
      ⟨hspec.1, fun _ (h : s.orderedPorts ≠ [] ∨ maskedPort topop switchp p ≠ none) =>
        hspec.2 h⟩) {} hstart
  refine ⟨hfold.1.entries, ?_⟩
  rintro ⟨p, hp, h1, h2, husable⟩
  exact hfold.2 () (.inr ⟨p, mem_maskPorts.mpr ⟨h1, h2, hp⟩, husable⟩)

end Select

/-! ## Selecting all best ports -/

section All

variable (topop : Topology) (path : Nat → Nat → Finset Nat) (doSpineCheck : Bool) (srcSw : Node)

def Agree (s s' : SelectState) : Prop :=
  s.bestSpeed = s'.bestSpeed ∧ s.matching = s'.matching ∧ s.orderedPorts = s'.orderedPorts

theorem considerPort_agree {s s' : SelectState} (h : Agree s s') (entry : SwitchportToNextGuid)
    (curSpeed lids lids' swLids swLids' : Nat) :
    Agree (considerPort false entry curSpeed lids swLids s)
      (considerPort false entry curSpeed lids' swLids' s') := by
  obtain ⟨hspeed, hmatching, hports⟩ := h
  unfold considerPort
  rw [hspeed]
  split
  next =>
    split
    next => exact ⟨rfl, hmatching, rfl⟩
    next =>
      rw [if_neg Bool.false_ne_true, if_neg Bool.false_ne_true]
      exact ⟨rfl, hmatching, by rw [hports]⟩
  next => exact ⟨hspeed, hmatching, hports⟩

theorem selectPort_agree {s s' : SelectState} (h : Agree s s') (load load' : RouteLoad) (p : Nat) :
    Agree (selectPort topop load doSpineCheck false srcSw s p)
      (selectPort topop load' doSpineCheck false srcSw s' p) := by
  unfold selectPort
  cases maskedPort topop srcSw p with
  | none => exact h
  | some found =>
    obtain ⟨portp, portData, next⟩ := found
    obtain ⟨hspeed, hmatching, hports⟩ := h
    simp only [hmatching]
    generalize (if doSpineCheck = true then spineFirstTest s'.matching srcSw portData next
      else (SpineFirstResult.none, s'.matching)) = r
    obtain ⟨sfres, matching⟩ := r
    have hset : Agree { s with matching := matching } { s' with matching := matching } :=
      ⟨hspeed, rfl, hports⟩
    cases sfres with
    | first => exact ⟨rfl, rfl, rfl⟩
    | noMatch => exact hset
    | found => exact considerPort_agree hset _ _ _ _ _ _
    | none => exact considerPort_agree hset _ _ _ _ _ _

theorem smRoutingFuncSelectPorts_load (load load' : RouteLoad) (j : Nat) :
    smRoutingFuncSelectPorts topop path load doSpineCheck srcSw j false =
      smRoutingFuncSelectPorts topop path load' doSpineCheck srcSw j false := by
  have hfold : ∀ (ports : List Nat) (s s' : SelectState), Agree s s' →
      Agree (ports.foldl (selectPort topop load doSpineCheck false srcSw) s)
        (ports.foldl (selectPort topop load' doSpineCheck false srcSw) s') := by
    intro ports
    induction ports with
    | nil => exact fun s s' h => h
    | cons p ports ih =>
      exact fun s s' h => ih _ _ (selectPort_agree topop doSpineCheck srcSw h load load' p)
  exact (hfold _ {} {} ⟨rfl, rfl, rfl⟩).2.2

theorem smRoutingFuncSelectPorts_numbered (hindex : ∀ i, (srcSw.port i).index = i) (load : RouteLoad)
    (j : Nat) : ∀ e ∈ smRoutingFuncSelectPorts topop path load doSpineCheck srcSw j false,
      1 ≤ e.portp.index ∧ e.portp.index ≤ maxStlPorts := by
  -- the mask without what is no port
  have hsame : smRoutingFuncSelectPorts topop path load doSpineCheck srcSw j false =
      smRoutingFuncSelectPorts topop
        (fun i j => (path i j).filter fun p => 1 ≤ p ∧ p ≤ maxStlPorts) load doSpineCheck srcSw j
        false := by
    unfold smRoutingFuncSelectPorts
    congr 2
    apply List.filter_congr
    intro p hp
    rw [List.mem_range'_1] at hp
    have hbound : 1 ≤ p ∧ p ≤ maxStlPorts := by omega
    simp [hbound]
  intro e he
  rw [hsame] at he
  obtain ⟨-, p, hp, d, hmasked⟩ :=
    (smRoutingFuncSelectPorts_spec topop load doSpineCheck false srcSw _ j).1 e he
  rw [smGetPort_index hindex (maskedPort_some hmasked).1]
  exact (Finset.mem_filter.mp hp).2

theorem selectPort_sublist (hindex : ∀ i, (srcSw.port i).index = i) (load : RouteLoad)
    (selectBest : Bool) (s : SelectState) (p : Nat) :
    ((selectPort topop load doSpineCheck selectBest srcSw s p).orderedPorts.map
      fun e => e.portp.index).Sublist ((s.orderedPorts.map fun e => e.portp.index) ++ [p]) := by
  unfold selectPort
  cases hmask : maskedPort topop srcSw p with
  | none => exact List.sublist_append_left _ _
  | some found =>
    obtain ⟨portp, portData, next⟩ := found
    have hp : portp.index = p := smGetPort_index hindex (maskedPort_some hmask).1
    have hconsider (s : SelectState) (speed lids swLids : Nat) :
        ((considerPort selectBest { guid := next.nodeGuid, portp := portp, nextSwp := next } speed
          lids swLids s).orderedPorts.map fun e => e.portp.index).Sublist
            ((s.orderedPorts.map fun e => e.portp.index) ++ [p]) := by
      unfold considerPort
      split_ifs
      · rw [← hp]
        exact List.sublist_append_right _ _
      · rw [← hp]
        exact List.sublist_append_right _ _
      · rw [← hp]
        exact List.sublist_append_right _ _
      · exact List.sublist_append_left _ _
      · rw [← hp, List.map_append]
        exact List.Sublist.refl _
      · exact List.sublist_append_left _ _
    dsimp only
    generalize (if doSpineCheck = true then spineFirstTest s.matching srcSw portData next
      else (SpineFirstResult.none, s.matching)) = r
    obtain ⟨sfres, matching⟩ := r
    cases sfres with
    | first =>
      show [portp.index].Sublist _
      rw [hp]
      exact List.sublist_append_right _ _
    | noMatch => exact List.sublist_append_left _ _
    | found => exact hconsider { s with matching := matching } _ _ _
    | none => exact hconsider { s with matching := matching } _ _ _

theorem selectPorts_sublist (hindex : ∀ i, (srcSw.port i).index = i) (load : RouteLoad) (j : Nat)
    (selectBest : Bool) :
    ((smRoutingFuncSelectPorts topop path load doSpineCheck srcSw j selectBest).map
      fun e => e.portp.index).Sublist (maskPorts (path srcSw.swIdx j)) := by
  have hfold (ports : List Nat) (s : SelectState) :
      ((ports.foldl (selectPort topop load doSpineCheck selectBest srcSw) s).orderedPorts.map
        fun e => e.portp.index).Sublist ((s.orderedPorts.map fun e => e.portp.index) ++ ports) := by
    induction ports generalizing s with
    | nil =>
      rw [List.append_nil]
      exact List.Sublist.refl _
    | cons p rest ih =>
      rw [List.foldl_cons, List.append_cons]
      exact (ih _).trans
        ((selectPort_sublist topop doSpineCheck srcSw hindex load selectBest s p).append_right rest)
  exact hfold _ {}

theorem nodup_selectPorts (hindex : ∀ i, (srcSw.port i).index = i) (load : RouteLoad) (j : Nat)
    (selectBest : Bool) :
    ((smRoutingFuncSelectPorts topop path load doSpineCheck srcSw j selectBest).map
      fun e => e.portp.index).Nodup := by
  have hmask : (maskPorts (path srcSw.swIdx j)).Nodup := (List.nodup_range').filter _
  exact (selectPorts_sublist topop path doSpineCheck srcSw hindex load j selectBest).nodup hmask

theorem selectPorts_length_le (hindex : ∀ i, (srcSw.port i).index = i) (load : RouteLoad) (j : Nat)
    (selectBest : Bool) :
    (smRoutingFuncSelectPorts topop path load doSpineCheck srcSw j selectBest).length ≤
      maxStlPorts := by
  have hsub := selectPorts_sublist topop path doSpineCheck srcSw hindex load j selectBest
  calc (smRoutingFuncSelectPorts topop path load doSpineCheck srcSw j selectBest).length
      ≤ (maskPorts (path srcSw.swIdx j)).length := by
        rw [← List.length_map (f := fun e : SwitchportToNextGuid => e.portp.index)]
        exact hsub.length_le
    _ ≤ (List.range' 1 maxStlPorts).length := List.length_filter_le _ _
    _ = maxStlPorts := List.length_range'

end All

end OpaFm.Routing
