import OpaFm.Routing.Proofs.SelectPorts

/-!
# The ports that are selected

The running best speed and counters are those of the ports that count: with the spine check, and a
spine among the ports, the spines, and else all.  What is selected does not depend on the order of
the ports.
-/

namespace OpaFm.Routing

open OpaFm.Fabric

/-- A port of a path mask that can be used, with its data and the node at its other end. -/
abbrev FoundPort := Port × PortData × Node

section

variable (load : RouteLoad) (switchp : Node)

namespace FoundPort

def speed (x : FoundPort) : Nat := smGetSpeed x.2.1

def lids (x : FoundPort) : Nat := load.lidsRouted switchp.index x.1.index

def switchLids (x : FoundPort) : Nat := load.numLidsRouted x.2.2.index

def entry (x : FoundPort) : SwitchportToNextGuid :=
  { guid := x.2.2.nodeGuid, portp := x.1, nextSwp := x.2.2 }

def isSpine (x : FoundPort) : Bool :=
  switchp.systemImageGuid = x.2.2.systemImageGuid || x.2.1.uplink

def AtLeast (x y : FoundPort) : Prop :=
  y.speed < x.speed ∨ y.speed = x.speed ∧
    (x.lids load switchp < y.lids load switchp ∨
      x.lids load switchp = y.lids load switchp ∧ x.switchLids load ≤ y.switchLids load)

end FoundPort

def considered (doSpineCheck : Bool) (l : List FoundPort) : List FoundPort :=
  if doSpineCheck && l.any (FoundPort.isSpine switchp) then l.filter (FoundPort.isSpine switchp)
  else l

def selectFound (doSpineCheck selectBest : Bool) (s : SelectState) (x : FoundPort) : SelectState :=
  let spine := if doSpineCheck then spineFirstTest s.matching switchp x.2.1 x.2.2
    else (.none, s.matching)
  match spine.1 with
  | .first =>
    { s with
      matching := spine.2
      bestSpeed := x.speed
      bestLidsRouted := x.lids load switchp
      bestSwitchLidsRouted := x.switchLids load
      orderedPorts := [x.entry] }
  | .noMatch => { s with matching := spine.2 }
  | .found | .none =>
    considerPort selectBest x.entry x.speed (x.lids load switchp) (x.switchLids load)
      { s with matching := spine.2 }

theorem selectPort_none {topop : Topology} {cport : Nat}
    (h : maskedPort topop switchp cport = none) (doSpineCheck selectBest : Bool) (s : SelectState) :
    selectPort topop load doSpineCheck selectBest switchp s cport = s := by
  rw [selectPort, h]

theorem selectPort_some {topop : Topology} {cport : Nat} {x : FoundPort}
    (h : maskedPort topop switchp cport = some x) (doSpineCheck selectBest : Bool)
    (s : SelectState) :
    selectPort topop load doSpineCheck selectBest switchp s cport =
      selectFound load switchp doSpineCheck selectBest s x := by
  rw [selectPort, h]
  rfl

structure TopSpeed (C : List FoundPort) (best : Nat) : Prop where
  empty : C = [] → best = 0
  fastest : C ≠ [] → ∃ x ∈ C, x.speed = best
  speed : ∀ x ∈ C, x.speed ≤ best

theorem TopSpeed.append {C : List FoundPort} {best : Nat} (h : TopSpeed C best) (hC : C ≠ [])
    {x : FoundPort} (hx : x.speed ≤ best) : TopSpeed (C ++ [x]) best := by
  constructor
  · exact fun hnil => absurd hnil (by simp)
  · intro _
    obtain ⟨y, hy, hspeed⟩ := h.fastest hC
    exact ⟨y, List.mem_append_left _ hy, hspeed⟩
  · intro y hy
    rcases List.mem_append.mp hy with hy | hy
    · exact h.speed y hy
    · rw [List.mem_singleton.mp hy]
      exact hx

structure Selected (selectBest : Bool) (C : List FoundPort) (s : SelectState) : Prop where
  top : TopSpeed C s.bestSpeed
  empty : C = [] → s.orderedPorts = []
  all : selectBest = false →
    s.orderedPorts = (C.filter fun x => x.speed = s.bestSpeed).map FoundPort.entry
  best : selectBest = true → C ≠ [] → ∃ x ∈ C, s.orderedPorts = [x.entry] ∧
    s.bestSpeed = x.speed ∧ s.bestLidsRouted = x.lids load switchp ∧
      s.bestSwitchLidsRouted = x.switchLids load ∧ ∀ y ∈ C, x.AtLeast load switchp y

variable {load switchp} {selectBest : Bool} {C : List FoundPort} {s : SelectState} {x : FoundPort}

theorem speed_pos (x : FoundPort) : 0 < x.speed := smGetSpeed_pos _

theorem FoundPort.AtLeast.refl (x : FoundPort) : x.AtLeast load switchp x :=
  .inr ⟨rfl, .inr ⟨rfl, Nat.le_refl _⟩⟩

theorem Selected.of_matching (h : Selected load switchp selectBest C s) (matching : Bool) :
    Selected load switchp selectBest C { s with matching := matching } :=
  ⟨h.top, h.empty, h.all, h.best⟩

theorem Selected.takes (hslow : ∀ y ∈ C, y.speed < x.speed) (hspeed : s.bestSpeed = x.speed)
    (hlids : s.bestLidsRouted = x.lids load switchp)
    (hswitch : s.bestSwitchLidsRouted = x.switchLids load) (hports : s.orderedPorts = [x.entry]) :
    Selected load switchp selectBest (C ++ [x]) s := by
  have hx : x ∈ C ++ [x] := List.mem_append_right C (List.mem_singleton_self x)
  have hall : ∀ y ∈ C ++ [x], y.speed < x.speed ∨ y = x := fun y hy =>
    (List.mem_append.mp hy).imp (hslow y) List.mem_singleton.mp
  constructor
  case top =>
    refine ⟨fun hnil => absurd hnil (by simp), fun _ => ⟨x, hx, hspeed.symm⟩, fun y hy => ?_⟩
    rcases hall y hy with hlt | heq
    · omega
    · rw [heq, hspeed]
  case empty => exact fun hnil => absurd hnil (by simp)
  case all =>
    intro _
    have hnone : (C.filter fun y => y.speed = x.speed) = [] :=
      List.filter_eq_nil_iff.mpr fun y hy => by simpa using Nat.ne_of_lt (hslow y hy)
    rw [hports, hspeed, List.filter_append, hnone, List.filter_cons_of_pos (by simp)]
    rfl
  case best =>
    intro _ _
    refine ⟨x, hx, hports, hspeed, hlids, hswitch, fun y hy => ?_⟩
    rcases hall y hy with hlt | heq
    · exact .inl hlt
    · rw [heq]
      exact .refl x

theorem Selected.slower (h : Selected load switchp selectBest C s) (hC : C ≠ [])
    (hslow : x.speed < s.bestSpeed) : Selected load switchp selectBest (C ++ [x]) s := by
  constructor
  case top => exact h.top.append hC (Nat.le_of_lt hslow)
  case empty => exact fun hnil => absurd hnil (by simp)
  case all =>
    intro hfalse
    have hne : ¬x.speed = s.bestSpeed := Nat.ne_of_lt hslow
    rw [h.all hfalse, List.filter_append, List.filter_cons_of_neg (by simpa using hne),
      List.filter_nil, List.append_nil]
  case best =>
    intro htrue _
    obtain ⟨b, hb, hports, hspeed, hlids, hswitch, hbest⟩ := h.best htrue hC
    refine ⟨b, List.mem_append_left _ hb, hports, hspeed, hlids, hswitch, fun y hy => ?_⟩
    rcases List.mem_append.mp hy with hy | hy
    · exact hbest y hy
    · rw [List.mem_singleton.mp hy]
      exact .inl (hspeed ▸ hslow)

theorem Selected.equal (h : Selected load switchp false C s) (hC : C ≠ [])
    (heq : s.bestSpeed = x.speed) :
    Selected load switchp false (C ++ [x])
      { s with orderedPorts := s.orderedPorts ++ [x.entry] } := by
  constructor
  case top => exact h.top.append hC (Nat.le_of_eq heq.symm)
  case empty => exact fun hnil => absurd hnil (by simp)
  case all =>
    intro _
    show s.orderedPorts ++ [x.entry] = _
    rw [h.all rfl, List.filter_append, List.filter_cons_of_pos (by simp [heq]), List.map_append]
    rfl
  case best => exact fun hfalse => absurd hfalse Bool.false_ne_true

theorem Selected.keep (h : Selected load switchp true C s) (hC : C ≠ [])
    (heq : s.bestSpeed = x.speed) (hmore : s.bestLidsRouted < x.lids load switchp ∨
      s.bestLidsRouted = x.lids load switchp ∧ s.bestSwitchLidsRouted ≤ x.switchLids load) :
    Selected load switchp true (C ++ [x]) s := by
  constructor
  case top => exact h.top.append hC (Nat.le_of_eq heq.symm)
  case empty => exact fun hnil => absurd hnil (by simp)
  case all => exact fun htrue => absurd htrue.symm Bool.false_ne_true
  case best =>
    intro _ _
    obtain ⟨b, hb, hports, hspeed, hlids, hswitch, hbest⟩ := h.best rfl hC
    refine ⟨b, List.mem_append_left _ hb, hports, hspeed, hlids, hswitch, fun y hy => ?_⟩
    rcases List.mem_append.mp hy with hy | hy
    · exact hbest y hy
    · rw [List.mem_singleton.mp hy]
      unfold FoundPort.AtLeast
      omega

theorem Selected.better (h : Selected load switchp true C s) (hC : C ≠ [])
    (heq : s.bestSpeed = x.speed) (hless : x.lids load switchp < s.bestLidsRouted ∨
      x.lids load switchp = s.bestLidsRouted ∧ x.switchLids load < s.bestSwitchLidsRouted) :
    Selected load switchp true (C ++ [x])
      { s with
        bestLidsRouted := x.lids load switchp
        bestSwitchLidsRouted := x.switchLids load
        orderedPorts := [x.entry] } := by
  constructor
  case top => exact h.top.append hC (Nat.le_of_eq heq.symm)
  case empty => exact fun hnil => absurd hnil (by simp)
  case all => exact fun htrue => absurd htrue.symm Bool.false_ne_true
  case best =>
    intro _ _
    obtain ⟨b, hb, -, hspeed, hlids, hswitch, hbest⟩ := h.best rfl hC
    refine ⟨x, List.mem_append_right C (List.mem_singleton_self x), rfl, heq, rfl, rfl,
      fun y hy => ?_⟩
    rcases List.mem_append.mp hy with hy | hy
    · have hby := hbest y hy
      unfold FoundPort.AtLeast at hby ⊢
      omega
    · rw [List.mem_singleton.mp hy]
      exact .refl x

theorem Selected.consider (h : Selected load switchp selectBest C s) (x : FoundPort) :
    Selected load switchp selectBest (C ++ [x])
      (considerPort selectBest x.entry x.speed (x.lids load switchp) (x.switchLids load) s) := by
  by_cases hfast : s.bestSpeed < x.speed
  · have hslow : ∀ y ∈ C, y.speed < x.speed := fun y hy =>
      Nat.lt_of_le_of_lt (h.top.speed y hy) hfast
    rw [considerPort, if_pos (Nat.le_of_lt hfast), if_pos hfast]
    exact .takes hslow rfl rfl rfl rfl
  -- the speed of the first port is above 0
  have hC : C ≠ [] := fun hnil => hfast (h.top.empty hnil ▸ speed_pos x)
  by_cases hslow : x.speed < s.bestSpeed
  · rw [considerPort, if_neg (Nat.not_le_of_lt hslow)]
    exact h.slower hC hslow
  have heq : s.bestSpeed = x.speed := by omega
  rw [considerPort, if_pos (Nat.le_of_eq heq), if_neg hfast]
  cases selectBest with
  | false =>
    rw [if_neg Bool.false_ne_true]
    exact h.equal hC heq
  | true =>
    rw [if_pos rfl]
    by_cases hlids : x.lids load switchp < s.bestLidsRouted
    · rw [if_pos hlids]
      exact h.better hC heq (.inl hlids)
    rw [if_neg hlids]
    by_cases hboth : x.lids load switchp = s.bestLidsRouted ∧
        x.switchLids load < s.bestSwitchLidsRouted
    · rw [if_pos hboth]
      have hbetter := h.better hC heq (.inr hboth)
      rw [hboth.1] at hbetter
      exact hbetter
    · rw [if_neg hboth]
      exact h.keep hC heq (by omega)

/-! ## The spine check -/

theorem spineFirstTest_eq (matching : Bool) (switchp : Node) (x : FoundPort) :
    spineFirstTest matching switchp x.2.1 x.2.2 =
      if x.isSpine switchp then if matching then (.found, true) else (.first, true)
      else if matching then (.noMatch, true) else (.none, false) := by
  have hspine : (x.isSpine switchp = true) ↔
      ¬(switchp.systemImageGuid ≠ x.2.2.systemImageGuid ∧ ¬x.2.1.uplink) := by
    simp only [FoundPort.isSpine, Bool.or_eq_true, decide_eq_true_eq]
    tauto
  unfold spineFirstTest
  by_cases hx : x.isSpine switchp = true
  · rw [if_pos hx, if_neg (hspine.mp hx)]
    cases matching <;> rfl
  · rw [if_neg hx, if_pos (not_not.mp fun h => hx (hspine.mpr h))]
    cases matching <;> rfl

structure SelectLoop (load : RouteLoad) (switchp : Node) (doSpineCheck selectBest : Bool)
    (l : List FoundPort) (s : SelectState) : Prop where
  matching : s.matching = (doSpineCheck && l.any (FoundPort.isSpine switchp))
  selected : Selected load switchp selectBest (considered switchp doSpineCheck l) s

theorem any_append_single (l : List FoundPort) (x : FoundPort) :
    (l ++ [x]).any (FoundPort.isSpine switchp) =
      (l.any (FoundPort.isSpine switchp) || x.isSpine switchp) := by
  rw [List.any_append, List.any_cons, List.any_nil, Bool.or_false]

theorem considered_none {l : List FoundPort} (h : l.any (FoundPort.isSpine switchp) = false) :
    considered switchp true l = l := by
  rw [considered, h, Bool.true_and, if_neg Bool.false_ne_true]

theorem considered_spines {l : List FoundPort} (h : l.any (FoundPort.isSpine switchp) = true) :
    considered switchp true l = l.filter (FoundPort.isSpine switchp) := by
  rw [considered, h, Bool.true_and, if_pos rfl]

theorem considerPort_matching (entry : SwitchportToNextGuid) (curSpeed lids swLids : Nat) :
    (considerPort selectBest entry curSpeed lids swLids s).matching = s.matching := by
  unfold considerPort
  split_ifs <;> rfl

theorem SelectLoop.step {doSpineCheck : Bool} {l : List FoundPort}
    (h : SelectLoop load switchp doSpineCheck selectBest l s) (x : FoundPort) :
    SelectLoop load switchp doSpineCheck selectBest (l ++ [x])
      (selectFound load switchp doSpineCheck selectBest s x) := by
  obtain ⟨hmatching, hsel⟩ := h
  unfold selectFound
  cases doSpineCheck with
  | false =>
    rw [if_neg Bool.false_ne_true]
    constructor
    · show (considerPort _ _ _ _ _ _).matching = _
      rw [considerPort_matching, hmatching, Bool.false_and, Bool.false_and]
    · exact (hsel.of_matching _).consider x
  | true =>
    rw [if_pos rfl, spineFirstTest_eq, hmatching, Bool.true_and]
    by_cases hx : x.isSpine switchp = true
    · rw [if_pos hx]
      have hany' : (l ++ [x]).any (FoundPort.isSpine switchp) = true := by
        rw [any_append_single, hx, Bool.or_true]
      cases hany : l.any (FoundPort.isSpine switchp) with
      | true =>
        have hC : considered switchp true (l ++ [x]) = considered switchp true l ++ [x] := by
          rw [considered_spines hany', considered_spines hany, List.filter_append,
            List.filter_cons_of_pos hx]
          rfl
        rw [if_pos rfl]
        constructor
        · show (considerPort _ _ _ _ _ _).matching = _
          rw [considerPort_matching, hany', Bool.true_and]
        · rw [hC]
          exact (hsel.of_matching _).consider x
      | false =>
        have hC : considered switchp true (l ++ [x]) = [] ++ [x] := by
          have hnone : l.filter (FoundPort.isSpine switchp) = [] :=
            List.filter_eq_nil_iff.mpr (List.any_eq_false.mp hany)
          rw [considered_spines hany', List.filter_append, hnone, List.filter_cons_of_pos hx]
          rfl
        rw [if_neg Bool.false_ne_true]
        constructor
        · show true = _
          rw [hany', Bool.true_and]
        · rw [hC]
          exact .takes (fun y hy => absurd hy List.not_mem_nil) rfl rfl rfl rfl
    · rw [if_neg hx]
      have hx' : x.isSpine switchp = false := Bool.not_eq_true _ ▸ hx
      have hany' : (l ++ [x]).any (FoundPort.isSpine switchp) =
          l.any (FoundPort.isSpine switchp) := by
        rw [any_append_single, hx', Bool.or_false]
      cases hany : l.any (FoundPort.isSpine switchp) with
      | true =>
        have hC : considered switchp true (l ++ [x]) = considered switchp true l := by
          rw [considered_spines (hany'.trans hany), considered_spines hany, List.filter_append,
            List.filter_cons_of_neg hx, List.filter_nil, List.append_nil]
        rw [if_pos rfl]
        constructor
        · show true = _
          rw [hany', hany, Bool.true_and]
        · rw [hC]
          exact hsel.of_matching _
      | false =>
        have hC : considered switchp true (l ++ [x]) = considered switchp true l ++ [x] := by
          rw [considered_none (hany'.trans hany), considered_none hany]
        rw [if_neg Bool.false_ne_true]
        constructor
        · show (considerPort _ _ _ _ _ _).matching = _
          rw [considerPort_matching, hany', hany, Bool.true_and]
        · rw [hC]
          exact (hsel.of_matching _).consider x

theorem SelectLoop.run {doSpineCheck : Bool} (l : List FoundPort) :
    SelectLoop load switchp doSpineCheck selectBest l
      (l.foldl (selectFound load switchp doSpineCheck selectBest) {}) := by
  induction l using List.reverseRecOn with
  | nil =>
    constructor
    · rw [List.any_nil, Bool.and_false]
      rfl
    · have hC : considered switchp doSpineCheck [] = [] := by
        rw [considered, List.any_nil, Bool.and_false, if_neg Bool.false_ne_true]
      rw [hC]
      have htop : TopSpeed [] 0 :=
        ⟨fun _ => rfl, fun h => absurd rfl h, fun x hx => absurd hx List.not_mem_nil⟩
      exact ⟨htop, fun _ => rfl, fun _ => rfl, fun _ h => absurd rfl h⟩
  | append_singleton l x ih =>
    rw [List.foldl_append]
    exact ih.step x

/-! ## The selection -/

/-- The ports of a mask that can be used: valid and up, and a known node other than the switch at
the other end. -/
def usablePorts (topop : Topology) (switchp : Node) (mask : Finset Nat) : List FoundPort :=
  (maskPorts mask).filterMap (maskedPort topop switchp)

/-- What a selection of one port and one of all ports should be, where `C` are the ports that
count. -/
structure SelectsBest (load : RouteLoad) (switchp : Node) (usable C : List FoundPort)
    (one all : List SwitchportToNextGuid) : Prop where
  single : one.length ≤ 1
  nonempty : one ≠ [] ↔ usable ≠ []
  best : ∀ e ∈ one, ∃ x ∈ C, e = x.entry ∧ ∀ y ∈ C, x.AtLeast load switchp y
  fastest : all = (C.filter fun x => ∀ y ∈ C, y.speed ≤ x.speed).map FoundPort.entry
  nodup : (all.map fun e => e.portp.index).Nodup

variable (topop : Topology) (path : Nat → Nat → Finset Nat) (doSpineCheck : Bool) (j : Nat)

theorem foldl_selectPort (ports : List Nat) (s : SelectState) :
    ports.foldl (selectPort topop load doSpineCheck selectBest switchp) s =
      (ports.filterMap (maskedPort topop switchp)).foldl
        (selectFound load switchp doSpineCheck selectBest) s := by
  induction ports generalizing s with
  | nil => rfl
  | cons p ports ih =>
    cases h : maskedPort topop switchp p with
    | none => rw [List.foldl_cons, selectPort_none load switchp h, List.filterMap_cons_none h, ih]
    | some x =>
      rw [List.foldl_cons, selectPort_some load switchp h, List.filterMap_cons_some h,
        List.foldl_cons, ih]

variable (load switchp selectBest) in
theorem selectLoop_ports :
    ∃ s, SelectLoop load switchp doSpineCheck selectBest
        (usablePorts topop switchp (path switchp.swIdx j)) s ∧
      smRoutingFuncSelectPorts topop path load doSpineCheck switchp j selectBest =
        s.orderedPorts :=
  ⟨_, SelectLoop.run _,
    congrArg SelectState.orderedPorts (foldl_selectPort topop doSpineCheck _ {})⟩

variable (switchp) in
theorem considered_eq_nil_iff (l : List FoundPort) :
    considered switchp doSpineCheck l = [] ↔ l = [] := by
  unfold considered
  split_ifs with h
  · obtain ⟨-, hany⟩ := Bool.and_eq_true_iff.mp h
    obtain ⟨x, hx, hspine⟩ := List.any_eq_true.mp hany
    constructor
    · exact fun hnil => absurd hspine (List.filter_eq_nil_iff.mp hnil x hx)
    · exact fun hnil => absurd hx (hnil ▸ List.not_mem_nil)
  · exact Iff.rfl

theorem TopSpeed.filter_eq {C : List FoundPort} {best : Nat} (h : TopSpeed C best) :
    (C.filter fun x => x.speed = best) = C.filter fun x => ∀ y ∈ C, y.speed ≤ x.speed := by
  apply List.filter_congr
  intro x hx
  rw [decide_eq_decide]
  constructor
  · exact fun heq y hy => heq ▸ h.speed y hy
  · intro hall
    obtain ⟨y, hy, hspeed⟩ := h.fastest (List.ne_nil_of_mem hx)
    exact Nat.le_antisymm (h.speed x hx) (hspeed ▸ hall y hy)

variable (load switchp) in
/-- With the spine check, and a spine among the ports, only the spines count; among the ports that
count the selection is that of the best port, and of all the fastest ones. -/
theorem smRoutingFuncSelectPorts_selectsBest (hindex : ∀ i, (switchp.port i).index = i) :
    SelectsBest load switchp (usablePorts topop switchp (path switchp.swIdx j))
      (considered switchp doSpineCheck (usablePorts topop switchp (path switchp.swIdx j)))
      (smRoutingFuncSelectPorts topop path load doSpineCheck switchp j true)
      (smRoutingFuncSelectPorts topop path load doSpineCheck switchp j false) := by
  obtain ⟨s, hone, hs⟩ := selectLoop_ports load switchp true topop path doSpineCheck j
  obtain ⟨s', hall, hs'⟩ := selectLoop_ports load switchp false topop path doSpineCheck j
  have hnil := considered_eq_nil_iff switchp doSpineCheck
    (usablePorts topop switchp (path switchp.swIdx j))
  constructor
  case single =>
    rw [hs]
    by_cases hC : considered switchp doSpineCheck
        (usablePorts topop switchp (path switchp.swIdx j)) = []
    · rw [hone.selected.empty hC]
      exact Nat.zero_le _
    · obtain ⟨b, -, hports, -⟩ := hone.selected.best rfl hC
      rw [hports]
      exact Nat.le_refl _
  case nonempty =>
    rw [hs, Ne, Ne, not_iff_not, ← hnil]
    constructor
    · intro hempty
      by_contra hC
      obtain ⟨b, -, hports, -⟩ := hone.selected.best rfl hC
      rw [hports] at hempty
      exact List.cons_ne_nil _ _ hempty
    · exact hone.selected.empty
  case best =>
    intro e he
    rw [hs] at he
    have hC : considered switchp doSpineCheck
        (usablePorts topop switchp (path switchp.swIdx j)) ≠ [] := by
      intro hC
      rw [hone.selected.empty hC] at he
      exact List.not_mem_nil he
    obtain ⟨b, hb, hports, -, -, -, hbest⟩ := hone.selected.best rfl hC
    rw [hports] at he
    exact ⟨b, hb, List.mem_singleton.mp he, hbest⟩
  case fastest => rw [hs', hall.selected.all rfl, hall.selected.top.filter_eq]
  case nodup => exact nodup_selectPorts topop path doSpineCheck switchp hindex load j false

end

/-! ## Where a spine hides a faster port -/

def spineAndFaster : Topology where
  nodes := [{ index := 0, swIdx := 0, systemImageGuid := 1 },
    { index := 1, swIdx := 1, nodeGuid := 2, systemImageGuid := 1 },
    { index := 2, swIdx := 2, nodeGuid := 3, systemImageGuid := 3 }]
  maxSws := 3

def leafPort (i : Nat) : Port where
  index := i
  state := .active
  nodeno := some i
  portData := some { linkWidth := if i = 1 then .x2 else .x4 }

def spineLeaf : Node where
  index := 0
  numPorts := 2
  port := leafPort

theorem leaf_selection :
    (smRoutingFuncSelectPorts spineAndFaster (fun _ _ => {1, 2}) {} true spineLeaf 2 false).map
      (fun e => e.portp.index) = [1] := by
  decide

/-- With the spine check the fastest ports are not always those that are selected. -/
theorem not_selects_all_fastest :
    ¬∀ (topop : Topology) (path : Nat → Nat → Finset Nat) (load : RouteLoad) (doSpineCheck : Bool)
      (switchp : Node) (j : Nat), (∀ i, (switchp.port i).index = i) →
      smRoutingFuncSelectPorts topop path load doSpineCheck switchp j false =
        ((usablePorts topop switchp (path switchp.swIdx j)).filter fun x =>
          ∀ y ∈ usablePorts topop switchp (path switchp.swIdx j), y.speed ≤ x.speed).map
            FoundPort.entry := by
  intro hall
  have h := congrArg (List.map fun e => e.portp.index)
    (hall spineAndFaster (fun _ _ => {1, 2}) {} true spineLeaf 2 fun _ => rfl)
  rw [leaf_selection] at h
  revert h
  decide

theorem leaf_selectsBest :
    SelectsBest {} spineLeaf (usablePorts spineAndFaster spineLeaf {1, 2})
      (considered spineLeaf true (usablePorts spineAndFaster spineLeaf {1, 2}))
      (smRoutingFuncSelectPorts spineAndFaster (fun _ _ => {1, 2}) {} true spineLeaf 2 true)
      (smRoutingFuncSelectPorts spineAndFaster (fun _ _ => {1, 2}) {} true spineLeaf 2 false) :=
  smRoutingFuncSelectPorts_selectsBest {} spineLeaf spineAndFaster (fun _ _ => {1, 2}) true 2
    fun _ => rfl

end OpaFm.Routing
