import OpaFm.Dor.ScScMap
import OpaFm.Lib.Fold

/-!
# What the SC to SC maps do

The blocks of a switch give every pair of ports the map of its turn, whatever was written
before, and the maps move a packet between the two SCs of its service level.
-/

namespace OpaFm.Dor

open OpaFm.Lib

/-! ## Two SCs for a service level -/

namespace ScTables

variable {q : ScTables} {sl j first second : Fin 32}

structure RoutingSCs (q : ScTables) (sl first second : Fin 32) : Prop where
  inUse : q.linkSLsInuse sl = true
  first_eq : q.slToSC sl = first
  second_eq : (scsAfter first).find? (fun j => q.scToSL j = some sl) = some second

namespace RoutingSCs

variable (h : q.RoutingSCs sl first second)

include h

theorem scToSL_first : q.scToSL first = some sl := by
  rw [← h.first_eq]
  exact q.scToSL_slToSC sl h.inUse

theorem scToSL_second : q.scToSL second = some sl := by
  have hfound := List.find?_some h.second_eq
  exact of_decide_eq_true hfound

theorem first_lt_second : first < second := by
  have hmem := List.mem_of_find?_eq_some h.second_eq
  unfold scsAfter at hmem
  exact of_decide_eq_true (List.mem_filter.mp hmem).2

theorem scscNoChg_first : q.scscNoChg first = first := by
  simp [scscNoChg, h.scToSL_first, h.inUse]

theorem scscNoChg_second : q.scscNoChg second = second := by
  simp [scscNoChg, h.scToSL_second, h.inUse]

end RoutingSCs

theorem pairSCs_two (js : List (Fin 32)) (maps : ScscMap × ScscMap) :
    q.pairSCs 2 sl js (some first) 0 maps =
      match js.find? fun j => q.scToSL j = some sl with
      | some j => (Function.update (Function.update maps.1 j first) first first,
          Function.update (Function.update maps.2 j j) first j)
      | none => maps := by
  induction js with
  | nil => rfl
  | cons j js ih =>
    unfold pairSCs
    by_cases hj : q.scToSL j = some sl
    · simp [hj]
    · simp [hj, ih]

structure PairMaps (first second : Fin 32) (maps : ScscMap × ScscMap) : Prop where
  zero_first : maps.1 first = first
  zero_second : maps.1 second = first
  plus_first : maps.2 first = second
  plus_second : maps.2 second = second

theorem RoutingSCs.pairMaps (h : q.RoutingSCs sl first second) :
    PairMaps first second (q.routingMaps 2) := by
  have hne : second ≠ first := h.first_lt_second.ne'
  unfold routingMaps
  rw [if_pos (by decide)]
  apply (@foldl_establishes _ _ Unit _ (fun _ => True) (fun maps _ => PairMaps first second maps)
    (fun i _ => i = sl) _ ?_ _ trivial).2 ()
  · exact .inr ⟨sl, List.mem_finRange sl, rfl⟩
  · intro i _ maps _
    refine ⟨trivial, fun _ hmaps => ?_⟩
    by_cases hi : i = sl
    · -- its own turn
      subst hi
      simp only [h.inUse, if_true, h.first_eq, pairSCs_two, h.second_eq]
      constructor <;> simp [hne]
    · have hmaps := hmaps.resolve_right hi
      split
      next hin =>
        -- the other service levels have other SCs
        have hother : ∀ j, q.scToSL j = some i → j ≠ first ∧ j ≠ second := by
          intro j hj
          constructor
          · rintro rfl
            rw [h.scToSL_first] at hj
            exact hi (Option.some.inj hj).symm
          · rintro rfl
            rw [h.scToSL_second] at hj
            exact hi (Option.some.inj hj).symm
        obtain ⟨hf1, hf2⟩ := hother (q.slToSC i) (q.scToSL_slToSC i hin)
        rw [pairSCs_two]
        split
        next j hj =>
          have hji : q.scToSL j = some i := by simpa using List.find?_some hj
          obtain ⟨hj1, hj2⟩ := hother j hji
          constructor <;>
            simp [hf1.symm, hf2.symm, hj1.symm, hj2.symm, hmaps.zero_first, hmaps.zero_second,
              hmaps.plus_first, hmaps.plus_second]
        next =>
          constructor <;>
            simp [hf1.symm, hf2.symm, hmaps.zero_first, hmaps.zero_second, hmaps.plus_first,
              hmaps.plus_second]
      next => exact hmaps

end ScTables

/-! ## Blocks -/

namespace DorSwitch

variable {n D : Nat} {sw : DorSwitch n} {c : SmDorRouting D} {q : ScTables} {force : Bool}
  {datelineSwitch : Fin D → Bool} {i k : Fin D} {p p' p1 p2 r r' : Nat}

theorem writeScsc_eq {blocks : List ScscMultiset} {want : ScscMap}
    (hblocks : ∀ b ∈ blocks, p1 ∈ b.ingressPortMask → p2 ∈ b.egressPortMask → b.scscMap = want)
    (hcover : (sw.port p1).scscMap p2 = want ∨
      ∃ b ∈ blocks, p1 ∈ b.ingressPortMask ∧ p2 ∈ b.egressPortMask) :
    sw.writeScsc blocks p1 p2 = want := by
  apply (@foldl_establishes _ _ Unit _ (fun _ => True) (fun m _ => m = want)
    (fun b _ => p1 ∈ b.ingressPortMask ∧ p2 ∈ b.egressPortMask) _ ?_ _ trivial).2 ()
  · exact hcover
  · intro b hb m _
    refine ⟨trivial, fun _ hfact => ?_⟩
    split
    next hin => exact hblocks b hb hin.1 hin.2
    next hin => exact hfact.resolve_right hin

theorem portDim_eq_some (h : sw.portDim c p = some i) :
    p ∈ sw.physicalPorts ∧ sw.usable p = true ∧ (sw.port p).isIsl = true ∧
      c.getConfiguredDimensionForPort p = some i := by
  unfold portDim at h
  split at h
  next hisl =>
    simp only [Bool.and_eq_true, decide_eq_true_eq] at hisl
    exact ⟨hisl.1.1, hisl.1.2, hisl.2, h⟩
  next => cases h

theorem portPos_eq (h : sw.portDim c p = some i) : sw.portPos c p = 1 ∨ sw.portPos c p = 2 := by
  obtain ⟨-, -, -, hdim⟩ := portDim_eq_some h
  obtain ⟨hany, -⟩ := Fin.find?_eq_some_iff.mp hdim
  unfold portPos SmDorRouting.getConfiguredPortPosInDim
  rw [h]
  simp only
  split
  next pair _ =>
    split
    · exact .inl rfl
    · exact .inr rfl
  next hnone =>
    rw [List.find?_eq_none] at hnone
    obtain ⟨pair, hmem, hpair⟩ := List.any_eq_true.mp hany
    exact absurd hpair (hnone pair hmem)

section

variable {dl : Bool} {pos1 pos2 : Nat}

theorem turn_of_lt (h : k < i) : turn c q i dl pos1 k pos2 = (.illegalTurn, q.scscBadTurn c.routingSCs) :=
  if_pos h

theorem turn_of_mesh (h : ¬k < i) (hmesh : c.topology = .mesh) :
    turn c q i dl pos1 k pos2 = (.changeDim, q.scscNoChg) := by
  unfold turn
  rw [if_neg h, if_pos hmesh]

theorem turn_of_gt (h : i < k) (hmesh : c.topology ≠ .mesh) :
    turn c q i dl pos1 k pos2 = (.changeDim, q.scsc0 c.routingSCs) := by
  unfold turn
  rw [if_neg h.not_gt, if_neg hmesh, if_pos h]

theorem turn_same (hmesh : c.topology ≠ .mesh) :
    turn c q i false pos1 i pos2 = (.sameDim1, q.scscNoChg) := by
  unfold turn
  rw [if_neg (lt_irrefl i), if_neg hmesh, if_neg (lt_irrefl i)]
  rfl

theorem turn_dateline (hmesh : c.topology ≠ .mesh) :
    turn c q i true pos1 i pos2 =
      if pos1 ≠ pos2 then
        (if pos1 = 1 then .crossDateline1 else .crossDateline2, q.scscPlus1 c.routingSCs)
      else (if pos1 = 1 then .sameDim1 else .sameDim2, q.scscNoChg) := by
  unfold turn
  rw [if_neg (lt_irrefl i), if_neg hmesh, if_neg (lt_irrefl i)]
  rfl

theorem turn_same_kind {dl : Bool} (hmesh : c.topology ≠ .mesh) :
    (turn c q i dl pos1 i pos2).1 ≠ .illegalTurn ∧ (turn c q i dl pos1 i pos2).1 ≠ .changeDim := by
  cases dl with
  | false => simp [turn_same hmesh]
  | true =>
    rw [turn_dateline hmesh]
    split_ifs <;> simp

end

theorem turn_snd (c : SmDorRouting D) (q : ScTables) (i : Fin D) (dl : Bool) (pos1 : Nat) (k : Fin D)
    (pos2 : Nat) :
    (turn c q i dl pos1 k pos2).2 =
      match (turn c q i dl pos1 k pos2).1 with
      | .illegalTurn => q.scscBadTurn c.routingSCs
      | .changeDim => if c.topology = .mesh then q.scscNoChg else q.scsc0 c.routingSCs
      | .crossDateline1 | .crossDateline2 => q.scscPlus1 c.routingSCs
      | .sameDim1 | .sameDim2 => q.scscNoChg := by
  unfold turn
  split_ifs <;> simp_all

theorem turnOf_rect (hp : sw.portDim c p = some i) (hp' : sw.portDim c p' = some i)
    (hr : (sw.portDim c r).isSome) (hr' : (sw.portDim c r').isSome)
    (h : (sw.turnOf c q datelineSwitch i p r).1 = (sw.turnOf c q datelineSwitch i p' r').1) :
    sw.turnOf c q datelineSwitch i p r' = sw.turnOf c q datelineSwitch i p r := by
  obtain ⟨k, hk⟩ := Option.isSome_iff_exists.mp hr
  obtain ⟨k', hk'⟩ := Option.isSome_iff_exists.mp hr'
  have hposp := portPos_eq hp
  have hposp' := portPos_eq hp'
  have hposr := portPos_eq hk
  have hposr' := portPos_eq hk'
  unfold turnOf at h ⊢
  simp only [hk, hk', Option.getD_some] at h ⊢
  by_cases hmesh : c.topology = .mesh
  · by_cases hlt : k < i <;> by_cases hlt' : k' < i <;>
      simp_all [turn_of_lt, turn_of_mesh]
  · rcases lt_trichotomy k i with hlt | heq | hgt
    · rw [turn_of_lt hlt] at h ⊢
      rcases lt_trichotomy k' i with hlt' | heq' | hgt'
      · rw [turn_of_lt hlt']
      · rw [heq'] at h
        exact absurd h.symm (turn_same_kind hmesh).1
      · rw [turn_of_gt hgt' hmesh] at h
        cases h
    · rw [heq] at h ⊢
      rcases lt_trichotomy k' i with hlt' | heq' | hgt'
      · rw [turn_of_lt hlt'] at h
        exact absurd h (turn_same_kind hmesh).1
      · rw [heq'] at h ⊢
        cases hdl : datelineSwitch i with
        | false => rw [turn_same hmesh, turn_same hmesh]
        | true =>
          rw [hdl, turn_dateline hmesh, turn_dateline hmesh] at h
          rw [turn_dateline hmesh, turn_dateline hmesh]
          split_ifs at h ⊢ <;> first | rfl | omega
      · rw [turn_of_gt hgt' hmesh] at h
        exact absurd h (turn_same_kind hmesh).2
    · rw [turn_of_gt hgt hmesh] at h ⊢
      rcases lt_trichotomy k' i with hlt' | heq' | hgt'
      · rw [turn_of_lt hlt'] at h
        cases h
      · rw [heq'] at h
        exact absurd h.symm (turn_same_kind hmesh).2
      · rw [turn_of_gt hgt' hmesh]

/-! ## The blocks of a dimension -/

structure BlocksOf (sw : DorSwitch n) (c : SmDorRouting D) (q : ScTables)
    (datelineSwitch : Fin D → Bool) (i : Fin D) (blocks : List (TurnKind × ScscMultiset)) : Prop where
  ingress : ∀ b ∈ blocks, ∀ p ∈ b.2.ingressPortMask, sw.portDim c p = some i
  egress : ∀ b ∈ blocks, ∀ r ∈ b.2.egressPortMask, (sw.portDim c r).isSome
  turn : ∀ b ∈ blocks, ∀ p ∈ b.2.ingressPortMask, ∀ r ∈ b.2.egressPortMask,
    sw.turnOf c q datelineSwitch i p r = (b.1, b.2.scscMap)
  nonempty : ∀ b ∈ blocks, b.2.ingressPortMask ≠ [] ∧ b.2.egressPortMask ≠ []

theorem mem_addTurn {t : TurnKind} {m : ScscMap} {blocks : List (TurnKind × ScscMultiset)}
    {b' : TurnKind × ScscMultiset} (h : b' ∈ addTurn t m p r blocks) :
    b' ∈ blocks ∨ (b' = (t, { ingressPortMask := [p], egressPortMask := [r], scscMap := m })) ∨
      ∃ b, (t, b) ∈ blocks ∧ b' = (t, { b with
        ingressPortMask := p :: b.ingressPortMask
        egressPortMask := r :: b.egressPortMask }) := by
  induction blocks with
  | nil => exact .inr (.inl (List.mem_singleton.mp h))
  | cons b₀ blocks ih =>
    obtain ⟨t₀, b₀⟩ := b₀
    unfold addTurn at h
    split at h
    next heq =>
      subst heq
      rcases List.mem_cons.mp h with rfl | h
      · exact .inr (.inr ⟨b₀, .head _, rfl⟩)
      · exact .inl (.tail _ h)
    next =>
      rcases List.mem_cons.mp h with rfl | h
      · exact .inl (.head _)
      · rcases ih h with hold | hnew | ⟨b, hb, hb'⟩
        · exact .inl (.tail _ hold)
        · exact .inr (.inl hnew)
        · exact .inr (.inr ⟨b, .tail _ hb, hb'⟩)

def Covered (blocks : List (TurnKind × ScscMultiset)) (p r : Nat) : Prop :=
  ∃ b ∈ blocks, p ∈ b.2.ingressPortMask ∧ r ∈ b.2.egressPortMask

theorem covered_addTurn_self (t : TurnKind) (m : ScscMap) (p r : Nat)
    (blocks : List (TurnKind × ScscMultiset)) : Covered (addTurn t m p r blocks) p r := by
  induction blocks with
  | nil => exact ⟨_, .head _, .head _, .head _⟩
  | cons b blocks ih =>
    unfold addTurn
    split
    · exact ⟨_, .head _, .head _, .head _⟩
    · obtain ⟨b', hb', hin⟩ := ih
      exact ⟨b', .tail _ hb', hin⟩

theorem Covered.addTurn {blocks : List (TurnKind × ScscMultiset)} (h : Covered blocks p r)
    (t : TurnKind) (m : ScscMap) (p' r' : Nat) : Covered (addTurn t m p' r' blocks) p r := by
  induction blocks with
  | nil =>
    obtain ⟨b, hb, -⟩ := h
    cases hb
  | cons b₀ blocks ih =>
    obtain ⟨b, hb, hp, hr⟩ := h
    unfold DorSwitch.addTurn
    split
    next =>
      rcases List.mem_cons.mp hb with rfl | hb
      · exact ⟨_, .head _, .tail _ hp, .tail _ hr⟩
      · exact ⟨b, .tail _ hb, hp, hr⟩
    next =>
      rcases List.mem_cons.mp hb with rfl | hb
      · exact ⟨_, .head _, hp, hr⟩
      · obtain ⟨b', hb', hin⟩ := ih ⟨b, hb, hp, hr⟩
        exact ⟨b', .tail _ hb', hin⟩

theorem BlocksOf.addTurn {blocks : List (TurnKind × ScscMultiset)}
    (h : BlocksOf sw c q datelineSwitch i blocks) (hp : sw.portDim c p = some i)
    (hr : (sw.portDim c r).isSome) {t : TurnKind} {m : ScscMap}
    (ht : sw.turnOf c q datelineSwitch i p r = (t, m)) :
    BlocksOf sw c q datelineSwitch i (addTurn t m p r blocks) := by
  constructor
  · intro b' hb' p' hp'
    rcases mem_addTurn hb' with hold | rfl | ⟨b, hb, rfl⟩
    · exact h.ingress b' hold p' hp'
    · rwa [List.mem_singleton.mp hp']
    · rcases List.mem_cons.mp hp' with rfl | hp'
      · exact hp
      · exact h.ingress _ hb p' hp'
  · intro b' hb' r' hr'
    rcases mem_addTurn hb' with hold | rfl | ⟨b, hb, rfl⟩
    · exact h.egress b' hold r' hr'
    · rwa [List.mem_singleton.mp hr']
    · rcases List.mem_cons.mp hr' with rfl | hr'
      · exact hr
      · exact h.egress _ hb r' hr'
  · intro b' hb' p' hp' r' hr'
    rcases mem_addTurn hb' with hold | rfl | ⟨b, hb, rfl⟩
    · exact h.turn b' hold p' hp' r' hr'
    · rwa [List.mem_singleton.mp hp', List.mem_singleton.mp hr']
    · -- a turn of the block and the new one, and the turns between their ports
      obtain ⟨hne, hne'⟩ := h.nonempty _ hb
      obtain ⟨p₀, hp₀⟩ := List.exists_mem_of_ne_nil _ hne
      obtain ⟨r₀, hr₀⟩ := List.exists_mem_of_ne_nil _ hne'
      have hturn : ∀ p' ∈ b.ingressPortMask, ∀ r' ∈ b.egressPortMask,
          sw.turnOf c q datelineSwitch i p' r' = (t, b.scscMap) := h.turn _ hb
      have hingress : ∀ p' ∈ b.ingressPortMask, sw.portDim c p' = some i := h.ingress _ hb
      have hegress : ∀ r' ∈ b.egressPortMask, (sw.portDim c r').isSome := h.egress _ hb
      have hnew : ∀ r' ∈ b.egressPortMask, sw.turnOf c q datelineSwitch i p r' = (t, m) := by
        intro r' hr'
        rw [turnOf_rect hp (hingress p₀ hp₀) hr (hegress r' hr') (by rw [ht, hturn p₀ hp₀ r' hr']), ht]
      have hold : ∀ p' ∈ b.ingressPortMask, sw.turnOf c q datelineSwitch i p' r = (t, b.scscMap) := by
        intro p' hp'
        rw [turnOf_rect (hingress p' hp') hp (hegress r₀ hr₀) hr (by rw [ht, hturn p' hp' r₀ hr₀]),
          hturn p' hp' r₀ hr₀]
      have hmap : m = b.scscMap := by
        have hkind : sw.turnOf c q datelineSwitch i p r = (t, m) := ht
        have hkind₀ := hold p₀ hp₀
        have hsnd := turn_snd c q i (datelineSwitch i) (sw.portPos c p) ((sw.portDim c r).getD i)
          (sw.portPos c r)
        have hsnd₀ := turn_snd c q i (datelineSwitch i) (sw.portPos c p₀) ((sw.portDim c r).getD i)
          (sw.portPos c r)
        unfold turnOf at hkind hkind₀
        rw [hkind] at hsnd
        rw [hkind₀] at hsnd₀
        exact hsnd.trans hsnd₀.symm
      rcases List.mem_cons.mp hp' with rfl | hpold <;> rcases List.mem_cons.mp hr' with rfl | hrold
      · rw [ht, hmap]
      · rw [hnew r' hrold, hmap]
      · exact hold p' hpold
      · exact hturn p' hpold r' hrold
  · intro b' hb'
    rcases mem_addTurn hb' with hold | rfl | ⟨b, hb, rfl⟩
    · exact h.nonempty b' hold
    · exact ⟨List.cons_ne_nil _ _, List.cons_ne_nil _ _⟩
    · exact ⟨List.cons_ne_nil _ _, List.cons_ne_nil _ _⟩

theorem mem_turnsFrom :
    (p, r) ∈ sw.turnsFrom c i ↔ sw.portDim c p = some i ∧ (sw.portDim c r).isSome := by
  have hphys : ∀ {p : Nat} {k : Fin D}, sw.portDim c p = some k → p ∈ sw.physicalPorts :=
    fun h => (portDim_eq_some h).1
  unfold turnsFrom
  simp only [List.mem_flatMap, List.mem_filter, List.mem_map, Prod.mk.injEq, decide_eq_true_eq]
  constructor
  · rintro ⟨_, ⟨-, hp⟩, _, ⟨-, hr⟩, rfl, rfl⟩
    exact ⟨hp, hr⟩
  · rintro ⟨hp, hr⟩
    obtain ⟨k, hk⟩ := Option.isSome_iff_exists.mp hr
    exact ⟨p, ⟨hphys hp, hp⟩, r, ⟨hphys hk, hr⟩, rfl, rfl⟩

theorem dimensionTurns_spec (sw : DorSwitch n) (c : SmDorRouting D) (q : ScTables) (force : Bool)
    (datelineSwitch : Fin D → Bool) (i : Fin D) (turns : List (Nat × Nat))
    (hturns : ∀ t ∈ turns, sw.portDim c t.1 = some i ∧ (sw.portDim c t.2).isSome) :
    BlocksOf sw c q datelineSwitch i (sw.dimensionTurns c q force datelineSwitch i turns) ∧
      ∀ t ∈ turns, sw.needsSet force (sw.turnOf c q datelineSwitch i t.1 t.2).2 t.1 t.2 = true →
        Covered (sw.dimensionTurns c q force datelineSwitch i turns) t.1 t.2 := by
  have hempty : BlocksOf sw c q datelineSwitch i [] :=
    ⟨fun _ h => (nomatch h), fun _ h => (nomatch h), fun _ h => (nomatch h), fun _ h => (nomatch h)⟩
  have hloop := @foldl_establishes _ _ (Nat × Nat)
    (fun blocks p =>
      let t := sw.turnOf c q datelineSwitch i p.1 p.2
      if sw.needsSet force t.2 p.1 p.2 then addTurn t.1 t.2 p.1 p.2 blocks else blocks)
    (BlocksOf sw c q datelineSwitch i) (fun blocks t => Covered blocks t.1 t.2)
    (fun a t => a = t ∧ sw.needsSet force (sw.turnOf c q datelineSwitch i t.1 t.2).2 t.1 t.2 = true)
    turns ?_ [] hempty
  · exact ⟨hloop.1, fun t ht hneeds => hloop.2 t (.inr ⟨t, ht, rfl, hneeds⟩)⟩
  · intro a ha blocks hblocks
    obtain ⟨hp, hr⟩ := hturns a ha
    simp only
    split
    next hset =>
      refine ⟨hblocks.addTurn hp hr rfl, fun t ht => ?_⟩
      rcases ht with hold | ⟨rfl, -⟩
      · exact hold.addTurn _ _ _ _
      · exact covered_addTurn_self _ _ _ _ _
    next hset =>
      refine ⟨hblocks, fun t ht => ht.resolve_right ?_⟩
      rintro ⟨rfl, hneeds⟩
      exact hset hneeds

/-! ## The maps of a switch -/

theorem map_eq_of_not_needsSet {m : ScscMap} (h : ¬sw.needsSet force m p r = true) :
    (sw.port p).scscMap r = m := by
  unfold needsSet at h
  simp only [Bool.or_eq_true, decide_eq_true_eq, not_or, not_not] at h
  exact h.2

theorem mem_pairBlocks {m : ScscMap} {ingress egress : Nat → Bool} {b : ScscMultiset}
    (hb : b ∈ sw.pairBlocks force m ingress egress) :
    (∀ p ∈ b.ingressPortMask, ingress p = true) ∧ ∀ r ∈ b.egressPortMask, egress r = true := by
  unfold pairBlocks at hb
  simp only at hb
  split at hb
  next => cases hb
  next =>
    rw [List.mem_singleton.mp hb]
    simp only [List.mem_map, List.mem_flatMap, List.mem_filter, Prod.exists]
    constructor
    · rintro p ⟨p', r, ⟨_, ⟨-, hin⟩, _, -, heq⟩, rfl⟩
      cases heq
      exact hin
    · rintro r ⟨p', r', ⟨_, -, _, ⟨⟨-, hout⟩, -⟩, heq⟩, rfl⟩
      cases heq
      exact hout

theorem writeScsc_of_isl (hscs : 1 < c.routingSCs) (hp : sw.portDim c p = some i)
    (hr : (sw.portDim c r).isSome) :
    sw.writeScsc (sw.generateScscMap c q force datelineSwitch) p r =
      (sw.turnOf c q datelineSwitch i p r).2 := by
  obtain ⟨k, hk⟩ := Option.isSome_iff_exists.mp hr
  obtain ⟨-, -, hisl, -⟩ := portDim_eq_some hp
  obtain ⟨-, -, hislr, -⟩ := portDim_eq_some hk
  have hone : c.routingSCs ≠ 1 := by omega
  have hspec := fun i => dimensionTurns_spec sw c q force datelineSwitch i (sw.turnsFrom c i)
    fun t ht => mem_turnsFrom.mp ht
  unfold generateScscMap
  rw [if_neg hone]
  apply writeScsc_eq
  · intro b hb hpb hrb
    rcases List.mem_append.mp hb with hb | hb
    · unfold hostBlocks at hb
      split at hb
      · cases hb
      · rw [List.mem_singleton.mp hb] at hpb
        unfold hostIngress at hpb
        rw [List.mem_filter] at hpb
        simp [hisl, hscs] at hpb
    · rcases List.mem_append.mp hb with hb | hb
      · have hout := (mem_pairBlocks hb).2 r hrb
        simp [hislr] at hout
      · obtain ⟨i', -, hb⟩ := List.mem_flatMap.mp hb
        obtain ⟨b', hb', rfl⟩ := List.mem_map.mp hb
        have hblocks := (hspec i').1
        have hi' := hblocks.ingress b' hb' p hpb
        rw [hp] at hi'
        cases hi'
        rw [hblocks.turn b' hb' p hpb r hrb]
  · by_cases hneeds : sw.needsSet force (sw.turnOf c q datelineSwitch i p r).2 p r = true
    · obtain ⟨b, hb, hpb, hrb⟩ := (hspec i).2 (p, r) (mem_turnsFrom.mpr ⟨hp, hr⟩) hneeds
      refine .inr ⟨b.2, ?_, hpb, hrb⟩
      apply List.mem_append_right
      apply List.mem_append_right
      exact List.mem_flatMap.mpr ⟨i, List.mem_finRange i, List.mem_map.mpr ⟨b, hb, rfl⟩⟩
    · exact .inl (map_eq_of_not_needsSet hneeds)

theorem writeScsc_of_host (hp : p ∈ sw.physicalPorts) (huse : sw.usable p = true)
    (hhost : (sw.port p).isIsl = false) (hr : r ∈ sw.physicalPorts) :
    sw.writeScsc (sw.generateScscMap c q force datelineSwitch) p r = q.scscNoChg := by
  unfold generateScscMap
  apply writeScsc_eq
  · intro b hb hpb _
    rcases List.mem_append.mp hb with hb | hb
    · unfold hostBlocks at hb
      split at hb
      · cases hb
      · rw [List.mem_singleton.mp hb]
    · split at hb
      · cases hb
      · rcases List.mem_append.mp hb with hb | hb
        · have hin := (mem_pairBlocks hb).1 p hpb
          simp [hhost] at hin
        · obtain ⟨i, -, hb⟩ := List.mem_flatMap.mp hb
          obtain ⟨b', hb', rfl⟩ := List.mem_map.mp hb
          have hblocks := (dimensionTurns_spec sw c q force datelineSwitch i (sw.turnsFrom c i)
            fun t ht => mem_turnsFrom.mp ht).1
          obtain ⟨-, -, hisl, -⟩ := portDim_eq_some (hblocks.ingress b' hb' p hpb)
          rw [hhost] at hisl
          cases hisl
  · by_cases hold : (sw.port p).scscMap r = q.scscNoChg
    · exact .inl hold
    · have hany : (sw.physicalPorts.any fun i => decide ((sw.port p).scscMap i ≠ q.scscNoChg)) = true :=
        List.any_eq_true.mpr ⟨r, hr, decide_eq_true hold⟩
      have hin : p ∈ sw.hostIngress c q force := by
        unfold hostIngress
        rw [List.mem_filter]
        exact ⟨hp, by simp only [huse, hhost, hany, Bool.true_and, Bool.false_and, Bool.or_true,
          Bool.not_false]⟩
      have hblock : ScscMultiset.mk (sw.hostIngress c q force) sw.physicalPorts q.scscNoChg ∈
          sw.hostBlocks c q force := by
        unfold hostBlocks
        rw [if_neg (List.ne_nil_of_mem hin)]
        exact List.mem_singleton.mpr rfl
      exact .inr ⟨_, List.mem_append_left _ hblock, hin, hr⟩

end DorSwitch

end OpaFm.Dor
