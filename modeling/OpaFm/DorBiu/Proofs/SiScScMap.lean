import OpaFm.DorBiu.SiScScMap
import OpaFm.Dor.Proofs.ScScMap

/-!
# The pairs of ports of a block

Which pairs the multiset blocks of a switch with a BIU link name.
-/

namespace OpaFm.DorBiu

open OpaFm.Dor OpaFm.Dor.DorSwitch

variable {n D : Nat} {sw : DorSwitch n} {c : SmDorRouting D} {q : ScTables} {force : Bool}
  {biuPort : Nat} {datelineSwitch : Fin D → Bool} {i : Fin D} {p r : Nat} {b : ScscMultiset}
  {old m : ScscMap} {ingress egress : Nat → Bool}

theorem mem_setPairs :
    (p, r) ∈ ((sw.physicalPorts.filter ingress).flatMap fun p1 =>
        ((sw.physicalPorts.filter egress).filter (sw.needsSet force old p1)).map fun p2 =>
          (p1, p2)) ↔
      (p ∈ sw.physicalPorts ∧ ingress p = true) ∧ (r ∈ sw.physicalPorts ∧ egress r = true) ∧
        sw.needsSet force old p r = true := by
  simp only [List.mem_flatMap, List.mem_filter, List.mem_map, Prod.mk.injEq]
  constructor
  · rintro ⟨p1, hp, p2, ⟨hr, hneeds⟩, rfl, rfl⟩
    exact ⟨hp, hr, hneeds⟩
  · rintro ⟨hp, hr, hneeds⟩
    exact ⟨p, hp, r, ⟨hr, hneeds⟩, rfl, rfl⟩

theorem mem_setBlocks (hb : b ∈ setBlocks sw force old m ingress egress) :
    b.scscMap = m ∧
      (∀ p ∈ b.ingressPortMask, (p ∈ sw.physicalPorts ∧ ingress p = true) ∧
        ∃ r, (r ∈ sw.physicalPorts ∧ egress r = true) ∧ sw.needsSet force old p r = true) ∧
      ∀ r ∈ b.egressPortMask, (r ∈ sw.physicalPorts ∧ egress r = true) ∧
        ∃ p, (p ∈ sw.physicalPorts ∧ ingress p = true) ∧ sw.needsSet force old p r = true := by
  unfold setBlocks at hb
  dsimp only at hb
  split at hb
  next => cases hb
  next =>
    rw [List.mem_singleton.mp hb]
    refine ⟨rfl, ?_, ?_⟩
    · intro p hp
      obtain ⟨pair, hpair, rfl⟩ := List.mem_map.mp hp
      obtain ⟨hin, hout, hneeds⟩ := mem_setPairs.mp hpair
      exact ⟨hin, pair.2, hout, hneeds⟩
    · intro r hr
      obtain ⟨pair, hpair, rfl⟩ := List.mem_map.mp hr
      obtain ⟨hin, hout, hneeds⟩ := mem_setPairs.mp hpair
      exact ⟨hout, pair.1, hin, hneeds⟩

theorem exists_mem_setBlocks (hneeds : sw.needsSet force old p r = true) (hp : p ∈ sw.physicalPorts)
    (hin : ingress p = true) (hr : r ∈ sw.physicalPorts) (hout : egress r = true) :
    ∃ b ∈ setBlocks sw force old m ingress egress,
      p ∈ b.ingressPortMask ∧ r ∈ b.egressPortMask := by
  have hpair := mem_setPairs.mpr ⟨⟨hp, hin⟩, ⟨hr, hout⟩, hneeds⟩
  unfold setBlocks
  dsimp only
  rw [if_neg (List.ne_nil_of_mem hpair)]
  exact ⟨_, List.mem_singleton.mpr rfl, List.mem_map.mpr ⟨_, hpair, rfl⟩,
    List.mem_map.mpr ⟨_, hpair, rfl⟩⟩

/-! ## Which blocks a pair of ports is in -/

theorem isl_of_mem_hostBlocks (hscs : 1 < c.routingSCs) (hb : b ∈ sw.hostBlocks c q force)
    (hp : p ∈ b.ingressPortMask) : (sw.port p).isIsl = false := by
  unfold hostBlocks at hb
  split at hb
  · cases hb
  · rw [List.mem_singleton.mp hb] at hp
    unfold hostIngress at hp
    have hin := (List.mem_filter.mp hp).2
    cases hisl : (sw.port p).isIsl with
    | false => rfl
    | true => simp [hisl, hscs] at hin

theorem map_of_mem_hostBlocks (hb : b ∈ sw.hostBlocks c q force) : b.scscMap = q.scscNoChg := by
  unfold hostBlocks at hb
  split at hb
  · cases hb
  · rw [List.mem_singleton.mp hb]

theorem host_of_mem_islToHostBlocks (hb : b ∈ sw.islToHostBlocks c q force)
    (hr : r ∈ b.egressPortMask) : (sw.port r).isIsl = false := by
  have hout := (mem_pairBlocks hb).2 r hr
  rw [Bool.and_eq_true, Bool.not_eq_true'] at hout
  exact hout.2

theorem isl_of_mem_islToHostBlocks (hb : b ∈ sw.islToHostBlocks c q force)
    (hp : p ∈ b.ingressPortMask) : (sw.port p).isIsl = true := by
  have hin := (mem_pairBlocks hb).1 p hp
  rw [Bool.and_eq_true] at hin
  exact hin.2

theorem dimensionTurns_blocks (sw : DorSwitch n) (c : SmDorRouting D) (q : ScTables) (force : Bool)
    (datelineSwitch : Fin D → Bool) (i : Fin D) :
    BlocksOf sw c q datelineSwitch i
        (sw.dimensionTurns c q force datelineSwitch i (sw.turnsFrom c i)) ∧
      ∀ t ∈ sw.turnsFrom c i,
        sw.needsSet force (sw.turnOf c q datelineSwitch i t.1 t.2).2 t.1 t.2 = true →
          Covered (sw.dimensionTurns c q force datelineSwitch i (sw.turnsFrom c i)) t.1 t.2 :=
  dimensionTurns_spec sw c q force datelineSwitch i _ fun _ ht => mem_turnsFrom.mp ht

theorem mem_dimensionBlocks
    (hb : b ∈ (List.finRange D).flatMap (sw.dimensionBlocks c q force datelineSwitch))
    (hp : p ∈ b.ingressPortMask) (hr : r ∈ b.egressPortMask) :
    ∃ i, sw.portDim c p = some i ∧ (sw.portDim c r).isSome ∧
      b.scscMap = (sw.turnOf c q datelineSwitch i p r).2 := by
  obtain ⟨i, -, hb⟩ := List.mem_flatMap.mp hb
  obtain ⟨b', hb', rfl⟩ := List.mem_map.mp hb
  have hblocks := (dimensionTurns_blocks sw c q force datelineSwitch i).1
  exact ⟨i, hblocks.ingress b' hb' p hp, hblocks.egress b' hb' r hr,
    by rw [hblocks.turn b' hb' p hp r hr]⟩

end OpaFm.DorBiu
