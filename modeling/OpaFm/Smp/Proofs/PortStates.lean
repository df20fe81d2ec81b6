import OpaFm.Smp.PortStates
import Mathlib.Data.Nat.Bitwise

/-!
# The packets partition the port states

The count of the last packet is a remainder, so the packets are the pieces of the port
states exactly when the number of port states is no multiple of the size of a packet.
-/

namespace OpaFm.Smp

open OpaFm.Lib

theorem portCount_amod (count : Nat) {start : Nat} (h : start < 2 ^ 24) :
    portCount (amod count start) = count % 256 := by
  have hstart : (start % 2 ^ 32) >>> 24 = 0 := by
    rw [Nat.shiftRight_eq_div_pow]
    omega
  unfold portCount amod
  simp only [BitVec.toNat_and, BitVec.toNat_ushiftRight, BitVec.toNat_or, BitVec.toNat_shiftLeft,
    BitVec.toNat_ofNat]
  rw [show (255 % 2 ^ 32 : Nat) = 2 ^ 8 - 1 from rfl, Nat.and_two_pow_sub_one_eq_mod,
    Nat.shiftRight_or_distrib, hstart, Nat.or_zero, Nat.shiftLeft_eq, Nat.shiftRight_eq_div_pow]
  omega

theorem amod_and_mask (count : Nat) {start k : Nat} (hk : k ≤ 24) (h : start < 2 ^ k) :
    (amod count start &&& BitVec.ofNat 32 (2 ^ k - 1)).toNat = start := by
  have hle : 2 ^ k ≤ 2 ^ 24 := Nat.pow_le_pow_right (by decide) hk
  have hcount : count % 2 ^ 32 * 2 ^ 24 % 2 ^ 32 % 2 ^ k = 0 := by
    have hdvd : 2 ^ k ∣ 2 ^ 24 * (count % 2 ^ 32 % 2 ^ 8) :=
      Dvd.dvd.mul_right (Nat.pow_dvd_pow 2 hk) _
    have heq : count % 2 ^ 32 * 2 ^ 24 % 2 ^ 32 = 2 ^ 24 * (count % 2 ^ 32 % 2 ^ 8) := by omega
    rw [heq, Nat.mod_eq_zero_of_dvd hdvd]
  unfold amod
  simp only [BitVec.toNat_and, BitVec.toNat_or, BitVec.toNat_shiftLeft, BitVec.toNat_ofNat]
  rw [Nat.mod_eq_of_lt (show 2 ^ k - 1 < 2 ^ 32 by omega), Nat.and_two_pow_sub_one_eq_mod,
    Nat.or_mod_two_pow, Nat.shiftLeft_eq, hcount, Nat.zero_or,
    Nat.mod_eq_of_lt (show start < 2 ^ 32 by omega), Nat.mod_eq_of_lt h]

theorem firstPort_amod (count : Nat) {start : Nat} (h : start < 256) :
    firstPort (amod count start) = start :=
  amod_and_mask count (show 8 ≤ 24 by decide) h

namespace PsiNode

variable {node : PsiNode} {max : Nat}

structure Packs (node : PsiNode) (max receiver : Nat) (requests : List (BitVec 32)) : Prop where
  counts : ∀ a ∈ requests, 1 ≤ portCount a ∧ portCount a ≤ max
  sum : (requests.map portCount).sum = node.numPSIs
  ports : requests.flatMap (node.requestPorts receiver) = node.statePorts receiver

def Gets (node : PsiNode) (path : Bool) : Prop := path ∨ node.isSwitch = false ∨ node.port0Valid

/-- `sm_set_node_port_states` gets to its requests: it is called for a valid port, and some
port is in the source state. -/
def Sets (node : PsiNode) (port : Option Nat) (srcState : Nat) : Prop :=
  port.isSome ∧ (node.isSwitch = false ∨ node.port0Valid) ∧
    ∃ p ∈ node.allPorts, node.selected srcState p

def GetPacked (node : PsiNode) (max : Nat) (path : Bool) (receiver : Nat) : Prop :=
  node.Gets path → node.Packs max receiver (node.getRequests max path)

/-- The requests to write are packed, and the state that goes to each port is the one that
is requested for it. -/
def SetPacked (node : PsiNode) (max : Nat) (port : Option Nat) (srcState dstState : Nat) : Prop :=
  node.Sets port srcState → ∃ portNum requests, port = some portNum ∧
    node.setRequests max port srcState dstState = some requests ∧
    node.Packs max portNum (requests.map Prod.fst) ∧
    (requests.flatMap fun r => (node.requestPorts portNum r.1).zip r.2) =
      (node.statePorts portNum).map fun p => (p, node.requested srcState dstState p)

/-- The port states leave a last packet that is not full, with a number that fits the field
for it. -/
def LeavesRest (node : PsiNode) (max : Nat) : Prop :=
  ¬max ∣ node.numPSIs ∧ (node.numPSIs ≤ max → node.numPSIs < 256)

/-! ## The packets of a switch -/

theorem numPSIs_pos (node : PsiNode) : 0 < node.numPSIs := by
  unfold numPSIs
  split <;> omega

theorem numPSIs_le (node : PsiNode) : node.numPSIs ≤ 256 := by
  have hlt := node.numPorts_lt
  unfold numPSIs
  split <;> omega

theorem numPackets_switch (hsw : node.isSwitch = true) (hmax : 0 < max) :
    node.numPackets max = (node.numPSIs + max - 1) / max := by
  have hpos := node.numPSIs_pos
  unfold numPackets
  by_cases hmany : node.numPSIs > max
  · rw [if_pos ⟨hsw, hmany⟩, ceil_eq_div_add hmax]
  · rw [if_neg fun h => hmany h.2]
    exact (Nat.div_eq_of_lt_le (by omega) (by omega)).symm

theorem portCount_last {portNum : Nat} (hport : portNum < 2 ^ 24) (hmax : 0 < max) :
    portCount (node.packet max portNum (node.numPackets max - 1)) =
      node.numPSIs % max % 256 := by
  unfold packet
  split
  · rename_i hsw
    have hle := node.numPSIs_le
    have hpos := node.numPSIs_pos
    have hmem : node.numPackets max - 1 < (node.numPSIs + max - 1) / max := by
      have hceil : 0 < (node.numPSIs + max - 1) / max := (lt_ceil_iff hmax).mpr (by omega)
      rw [numPackets_switch hsw hmax]
      omega
    rw [if_pos rfl, portCount_amod]
    have hstart := (lt_ceil_iff hmax).mp hmem
    omega
  · rw [portCount_amod _ hport]

theorem last_count_of_not_leavesRest {portNum : Nat} (hport : portNum < 2 ^ 24) (hmax : 0 < max)
    (hleaves : ¬node.LeavesRest max) :
    portCount (node.packet max portNum (node.numPackets max - 1)) = 0 := by
  have hle := node.numPSIs_le
  have hpos := node.numPSIs_pos
  rw [portCount_last hport hmax]
  by_cases hdvd : max ∣ node.numPSIs
  · rw [Nat.mod_eq_zero_of_dvd hdvd]
  · have hnarrow : node.numPSIs ≤ max ∧ ¬node.numPSIs < 256 := by
      by_contra hno
      exact hleaves ⟨hdvd, fun h => by_contra fun hlt => hno ⟨h, hlt⟩⟩
    have hall : node.numPSIs = 256 := by omega
    have hne : node.numPSIs ≠ max := fun h => hdvd (h ▸ Nat.dvd_refl _)
    rw [hall, Nat.mod_eq_of_lt (show 256 < max by omega)]

theorem numPackets_pos (hmax : 0 < max) : 0 < node.numPackets max := by
  unfold numPackets
  split
  · rename_i h
    have hdiv : 0 < node.numPSIs / max := Nat.div_pos (by omega) hmax
    omega
  · exact Nat.one_pos

theorem not_packs_of_not_leavesRest {portNum receiver : Nat} (hport : portNum < 2 ^ 24)
    (hmax : 0 < max) (hleaves : ¬node.LeavesRest max) :
    ¬node.Packs max receiver
      ((List.range (node.numPackets max)).map (node.packet max portNum)) := by
  intro hpacks
  have hlast : node.numPackets max - 1 < node.numPackets max :=
    Nat.sub_lt (numPackets_pos hmax) Nat.one_pos
  have hcount := (hpacks.counts _ (List.mem_map_of_mem (List.mem_range.mpr hlast))).1
  rw [last_count_of_not_leavesRest hport hmax hleaves] at hcount
  omega

theorem packet_piece (hsw : node.isSwitch = true) (hmax : 0 < max) (hleaves : node.LeavesRest max)
    (portNum : Nat) {i : Nat} (hi : i < (node.numPSIs + max - 1) / max) :
    firstPort (node.packet max portNum i) = i * max ∧
      portCount (node.packet max portNum i) = min max (node.numPSIs - i * max) := by
  have hle := node.numPSIs_le
  have hstart : i * max < node.numPSIs := (lt_ceil_iff hmax).mp hi
  have hfirst : i * max < 256 := by omega
  have hbits : i * max < 2 ^ 24 := by omega
  have hsplit := Nat.div_add_mod node.numPSIs max
  have hrest : node.numPSIs % max ≠ 0 := fun h => hleaves.1 (Nat.dvd_of_mod_eq_zero h)
  have hmod := Nat.mod_lt node.numPSIs hmax
  have hpackets := numPackets_switch hsw hmax
  rw [ceil_eq_div_add hmax, if_pos hrest] at hpackets
  unfold packet
  rw [if_pos hsw, hpackets]
  split
  · rename_i hlast
    have hquotient : i = node.numPSIs / max := by rw [hlast, Nat.add_sub_cancel]
    have hleft : node.numPSIs - i * max = node.numPSIs % max := by
      rw [hquotient, Nat.mul_comm]
      omega
    have hnarrow : node.numPSIs % max < 256 := by
      by_cases hmany : node.numPSIs ≤ max
      · have := hleaves.2 hmany
        have := Nat.mod_le node.numPSIs max
        omega
      · omega
    rw [firstPort_amod _ hfirst, portCount_amod _ hbits, hleft, Nat.mod_eq_of_lt hnarrow]
    exact ⟨rfl, (Nat.min_eq_right (Nat.le_of_lt hmod)).symm⟩
  · rename_i hlast
    have hbefore : i + 1 ≤ node.numPSIs / max := by
      have := (lt_ceil_iff (n := node.numPSIs) hmax).mpr hstart
      rw [ceil_eq_div_add hmax, if_pos hrest] at this
      omega
    have hroom : i * max + max ≤ max * (node.numPSIs / max) := by
      rw [← Nat.succ_mul, Nat.mul_comm max]
      exact Nat.mul_le_mul_right max hbefore
    rw [firstPort_amod _ hfirst, portCount_amod _ hbits,
      Nat.mod_eq_of_lt (show max < 256 by omega)]
    exact ⟨rfl, (Nat.min_eq_left (by omega)).symm⟩

theorem packets_eq_chunks (hsw : node.isSwitch = true) (hmax : 0 < max)
    (hleaves : node.LeavesRest max) (portNum : Nat) :
    ((List.range (node.numPackets max)).map (node.packet max portNum)).map
      (fun a => (firstPort a, portCount a)) = chunks max node.numPSIs := by
  rw [List.map_map, chunks, numPackets_switch hsw hmax]
  refine List.map_congr_left fun i hi => ?_
  obtain ⟨hfirst, hcount⟩ :=
    packet_piece hsw hmax hleaves portNum (List.mem_range.mp hi)
  exact Prod.ext hfirst hcount

theorem packs_of_chunks (hsw : node.isSwitch = true) (hmax : 0 < max) {requests : List (BitVec 32)}
    (hpieces : requests.map (fun a => (firstPort a, portCount a)) = chunks max node.numPSIs)
    (receiver : Nat) : node.Packs max receiver requests where
  counts a ha := by
    have hmem : (firstPort a, portCount a) ∈ chunks max node.numPSIs :=
      hpieces ▸ List.mem_map_of_mem ha
    exact ⟨(mem_chunks hmax hmem).1, (mem_chunks hmax hmem).2.1⟩
  sum := by
    calc (requests.map portCount).sum
        = ((requests.map fun a => (firstPort a, portCount a)).map Prod.snd).sum := by
          rw [List.map_map]
          rfl
      _ = node.numPSIs := by rw [hpieces, chunks_sum hmax]
  ports := by
    calc requests.flatMap (node.requestPorts receiver)
        = (requests.map fun a => (firstPort a, portCount a)).flatMap
            fun c => List.range' c.1 c.2 := by
          rw [List.flatMap_map]
          exact List.flatMap_congr fun a _ => if_pos hsw
      _ = node.statePorts receiver := by
          rw [hpieces, chunks_ports hmax, statePorts, numPSIs, if_pos hsw, if_pos hsw]

theorem packs_hfi (hhfi : node.isSwitch = false) (hmax : 0 < max) (hleaves : node.LeavesRest max)
    {portNum : Nat} (hport : portNum < 2 ^ 24) (receiver : Nat) :
    node.Packs max receiver
      ((List.range (node.numPackets max)).map (node.packet max portNum)) := by
  have hone : node.numPSIs = 1 := by simp [numPSIs, hhfi]
  have hmany : max ≠ 1 := fun h => hleaves.1 (by rw [h]; exact Nat.one_dvd _)
  have hpackets : node.numPackets max = 1 := by simp [numPackets, hhfi]
  have hcount : portCount (node.packet max portNum 0) = 1 := by
    have hlast : portCount (node.packet max portNum (node.numPackets max - 1)) =
        node.numPSIs % max % 256 := portCount_last hport hmax
    rwa [hpackets, hone, Nat.mod_eq_of_lt (show 1 < max by omega)] at hlast
  rw [hpackets]
  constructor
  · intro a ha
    have ha : a = node.packet max portNum 0 := by simpa using ha
    rw [ha, hcount]
    exact ⟨Nat.le_refl 1, hmax⟩
  · simp [hcount, hone]
  · simp [requestPorts, statePorts, hcount, hhfi]

theorem getPacked_iff (hmax : 0 < max) (path : Bool) (receiver : Nat) :
    node.GetPacked max path receiver ↔ (node.Gets path → node.LeavesRest max) := by
  have hrequests : node.Gets path → node.getRequests max path =
      (List.range (node.numPackets max)).map (node.packet max 0) := by
    intro hgets
    unfold getRequests
    refine if_neg fun h => ?_
    simp only [Bool.and_eq_true, Bool.not_eq_true'] at h
    rcases hgets with hpath | hhfi | hvalid
    · exact absurd hpath (by simp [h.1.1])
    · exact absurd hhfi (by simp [h.1.2])
    · exact absurd hvalid (by simp [h.2])
  constructor
  · intro hpacked hgets
    by_contra hleaves
    have hpacks := hpacked hgets
    rw [hrequests hgets] at hpacks
    exact not_packs_of_not_leavesRest (by decide) hmax hleaves hpacks
  · intro hleaves hgets
    rw [hrequests hgets]
    cases hsw : node.isSwitch with
    | false => exact packs_hfi hsw hmax (hleaves hgets) (by decide) receiver
    | true =>
      exact packs_of_chunks hsw hmax (packets_eq_chunks hsw hmax (hleaves hgets) 0) receiver

/-! ## The states to write -/

theorem mem_allPorts_switch (hsw : node.isSwitch = true) {p : Nat} :
    p ∈ node.allPorts ↔ p < node.numPSIs := by
  simp [allPorts, numPSIs, hsw]

theorem setStates_eq (dstState : Nat) (ports : List Nat) :
    ∀ buffer : List Nat, (∀ p ∈ ports, p < buffer.length) →
      ports.foldlM (fun buffer p =>
          if p < buffer.length then some (buffer.set p dstState) else none) buffer =
        some ((List.range buffer.length).map fun p =>
          if p ∈ ports then dstState else buffer.getD p 0) := by
  induction ports with
  | nil =>
    intro buffer _
    refine congrArg some (List.ext_getElem (by simp) fun i hi _ => ?_)
    simp [List.getD_eq_getElem?_getD, hi]
  | cons p ports ih =>
    intro buffer hin
    have hp : p < buffer.length := hin p (.head _)
    have hrest : ∀ q ∈ ports, q < (buffer.set p dstState).length := by
      intro q hq
      rw [List.length_set]
      exact hin q (.tail _ hq)
    rw [List.foldlM_cons, if_pos hp]
    show ports.foldlM _ (buffer.set p dstState) = _
    rw [ih _ hrest, List.length_set]
    refine congrArg some (List.map_congr_left fun q hq => ?_)
    have hq : q < buffer.length := List.mem_range.mp hq
    by_cases hmem : q ∈ ports
    · simp [hmem]
    · by_cases heq : q = p
      · simp [heq, List.getD_eq_getElem?_getD, hp]
      · simp [hmem, heq, List.getD_eq_getElem?_getD, List.getElem?_set_ne (Ne.symm heq)]

theorem portStateInfo_switch (hsw : node.isSwitch = true) (srcState dstState : Nat) :
    node.portStateInfo srcState dstState =
      some ((List.range node.numPSIs).map (node.requested srcState dstState)) := by
  have hin : ∀ p ∈ node.allPorts.filter (node.selected srcState),
      p < (List.replicate node.numPSIs 0).length := by
    intro p hp
    rw [List.length_replicate]
    exact (mem_allPorts_switch hsw).mp (List.mem_filter.mp hp).1
  unfold portStateInfo
  rw [setStates_eq dstState _ _ hin, List.length_replicate]
  refine congrArg some (List.map_congr_left fun p hp => ?_)
  have hmem : p ∈ node.allPorts := (mem_allPorts_switch hsw).mpr (List.mem_range.mp hp)
  simp [requested, List.mem_filter, hmem, List.getD_eq_getElem?_getD]

theorem portStateInfo_hfi (hhfi : node.isSwitch = false) {srcState p : Nat}
    (hp : p ∈ node.allPorts) (hsel : node.selected srcState p = true) (dstState : Nat) :
    node.portStateInfo srcState dstState = none := by
  have hmem : p ∈ node.allPorts.filter (node.selected srcState) := List.mem_filter.mpr ⟨hp, hsel⟩
  have hone : node.numPSIs = 1 := by simp [numPSIs, hhfi]
  unfold portStateInfo
  cases hports : node.allPorts.filter (node.selected srcState) with
  | nil => simp [hports] at hmem
  | cons q ports =>
    have hq : q ∈ node.allPorts.filter (node.selected srcState) := hports ▸ List.mem_cons_self
    have hq1 : 1 ≤ q := by
      have hall := (List.mem_filter.mp hq).1
      simp only [allPorts, hhfi, Bool.false_eq_true, if_false, List.mem_range'_1] at hall
      exact hall.1
    rw [List.foldlM_cons, hone, if_neg (by simp; omega)]
    rfl

theorem switch_writes (hsw : node.isSwitch = true) (hmax : 0 < max) (hleaves : node.LeavesRest max)
    (portNum srcState dstState : Nat) :
    ((List.range (node.numPackets max)).flatMap fun i =>
        (node.requestPorts portNum (node.packet max portNum i)).zip
          ((((List.range node.numPSIs).map (node.requested srcState dstState)).drop
            (max * i)).take (portCount (node.packet max portNum i)))) =
      (node.statePorts portNum).map fun p => (p, node.requested srcState dstState p) := by
  have hports : node.statePorts portNum = List.range node.numPSIs := by
    simp [statePorts, numPSIs, hsw]
  have hlength : ((List.range node.numPSIs).map fun p =>
      (p, node.requested srcState dstState p)).length = node.numPSIs := by simp
  have hpieces := chunks_flatMap hmax
    ((List.range node.numPSIs).map fun p => (p, node.requested srcState dstState p))
  rw [hlength, chunks, List.flatMap_map] at hpieces
  rw [hports, ← hpieces, numPackets_switch hsw hmax]
  refine List.flatMap_congr fun i hi => ?_
  have hi := List.mem_range.mp hi
  obtain ⟨hfirst, hcount⟩ := packet_piece hsw hmax hleaves portNum hi
  have hstart : i * max < node.numPSIs := (lt_ceil_iff hmax).mp hi
  rw [requestPorts, if_pos hsw, hfirst, hcount, Nat.mul_comm max i,
    range'_eq_take_drop (n := node.numPSIs) (by omega)]
  simp only [← List.map_drop, ← List.map_take]
  rw [List.zip_map_right]
  apply List.ext_getElem
  · simp
  · intro k _ _
    simp

theorem setRequests_eq {portNum srcState : Nat} (hsets : node.Sets (some portNum) srcState)
    (dstState : Nat) :
    node.setRequests max (some portNum) srcState dstState =
      (node.portStateInfo srcState dstState).map fun psi =>
        (List.range (node.numPackets max)).map fun i =>
          (node.packet max portNum i,
            (psi.drop (max * i)).take (portCount (node.packet max portNum i))) := by
  obtain ⟨-, hvalid, p, hp, hsel⟩ := hsets
  have hport0 : (node.isSwitch && !node.port0Valid) = false := by
    rcases hvalid with h | h <;> simp [h]
  have hsome : (node.allPorts.filter (node.selected srcState)).isEmpty = false := by
    simpa using ⟨p, hp, hsel⟩
  simp [setRequests, hport0, hsome]

/-- The requests to write are packed, with the states that are requested, exactly when the
node is a switch whose port states do not fill the packets. -/
theorem setPacked_iff (hmax : 0 < max) (port : Option Nat) (srcState dstState : Nat) :
    node.SetPacked max port srcState dstState ↔
      (node.Sets port srcState → node.isSwitch = true ∧ node.LeavesRest max) := by
  constructor
  · intro hpacked hsets
    obtain ⟨portNum, requests, rfl, hrequests, hpacks, -⟩ := hpacked hsets
    rw [setRequests_eq hsets] at hrequests
    have hsw : node.isSwitch = true := by
      by_contra hno
      obtain ⟨-, -, p, hp, hsel⟩ := hsets
      rw [portStateInfo_hfi (by simpa using hno) hp hsel] at hrequests
      cases hrequests
    refine ⟨hsw, by_contra fun hleaves => ?_⟩
    rw [portStateInfo_switch hsw] at hrequests
    cases hrequests
    have hpacket : (Prod.fst ∘ fun i => (node.packet max portNum i,
        (((List.range node.numPSIs).map (node.requested srcState dstState)).drop (max * i)).take
          (portCount (node.packet max portNum i)))) = node.packet max 0 := by
      funext i
      simp [packet, hsw]
    rw [List.map_map, hpacket] at hpacks
    exact not_packs_of_not_leavesRest (by decide) hmax hleaves hpacks
  · intro hgood hsets
    obtain ⟨portNum, rfl⟩ := Option.isSome_iff_exists.mp hsets.1
    obtain ⟨hsw, hleaves⟩ := hgood hsets
    refine ⟨portNum, _, rfl, by rw [setRequests_eq hsets, portStateInfo_switch hsw]; rfl, ?_, ?_⟩
    · rw [List.map_map]
      exact packs_of_chunks hsw hmax (packets_eq_chunks hsw hmax hleaves portNum) portNum
    · rw [List.flatMap_map]
      exact switch_writes hsw hmax hleaves portNum srcState dstState

/-- Reading and writing both pack the port states exactly when neither has port states that
come out even, and no HFI is written to. -/
theorem portStates_packed_iff {getMax setMax : Nat} (hget : 0 < getMax) (hset : 0 < setMax)
    (node : PsiNode) (path : Bool) (receiver : Nat) (port : Option Nat) (srcState dstState : Nat) :
    node.GetPacked getMax path receiver ∧ node.SetPacked setMax port srcState dstState ↔
      (node.Gets path → node.LeavesRest getMax) ∧
        (node.Sets port srcState → node.isSwitch = true ∧ node.LeavesRest setMax) :=
  and_congr (getPacked_iff hget path receiver) (setPacked_iff hset port srcState dstState)

theorem ports_lt_233 : 233 < 256 := by decide

/-- A switch with as many port states as a directed-route packet has room for. -/
def fullSwitch : PsiNode where
  isSwitch := true
  NumPorts := 233
  numPorts_lt := ports_lt_233
  port0Valid := true
  port _ := { state := 3, neighborQuarantined := false }

/-- The sizes of the packets that are sent. -/
theorem portStates_packed_iff_smp :
    fullSwitch.GetPacked maxPSIsPerDRSMP true 0 ∧
        fullSwitch.SetPacked maxPSIsPerLRSMP (some 0) 3 4 ↔
      (fullSwitch.Gets true → fullSwitch.LeavesRest maxPSIsPerDRSMP) ∧
        (fullSwitch.Sets (some 0) 3 → fullSwitch.isSwitch = true ∧
          fullSwitch.LeavesRest maxPSIsPerLRSMP) :=
  portStates_packed_iff (by decide) (by decide) fullSwitch true 0 (some 0) 3 4

theorem not_portStates_packed :
    ¬∀ (node : PsiNode) (max : Nat), 0 < max →
      ∀ (path : Bool) (receiver : Nat) (port : Option Nat) (srcState dstState : Nat),
        node.GetPacked max path receiver ∧ node.SetPacked max port srcState dstState := by
  intro h
  have hpacks := (h fullSwitch maxPSIsPerDRSMP (by decide) true 0 none 3 4).1 (.inl rfl)
  have hcount := (hpacks.counts (amod 0 0) (by decide)).1
  exact absurd hcount (by decide)

end PsiNode

end OpaFm.Smp
