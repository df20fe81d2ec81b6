import OpaFm.Lib.Run
import OpaFm.Routing.Proofs.PortGroups
import OpaFm.Routing.PortGroups

/-!
# What pruning leaves of a port group

The walk over a mask comes to its end when each of its bits is at a usable port, and then the
new mask has the bits at the ports with the highest rate.
-/

namespace OpaFm.Routing

open OpaFm.Fabric OpaFm.Lib

/-! ## Rates -/

theorem linkrateToOrdinal_ge (r : Nat) : 25 ≤ linkrateToOrdinal r := by
  unfold linkrateToOrdinal
  split <;> decide

def usableRate (switchp : Node) (portIdx : Nat) : Option Nat :=
  (smGetPort switchp portIdx).bind fun port =>
    port.portData.bind fun data =>
      if port.state.code < PortState.init.code then none
      else some (linkrateToOrdinal data.rate)

theorem usableRate_ge {switchp : Node} {portIdx r : Nat}
    (h : usableRate switchp portIdx = some r) : 25 ≤ r := by
  unfold usableRate at h
  obtain ⟨port, _, hport⟩ := Option.bind_eq_some_iff.mp h
  obtain ⟨data, _, hdata⟩ := Option.bind_eq_some_iff.mp hport
  split at hdata
  · cases hdata
  · cases hdata
    exact linkrateToOrdinal_ge _

def Best (mask : BitVec 64) (rate : Nat → Option Nat) (b : Nat) : Prop :=
  mask.getLsbD b = true ∧ ∃ r, rate b = some r ∧
    ∀ b' r', mask.getLsbD b' = true → rate b' = some r' → r' ≤ r

/-! ## One walk -/

def readPort (start b : Nat) : Nat := (start + b) % 256

/-- The walk over `mask` has come to bit `k`: the bits before it are at usable ports, and the new
mask has those at the highest rate so far. -/
structure WalkedTo (switchp : Node) (start : Nat) (mask : BitVec 64) (k : Nat)
    (s : PruneLoop) : Prop where
  portIdx : s.portIdx = readPort start k
  pm : s.pm = mask >>> k
  usable : ∀ b < k, mask.getLsbD b = true → (usableRate switchp (readPort start b)).isSome
  maxRate : ∀ b < k, mask.getLsbD b = true → ∀ r, usableRate switchp (readPort start b) = some r →
    r ≤ linkrateToOrdinal s.maxRate
  newPm : ∀ b, s.newPm.getLsbD b = true ↔ b < k ∧ mask.getLsbD b = true ∧
    usableRate switchp (readPort start b) = some (linkrateToOrdinal s.maxRate)
  attained : linkrateToOrdinal s.maxRate = 25 ∨ ∃ b < k, mask.getLsbD b = true ∧
    usableRate switchp (readPort start b) = some (linkrateToOrdinal s.maxRate)

structure Walk (switchp : Node) (start : Nat) : Prop where
  index : ∀ p, (switchp.port p).index = p
  start : start % 64 = 1

section Walk

variable {switchp : Node} {start k : Nat} {mask : BitVec 64} {s s' : PruneLoop}

theorem WalkedTo.initial (switchp : Node) (i : Nat) (mask : BitVec 64) :
    WalkedTo switchp (pruneStart i) mask 0 ⟨pruneStart i, mask, 0, 0⟩ where
  portIdx := by
    change pruneStart i = (pruneStart i + 0) % 256
    unfold pruneStart
    omega
  pm := by simp
  usable b hb := absurd hb (Nat.not_lt_zero b)
  maxRate b hb := absurd hb (Nat.not_lt_zero b)
  newPm b := by simp
  attained := .inl rfl

theorem readPort_succ (start k : Nat) : (readPort start k + 1) % 256 = readPort start (k + 1) := by
  unfold readPort
  omega

theorem WalkedTo.bit (h : WalkedTo switchp start mask k s) :
    s.pm.getLsbD 0 = mask.getLsbD k := by
  rw [h.pm, BitVec.getLsbD_ushiftRight, Nat.add_zero]

theorem WalkedTo.shift (h : WalkedTo switchp start mask k s) :
    s.pm >>> 1 = mask >>> (k + 1) := by
  rw [h.pm, BitVec.shiftRight_add]

theorem WalkedTo.skip (h : WalkedTo switchp start mask k s) (hbit : mask.getLsbD k = false) :
    WalkedTo switchp start mask (k + 1)
      { s with portIdx := (s.portIdx + 1) % 256, pm := s.pm >>> 1 } := by
  have hlt : ∀ {b}, b < k + 1 → mask.getLsbD b = true → b < k := by
    intro b hb hset
    have hne : b ≠ k := fun heq => by rw [heq, hbit] at hset; cases hset
    omega
  constructor
  · rw [← readPort_succ, ← h.portIdx]
  · exact h.shift
  · exact fun b hb hset => h.usable b (hlt hb hset) hset
  · exact fun b hb hset => h.maxRate b (hlt hb hset) hset
  · intro b
    rw [h.newPm b]
    constructor
    · exact fun hb => ⟨by omega, hb.2⟩
    · exact fun hb => ⟨hlt hb.1 hb.2.1, hb.2⟩
  · exact h.attained.imp_right fun hex => by
      obtain ⟨b, hb, hset⟩ := hex
      exact ⟨b, by omega, hset⟩

theorem Walk.bitIndex (hw : Walk switchp start) (hk : k < 64) (hne : readPort start k ≠ 0) :
    ((switchp.port (readPort start k)).index - 1) % 64 = k := by
  have hstart := hw.start
  rw [hw.index]
  unfold readPort at hne ⊢
  omega

theorem WalkedTo.advance (h : WalkedTo switchp start mask k s) (hbit : mask.getLsbD k = true)
    {r : Nat} (hrate : usableRate switchp (readPort start k) = some r)
    (hidx : s'.portIdx = (s.portIdx + 1) % 256) (hpm : s'.pm = s.pm >>> 1)
    (hmax : linkrateToOrdinal s'.maxRate = max (linkrateToOrdinal s.maxRate) r)
    (hnew : ∀ b, s'.newPm.getLsbD b = true ↔ (b = k ∧ linkrateToOrdinal s.maxRate ≤ r) ∨
      (s.newPm.getLsbD b = true ∧ r ≤ linkrateToOrdinal s.maxRate)) :
    WalkedTo switchp start mask (k + 1) s' := by
  have hbelow : ∀ {b}, b < k + 1 → b < k ∨ b = k := by omega
  constructor
  · rw [← readPort_succ, ← h.portIdx, hidx]
  · rw [hpm, h.shift]
  · intro b hb hset
    rcases hbelow hb with hlt | rfl
    · exact h.usable b hlt hset
    · rw [hrate]
      rfl
  · intro b hb hset r' hr'
    rw [hmax]
    rcases hbelow hb with hlt | rfl
    · exact (h.maxRate b hlt hset r' hr').trans (Nat.le_max_left _ _)
    · rw [hrate] at hr'
      cases hr'
      exact Nat.le_max_right _ _
  · intro b
    rw [hnew b, h.newPm b, hmax]
    constructor
    · intro hb
      rcases hb with ⟨rfl, hle⟩ | ⟨hb, hle⟩
      · rw [Nat.max_eq_right hle]
        exact ⟨by omega, hbit, hrate⟩
      · rw [Nat.max_eq_left hle]
        exact ⟨by omega, hb.2⟩
    · intro hb
      rcases hbelow hb.1 with hlt | rfl
      · have hle := h.maxRate b hlt hb.2.1 _ hb.2.2
        have hr : r ≤ linkrateToOrdinal s.maxRate := by omega
        rw [Nat.max_eq_left hr] at hb
        exact .inr ⟨⟨hlt, hb.2⟩, hr⟩
      · have heq := hb.2.2
        rw [hrate] at heq
        have hr := Option.some.inj heq
        exact .inl ⟨rfl, by omega⟩
  · rw [hmax]
    rcases Nat.le_total (linkrateToOrdinal s.maxRate) r with hle | hle
    · rw [Nat.max_eq_right hle]
      exact .inr ⟨k, by omega, hbit, hrate⟩
    · rw [Nat.max_eq_left hle]
      exact h.attained.imp_right fun hex => by
        obtain ⟨b, hb, hset⟩ := hex
        exact ⟨b, by omega, hset⟩

theorem WalkedTo.take (hw : Walk switchp start) (h : WalkedTo switchp start mask k s)
    (hbit : mask.getLsbD k = true) {data : PortData}
    (hrate : usableRate switchp (readPort start k) = some (linkrateToOrdinal data.rate))
    (hne : linkrateGe data.rate s.maxRate = true → readPort start k ≠ 0) :
    WalkedTo switchp start mask (k + 1)
      (s.take (switchp.port (readPort start k)) data.rate) := by
  have hk : k < 64 := BitVec.lt_of_getLsbD hbit
  apply h.advance hbit hrate rfl rfl
  · unfold PruneLoop.take linkrateGe linkrateGt
    by_cases hlt : linkrateToOrdinal s.maxRate < linkrateToOrdinal data.rate
    · simp [hlt, Nat.le_of_lt hlt]
    · simp [hlt, Nat.le_of_not_lt hlt]
  · intro b
    by_cases hge : linkrateGe data.rate s.maxRate = true
    · have hindex := hw.bitIndex hk (hne hge)
      have hle := of_decide_eq_true hge
      have hbits := getLsbD_one_shiftLeft (i := b) hk
      unfold PruneLoop.take linkrateGt
      by_cases hlt : linkrateToOrdinal s.maxRate < linkrateToOrdinal data.rate
      · simp only [hge, hindex, hlt, hle, hbits, Nat.not_le_of_lt hlt, decide_true, ↓reduceIte,
          BitVec.ofNat_eq_ofNat, BitVec.zero_or, and_true, and_false, or_false]
      · simp only [hge, hindex, hlt, hle, hbits, Nat.le_of_not_lt hlt, decide_false,
          Bool.false_eq_true, ↓reduceIte, BitVec.getLsbD_or, Bool.or_eq_true, and_true]
        exact or_comm
    · unfold PruneLoop.take
      have hslow := of_decide_eq_false (Bool.not_eq_true _ ▸ hge)
      simp [hge, hslow, Nat.le_of_not_le hslow]

/-! ## The whole walk -/

def walkRate (switchp : Node) (start b : Nat) : Option Nat := usableRate switchp (readPort start b)

structure WalkOk (switchp : Node) (start : Nat) (mask : BitVec 64) : Prop where
  usable : ∀ b, mask.getLsbD b = true → (walkRate switchp start b).isSome
  ports : ∀ b, Best mask (walkRate switchp start) b → readPort start b ≠ 0

theorem WalkedTo.none_left (h : WalkedTo switchp start mask k s) (hpm : s.pm = 0) {b : Nat}
    (hset : mask.getLsbD b = true) : b < k := by
  by_contra hge
  have hbit : (mask >>> k).getLsbD (b - k) = true := by
    rw [BitVec.getLsbD_ushiftRight, Nat.add_sub_cancel' (Nat.le_of_not_lt hge)]
    exact hset
  rw [← h.pm, hpm] at hbit
  simp at hbit

theorem WalkedTo.lt_of_ne_zero (h : WalkedTo switchp start mask k s) (hpm : s.pm ≠ 0) :
    k < 64 := by
  by_contra hge
  apply hpm
  rw [h.pm]
  exact BitVec.ushiftRight_eq_zero (Nat.le_of_not_lt hge)

theorem WalkedTo.newPm_iff (h : WalkedTo switchp start mask k s) (hpm : s.pm = 0) (b : Nat) :
    s.newPm.getLsbD b = true ↔ Best mask (walkRate switchp start) b := by
  rw [h.newPm b]
  constructor
  · intro hb
    refine ⟨hb.2.1, _, hb.2.2, fun b' r' hset hr' => ?_⟩
    exact h.maxRate b' (h.none_left hpm hset) hset r' hr'
  · intro hb
    obtain ⟨hset, r, hr, hbest⟩ := hb
    have hlt := h.none_left hpm hset
    have hle := h.maxRate b hlt hset r hr
    have hge : linkrateToOrdinal s.maxRate ≤ r := by
      rcases h.attained with hmin | hex
      · rw [hmin]
        exact usableRate_ge hr
      · obtain ⟨b', _, hset', hr'⟩ := hex
        exact hbest b' _ hset' hr'
    have heq : r = linkrateToOrdinal s.maxRate := by omega
    rw [heq] at hr
    exact ⟨hlt, hset, hr⟩

theorem WalkedTo.best_of_ge (h : WalkedTo switchp start mask k s) (hbit : mask.getLsbD k = true)
    {r : Nat} (hrate : usableRate switchp (readPort start k) = some r)
    (hge : linkrateToOrdinal s.maxRate ≤ r) (hlast : ∀ b, mask.getLsbD b = true → b ≤ k) :
    Best mask (walkRate switchp start) k := by
  refine ⟨hbit, r, hrate, fun b r' hset hr' => ?_⟩
  rcases Nat.lt_or_eq_of_le (hlast b hset) with hlt | rfl
  · exact (h.maxRate b hlt hset r' hr').trans hge
  · have hsame : usableRate switchp (readPort start b) = some r' := hr'
    rw [hrate] at hsame
    exact Nat.le_of_eq (Option.some.inj hsame).symm

theorem WalkedTo.not_best (h : WalkedTo switchp start mask k s) {r : Nat}
    (hrate : usableRate switchp (readPort start k) = some r)
    (hslow : r < linkrateToOrdinal s.maxRate) : ¬Best mask (walkRate switchp start) k := by
  intro hb
  obtain ⟨_, r', hr', hbest⟩ := hb
  have hsame : usableRate switchp (readPort start k) = some r' := hr'
  rw [hrate] at hsame
  cases hsame
  rcases h.attained with hmin | hex
  · have hge := usableRate_ge hrate
    omega
  · obtain ⟨b, _, hset, hb⟩ := hex
    have hle := hbest b _ hset hb
    omega

theorem usableRate_eq_some {p r : Nat} : usableRate switchp p = some r ↔
    p ≤ switchp.numPorts ∧ ∃ data, (switchp.port p).portData = some data ∧
      ¬(switchp.port p).state.code < PortState.init.code ∧ linkrateToOrdinal data.rate = r := by
  unfold usableRate smGetPort
  by_cases hp : p ≤ switchp.numPorts
  · simp only [hp, ↓reduceIte, Option.bind_some, true_and, Option.bind_eq_some_iff]
    apply exists_congr
    intro data
    apply and_congr_right
    intro _
    by_cases hdown : (switchp.port p).state.code < PortState.init.code
    · simp [hdown]
    · simp [hdown]
  · simp [hp]

theorem WalkedTo.body (h : WalkedTo switchp start mask k s) (hbit : mask.getLsbD k = true) :
    pruneBody switchp s = .error .undefined ∨ pruneBody switchp s = .ok s ∨
      ∃ data : PortData, usableRate switchp (readPort start k) = some (linkrateToOrdinal data.rate) ∧
        ¬(linkrateGe data.rate s.maxRate = true ∧ (switchp.port (readPort start k)).index = 0) ∧
        pruneBody switchp s = .ok (s.take (switchp.port (readPort start k)) data.rate) := by
  have hset : s.pm.getLsbD 0 = true := h.bit.trans hbit
  unfold pruneBody
  rw [if_neg (by rw [hset]; decide), h.portIdx]
  by_cases hp : readPort start k ≤ switchp.numPorts
  · have hport : smGetPort switchp (readPort start k) =
        some (switchp.port (readPort start k)) := if_pos hp
    cases hdata : (switchp.port (readPort start k)).portData with
    | none => exact .inr (.inl (by simp [hport, hdata]))
    | some data =>
      simp only [hport, hdata]
      by_cases hdown : (switchp.port (readPort start k)).state.code < PortState.init.code
      · exact .inr (.inl (if_pos hdown))
      · have hrate := usableRate_eq_some.mpr ⟨hp, data, hdata, hdown, rfl⟩
        rw [if_neg hdown]
        by_cases hzero : linkrateGe data.rate s.maxRate = true ∧
            (switchp.port (readPort start k)).index = 0
        · exact .inl (if_pos hzero)
        · exact .inr (.inr ⟨data, hrate, hzero, if_neg hzero⟩)
  · have hport : smGetPort switchp (readPort start k) = none := if_neg hp
    exact .inl (by simp [hport])

theorem pruneLoop_ok (hw : Walk switchp start) {fuel : Nat} {newPm : BitVec 64}
    (h : WalkedTo switchp start mask k s)
    (hpast : ∀ b < k, Best mask (walkRate switchp start) b → readPort start b ≠ 0)
    (hrun : pruneLoop switchp fuel s = .ok newPm) :
    WalkOk switchp start mask ∧
      ∀ b, newPm.getLsbD b = true ↔ Best mask (walkRate switchp start) b := by
  induction fuel generalizing k s with
  | zero => cases hrun
  | succ fuel ih =>
    by_cases hpm : s.pm = 0
    · rw [pruneLoop, if_pos hpm] at hrun
      cases hrun
      refine ⟨⟨fun b hset => h.usable b (h.none_left hpm hset) hset, fun b hb => ?_⟩,
        h.newPm_iff hpm⟩
      exact hpast b (h.none_left hpm hb.1) hb
    · rw [pruneLoop, if_neg hpm] at hrun
      cases hbit : mask.getLsbD k with
      | false =>
        have hbody : pruneBody switchp s =
            .ok { s with portIdx := (s.portIdx + 1) % 256, pm := s.pm >>> 1 } :=
          if_pos (h.bit.trans hbit)
        rw [hbody] at hrun
        apply ih (h.skip hbit) _ hrun
        intro b hb hbest
        have hne : b ≠ k := fun heq => by
          have hset := hbest.1
          rw [heq, hbit] at hset
          cases hset
        exact hpast b (by omega) hbest
      | true =>
        rcases h.body hbit with hfault | hsame | ⟨data, hrate, hzero, hbody⟩
        · rw [hfault] at hrun
          cases hrun
        · -- a port that is not up: the same turn again
          rw [hsame] at hrun
          exact ih h hpast hrun
        · rw [hbody] at hrun
          have hindex := hw.index (readPort start k)
          refine ih (h.take hw hbit hrate fun hge heq => hzero ⟨hge, hindex.trans heq⟩) ?_ hrun
          intro b hb hbest heq
          rcases Nat.lt_or_eq_of_le (Nat.le_of_lt_succ hb) with hlt | rfl
          · exact hpast b hlt hbest heq
          · have hslow : ¬linkrateGe data.rate s.maxRate = true :=
              fun hge => hzero ⟨hge, hindex.trans heq⟩
            rw [linkrateGe, decide_eq_true_eq] at hslow
            exact h.not_best hrate (by omega) hbest

theorem pruneLoop_ends (hw : Walk switchp start) (hok : WalkOk switchp start mask) {n : Nat}
    (h : WalkedTo switchp start mask k s) (hn : 64 ≤ k + n) :
    ∃ newPm, pruneLoop switchp (n + 1) s = .ok newPm := by
  induction n generalizing k s with
  | zero =>
    have hpm : s.pm = 0 := by
      by_contra hne
      have hlt := h.lt_of_ne_zero hne
      omega
    exact ⟨s.newPm, if_pos hpm⟩
  | succ n ih =>
    by_cases hpm : s.pm = 0
    · exact ⟨s.newPm, if_pos hpm⟩
    · rw [pruneLoop, if_neg hpm]
      cases hbit : mask.getLsbD k with
      | false =>
        have hbody : pruneBody switchp s =
            .ok { s with portIdx := (s.portIdx + 1) % 256, pm := s.pm >>> 1 } :=
          if_pos (h.bit.trans hbit)
        rw [hbody]
        exact ih (h.skip hbit) (by omega)
      | true =>
        obtain ⟨r, hr⟩ := Option.isSome_iff_exists.mp (hok.usable k hbit)
        obtain ⟨hp, data, hdata, hdown, hrate⟩ := usableRate_eq_some.mp hr
        have hrate' : usableRate switchp (readPort start k) =
            some (linkrateToOrdinal data.rate) := by
          rw [hrate]
          exact hr
        have hne : linkrateGe data.rate s.maxRate = true → readPort start k ≠ 0 := by
          intro hge heq
          apply hok.ports k _ heq
          apply h.best_of_ge hbit hrate' (of_decide_eq_true hge)
          -- only the last bit can be read at port 0
          intro b hset
          have hb : b < 64 := BitVec.lt_of_getLsbD hset
          have hk : k < 64 := BitVec.lt_of_getLsbD hbit
          have hstart := hw.start
          unfold readPort at heq
          omega
        have hport : smGetPort switchp (readPort start k) =
            some (switchp.port (readPort start k)) := if_pos hp
        have hbody : pruneBody switchp s =
            .ok (s.take (switchp.port (readPort start k)) data.rate) := by
          unfold pruneBody
          rw [if_neg (by rw [h.bit.trans hbit]; decide), h.portIdx]
          simp only [hport, hdata]
          rw [if_neg hdown, if_neg]
          rw [hw.index]
          exact fun hzero => hne hzero.1 hzero.2
        rw [hbody]
        exact ih (h.take hw hbit hrate' hne) (by omega)

end Walk

/-! ## The groups in turn -/

variable {switchp : Node} {sw sw' : ArSwitch}

theorem pruneGroup_ok {fuel i : Nat} : pruneGroup switchp fuel sw i = .ok sw' ↔
    ∃ newPm, pruneLoop switchp fuel ⟨pruneStart i, sw.pgt i, 0, 0⟩ = .ok newPm ∧
      sw' = if newPm = sw.pgt i then sw
        else { sw with pgt := Function.update sw.pgt i newPm, arChange := true } := by
  unfold pruneGroup
  rw [bind_eq_ok]
  apply exists_congr
  intro newPm
  apply and_congr_right
  intro _
  constructor
  · intro h
    exact (Except.ok.inj h).symm
  · intro h
    rw [h]
    rfl

theorem pruneGroup_pgt {i : Nat} {newPm : BitVec 64}
    (h : sw' = if newPm = sw.pgt i then sw
      else { sw with pgt := Function.update sw.pgt i newPm, arChange := true }) :
    sw'.pgt = Function.update sw.pgt i newPm := by
  rw [h]
  split
  · rename_i hsame
    rw [hsame, Function.update_eq_self]
  · rfl

theorem pruneGroups_ok {fuel n : Nat} :
    (List.range n).foldlM (pruneGroup switchp fuel) sw = .ok sw' →
      (∀ i < n, pruneLoop switchp fuel ⟨pruneStart i, sw.pgt i, 0, 0⟩ = .ok (sw'.pgt i)) ∧
        ∀ i, n ≤ i → sw'.pgt i = sw.pgt i := by
  induction n generalizing sw' with
  | zero =>
    intro h
    cases h
    exact ⟨fun i hi => absurd hi (Nat.not_lt_zero i), fun _ _ => rfl⟩
  | succ n ih =>
    intro h
    rw [List.range_succ, List.foldlM_append, bind_eq_ok] at h
    obtain ⟨sw₁, hfold, hlast⟩ := h
    obtain ⟨hdone, hrest⟩ := ih hfold
    rw [List.foldlM_cons, bind_eq_ok] at hlast
    obtain ⟨sw₂, hgroup, hend⟩ := hlast
    cases hend
    obtain ⟨newPm, hrun, hsw⟩ := pruneGroup_ok.mp hgroup
    have hpgt := pruneGroup_pgt hsw
    rw [hrest n (Nat.le_refl n)] at hrun
    constructor
    · intro i hi
      by_cases hin : i = n
      · rw [hin, hpgt, Function.update_self]
        exact hrun
      · rw [hpgt, Function.update_of_ne hin]
        exact hdone i (by omega)
    · intro i hi
      rw [hpgt, Function.update_of_ne (by omega)]
      exact hrest i (by omega)

theorem pruneGroups_ends (fuel : Nat) {n : Nat}
    (h : ∀ i < n, ∃ newPm, pruneLoop switchp fuel ⟨pruneStart i, sw.pgt i, 0, 0⟩ = .ok newPm) :
    ∃ sw', (List.range n).foldlM (pruneGroup switchp fuel) sw = .ok sw' := by
  induction n with
  | zero => exact ⟨sw, rfl⟩
  | succ n ih =>
    obtain ⟨sw₁, hfold⟩ := ih fun i hi => h i (by omega)
    obtain ⟨newPm, hrun⟩ := h n (Nat.lt_succ_self n)
    rw [← (pruneGroups_ok hfold).2 n (Nat.le_refl n)] at hrun
    obtain ⟨sw₂, hgroup⟩ : ∃ sw₂, pruneGroup switchp fuel sw₁ n = .ok sw₂ :=
      ⟨_, pruneGroup_ok.mpr ⟨newPm, hrun, rfl⟩⟩
    refine ⟨sw₂, ?_⟩
    rw [List.range_succ, List.foldlM_append, hfold]
    change (List.foldlM (pruneGroup switchp fuel) sw₁ [n]) = _
    rw [List.foldlM_cons, hgroup]
    rfl

/-! ## When pruning ends with the right groups -/

def PortgroupsPruned (switchp : Node) (sw sw' : ArSwitch) : Prop :=
  ∀ i < sw.portGroupTop, ∀ b, (sw'.pgt i).getLsbD b = true ↔
    Best (sw.pgt i) (fun b => usableRate switchp (b + 1)) b

def PruneMeets (switchp : Node) (hasPgt : Bool) (sw : ArSwitch) : Prop :=
  ∃ fuel sw', smNodePrunePortgroups switchp hasPgt fuel sw = .ok sw' ∧
    (hasPgt = true → PortgroupsPruned switchp sw sw')

/-- Each bit of the group's mask is read at a usable port, which for the first 64 groups is the
port it stands for.  From group 64 on the bits are read at the ports from 65, 129 or 193 on, and
the fastest of these must be at the bits of the fastest of the group. -/
structure GroupOk (switchp : Node) (i : Nat) (mask : BitVec 64) : Prop where
  usable : ∀ b, mask.getLsbD b = true → (walkRate switchp (pruneStart i) b).isSome
  ports : 64 ≤ i → ∀ b, Best mask (walkRate switchp (pruneStart i)) b →
    readPort (pruneStart i) b ≠ 0
  fastest : 64 ≤ i → ∀ b, Best mask (walkRate switchp (pruneStart i)) b ↔
    Best mask (fun b => usableRate switchp (b + 1)) b

theorem best_congr {mask : BitVec 64} {f f' : Nat → Option Nat} (h : ∀ b < 64, f b = f' b)
    (b : Nat) : Best mask f b ↔ Best mask f' b := by
  have hf : ∀ b', mask.getLsbD b' = true → f b' = f' b' :=
    fun b' hset => h b' (BitVec.lt_of_getLsbD hset)
  unfold Best
  apply and_congr_right
  intro hset
  rw [hf b hset]
  apply exists_congr
  intro r
  apply and_congr_right
  intro _
  apply forall_congr'
  intro b'
  apply forall_congr'
  intro r'
  apply imp_congr_right
  intro hset'
  rw [hf b' hset']

theorem readPort_low {i b : Nat} (hi : i < 64) (hb : b < 64) :
    readPort (pruneStart i) b = b + 1 := by
  unfold readPort pruneStart
  omega

theorem groupOk_iff {i : Nat} {mask : BitVec 64} : GroupOk switchp i mask ↔
    WalkOk switchp (pruneStart i) mask ∧
      ∀ b, Best mask (walkRate switchp (pruneStart i)) b ↔
        Best mask (fun b => usableRate switchp (b + 1)) b := by
  constructor
  · intro h
    by_cases hi : 64 ≤ i
    · exact ⟨⟨h.usable, h.ports hi⟩, h.fastest hi⟩
    · refine ⟨⟨h.usable, fun b hb => ?_⟩, best_congr fun b hb => ?_⟩
      · rw [readPort_low (by omega) (BitVec.lt_of_getLsbD hb.1)]
        exact Nat.succ_ne_zero b
      · unfold walkRate
        rw [readPort_low (by omega) hb]
  · intro h
    exact ⟨h.1.usable, fun _ => h.1.ports, fun _ => h.2⟩

theorem walk_pruneStart (hports : ∀ p, (switchp.port p).index = p) (i : Nat) :
    Walk switchp (pruneStart i) := by
  refine ⟨hports, ?_⟩
  unfold pruneStart
  omega

/-- `sm_Node_prune_portgroups` ends with the right groups if and only if there is no PGT or every
group of it is one that the walk reads right. -/
theorem smNodePrunePortgroups_meets_iff (switchp : Node)
    (hports : ∀ p, (switchp.port p).index = p) (hasPgt : Bool) (sw : ArSwitch) :
    PruneMeets switchp hasPgt sw ↔
      (hasPgt = true → ∀ i < sw.portGroupTop, GroupOk switchp i (sw.pgt i)) := by
  constructor
  · intro h hpgt i hi
    obtain ⟨fuel, sw', hrun, hpruned⟩ := h
    rw [smNodePrunePortgroups, if_neg (by rw [hpgt]; decide)] at hrun
    have hloop := (pruneGroups_ok hrun).1 i hi
    obtain ⟨hok, hnew⟩ := pruneLoop_ok (walk_pruneStart hports i)
      (WalkedTo.initial switchp i (sw.pgt i)) (fun b hb => absurd hb (Nat.not_lt_zero b)) hloop
    rw [groupOk_iff]
    exact ⟨hok, fun b => (hnew b).symm.trans (hpruned hpgt i hi b)⟩
  · intro h
    cases hasPgt with
    | false => exact ⟨0, sw, rfl, fun hno => nomatch hno⟩
    | true =>
      have hgroups := fun i hi => groupOk_iff.mp (h rfl i hi)
      obtain ⟨sw', hrun⟩ := pruneGroups_ends 65 fun i hi =>
        pruneLoop_ends (walk_pruneStart hports i) (hgroups i hi).1
          (WalkedTo.initial switchp i (sw.pgt i)) (by omega)
      refine ⟨65, sw', hrun, fun _ i hi b => ?_⟩
      have hloop := (pruneGroups_ok hrun).1 i hi
      obtain ⟨_, hnew⟩ := pruneLoop_ok (walk_pruneStart hports i)
        (WalkedTo.initial switchp i (sw.pgt i)) (fun b hb => absurd hb (Nat.not_lt_zero b)) hloop
      exact (hnew b).trans ((hgroups i hi).2 b)

def halfUp : Node where
  index := 0
  numPorts := 4
  port i :=
    { index := i
      state := if i = 2 then .down else .active
      portData := some { linkWidth := if i = 3 then .x1 else .x4 } }

def oneGroup (mask : BitVec 64) : ArSwitch where
  arSupport := true
  arChange := false
  isAdaptiveRoutingSupported := true
  linearFDBTop := 0
  portGroupFDBCap := 0
  portGroupCap := ⟨1, by decide⟩
  portGroupTop := 1
  pgt := fun _ => mask
  pgtLen := 1
  pgft := none
  pgftSize := 0

/-- Ports 1, 3 and 4, of which 3 is slower. -/
theorem smNodePrunePortgroups_halfUp : PruneMeets halfUp true (oneGroup 13) := by
  apply (smNodePrunePortgroups_meets_iff halfUp (fun _ => rfl) true (oneGroup 13)).mpr
  intro _ i hi
  have hzero : i = 0 := Nat.lt_one_iff.mp hi
  subst hzero
  refine ⟨fun b hb => ?_, fun hle => absurd hle (by decide), fun hle => absurd hle (by decide)⟩
  have hports : ∀ b < 64, (13 : BitVec 64).getLsbD b = true →
      (walkRate halfUp (pruneStart 0) b).isSome = true := by decide
  exact hports b (BitVec.lt_of_getLsbD hb) hb

/-- With the port that is down in the group, the function does not come to an end. -/
theorem smNodePrunePortgroups_hangs : ¬PruneMeets halfUp true (oneGroup 3) := by
  intro h
  obtain ⟨fuel, sw', hrun, _⟩ := h
  have hloop := (pruneGroups_ok hrun).1 0 (by decide)
  have hok := (pruneLoop_ok (walk_pruneStart (fun _ => rfl) 0)
    (WalkedTo.initial halfUp 0 ((oneGroup 3).pgt 0)) (fun b hb => absurd hb (Nat.not_lt_zero b))
    hloop).1
  exact absurd (hok.usable 1 (by decide)) (by decide)

end OpaFm.Routing
