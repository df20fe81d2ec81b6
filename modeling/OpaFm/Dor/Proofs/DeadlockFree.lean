import OpaFm.Dor.ScScMap
import OpaFm.Dor.Proofs.Soundness
import OpaFm.Dor.Proofs.Geometry
import OpaFm.Dor.Proofs.ScScMap
import OpaFm.Lib.Delivery
import Mathlib.Data.Prod.Lex

/-!
# Deadlock freedom

The channels that routes use one after the other go up in the dimension, then from the first
SC to the second, then along the ring from the dateline on.
-/

namespace OpaFm.Dor

open OpaFm.Lib

namespace DorPortFabric

open DorTopology DorClosure DorFabric DorSwitch ScTables

variable {n D : Nat} {F : DorPortFabric n D} {q : ScTables} {force : Bool} {cl : DorClosure n}
  {x y d : Fin n} {i k : Fin D} {w w' : Way} {p r : Nat} {sl first second : Fin 32}
  {c c' : Channel n}

/-! ## Ports and ways -/

theorem mem_addPorts :
    p ∈ F.addPorts x y ↔ p ∈ (F.switch x).physicalPorts ∧ (F.switch x).usable p = true ∧
      ∃ r, ((F.switch x).port p).link = some (y, r) := by
  unfold addPorts
  rw [List.mem_filter, Bool.and_eq_true, decide_eq_true_eq, Option.map_eq_some_iff]
  apply and_congr_right
  intro _
  apply and_congr_right
  intro _
  constructor
  · rintro ⟨⟨y', r⟩, hlink, rfl⟩
    exact ⟨r, hlink⟩
  · rintro ⟨r, hlink⟩
    exact ⟨(y, r), hlink, rfl⟩

theorem neighbor_coords_ne (hi : F.firstDifference x d = some i) (hy : F.neighbor w x i = some y) :
    F.coords y i ≠ F.coords x i := by
  have hne := (firstDifference_eq_some_iff.mp hi).1
  have hstep := dist_neighbor hy hne
  intro heq
  have hsame : F.dist w y d i = F.dist w x d i := by
    have hpos : F.pos y i = F.pos x i := pos_eq_iff.mpr heq
    unfold DorFabric.dist
    rw [hpos]
  omega

theorem way_eq_of_neighbor (hw : F.neighbor w x i = some y) (hw' : F.neighbor w' x i = some y)
    (hL : 2 < F.dimensionLength i) : w = w' := by
  by_contra hne
  have hother : w' = w.other := by cases w <;> cases w' <;> first | rfl | exact absurd rfl hne
  rw [hother] at hw'
  have h1 := dist_of_neighbor hw (by omega)
  have h2 := dist_of_neighbor hw' (by omega)
  have hcoords : F.coords x i ≠ F.coords y i := by
    rw [ne_eq, ← dist_eq_zero_iff (w := w)]
    omega
  have hsum := dist_add_other (w := w) hcoords
  omega

structure GroupPort (F : DorPortFabric n D) (cl : DorClosure n) (d x : Fin n) (p : Nat)
    (i : Fin D) (w : Way) (y : Fin n) (r : Nat) : Prop where
  first : F.firstDifference x d = some i
  bit : cl.bit w x d = true
  neighbor : F.neighbor w x i = some y
  link : ((F.switch x).port p).link = some (y, r)
  portDim : (F.switch x).portDim F.config p = some i
  backDim : (F.switch y).portDim F.config r = some i
  portPos : 2 < F.dimensionLength i → (F.switch x).portPos F.config p = w.portPos
  backPos : 2 < F.dimensionLength i → (F.switch y).portPos F.config r = w.other.portPos

theorem portDim_of_configured (hp : p ∈ (F.switch x).physicalPorts)
    (huse : (F.switch x).usable p = true) (hisl : ((F.switch x).port p).isIsl = true)
    (hdim : F.config.getConfiguredDimensionForPort p = some i) :
    (F.switch x).portDim F.config p = some i ∧
      (F.switch x).portPos F.config p = F.config.getConfiguredPortPosInDim i p := by
  have h : (F.switch x).portDim F.config p = some i := by
    unfold DorSwitch.portDim
    simp [hp, huse, hisl, hdim]
  refine ⟨h, ?_⟩
  unfold DorSwitch.portPos
  rw [h]

theorem groupPort_of_mem (hcons : F.Consistent cl) (hp : p ∈ F.getDorPortGroup cl x d) :
    ∃ i w y r, F.GroupPort cl d x p i w y r := by
  unfold getDorPortGroup at hp
  obtain ⟨o, ho, hp⟩ := List.mem_flatMap.mp hp
  obtain ⟨w, i, y, hi, hbit, rfl, hy⟩ := hcons.neighbor_of_mem ho
  obtain ⟨hphys, huse, r, hlink⟩ := mem_addPorts.mp hp
  obtain ⟨hisl, hphys', huse', hback⟩ := F.link_back x p y r hphys huse hlink
  obtain ⟨hisl', -⟩ := F.link_back y r x p hphys' huse' hback
  obtain ⟨k, w', hdim, hdim', hy', hpos⟩ := F.link_dimension x p y r hphys huse hlink
  have hne := neighbor_coords_ne hi hy
  have hik : i = k := by
    by_contra hik
    exact hne (neighbor_coords hy' hik)
  subst hik
  obtain ⟨hportDim, hportPos⟩ := portDim_of_configured hphys huse hisl hdim
  obtain ⟨hbackDim, hbackPos⟩ := portDim_of_configured hphys' huse' hisl' hdim'
  refine ⟨i, w, y, r, hi, hbit, hy, hlink, hportDim, hbackDim, fun hL => ?_, fun hL => ?_⟩
  · rw [hportPos, way_eq_of_neighbor hy hy' hL]
    exact (hpos hL).1
  · rw [hbackPos, way_eq_of_neighbor hy hy' hL]
    exact (hpos hL).2

/-! ## Progress along a ring -/

def datelinePos (F : DorPortFabric n D) (i : Fin D) : Nat :=
  (F.datelineCoord i - F.coordMinimum i).toNat

def progress (F : DorPortFabric n D) (w : Way) (x : Fin n) (i : Fin D) : Nat :=
  if F.toroidal i then
    match w with
    | .right => ahead (F.dimensionLength i) (F.datelinePos i) (F.pos x i)
    | .left => ahead (F.dimensionLength i) (F.pos x i) (F.datelinePos i)
  else
    match w with
    | .right => F.pos x i
    | .left => F.dimensionLength i - 1 - F.pos x i

theorem datelinePos_lt (x : Fin n) (htor : F.toroidal i = true) :
    F.datelinePos i < F.dimensionLength i := by
  have hmax := F.coordMaximum_eq i
  have hx := F.pos_lt x i
  unfold datelinePos datelineCoord
  cases hz : F.datelineSwitch with
  | none =>
    simp only [DorTopology.coordMinimum, htor, Bool.not_true, Bool.false_eq_true, if_false]
    split <;> omega
  | some z =>
    have hz := F.coords_mem z i
    simp only
    omega

theorem isDatelineSwitch_iff (htor : F.toroidal i = true) :
    F.isDatelineSwitch x i = true ↔ F.pos x i = F.datelinePos i := by
  have hmax := F.coordMaximum_eq i
  have hpos := F.coords_eq_pos x i
  have hmem := F.coords_mem x i
  have hdl : F.coordMinimum i ≤ F.datelineCoord i := by
    unfold datelineCoord
    cases F.datelineSwitch with
    | none =>
      simp only [DorTopology.coordMinimum, htor, Bool.not_true, Bool.false_eq_true, if_false]
      have hx := F.pos_lt x i
      split <;> omega
    | some z => exact (F.coords_mem z i).1
  unfold isDatelineSwitch datelinePos
  rw [htor, Bool.true_and, decide_eq_true_eq]
  omega

theorem progress_neighbor (hy : F.neighbor w x i = some y) :
    (F.isDatelineSwitch y i = false → F.progress w y i = F.progress w x i + 1) ∧
      (F.isDatelineSwitch y i = true →
        F.progress w y i = 0 ∧ F.progress w x i + 1 = F.dimensionLength i) := by
  have hposx := F.pos_lt x i
  have hposy := F.pos_lt y i
  have hpos := neighbor_pos hy
  unfold progress
  cases htor : F.toroidal i with
  | true =>
    have hdl := datelinePos_lt x htor
    simp only [if_true]
    rw [← Bool.not_eq_true, isDatelineSwitch_iff htor]
    cases w with
    | right =>
      simp only at hpos ⊢
      rw [hpos]
      constructor
      · intro hne
        exact ahead_to_after hne hdl
      · intro heq
        rw [heq]
        refine ⟨ahead_self _ _, ?_⟩
        unfold after at heq
        unfold ahead
        split_ifs at heq ⊢ <;> omega
    | left =>
      simp only at hpos ⊢
      rw [hpos] at hposx ⊢
      constructor
      · intro hne
        exact (ahead_after hne hposy hdl).symm
      · intro heq
        rw [heq]
        refine ⟨ahead_self _ _, ?_⟩
        unfold after at hposx ⊢
        unfold ahead
        split_ifs at hposx ⊢ <;> omega
  | false =>
    have hline : F.isDatelineSwitch y i = false := by simp [isDatelineSwitch, htor]
    have hnext := neighbor_coords_of_mesh htor hy
    have hcx := F.coords_eq_pos x i
    have hcy := F.coords_eq_pos y i
    rw [hline]
    refine ⟨fun _ => ?_, fun h => nomatch h⟩
    cases w <;> simp only [Bool.false_eq_true, if_false] at hnext ⊢ <;> omega

/-! ## Service channels along a route -/

def ScOk (F : DorPortFabric n D) (first second : Fin 32) (d x : Fin n) (i : Fin D) (w : Way)
    (sc : Fin 32) : Prop :=
  sc = first ∨ sc = second ∧ F.toroidal i = true ∧
    F.progress w x i + F.dist w x d i < F.dimensionLength i

structure OnChannel (F : DorPortFabric n D) (cl : DorClosure n) (first second : Fin 32) (d : Fin n)
    (c : Channel n) (i : Fin D) (w : Way) (y : Fin n) (r : Nat) : Prop where
  port : F.GroupPort cl d c.switch c.port i w y r
  sc : F.ScOk first second d c.switch i w c.sc

structure Straight (F : DorPortFabric n D) (q : ScTables) (force : Bool) (d : Fin n)
    (c c' : Channel n) (i : Fin D) (w : Way) : Prop where
  neighbor : F.neighbor w c.switch i = some c'.switch
  ne_self : F.coords c.switch i ≠ F.coords d i
  ne : F.coords c'.switch i ≠ F.coords d i
  sc : c'.sc = if F.isDatelineSwitch c'.switch i then q.scscPlus1 2 c.sc else q.scscNoChg c.sc

theorem Straight.two_lt (h : F.Straight q force d c c' i w) : 2 < F.dimensionLength i := by
  have hstep := dist_neighbor h.neighbor h.ne_self
  have hlt := F.dist_lt w c.switch d i
  have hpos : F.dist w c'.switch d i ≠ 0 := fun h0 => h.ne (dist_eq_zero_iff.mp h0)
  omega

theorem not_datelineSwitch_of_mesh (hmesh : F.config.topology = .mesh) :
    F.isDatelineSwitch x i = false := by
  have htor := F.topology_mesh hmesh i
  unfold isDatelineSwitch
  rw [htor, Bool.false_and]

theorem nextChannel_cases (hcons : F.Consistent cl) (hscs : F.config.routingSCs = 2)
    (hc : F.OnChannel cl first second d c i w y r) (h : F.NextChannel q force cl d c c') :
    ∃ k w' y' r', F.GroupPort cl d c'.switch c'.port k w' y' r' ∧
      (i = k ∧ w = w' ∧ F.Straight q force d c c' i w ∨
        i < k ∧ c'.sc = if F.config.topology = .mesh then q.scscNoChg c.sc else q.scsc0 2 c.sc) := by
  obtain ⟨hlink, hyd, hgroup⟩ := h
  rename_i y₁ r₁ p
  rw [hc.port.link] at hlink
  cases hlink
  obtain ⟨k, w', y', r', hport⟩ := groupPort_of_mem hcons hgroup
  refine ⟨k, w', y', r', hport, ?_⟩
  have hmap : F.scscMap q force y r p =
      ((F.switch y).turnOf F.config q (F.isDatelineSwitch y) i r p).2 :=
    writeScsc_of_isl (by omega) hc.port.backDim (by rw [hport.portDim]; rfl)
  simp only [hmap]
  unfold turnOf
  rw [hport.portDim, Option.getD_some, hscs.symm]
  by_cases harrived : F.coords y i = F.coords d i
  · -- a later dimension
    have hik := lt_firstDifference_neighbor hc.port.first hc.port.neighbor harrived hport.first
    refine .inr ⟨hik, ?_⟩
    by_cases hmesh : F.config.topology = .mesh
    · rw [turn_of_mesh hik.not_gt hmesh, if_pos hmesh]
    · rw [turn_of_gt hik hmesh, if_neg hmesh]
  · have hki := firstDifference_neighbor hc.port.first hc.port.neighbor harrived
    rw [hport.first] at hki
    cases hki
    obtain ⟨k', hk', y'', hy'', -, hnear⟩ := hcons w c.switch d hc.port.bit
    rw [hc.port.first] at hk'
    cases hk'
    rw [hc.port.neighbor] at hy''
    cases hy''
    have hww : w = w' := by
      by_contra hne
      have hother : w' = w.other := by cases w <;> cases w' <;> first | rfl | exact absurd rfl hne
      have hbit := hport.bit
      rw [hother, (hnear harrived).2] at hbit
      cases hbit
    subst hww
    have hnext : F.Straight q force d c
        { switch := y, port := p
          sc := if F.isDatelineSwitch y i then q.scscPlus1 2 c.sc else q.scscNoChg c.sc } i w :=
      ⟨hc.port.neighbor, (firstDifference_eq_some_iff.mp hc.port.first).1, harrived, rfl⟩
    have hL := hnext.two_lt
    refine .inl ⟨rfl, rfl, hnext.neighbor, hnext.ne_self, hnext.ne, ?_⟩
    simp only
    have hsides : (F.switch y).portPos F.config r ≠ (F.switch y).portPos F.config p := by
      rw [hc.port.backPos hL, hport.portPos hL]
      cases w <;> decide
    by_cases hmesh : F.config.topology = .mesh
    · rw [turn_of_mesh (lt_irrefl i) hmesh, not_datelineSwitch_of_mesh hmesh]
      rfl
    · cases hdl : F.isDatelineSwitch y i with
      | false =>
        rw [turn_same hmesh]
        rfl
      | true =>
        rw [turn_dateline hmesh, if_pos hsides, hscs]
        rfl

theorem OnChannel.next (hcons : F.Consistent cl) (hscs : F.config.routingSCs = 2)
    (hsl : q.RoutingSCs sl first second) (hc : F.OnChannel cl first second d c i w y r)
    (h : F.NextChannel q force cl d c c') :
    ∃ k w' y' r', F.OnChannel cl first second d c' k w' y' r' := by
  obtain ⟨k, w', y', r', hport, hturn⟩ := nextChannel_cases hcons hscs hc h
  refine ⟨k, w', y', r', hport, ?_⟩
  have hpair := hsl.pairMaps
  rcases hturn with ⟨rfl, rfl, hstraight⟩ | ⟨-, hsc⟩
  · obtain ⟨hfar, hdl⟩ := progress_neighbor hstraight.neighbor
    have hstep := dist_neighbor hstraight.neighbor hstraight.ne_self
    have hsc := hstraight.sc
    split at hsc
    next hline =>
      -- across the dateline
      have htor : F.toroidal i = true := by
        unfold isDatelineSwitch at hline
        exact ((Bool.and_eq_true _ _).mp hline).1
      have hlt := F.dist_lt w c'.switch d i
      have hsecond : c'.sc = second := by
        rcases hc.sc with h1 | ⟨h2, -⟩
        · rw [hsc, h1]
          exact hpair.plus_first
        · rw [hsc, h2]
          exact hpair.plus_second
      refine .inr ⟨hsecond, htor, ?_⟩
      rw [(hdl hline).1]
      omega
    next hline =>
      rw [Bool.not_eq_true] at hline
      rcases hc.sc with h1 | ⟨h2, htor, hrest⟩
      · exact .inl (by rw [hsc, h1, hsl.scscNoChg_first])
      · refine .inr ⟨by rw [hsc, h2, hsl.scscNoChg_second], htor, ?_⟩
        rw [hfar hline]
        omega
  · refine .inl ?_
    rw [hsc]
    split
    next hmesh =>
      rcases hc.sc with h1 | ⟨-, htor, -⟩
      · rw [h1, hsl.scscNoChg_first]
      · rw [F.topology_mesh hmesh i] at htor
        cases htor
    next =>
      rcases hc.sc with h1 | ⟨h2, -⟩
      · rw [h1]
        exact hpair.zero_first
      · rw [h2]
        exact hpair.zero_second

theorem Carries.onChannel (hcons : F.Consistent cl) (hscs : F.config.routingSCs = 2)
    (hsl : q.RoutingSCs sl first second) (h : F.Carries q force cl sl d c) :
    ∃ i w y r, F.OnChannel cl first second d c i w y r := by
  induction h with
  | own _ hp =>
    obtain ⟨i, w, y, r, hport⟩ := groupPort_of_mem hcons hp
    exact ⟨i, w, y, r, hport, .inl hsl.first_eq⟩
  | @host x h p hh huse hhost _ hp =>
    obtain ⟨i, w, y, r, hport⟩ := groupPort_of_mem hcons hp
    refine ⟨i, w, y, r, hport, .inl ?_⟩
    have hmap : F.scscMap q force x h p = q.scscNoChg :=
      writeScsc_of_host hh huse hhost (portDim_eq_some hport.portDim).1
    simp only [hmap]
    rw [hsl.first_eq, hsl.scscNoChg_first]
  | forward _ hnext ih =>
    obtain ⟨i, w, y, r, hc⟩ := ih
    exact hc.next hcons hscs hsl hnext

/-! ## The order of the channels -/

def scRank (q : ScTables) (sc : Fin 32) : Nat :=
  if (q.scToSL sc).map q.slToSC = some sc then 0 else 1

theorem scRank_first (hsl : q.RoutingSCs sl first second) : scRank q first = 0 := by
  unfold scRank
  rw [hsl.scToSL_first, Option.map_some, hsl.first_eq, if_pos rfl]

theorem scRank_second (hsl : q.RoutingSCs sl first second) : scRank q second = 1 := by
  unfold scRank
  rw [hsl.scToSL_second, Option.map_some, hsl.first_eq, if_neg]
  intro heq
  exact hsl.first_lt_second.ne (Option.some.inj heq)

/-- The dimension of a channel, its SC and how far it is along its ring. -/
def rank (F : DorPortFabric n D) (q : ScTables) (c : Channel n) : Nat ×ₗ Nat ×ₗ Nat :=
  match (F.switch c.switch).portDim F.config c.port with
  | none => toLex (0, toLex (0, 0))
  | some i =>
    let w := if (F.switch c.switch).portPos F.config c.port = 1 then Way.right else Way.left
    toLex (i.val, toLex (scRank q c.sc, F.progress w c.switch i))

theorem rank_lt_of_dim (hc : (F.switch c.switch).portDim F.config c.port = some i)
    (hc' : (F.switch c'.switch).portDim F.config c'.port = some k) (hik : i < k) :
    F.rank q c < F.rank q c' := by
  unfold rank
  rw [hc, hc']
  exact Prod.Lex.toLex_lt_toLex.mpr (.inl hik)

theorem rank_of_portPos (hc : (F.switch c.switch).portDim F.config c.port = some i)
    (hpos : (F.switch c.switch).portPos F.config c.port = w.portPos) :
    F.rank q c = toLex (i.val, toLex (scRank q c.sc, F.progress w c.switch i)) := by
  unfold rank
  rw [hc]
  simp only [hpos]
  cases w <;> rfl

theorem rank_lt_of_next (hcons : F.Consistent cl) (hscs : F.config.routingSCs = 2)
    (hsl : q.RoutingSCs sl first second) (hc : F.OnChannel cl first second d c i w y r)
    (h : F.NextChannel q force cl d c c') : F.rank q c < F.rank q c' := by
  obtain ⟨k, w', y', r', hport, hturn⟩ := nextChannel_cases hcons hscs hc h
  rcases hturn with ⟨rfl, rfl, hstraight⟩ | ⟨hik, -⟩
  · have hL := hstraight.two_lt
    rw [rank_of_portPos hc.port.portDim (hc.port.portPos hL),
      rank_of_portPos hport.portDim (hport.portPos hL), Prod.Lex.toLex_lt_toLex]
    refine .inr ⟨rfl, ?_⟩
    rw [Prod.Lex.toLex_lt_toLex]
    obtain ⟨hfar, hdl⟩ := progress_neighbor hstraight.neighbor
    have hsc := hstraight.sc
    split at hsc
    next hline =>
      rcases hc.sc with h1 | ⟨-, -, hrest⟩
      · -- from the first SC to the second
        rw [h1] at hsc
        rw [hsc.trans hsl.pairMaps.plus_first, h1, scRank_first hsl, scRank_second hsl]
        exact .inl Nat.zero_lt_one
      · -- a packet on the second SC would have gone around
        have hstep := dist_neighbor hstraight.neighbor hstraight.ne_self
        have hnear : F.dist w c'.switch d i ≠ 0 := fun h0 => hstraight.ne (dist_eq_zero_iff.mp h0)
        have hround := (hdl hline).2
        omega
    next hline =>
      rw [Bool.not_eq_true] at hline
      have hsame : c'.sc = c.sc := by
        rw [hsc]
        rcases hc.sc with h1 | ⟨h2, -⟩
        · rw [h1, hsl.scscNoChg_first]
        · rw [h2, hsl.scscNoChg_second]
      refine .inr ⟨by rw [hsame], ?_⟩
      have hon := hfar hline
      show F.progress w c.switch i < F.progress w c'.switch i
      omega
  · exact rank_lt_of_dim hc.port.portDim hport.portDim hik

theorem exists_routingSCs (h : HasTwoSCs q sl) : ∃ first second, q.RoutingSCs sl first second := by
  obtain ⟨hin, j, hlt, hj⟩ := h
  have hsome : ((scsAfter (q.slToSC sl)).find? fun j => q.scToSL j = some sl).isSome := by
    rw [List.find?_isSome]
    refine ⟨j, ?_, by simpa using hj⟩
    unfold scsAfter
    rw [List.mem_filter]
    exact ⟨List.mem_finRange j, decide_eq_true hlt⟩
  obtain ⟨second, hsecond⟩ := Option.isSome_iff_exists.mp hsome
  exact ⟨q.slToSC sl, second, hin, rfl, hsecond⟩

/-- With two routing SCs the channel dependency graph of the closure's routes has no cycle,
whatever was written to the switches before. -/
theorem dorRouting_deadlock_free (F : DorPortFabric n D) (q : ScTables) (force : Bool)
    (switches : List (Fin n)) (hscs : F.config.routingSCs = 2) :
    ∃ cl, F.calcDorClosure switches = some cl ∧ Acyclic (F.DependsOn q force cl) := by
  obtain ⟨cl, hcl, hcons⟩ := F.calcDorClosure_consistent switches
  refine ⟨cl, hcl, .of_rank (F.rank q) ?_⟩
  rintro c c' ⟨sl, d, htwo, hcarries, hnext⟩
  obtain ⟨first, second, hsl⟩ := exists_routingSCs htwo
  obtain ⟨i, w, y, r, hc⟩ := hcarries.onChannel hcons hscs hsl
  exact rank_lt_of_next hcons hscs hsl hc hnext

end DorPortFabric

/-! ## A ring of five switches -/

def ringSwitch (x : Fin 5) : DorSwitch 5 where
  numPorts := 3
  port := fun p =>
    { valid := true
      up := true
      isIsl := decide (p ≠ 3)
      scscCurrent := false
      scscMap := fun _ sc => sc
      link := if p = 1 then some (x + 1, 2) else if p = 2 then some (x - 1, 1) else none }

theorem ringSwitch_link {x y : Fin 5} {p r : Nat} (h : ((ringSwitch x).port p).link = some (y, r)) :
    p = 1 ∧ y = x + 1 ∧ r = 2 ∨ p = 2 ∧ y = x - 1 ∧ r = 1 := by
  simp only [ringSwitch] at h
  split at h
  next hp =>
    cases h
    exact .inl ⟨hp, rfl, rfl⟩
  next =>
    split at h
    next hp =>
      cases h
      exact .inr ⟨hp, rfl, rfl⟩
    next => cases h

def ringFabric : DorPortFabric 5 1 where
  dimensionLength := fun _ => 5
  toroidal := fun _ => true
  coords := fun x _ => (x.val : Int) - 2
  left := fun x _ => some (x - 1)
  right := fun x _ => some (x + 1)
  coords_mem := by decide
  coords_injective := by
    intro x y hxy
    have h := congrFun hxy 0
    ext
    simpa using h
  left_iff := by decide
  right_coords := by decide
  config := { topology := .torus, routingSCs := 2, portPair := fun _ => [(1, 2)] }
  switch := ringSwitch
  datelineSwitch := none
  topology_mesh := by decide
  link_back := by
    intro x p y r _ _ hlink
    rcases ringSwitch_link hlink with ⟨rfl, rfl, rfl⟩ | ⟨rfl, rfl, rfl⟩
    · revert x
      decide
    · revert x
      decide
  link_dimension := by
    intro x p y r _ _ hlink
    rcases ringSwitch_link hlink with ⟨rfl, rfl, rfl⟩ | ⟨rfl, rfl, rfl⟩
    · exact ⟨0, .right, by decide, by decide, rfl, fun _ => by decide⟩
    · exact ⟨0, .left, by decide, by decide, rfl, fun _ => by decide⟩

def twoScs : ScTables where
  slToSC := fun sl => if sl.val = 0 then sl else Fin.last 31
  scToSL := fun sc => if sc.val ≤ 1 then some ⟨0, Nat.zero_lt_succ 31⟩ else none
  linkSLsInuse := fun sl => decide (sl.val = 0)
  scToSL_slToSC := by decide

theorem ringFabric_deadlock_free :
    ringFabric.config.routingSCs = 2 ∧ ∃ cl, ringFabric.calcDorClosure [0, 1, 2, 3, 4] = some cl ∧
      Acyclic (ringFabric.DependsOn twoScs false cl) :=
  ⟨rfl, ringFabric.dorRouting_deadlock_free twoScs false [0, 1, 2, 3, 4] rfl⟩

end OpaFm.Dor
