import OpaFm.Cs.Proofs.PaddedBits
import OpaFm.SmQos.ScScWrite

/-!
# Runs of SCs and VLs for each SL

A search finds the first free VL with a run at its lowest SC, or nothing if there is none.  The
loops so give each SL the lowest VL that the SLs before it leave for it.
-/

namespace OpaFm.SmQos

open OpaFm.Cs OpaFm.Partition

variable {scvl : Nat → Nat} {numSCs : Nat} {free : Bitset} {F : Finset Nat}

/-! ## One search -/

/-- The run at the lowest SC of a VL is mapped to free VLs, and does not begin at the last place
for it. -/
def FreeRun (scvl : Nat → Nat) (numSCs : Nat) (isFree : Nat → Prop) (vl : Nat) : Prop :=
  lowestSc scvl numSCs vl < stlMaxScs - numSCs ∧
    ∀ i < numSCs, scvl (lowestSc scvl numSCs vl + i) = vl + i ∧ isFree (vl + i)

def passed (scvl : Nat → Nat) (numSCs start vl : Nat) (F : Finset Nat) : Finset Nat :=
  F.filter fun w => ¬(start ≤ w ∧ w < vl ∧ stlMaxScs - numSCs ≤ lowestSc scvl numSCs w)

def SearchSpec (scvl : Nat → Nat) (numSCs start nbits : Nat) (F : Finset Nat)
    (r : Bitset × Option (Nat × Nat)) : Prop :=
  r.1.nbits = nbits ∧
    match r.2 with
    | none => ∀ vl ∈ F, start ≤ vl → ¬FreeRun scvl numSCs (· ∈ F) vl
    | some (sc, vl) => start ≤ vl ∧ sc = lowestSc scvl numSCs vl ∧
        FreeRun scvl numSCs (· ∈ F) vl ∧
        (∀ w ∈ F, start ≤ w → w < vl → ¬FreeRun scvl numSCs (· ∈ F) w) ∧
        Padded r.1 (passed scvl numSCs start vl F)

theorem SearchSpec.step {start nbits vl : Nat} {F' : Finset Nat}
    {r : Bitset × Option (Nat × Nat)} (h : SearchSpec scvl numSCs (vl + 1) nbits F' r)
    (hle : start ≤ vl) (hleast : ∀ w ∈ F, start ≤ w → vl ≤ w)
    (hno : ¬FreeRun scvl numSCs (· ∈ F) vl) (hsub : ∀ w, vl < w → (w ∈ F' ↔ w ∈ F))
    (hrun : ∀ w, vl < w → (FreeRun scvl numSCs (· ∈ F') w ↔ FreeRun scvl numSCs (· ∈ F) w))
    (hpassed : ∀ w, vl < w → passed scvl numSCs (vl + 1) w F' = passed scvl numSCs start w F) :
    SearchSpec scvl numSCs start nbits F r := by
  have hbelow : ∀ w ∈ F, start ≤ w → w ≠ vl → vl < w := by
    intro w hw hstart hne
    have := hleast w hw hstart
    omega
  obtain ⟨hsize, hcase⟩ := h
  refine ⟨hsize, ?_⟩
  revert hcase
  cases r.2 with
  | none =>
    intro hcase w hw hstart hfree
    by_cases hwvl : w = vl
    · subst hwvl
      exact hno hfree
    · have hlt := hbelow w hw hstart hwvl
      exact hcase w ((hsub w hlt).mpr hw) hlt ((hrun w hlt).mpr hfree)
  | some found =>
    rintro ⟨hlt, hsc, hfree, hleast', hpad⟩
    refine ⟨by omega, hsc, (hrun _ hlt).mp hfree, ?_, (hpassed _ hlt) ▸ hpad⟩
    intro w hw hstart hbefore hfree'
    by_cases hwvl : w = vl
    · subst hwvl
      exact hno hfree'
    · have hlt' := hbelow w hw hstart hwvl
      exact hleast' w ((hsub w hlt').mpr hw) hlt' hbefore ((hrun w hlt').mpr hfree')

def scsOf (x : ScSlInput) (uses : List SlUse) (sl : Nat) : Nat :=
  match uses.find? fun u => u.sl == sl with
  | none => 0
  | some u => x.numRoutingScs u.sl u.mcSl

structure SlRuns (x : ScSlInput) (uses : List SlUse) (st : ScSlState) : Prop where
  run : ∀ sl ∈ uses.map SlUse.sl, ∃ vl, ∀ i < scsOf x uses sl,
    st.slToSc sl + i < stlMaxScs ∧ x.scvl (st.slToSc sl + i) = vl + i ∧
      vl + i < x.activeVLs ∧ vl + i ≠ mgmtVl ∧ st.scToSl (st.slToSc sl + i) = sl
  disjoint : ∀ sl ∈ uses.map SlUse.sl, ∀ sl' ∈ uses.map SlUse.sl, sl ≠ sl' →
    ∀ i < scsOf x uses sl, ∀ j < scsOf x uses sl',
      st.slToSc sl + i ≠ st.slToSc sl' + j ∧
        x.scvl (st.slToSc sl + i) ≠ x.scvl (st.slToSc sl' + j)

def Unused (x : ScSlInput) (st : ScSlState) (vl : Nat) : Prop :=
  vl < x.activeVLs ∧ vl ≠ mgmtVl ∧
    ∀ sc < stlMaxScs, st.scToSl sc ≠ 0xff → x.scvl sc ≠ vl

def Available (x : ScSlInput) (st : ScSlState) (numSCs : Nat) : Prop :=
  ∃ sc vl, sc + numSCs ≤ stlMaxScs ∧
    ∀ i < numSCs, x.scvl (sc + i) = vl + i ∧ Unused x st (vl + i)

/-! ## The VLs that are left -/

/-- The numbers of SCs and first VLs of the runs that SLs have been given. -/
abbrev Runs := List (Nat × Nat)

def InRuns (given : Runs) (w : Nat) : Prop := ∃ r ∈ given, r.2 ≤ w ∧ w < r.2 + r.1

def PassedOver (x : ScSlInput) (given : Runs) (w : Nat) : Prop :=
  ∃ r ∈ given, w < r.2 ∧ stlMaxScs - r.1 ≤ lowestSc x.scvl r.1 w

def Left (x : ScSlInput) (given : Runs) (w : Nat) : Prop :=
  w < x.activeVLs ∧ w ≠ mgmtVl ∧ ¬InRuns given w ∧ ¬PassedOver x given w

/-- Each SL gets the lowest VL with a run that is left, the last one first. -/
inductive Given (x : ScSlInput) : List SlUse → Runs → Prop
  | start : Given x [] []
  | again {uses : List SlUse} {given : Runs} {u : SlUse} (h : Given x uses given)
      (hin : u.sl ∈ uses.map SlUse.sl) : Given x (uses ++ [u]) given
  | next {uses : List SlUse} {given : Runs} {u : SlUse} (h : Given x uses given)
      (hnew : u.sl ∉ uses.map SlUse.sl) (vl : Nat)
      (hrun : FreeRun x.scvl (x.numRoutingScs u.sl u.mcSl) (Left x given) vl)
      (hleast : ∀ w < vl, ¬FreeRun x.scvl (x.numRoutingScs u.sl u.mcSl) (Left x given) w) :
      Given x (uses ++ [u]) ((x.numRoutingScs u.sl u.mcSl, vl) :: given)

structure Assigned (x : ScSlInput) (uses : List SlUse) (given : Runs) (st : ScSlState)
    (F : Finset Nat) : Prop where
  order : Given x uses given
  free : Padded st.freeVLs F
  size : st.freeVLs.nbits = x.activeVLs
  left : ∀ w, w ∈ F ↔ Left x given w
  taken : ∀ w, InRuns given w ↔ ∃ sc < stlMaxScs, st.scToSl sc ≠ 0xff ∧ x.scvl sc = w
  mapped : st.mappedSLs.Good ⟨stlMaxSls, (uses.map SlUse.sl).toFinset⟩
  sls_lt : ∀ sl ∈ uses.map SlUse.sl, sl < stlMaxSls
  runs : SlRuns x uses st

variable {x : ScSlInput} {uses : List SlUse} {given : Runs} {st : ScSlState} {u : SlUse}

theorem scsOf_append {sl : Nat} (h : sl ∈ uses.map SlUse.sl) (rest : List SlUse) :
    scsOf x (uses ++ rest) sl = scsOf x uses sl := by
  unfold scsOf
  rw [List.find?_append]
  cases hfind : uses.find? fun u => u.sl == sl with
  | none =>
    obtain ⟨u, hu, husl⟩ := List.mem_map.mp h
    have hno := List.find?_eq_none.mp hfind u hu
    rw [husl] at hno
    exact absurd (beq_self_eq_true sl) hno
  | some u => rfl

theorem scsOf_new (h : u.sl ∉ uses.map SlUse.sl) :
    scsOf x (uses ++ [u]) u.sl = x.numRoutingScs u.sl u.mcSl := by
  have hnone : (uses.find? fun v => v.sl == u.sl) = none := by
    rw [List.find?_eq_none]
    intro v hv heq
    exact h (List.mem_map.mpr ⟨v, hv, beq_iff_eq.mp heq⟩)
  have hfirst : ([u].find? fun v => v.sl == u.sl) = some u :=
    List.find?_cons_of_pos (beq_self_eq_true u.sl)
  unfold scsOf
  rw [List.find?_append, hnone, Option.none_or, hfirst]

theorem mem_uses_append {sl : Nat} :
    sl ∈ (uses ++ [u]).map SlUse.sl ↔ sl ∈ uses.map SlUse.sl ∨ sl = u.sl := by
  rw [List.map_append, List.mem_append, List.map_singleton, List.mem_singleton]

theorem SlRuns.again (h : SlRuns x uses st) (hu : u.sl ∈ uses.map SlUse.sl) :
    SlRuns x (uses ++ [u]) st := by
  have hmem : ∀ sl ∈ (uses ++ [u]).map SlUse.sl, sl ∈ uses.map SlUse.sl := by
    intro sl hsl
    rcases mem_uses_append.mp hsl with hsl | rfl
    · exact hsl
    · exact hu
  constructor
  · intro sl hsl
    rw [scsOf_append (hmem sl hsl)]
    exact h.run sl (hmem sl hsl)
  · intro sl hsl sl' hsl' hne
    rw [scsOf_append (hmem sl hsl), scsOf_append (hmem sl' hsl')]
    exact h.disjoint sl (hmem sl hsl) sl' (hmem sl' hsl') hne

theorem Assigned.not_free (h : Assigned x uses given st F) {sl i : Nat} (hsl : sl ∈ uses.map SlUse.sl)
    (hi : i < scsOf x uses sl) : x.scvl (st.slToSc sl + i) ∉ F := by
  intro hin
  obtain ⟨vl, hrun⟩ := h.runs.run sl hsl
  obtain ⟨hlt, _, _, _, hback⟩ := hrun i hi
  refine ((h.left _).mp hin).2.2.1 ((h.taken _).mpr ⟨_, hlt, ?_, rfl⟩)
  rw [hback]
  have := h.sls_lt sl hsl
  unfold stlMaxSls at this
  omega

theorem SlRuns.extend {st' : ScSlState} {sc vl : Nat} (h : Assigned x uses given st F)
    (hnew : u.sl ∉ uses.map SlUse.sl)
    (hrun : ∀ i < x.numRoutingScs u.sl u.mcSl, sc + i < stlMaxScs ∧ x.scvl (sc + i) = vl + i ∧
      vl + i ∈ F)
    (hslToSc : ∀ sl, st'.slToSc sl = if sl = u.sl then sc else st.slToSc sl)
    (hscToSl : ∀ i, st'.scToSl i =
      if sc ≤ i ∧ i < sc + x.numRoutingScs u.sl u.mcSl then u.sl else st.scToSl i) :
    SlRuns x (uses ++ [u]) st' := by
  have hscs := scsOf_new (x := x) hnew
  have hfirst : st'.slToSc u.sl = sc := (hslToSc u.sl).trans (if_pos rfl)
  have hold : ∀ sl ∈ uses.map SlUse.sl, st'.slToSc sl = st.slToSc sl ∧
      scsOf x (uses ++ [u]) sl = scsOf x uses sl := by
    intro sl hsl
    have hne : sl ≠ u.sl := fun heq => hnew (heq ▸ hsl)
    exact ⟨(hslToSc sl).trans (if_neg hne), scsOf_append hsl _⟩
  -- the SCs of an SL met before are mapped to VLs that are not free, unlike the new ones
  have hapart : ∀ sl ∈ uses.map SlUse.sl, ∀ j < scsOf x uses sl,
      ∀ i < x.numRoutingScs u.sl u.mcSl, x.scvl (sc + i) ≠ x.scvl (st.slToSc sl + j) := by
    intro sl hsl j hj i hi heq
    obtain ⟨_, hmap, hfree⟩ := hrun i hi
    apply h.not_free hsl hj
    rw [← heq, hmap]
    exact hfree
  constructor
  · intro sl hsl
    rcases mem_uses_append.mp hsl with hsl | rfl
    · obtain ⟨hsc, hcount⟩ := hold sl hsl
      obtain ⟨w, hw⟩ := h.runs.run sl hsl
      refine ⟨w, ?_⟩
      intro i hi
      rw [hcount] at hi
      obtain ⟨hlt, hmap, hactive, hmgmt, hback⟩ := hw i hi
      rw [hsc]
      refine ⟨hlt, hmap, hactive, hmgmt, ?_⟩
      rw [hscToSl, if_neg, hback]
      rintro ⟨hge, hlt'⟩
      apply hapart sl hsl i hi (st.slToSc sl + i - sc) (by omega)
      rw [Nat.add_sub_cancel' hge]
    · refine ⟨vl, ?_⟩
      intro i hi
      rw [hscs] at hi
      obtain ⟨hlt, hmap, hfree⟩ := hrun i hi
      obtain ⟨hactive, hmgmt, _⟩ := (h.left _).mp hfree
      rw [hfirst]
      refine ⟨hlt, hmap, hactive, hmgmt, ?_⟩
      rw [hscToSl]
      exact if_pos ⟨Nat.le_add_right _ _, by omega⟩
  · intro sl hsl sl' hsl' hne i hi j hj
    rcases mem_uses_append.mp hsl with hsl | rfl
    · obtain ⟨hsc, hcount⟩ := hold sl hsl
      rw [hcount] at hi
      rw [hsc]
      rcases mem_uses_append.mp hsl' with hsl' | rfl
      · obtain ⟨hsc', hcount'⟩ := hold sl' hsl'
        rw [hcount'] at hj
        rw [hsc']
        exact h.runs.disjoint sl hsl sl' hsl' hne i hi j hj
      · rw [hscs] at hj
        rw [hfirst]
        have hne' := hapart sl hsl i hi j hj
        exact ⟨fun heq => hne' (congrArg x.scvl heq.symm), hne'.symm⟩
    · rw [hscs] at hi
      rw [hfirst]
      rcases mem_uses_append.mp hsl' with hsl' | rfl
      · obtain ⟨hsc', hcount'⟩ := hold sl' hsl'
        rw [hcount'] at hj
        rw [hsc']
        have hne' := hapart sl' hsl' j hj i hi
        exact ⟨fun heq => hne' (congrArg x.scvl heq), hne'⟩
      · exact absurd rfl hne

end OpaFm.SmQos
