import OpaFm.Partition.DeviceGroup

/-!
# The arrays of the node criteria

The digits of a number, the groups of an expression and the port ranges of a group are kept in
arrays of fixed sizes.  `smEvaluateNodeDG` has a result exactly for the descriptions that fit them.
-/

namespace OpaFm.Partition

open OpaFm.Fabric

variable {groupText : Nat → Option String} {nodeDesc : String} {e : RegExp} {l : List RegExp}
  {r r' : NodeDg} {k : Nat}

/-! ## Numbers and groups -/

def NumberFits (text : String) : Prop :=
  text.toList.all Char.isDigit = true →
    (text.toList.dropWhile (· = '0')).length ≤ maxDigitsToProcess

/-- The group of a range is saved, and the number found there fits. -/
def BracketRange.Fits (groupText : Nat → Option String) (b : BracketRange) : Prop :=
  b.bracketGroupNum < maxBracketsSupported ∧
    ∀ text, groupText b.bracketGroupNum = some text → NumberFits text

def BracketRange.Passed (groupText : Nat → Option String) (b : BracketRange) : Prop :=
  ∀ text, groupText b.bracketGroupNum = some text → isNumberInRange text b = some true

def RangesFit (groupText : Nat → Option String) (brackets : List BracketRange) : Prop :=
  ∀ earlier b later, brackets = earlier ++ b :: later →
    (∀ q ∈ earlier, q.Passed groupText) → b.Fits groupText

def RegExp.Fits (e : RegExp) (nodeDesc : String) : Prop :=
  e.isSyntaxValid = true → ∀ groupText, e.regexec nodeDesc = some groupText →
    RangesFit groupText e.brackets

theorem drop_takeWhile_length (p : Char → Bool) (l : List Char) :
    l.drop (l.takeWhile p).length = l.dropWhile p := by
  calc l.drop (l.takeWhile p).length
      = (l.takeWhile p ++ l.dropWhile p).drop (l.takeWhile p).length := by
        rw [List.takeWhile_append_dropWhile]
    _ = l.dropWhile p := List.drop_left

theorem isNumberInRange_ne_none_iff {text : String} {b : BracketRange} :
    isNumberInRange text b ≠ none ↔ NumberFits text := by
  unfold isNumberInRange NumberFits
  simp only [drop_takeWhile_length, Nat.lt_succ_iff]
  split_ifs with hdigits hfew
  · simp [hfew]
  · simp [hfew]
  · simp [hdigits, hfew]
  · simp [hdigits]

theorem rangesFit_cons {b : BracketRange} {rest : List BracketRange} :
    RangesFit groupText (b :: rest) ↔
      b.Fits groupText ∧ (b.Passed groupText → RangesFit groupText rest) := by
  constructor
  · intro h
    refine ⟨h [] b rest rfl fun q hq => absurd hq List.not_mem_nil, ?_⟩
    intro hpassed earlier q later hsplit hearlier
    apply h (b :: earlier) q later (by rw [hsplit, List.cons_append])
    intro p hp
    rcases List.mem_cons.mp hp with rfl | hp
    · exact hpassed
    · exact hearlier p hp
  · rintro ⟨hfirst, hrest⟩ earlier q later hsplit hearlier
    cases earlier with
    | nil =>
      obtain ⟨rfl, rfl⟩ := List.cons.inj hsplit
      exact hfirst
    | cons p earlier =>
      obtain ⟨rfl, rfl⟩ := List.cons.inj hsplit
      exact hrest (hearlier b List.mem_cons_self) earlier q later rfl
        fun a ha => hearlier a (List.mem_cons_of_mem _ ha)

theorem bracketsMatch_ne_none_iff {brackets : List BracketRange} {isMatch : Bool} :
    bracketsMatch groupText brackets isMatch ≠ none ↔ RangesFit groupText brackets := by
  induction brackets generalizing isMatch with
  | nil =>
    constructor
    · intro _ earlier b later hsplit
      exact absurd hsplit.symm (List.append_ne_nil_of_right_ne_nil _ (List.cons_ne_nil _ _))
    · intro _ h
      cases h
  | cons b rest ih =>
    rw [rangesFit_cons, bracketsMatch]
    split_ifs with hgroup
    · cases htext : groupText b.bracketGroupNum with
      | none =>
        have hfits : b.Fits groupText := ⟨hgroup, fun text h => by rw [htext] at h; cases h⟩
        have hpassed : b.Passed groupText := fun text h => by rw [htext] at h; cases h
        exact ih.trans ⟨fun h => ⟨hfits, fun _ => h⟩, fun h => h.2 hpassed⟩
      | some text =>
        have hfits : b.Fits groupText ↔ isNumberInRange text b ≠ none := by
          simp [BracketRange.Fits, htext, hgroup, isNumberInRange_ne_none_iff]
        have hpassed : b.Passed groupText ↔ isNumberInRange text b = some true := by
          simp [BracketRange.Passed, htext]
        rw [hfits, hpassed]
        cases hnumber : isNumberInRange text b with
        | none => simp [hnumber]
        | some inside =>
          cases inside with
          | true => simpa [hnumber] using ih
          | false => simp [hnumber]
    · simp [BracketRange.Fits, hgroup]

theorem RegExp.isMatch_ne_none_iff : e.isMatch nodeDesc ≠ none ↔ e.Fits nodeDesc := by
  unfold RegExp.isMatch RegExp.Fits
  split_ifs with hvalid
  · cases hexec : e.regexec nodeDesc with
    | none => simp
    | some groupText => simpa [hvalid] using bracketsMatch_ne_none_iff
  · simp [hvalid]

/-! ## Port ranges -/

def rangeMatches (nodeDesc : String) (e : RegExp) : Bool :=
  e.isMatch nodeDesc = some true ∧ e.portRange.isSome

def wholeMatches (nodeDesc : String) (e : RegExp) : Bool :=
  e.isMatch nodeDesc = some true ∧ e.portRange = none

/-- Every entry fits, and between the matches of all ports there are no more matches with a port
range than `portInfo` has entries. -/
structure DescriptionsFit (nodeDesc : String) (l : List RegExp) : Prop where
  entries : ∀ e ∈ l, e.Fits nodeDesc
  ranges : ∀ run, run <:+: l → (∀ e ∈ run, wholeMatches nodeDesc e = false) →
    run.countP (rangeMatches nodeDesc) ≤ maxNodeDescEntries

def describe (nodeDesc : String) (r : NodeDg) (e : RegExp) : NodeDg :=
  if e.isMatch nodeDesc = some true then
    match e.portRange with
    | some range => ⟨true, r.portRanges ++ [range]⟩
    | none => ⟨true, []⟩
  else r

theorem describe_range {range : Nat × Nat} (hmatch : e.isMatch nodeDesc = some true)
    (hrange : e.portRange = some range) :
    describe nodeDesc r e = ⟨true, r.portRanges ++ [range]⟩ := by
  unfold describe
  rw [if_pos hmatch, hrange]

theorem describe_whole (hmatch : e.isMatch nodeDesc = some true) (hrange : e.portRange = none) :
    describe nodeDesc r e = ⟨true, []⟩ := by
  unfold describe
  rw [if_pos hmatch, hrange]

theorem describe_other (hmatch : e.isMatch nodeDesc ≠ some true) : describe nodeDesc r e = r := by
  unfold describe
  rw [if_neg hmatch]

def RangesFitFrom (nodeDesc : String) (l : List RegExp) (k : Nat) : Prop :=
  (∀ run, run <+: l → (∀ e ∈ run, wholeMatches nodeDesc e = false) →
    k + run.countP (rangeMatches nodeDesc) ≤ maxNodeDescEntries) ∧
  ∀ run, run <:+: l → (∀ e ∈ run, wholeMatches nodeDesc e = false) →
    run.countP (rangeMatches nodeDesc) ≤ maxNodeDescEntries

theorem rangesFitFrom_nil (hk : k ≤ maxNodeDescEntries) : RangesFitFrom nodeDesc [] k := by
  constructor
  · intro run hrun _
    rw [List.prefix_nil.mp hrun]
    exact hk
  · intro run hrun _
    rw [List.infix_nil.mp hrun]
    exact Nat.zero_le _

theorem rangesFitFrom_whole (hwhole : wholeMatches nodeDesc e = true)
    (hk : k ≤ maxNodeDescEntries) :
    RangesFitFrom nodeDesc (e :: l) k ↔ RangesFitFrom nodeDesc l 0 := by
  have hstart : ∀ run, run <+: e :: l → (∀ a ∈ run, wholeMatches nodeDesc a = false) →
      run = [] := by
    intro run hrun hno
    rcases List.prefix_cons_iff.mp hrun with rfl | ⟨t, rfl, _⟩
    · rfl
    · have hfalse := hno e List.mem_cons_self
      rw [hwhole] at hfalse
      cases hfalse
  constructor
  · intro h
    constructor
    · intro run hrun hno
      rw [Nat.zero_add]
      exact h.2 run (List.infix_cons hrun.isInfix) hno
    · intro run hrun hno
      exact h.2 run (List.infix_cons hrun) hno
  · intro h
    constructor
    · intro run hrun hno
      rw [hstart run hrun hno]
      exact hk
    · intro run hrun hno
      rcases List.infix_cons_iff.mp hrun with hrun | hrun
      · rw [hstart run hrun hno]
        exact Nat.zero_le _
      · exact h.2 run hrun hno

theorem rangesFitFrom_not_whole (hwhole : wholeMatches nodeDesc e = false) :
    RangesFitFrom nodeDesc (e :: l) k ↔
      RangesFitFrom nodeDesc l (k + if rangeMatches nodeDesc e then 1 else 0) := by
  constructor
  · intro h
    constructor
    · intro run hrun hno
      have hle := h.1 (e :: run) (List.prefix_cons_iff.mpr (.inr ⟨run, rfl, hrun⟩))
        (List.forall_mem_cons.mpr ⟨hwhole, hno⟩)
      rw [List.countP_cons] at hle
      omega
    · intro run hrun hno
      exact h.2 run (List.infix_cons hrun) hno
  · intro h
    have hstart : ∀ run, run <+: e :: l → (∀ a ∈ run, wholeMatches nodeDesc a = false) →
        k + run.countP (rangeMatches nodeDesc) ≤ maxNodeDescEntries := by
      intro run hrun hno
      rcases List.prefix_cons_iff.mp hrun with rfl | ⟨t, rfl, ht⟩
      · have hle := h.1 [] List.nil_prefix fun a ha => absurd ha List.not_mem_nil
        rw [List.countP_nil] at hle ⊢
        omega
      · have hle := h.1 t ht (List.forall_mem_cons.mp hno).2
        rw [List.countP_cons]
        omega
    refine ⟨hstart, ?_⟩
    intro run hrun hno
    rcases List.infix_cons_iff.mp hrun with hrun | hrun
    · have hle := hstart run hrun hno
      omega
    · exact h.2 run hrun hno

theorem evaluateNodeDesc_eq_some_iff :
    evaluateNodeDesc nodeDesc r e = some r' ↔
      e.Fits nodeDesc ∧
        (rangeMatches nodeDesc e = true → r.portRanges.length < maxNodeDescEntries) ∧
        describe nodeDesc r e = r' := by
  rw [← RegExp.isMatch_ne_none_iff]
  unfold evaluateNodeDesc rangeMatches describe
  cases hmatch : e.isMatch nodeDesc with
  | none => simp
  | some isMatch =>
    cases isMatch with
    | false => simp
    | true =>
      cases hrange : e.portRange with
      | none => simp
      | some range => simp

theorem foldlM_evaluateNodeDesc_iff (hr : r.portRanges.length ≤ maxNodeDescEntries) :
    l.foldlM (evaluateNodeDesc nodeDesc) r = some r' ↔
      (∀ e ∈ l, e.Fits nodeDesc) ∧ RangesFitFrom nodeDesc l r.portRanges.length ∧
        l.foldl (describe nodeDesc) r = r' := by
  induction l generalizing r with
  | nil => simp [rangesFitFrom_nil hr]
  | cons e l ih =>
    rw [List.foldlM_cons, Option.bind_eq_bind, Option.bind_eq_some_iff, List.foldl_cons,
      List.forall_mem_cons]
    simp only [evaluateNodeDesc_eq_some_iff]
    by_cases hmatch : e.isMatch nodeDesc = some true
    · cases hrange : e.portRange with
      | none =>
        have hwhole : wholeMatches nodeDesc e = true := by simp [wholeMatches, hmatch, hrange]
        have hno : rangeMatches nodeDesc e = false := by simp [rangeMatches, hrange]
        have hih := ih (r := ⟨true, []⟩) (Nat.zero_le _)
        rw [rangesFitFrom_whole hwhole hr, describe_whole hmatch hrange, hno]
        simp [hih, and_assoc]
      | some range =>
        have hwhole : wholeMatches nodeDesc e = false := by simp [wholeMatches, hrange]
        have hyes : rangeMatches nodeDesc e = true := by simp [rangeMatches, hmatch, hrange]
        have hlen : (⟨true, r.portRanges ++ [range]⟩ : NodeDg).portRanges.length =
            r.portRanges.length + 1 := List.length_append
        rw [rangesFitFrom_not_whole hwhole, describe_range hmatch hrange, hyes, if_pos rfl]
        constructor
        · rintro ⟨_, ⟨hfits, hroom, rfl⟩, hrest⟩
          rw [ih (by rw [hlen]; exact hroom rfl), hlen] at hrest
          exact ⟨⟨hfits, hrest.1⟩, hrest.2⟩
        · rintro ⟨⟨hfits, hl⟩, hranges, hfold⟩
          have hroom := hranges.1 [] List.nil_prefix fun a ha => absurd ha List.not_mem_nil
          rw [List.countP_nil] at hroom
          refine ⟨_, ⟨hfits, fun _ => by omega, rfl⟩, ?_⟩
          rw [ih (by rw [hlen]; omega), hlen]
          exact ⟨hl, hranges, hfold⟩
    · have hwhole : wholeMatches nodeDesc e = false := by simp [wholeMatches, hmatch]
      have hno : rangeMatches nodeDesc e = false := by simp [rangeMatches, hmatch]
      rw [rangesFitFrom_not_whole hwhole, describe_other hmatch, hno]
      simp [ih hr, and_assoc]

theorem descriptionsFit_iff :
    DescriptionsFit nodeDesc l ↔ (∀ e ∈ l, e.Fits nodeDesc) ∧ RangesFitFrom nodeDesc l 0 := by
  constructor
  · intro h
    refine ⟨h.entries, ?_, h.ranges⟩
    intro run hrun hno
    rw [Nat.zero_add]
    exact h.ranges run hrun.isInfix hno
  · rintro ⟨hentries, hranges⟩
    exact ⟨hentries, hranges.2⟩

theorem smEvaluateNodeDG_criteria {n : Node} {dg : DGConfig} (hcrit : nodeCriteria n dg = true) :
    smEvaluateNodeDG n dg = some { isDgMember := true } := by
  unfold smEvaluateNodeDG
  rw [if_pos hcrit]

theorem smEvaluateNodeDG_descriptions {n : Node} {dg : DGConfig}
    (hcrit : nodeCriteria n dg = false) :
    smEvaluateNodeDG n dg = some r ↔
      DescriptionsFit n.nodeDesc dg.regExpr ∧ dg.regExpr.foldl (describe n.nodeDesc) {} = r := by
  unfold smEvaluateNodeDG
  rw [if_neg (by simp [hcrit]), foldlM_evaluateNodeDesc_iff (Nat.zero_le _), descriptionsFit_iff,
    and_assoc]
  rfl

/-- The arrays suffice for a group and a node. -/
def CriteriaFit (n : Node) (dg : DGConfig) : Prop :=
  nodeCriteria n dg = false → DescriptionsFit n.nodeDesc dg.regExpr

theorem exists_smEvaluateNodeDG_iff {n : Node} {dg : DGConfig} :
    (∃ r, smEvaluateNodeDG n dg = some r) ↔ CriteriaFit n dg := by
  unfold CriteriaFit
  cases hcrit : nodeCriteria n dg with
  | true => simp [smEvaluateNodeDG_criteria hcrit]
  | false => simp [smEvaluateNodeDG_descriptions hcrit]

end OpaFm.Partition
