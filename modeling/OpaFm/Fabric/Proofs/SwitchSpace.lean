import OpaFm.Cs.Proofs.PaddedBits
import OpaFm.Fabric.SwitchSpace
import OpaFm.Lib.Fold

/-!
# What compaction keeps of the matrices

Each move takes the last index to a hole below it, so the entries of the other switches
with the moved one are all found in its old row and column.  Of the two costs between them only
the one in the row is kept.
-/

namespace OpaFm.Fabric

open OpaFm.Cs OpaFm.Lib

/-! ## Rows and columns -/

namespace SwitchMatrices

variable {maxSws lidx fidx : Nat} {m : SwitchMatrices}

def costAt (m : SwitchMatrices) (maxSws x y : Nat) : Nat := m.cost (rowMajor maxSws x y)

def pathAt (m : SwitchMatrices) (maxSws x y : Nat) : Finset Nat := m.path (rowMajor maxSws x y)

def KeepsOthers (maxSws fidx : Nat) (m m' : SwitchMatrices) : Prop :=
  ∀ x < maxSws, ∀ y < maxSws, x ≠ fidx → y ≠ fidx →
    m'.costAt maxSws x y = m.costAt maxSws x y ∧ m'.pathAt maxSws x y = m.pathAt maxSws x y

def MovedEntry (maxSws lidx fidx : Nat) (m m' : SwitchMatrices) (j : Nat) : Prop :=
  j < lidx → j ≠ fidx →
    m'.costAt maxSws fidx j = m.costAt maxSws lidx j ∧
      m'.costAt maxSws j fidx = m.costAt maxSws lidx j ∧
      m'.pathAt maxSws fidx j = m.pathAt maxSws lidx j ∧
      m'.pathAt maxSws j fidx = m.pathAt maxSws j lidx

theorem moveEntry_costAt {j x y : Nat} (hj : j < maxSws) (hf : fidx < maxSws) (hy : y < maxSws)
    (hne : j ≠ fidx) :
    (moveEntry maxSws lidx fidx m j).costAt maxSws x y =
      if x = fidx ∧ y = j ∨ x = j ∧ y = fidx then m.costAt maxSws lidx j
      else m.costAt maxSws x y := by
  unfold moveEntry costAt
  rw [if_neg hne]
  dsimp only
  rw [update_rowMajor _ hy hj, update_rowMajor _ hy hf]
  split_ifs <;> first | rfl | tauto

theorem moveEntry_pathAt {j x y : Nat} (hj : j < maxSws) (hf : fidx < maxSws) (hl : lidx < maxSws)
    (hy : y < maxSws) (hne : j ≠ fidx) :
    (moveEntry maxSws lidx fidx m j).pathAt maxSws x y =
      if x = j ∧ y = fidx then m.pathAt maxSws j lidx
      else if x = fidx ∧ y = j then m.pathAt maxSws lidx j
      else m.pathAt maxSws x y := by
  unfold moveEntry pathAt
  rw [if_neg hne]
  dsimp only
  rw [update_rowMajor _ hy hf, update_rowMajor _ hy hj, update_rowMajor _ hl hj,
    if_neg (show ¬(j = fidx ∧ lidx = j) from fun h => hne h.1)]

theorem moveEntry_diagonal (lidx : Nat) (m : SwitchMatrices) {x y : Nat} (hf : fidx < maxSws)
    (hy : y < maxSws) (hne : ¬(x = fidx ∧ y = fidx)) :
    (moveEntry maxSws lidx fidx m fidx).costAt maxSws x y = m.costAt maxSws x y ∧
      (moveEntry maxSws lidx fidx m fidx).pathAt maxSws x y = m.pathAt maxSws x y := by
  unfold moveEntry costAt pathAt
  rw [if_pos rfl]
  dsimp only
  simp only [update_rowMajor _ hy hf, if_neg hne, and_self]

theorem moveEntry_spec (hl : lidx < maxSws) (hfl : fidx < lidx) {s : SwitchMatrices}
    (hs : KeepsOthers maxSws fidx m s) {a : Nat} (hal : a < lidx) :
    KeepsOthers maxSws fidx m (moveEntry maxSws lidx fidx s a) ∧
      ∀ j, MovedEntry maxSws lidx fidx m s j ∨ a = j →
        MovedEntry maxSws lidx fidx m (moveEntry maxSws lidx fidx s a) j := by
  have hf : fidx < maxSws := Nat.lt_trans hfl hl
  have ham : a < maxSws := Nat.lt_trans hal hl
  by_cases hdiag : a = fidx
  · subst hdiag
    constructor
    · intro x hx y hy hxf hyf
      obtain ⟨hcost, hpath⟩ := moveEntry_diagonal lidx s hf hy fun h => hxf h.1
      obtain ⟨hcost', hpath'⟩ := hs x hx y hy hxf hyf
      exact ⟨hcost.trans hcost', hpath.trans hpath'⟩
    · intro j hj hjl hja
      have hjm : j < maxSws := Nat.lt_trans hjl hl
      obtain ⟨h₁, h₂⟩ := moveEntry_diagonal lidx s (x := a) hf hjm fun h => hja h.2
      obtain ⟨h₃, h₄⟩ := moveEntry_diagonal lidx s (x := j) hf hf fun h => hja h.1
      obtain ⟨g₁, g₂, g₃, g₄⟩ := (hj.resolve_right fun h => hja h.symm) hjl hja
      exact ⟨h₁.trans g₁, h₃.trans g₂, h₂.trans g₃, h₄.trans g₄⟩
  · constructor
    · intro x hx y hy hxf hyf
      rw [moveEntry_costAt ham hf hy hdiag, moveEntry_pathAt ham hf hl hy hdiag,
        if_neg fun h => h.elim (fun h => hxf h.1) fun h => hyf h.2, if_neg fun h => hyf h.2,
        if_neg fun h => hxf h.1]
      exact hs x hx y hy hxf hyf
    · intro j hj hjl hjf
      have hjm : j < maxSws := Nat.lt_trans hjl hl
      have hlf : lidx ≠ fidx := Nat.ne_of_gt hfl
      rw [moveEntry_costAt ham hf hjm hdiag, moveEntry_costAt ham hf hf hdiag,
        moveEntry_pathAt ham hf hl hjm hdiag, moveEntry_pathAt ham hf hl hf hdiag]
      by_cases hja : j = a
      · -- the old row and column are still as they were
        subst hja
        obtain ⟨hcost, hpath⟩ := hs lidx hl j hjm hlf hjf
        obtain ⟨-, hpath'⟩ := hs j hjm lidx hl hjf hlf
        simp [hjf, Ne.symm hjf, hcost, hpath, hpath']
      · obtain ⟨g₁, g₂, g₃, g₄⟩ := (hj.resolve_right fun h => hja h.symm) hjl hjf
        simp [hja, hjf, Ne.symm hdiag, g₁, g₂, g₃, g₄]

theorem moveEntries_spec (hl : lidx < maxSws) (hfl : fidx < lidx) :
    KeepsOthers maxSws fidx m (moveEntries maxSws lidx fidx m) ∧
      ∀ j, MovedEntry maxSws lidx fidx m (moveEntries maxSws lidx fidx m) j := by
  have hstep : ∀ a ∈ List.range lidx, ∀ s, KeepsOthers maxSws fidx m s →
      KeepsOthers maxSws fidx m (moveEntry maxSws lidx fidx s a) ∧
        ∀ j, MovedEntry maxSws lidx fidx m s j ∨ a = j →
          MovedEntry maxSws lidx fidx m (moveEntry maxSws lidx fidx s a) j :=
    fun a ha s hs => moveEntry_spec hl hfl hs (List.mem_range.mp ha)
  have hloop := foldl_establishes hstep m fun _ _ _ _ _ _ => ⟨rfl, rfl⟩
  refine ⟨hloop.1, fun j hj => ?_⟩
  exact hloop.2 j (.inr ⟨j, List.mem_range.mpr hj, rfl⟩) hj

end SwitchMatrices

/-! ## Moves -/

theorem renumber_eq {lidx : Nat} (fidx : Nat) {switches : List Nat} (hmem : lidx ∈ switches) :
    ∃ p, switches[p]? = some lidx ∧ renumber lidx fidx switches = some (switches.set p fidx) := by
  induction switches with
  | nil => cases hmem
  | cons swIdx rest ih =>
    unfold renumber
    by_cases heq : swIdx = lidx
    · exact ⟨0, by simp [heq], by simp [heq]⟩
    · have hrest : lidx ∈ rest := (List.mem_cons.mp hmem).resolve_left fun h => heq h.symm
      obtain ⟨p, hp, hset⟩ := ih hrest
      exact ⟨p + 1, by simpa using hp, by simp [heq, hset]⟩

namespace SwitchSpace

/-- The cost and the path between the switches at two places of the list. -/
def entry (sp : SwitchSpace) (p q : Nat) : Option (Nat × Finset Nat) :=
  sp.matrices.bind fun m => (sp.switches[p]?).bind fun x => (sp.switches[q]?).map fun y =>
    (m.costAt sp.maxSws x y, m.pathAt sp.maxSws x y)

def costOf (sp : SwitchSpace) (p q : Nat) : Option Nat := (sp.entry p q).map Prod.fst

def pathOf (sp : SwitchSpace) (p q : Nat) : Option (Finset Nat) := (sp.entry p q).map Prod.snd

def SameEntries (sp sp' : SwitchSpace) : Prop := ∀ p q, p ≠ q → sp'.entry p q = sp.entry p q

def Moves (sp : SwitchSpace) (p : Nat) : Prop :=
  ∃ x, sp.switches[p]? = some x ∧ sp.switches.length ≤ x

/-- A switch that has to move has the same cost to and from any other. -/
def MovedSymmetric (sp : SwitchSpace) : Prop :=
  ∀ p q, p ≠ q → sp.Moves p → sp.costOf p q = sp.costOf q p

structure Indexed (sp : SwitchSpace) (switchbits : Bitset) : Prop where
  distinct : sp.switches.Nodup
  marked : Tidy switchbits sp.switches.toFinset
  lt : ∀ k ∈ sp.switches, k < sp.maxSws

theorem entry_eq {sp : SwitchSpace} {m : SwitchMatrices} (hm : sp.matrices = some m) {p q x y : Nat}
    (hx : sp.switches[p]? = some x) (hy : sp.switches[q]? = some y) :
    sp.entry p q = some (m.costAt sp.maxSws x y, m.pathAt sp.maxSws x y) := by
  simp [entry, hm, hx, hy]

theorem entry_none {sp : SwitchSpace} {p q : Nat}
    (h : sp.matrices = none ∨ sp.switches[p]? = none ∨ sp.switches[q]? = none) :
    sp.entry p q = none := by
  unfold entry
  rcases h with h | h | h
  · simp [h]
  · cases sp.matrices <;> simp [h]
  · cases sp.matrices <;> cases sp.switches[p]? <;> simp [h]

theorem entry_ext {sp sp' : SwitchSpace} {p q : Nat} (hcost : sp'.costOf p q = sp.costOf p q)
    (hpath : sp'.pathOf p q = sp.pathOf p q) : sp'.entry p q = sp.entry p q := by
  unfold costOf at hcost
  unfold pathOf at hpath
  cases h : sp.entry p q with
  | none =>
    rw [h] at hcost
    exact Option.map_eq_none_iff.mp hcost
  | some e =>
    cases h' : sp'.entry p q with
    | none => rw [h, h'] at hcost; cases hcost
    | some e' =>
      rw [h, h'] at hcost hpath
      exact congrArg some (Prod.ext (Option.some.inj hcost) (Option.some.inj hpath))

/-! ## Entries over a run -/

def EntriesMoved (p : Nat) (sp sp' : SwitchSpace) : Prop :=
  ∀ i j, i ≠ j → sp'.pathOf i j = sp.pathOf i j ∧
    sp'.costOf i j = if j = p then sp.costOf j i else sp.costOf i j

structure Follows (sp sp' : SwitchSpace) : Prop where
  path : ∀ i j, i ≠ j → sp'.pathOf i j = sp.pathOf i j
  stayed : ∀ i j, i ≠ j → ¬sp.Moves i → ¬sp.Moves j → sp'.costOf i j = sp.costOf i j
  moved : ∀ i j, i ≠ j → sp.Moves i ∨ sp.Moves j → sp'.costOf i j = sp'.costOf j i ∧
    (sp'.costOf i j = sp.costOf i j ∨ sp'.costOf i j = sp.costOf j i)

namespace Follows

variable {sp sp₁ sp' : SwitchSpace}

theorem refl (h : ∀ i, ¬sp.Moves i) : Follows sp sp where
  path _ _ _ := rfl
  stayed _ _ _ _ _ := rfl
  moved i j _ hmoves := absurd hmoves fun hor => hor.elim (h i) (h j)

theorem of_entriesMoved {p : Nat} (hmoves : ∀ i, sp.Moves i ↔ i = p ∨ sp₁.Moves i)
    (hfirst : EntriesMoved p sp sp₁) (hrest : Follows sp₁ sp') : Follows sp sp' where
  path i j hij := (hrest.path i j hij).trans (hfirst i j hij).1
  stayed i j hij hi hj := by
    have hi₁ : ¬sp₁.Moves i := fun h => hi ((hmoves i).mpr (.inr h))
    have hj₁ : ¬sp₁.Moves j := fun h => hj ((hmoves j).mpr (.inr h))
    have hjp : j ≠ p := fun h => hj ((hmoves j).mpr (.inl h))
    rw [hrest.stayed i j hij hi₁ hj₁, (hfirst i j hij).2, if_neg hjp]
  moved i j hij hor := by
    have hstep : ∀ {x y}, x ≠ y →
        sp₁.costOf x y = sp.costOf x y ∨ sp₁.costOf x y = sp.costOf y x := by
      intro x y hxy
      rw [(hfirst x y hxy).2]
      split
      · exact .inr rfl
      · exact .inl rfl
    by_cases hlater : sp₁.Moves i ∨ sp₁.Moves j
    · obtain ⟨hsymm, hfrom⟩ := hrest.moved i j hij hlater
      refine ⟨hsymm, ?_⟩
      rcases hfrom with h | h
      · rw [h]
        exact hstep hij
      · rw [h]
        exact (hstep hij.symm).symm
    · -- only the switch at `p` moves, and both costs are the one from it
      obtain ⟨hi₁, hj₁⟩ := not_or.mp hlater
      rw [hrest.stayed i j hij hi₁ hj₁, hrest.stayed j i hij.symm hj₁ hi₁]
      refine ⟨?_, hstep hij⟩
      rw [(hfirst i j hij).2, (hfirst j i hij.symm).2]
      have hp : i = p ∨ j = p :=
        hor.imp (fun h => ((hmoves i).mp h).resolve_right hi₁)
          fun h => ((hmoves j).mp h).resolve_right hj₁
      rcases hp with rfl | rfl
      · rw [if_pos rfl, if_neg hij.symm]
      · rw [if_pos rfl, if_neg hij]

theorem sameEntries_trans (h : Follows sp sp₁) (hsame : SameEntries sp₁ sp') :
    Follows sp sp' := by
  have hcost : ∀ i j, i ≠ j → sp'.costOf i j = sp₁.costOf i j := fun i j hij => by
    unfold costOf
    rw [hsame i j hij]
  have hpath : ∀ i j, i ≠ j → sp'.pathOf i j = sp₁.pathOf i j := fun i j hij => by
    unfold pathOf
    rw [hsame i j hij]
  refine ⟨fun i j hij => (hpath i j hij).trans (h.path i j hij), fun i j hij hi hj => ?_,
    fun i j hij hor => ?_⟩
  · rw [hcost i j hij]
    exact h.stayed i j hij hi hj
  · rw [hcost i j hij, hcost j i hij.symm]
    exact h.moved i j hij hor

theorem sameEntries_iff (h : Follows sp sp') : SameEntries sp sp' ↔ sp.MovedSymmetric := by
  constructor
  · intro hsame p q hpq hp
    have hcost : ∀ i j, i ≠ j → sp'.costOf i j = sp.costOf i j := fun i j hij => by
      unfold costOf
      rw [hsame i j hij]
    rw [← hcost p q hpq, ← hcost q p hpq.symm]
    exact (h.moved p q hpq (.inl hp)).1
  · intro hsymm i j hij
    refine entry_ext ?_ (h.path i j hij)
    by_cases hor : sp.Moves i ∨ sp.Moves j
    · have hboth : sp.costOf j i = sp.costOf i j := by
        rcases hor with hi | hj
        · exact (hsymm i j hij hi).symm
        · exact hsymm j i hij.symm hj
      rcases (h.moved i j hij hor).2 with heq | heq
      · exact heq
      · exact heq.trans hboth
    · obtain ⟨hi, hj⟩ := not_or.mp hor
      exact h.stayed i j hij hi hj

end Follows

/-! ## Places -/

section

variable {switches : List Nat} {p lidx fidx : Nat}

theorem getElem?_renumbered (hp : switches[p]? = some lidx) (fidx i : Nat) :
    (switches.set p fidx)[i]? = if i = p then some fidx else switches[i]? := by
  have hlp : p < switches.length := (List.getElem?_eq_some_iff.mp hp).1
  by_cases hip : i = p
  · rw [if_pos hip, hip, List.getElem?_set_self hlp]
  · rw [if_neg hip, List.getElem?_set_ne (Ne.symm hip)]

theorem place_eq (hnodup : switches.Nodup) {i x : Nat} (hp : switches[p]? = some x)
    (hi : switches[i]? = some x) : i = p := by
  have hlt : i < switches.length := (List.getElem?_eq_some_iff.mp hi).1
  exact (List.getElem?_inj hlt hnodup).mp (hi.trans hp.symm)

theorem mem_renumbered (hnodup : switches.Nodup) (hp : switches[p]? = some lidx) (fidx k : Nat) :
    k ∈ switches.set p fidx ↔ k = fidx ∨ k ∈ switches ∧ k ≠ lidx := by
  simp only [List.mem_iff_getElem?, getElem?_renumbered hp]
  constructor
  · rintro ⟨i, hi⟩
    by_cases hip : i = p
    · rw [if_pos hip] at hi
      exact .inl (Option.some.inj hi).symm
    · rw [if_neg hip] at hi
      refine .inr ⟨⟨i, hi⟩, fun hk => hip ?_⟩
      exact place_eq hnodup hp (hk ▸ hi)
  · rintro (rfl | ⟨⟨i, hi⟩, hk⟩)
    · exact ⟨p, if_pos rfl⟩
    · have hip : i ≠ p := by
        rintro rfl
        exact hk (Option.some.inj (hi.symm.trans hp))
      exact ⟨i, (if_neg hip).trans hi⟩

end

theorem entriesMoved_move {sp : SwitchSpace} {lidx fidx p : Nat} (hnodup : sp.switches.Nodup)
    (hlt : ∀ k ∈ sp.switches, k < sp.maxSws) (hp : sp.switches[p]? = some lidx)
    (hlast : ∀ k ∈ sp.switches, k ≤ lidx) (hhole : fidx ∉ sp.switches) (hfl : fidx < lidx) :
    EntriesMoved p sp { sp with
      switches := sp.switches.set p fidx
      matrices := sp.matrices.map (SwitchMatrices.moveEntries sp.maxSws lidx fidx) } := by
  intro i j hij
  unfold pathOf costOf
  cases hm : sp.matrices with
  | none =>
    rw [entry_none (.inl hm), entry_none (.inl hm), entry_none (.inl rfl)]
    exact ⟨rfl, (ite_self _).symm⟩
  | some m =>
    have hlm : lidx < sp.maxSws := hlt lidx (List.mem_of_getElem? hp)
    obtain ⟨hkeep, hmoved⟩ :=
      SwitchMatrices.moveEntries_spec (m := m) hlm hfl
    have hplace := getElem?_renumbered hp fidx
    cases hi : sp.switches[i]? with
    | none =>
      have hip : i ≠ p := fun h => by simp [h, hp] at hi
      rw [entry_none (.inr (.inl hi)), entry_none (.inr (.inr hi)),
        entry_none (.inr (.inl (by simp [hplace, hip, hi])))]
      exact ⟨rfl, (ite_self _).symm⟩
    | some x =>
      cases hj : sp.switches[j]? with
      | none =>
        have hjp : j ≠ p := fun h => by simp [h, hp] at hj
        rw [entry_none (.inr (.inr hj)), entry_none (.inr (.inl hj)),
          entry_none (.inr (.inr (by simp [hplace, hjp, hj])))]
        exact ⟨rfl, (ite_self _).symm⟩
      | some y =>
        have hx : x ∈ sp.switches := List.mem_of_getElem? hi
        have hy : y ∈ sp.switches := List.mem_of_getElem? hj
        have hxf : x ≠ fidx := fun h => hhole (h ▸ hx)
        have hyf : y ≠ fidx := fun h => hhole (h ▸ hy)
        have hentry : ∀ {x' y'}, (sp.switches.set p fidx)[i]? = some x' →
            (sp.switches.set p fidx)[j]? = some y' →
            entry { sp with
              switches := sp.switches.set p fidx
              matrices := (some m).map
                (SwitchMatrices.moveEntries sp.maxSws lidx fidx) } i j =
              some ((m.moveEntries sp.maxSws lidx fidx).costAt sp.maxSws x' y',
                (m.moveEntries sp.maxSws lidx fidx).pathAt sp.maxSws x' y') :=
          fun hx' hy' => entry_eq rfl hx' hy'
        rw [entry_eq hm hi hj, entry_eq hm hj hi]
        by_cases hip : i = p
        · have hjp : j ≠ p := fun h => hij (hip.trans h.symm)
          have hxl : x = lidx := Option.some.inj (hi.symm.trans (hip ▸ hp))
          have hyl : y < lidx := by
            refine Nat.lt_of_le_of_ne (hlast y hy) fun h => hjp ?_
            exact place_eq hnodup hp (h ▸ hj)
          obtain ⟨h₁, -, h₃, -⟩ := hmoved y hyl hyf
          rw [hentry ((hplace i).trans (if_pos hip))
            ((hplace j).trans ((if_neg hjp).trans hj)), hxl, if_neg hjp]
          exact ⟨congrArg some h₃, congrArg some h₁⟩
        · by_cases hjp : j = p
          · have hyl : y = lidx := Option.some.inj (hj.symm.trans (hjp ▸ hp))
            have hxl : x < lidx := by
              refine Nat.lt_of_le_of_ne (hlast x hx) fun h => hip ?_
              exact place_eq hnodup hp (h ▸ hi)
            obtain ⟨-, h₂, -, h₄⟩ := hmoved x hxl hxf
            rw [hentry ((hplace i).trans ((if_neg hip).trans hi))
              ((hplace j).trans (if_pos hjp)), hyl, if_pos hjp]
            exact ⟨congrArg some h₄, congrArg some h₂⟩
          · obtain ⟨h₁, h₂⟩ := hkeep x (hlt x hx) y (hlt y hy) hxf hyf
            rw [hentry ((hplace i).trans ((if_neg hip).trans hi))
              ((hplace j).trans ((if_neg hjp).trans hj)), if_neg hjp]
            exact ⟨congrArg some h₂, congrArg some h₁⟩

theorem moveSwitch_spec {sp : SwitchSpace} {bits : Bitset} (h : sp.Indexed bits)
    {lidx fidx : Nat} (hl : lidx ∈ sp.switches) (hlast : ∀ k ∈ sp.switches, k ≤ lidx)
    (hhole : fidx ∉ sp.switches) (hfl : fidx < lidx) :
    ∃ sp' bits' p, moveSwitch lidx fidx (sp, bits) = (sp', bits') ∧ sp'.Indexed bits' ∧
      sp'.maxSws = sp.maxSws ∧ sp.switches[p]? = some lidx ∧
      sp'.switches = sp.switches.set p fidx ∧ EntriesMoved p sp sp' ∧
      (∀ k, k ∈ sp'.switches ↔ k = fidx ∨ k ∈ sp.switches ∧ k ≠ lidx) ∧
      bits'.nbits = bits.nbits := by
  obtain ⟨p, hp, hset⟩ := renumber_eq fidx hl
  have hlm : lidx < sp.maxSws := h.lt lidx hl
  have hlbit : lidx < bits.nbits := h.marked.lt lidx (List.mem_toFinset.mpr hl)
  have hfbit : fidx < bits.nbits := Nat.lt_trans hfl hlbit
  have hmem := mem_renumbered h.distinct hp fidx
  obtain ⟨-, -, hnbits⟩ := Tidy.widen_bitsetSet h.marked.le hfbit
  have hset' := h.marked.bitsetSet hfbit
  have hlbit' : lidx < (bits.bitsetSet fidx).nbits := by rwa [hnbits]
  obtain ⟨-, -, hnbits'⟩ := Tidy.widen_bitsetClear hset'.le hlbit'
  have hmove : moveSwitch lidx fidx (sp, bits) =
      ({ sp with
          switches := sp.switches.set p fidx
          matrices := sp.matrices.map (SwitchMatrices.moveEntries sp.maxSws lidx fidx) },
        (bits.bitsetSet fidx).bitsetClear lidx) := by
    unfold moveSwitch
    rw [hset]
  refine ⟨_, _, p, hmove, ?_, rfl, hp, rfl, ?_, hmem, hnbits'.trans hnbits⟩
  · refine ⟨h.distinct.set hhole, ?_, ?_⟩
    · have hmarks : (sp.switches.set p fidx).toFinset =
          (insert fidx sp.switches.toFinset).erase lidx := by
        ext k
        simp only [List.mem_toFinset, hmem, Finset.mem_erase, Finset.mem_insert]
        constructor
        · rintro (rfl | ⟨hk, hkl⟩)
          · exact ⟨Nat.ne_of_lt hfl, .inl rfl⟩
          · exact ⟨hkl, .inr hk⟩
        · rintro ⟨hkl, rfl | hk⟩
          · exact .inl rfl
          · exact .inr ⟨hk, hkl⟩
      show Tidy _ (sp.switches.set p fidx).toFinset
      rw [hmarks]
      exact hset'.bitsetClear hlbit'
    · intro k hk
      rcases (hmem k).mp hk with rfl | hk
      · exact Nat.lt_trans hfl hlm
      · exact h.lt k hk.1
  · exact entriesMoved_move h.distinct h.lt hp hlast hhole hfl

section

variable {sp : SwitchSpace} {bits : Bitset} {lidx fidx : Nat}

theorem length_le_last (h : sp.Indexed bits) (hlast : ∀ k ∈ sp.switches, k ≤ lidx)
    (hhole : fidx ∉ sp.switches) (hfl : fidx < lidx) : sp.switches.length ≤ lidx := by
  have hsub : sp.switches.toFinset ⊆ (Finset.range (lidx + 1)).erase fidx := by
    intro k hk
    have hk := List.mem_toFinset.mp hk
    have hkl := hlast k hk
    exact Finset.mem_erase.mpr ⟨fun h => hhole (h ▸ hk), Finset.mem_range.mpr (by omega)⟩
  have hcard := Finset.card_le_card hsub
  rw [List.toFinset_card_of_nodup h.distinct,
    Finset.card_erase_of_mem (Finset.mem_range.mpr (by omega)), Finset.card_range] at hcard
  omega

theorem moves_iff {sp' : SwitchSpace} {p : Nat} (hp : sp.switches[p]? = some lidx)
    (hset : sp'.switches = sp.switches.set p fidx) (hl : sp.switches.length ≤ lidx)
    (i : Nat) : sp.Moves i ↔ i = p ∨ sp'.Moves i := by
  have hlen : sp'.switches.length = sp.switches.length := by rw [hset, List.length_set]
  have hplace : sp'.switches[i]? = if i = p then some fidx else sp.switches[i]? := by
    rw [hset]
    exact getElem?_renumbered hp fidx i
  unfold Moves
  rw [hlen, hplace]
  by_cases hip : i = p
  · simp only [hip, true_or, iff_true]
    exact ⟨lidx, hp, hl⟩
  · simp only [hip, if_false, false_or]

end

/-! ## The loop over the holes -/

theorem indices_of_dense {sp : SwitchSpace} {bits : Bitset} (h : sp.Indexed bits) {bound : Nat}
    (hbelow : ∀ k < bound, k ∈ sp.switches) (habove : ∀ k ∈ sp.switches, k < bound) :
    sp.switches.Perm (List.range sp.switches.length) := by
  have hperm : sp.switches.Perm (List.range bound) :=
    (List.perm_ext_iff_of_nodup h.distinct List.nodup_range).mpr fun k =>
      ⟨fun hk => List.mem_range.mpr (habove k hk), fun hk => hbelow k (List.mem_range.mp hk)⟩
  have hbound : sp.switches.length = bound := by simpa using hperm.length_eq
  rwa [hbound]

def Packed (sp sp' : SwitchSpace) (bits' : Bitset) : Prop :=
  sp'.Indexed bits' ∧ sp'.maxSws = sp.maxSws ∧ sp'.switches.length = sp.switches.length ∧
    Follows sp sp' ∧ sp'.switches.Perm (List.range sp'.switches.length)

theorem packed_self {sp : SwitchSpace} {bits : Bitset} (h : sp.Indexed bits)
    (hperm : sp.switches.Perm (List.range sp.switches.length)) : Packed sp sp bits := by
  refine ⟨h, rfl, rfl, .refl fun i hi => ?_, hperm⟩
  obtain ⟨x, hx, hlen⟩ := hi
  have hlt := List.mem_range.mp (hperm.mem_iff.mp (List.mem_of_getElem? hx))
  omega

theorem compactLoop_end {sp : SwitchSpace} {bits : Bitset} (h : sp.Indexed bits) (fuel : Nat)
    (hdone : ∀ k < bits.nbits, k ∈ sp.switches) :
    ∃ sp' bits', compactLoop (fuel + 1) (-1) (sp, bits) = some (sp', bits') ∧
      Packed sp sp' bits' := by
  refine ⟨sp, bits, if_pos (by decide), packed_self h ?_⟩
  exact indices_of_dense h hdone fun k hk => h.marked.lt k (List.mem_toFinset.mpr hk)

theorem Indexed.exists_last {sp : SwitchSpace} {bits : Bitset} (h : sp.Indexed bits)
    (hne : sp.switches ≠ []) : ∃ l ∈ sp.switches,
      bits.bitsetFindLastOne = (l : Int) ∧ ∀ k ∈ sp.switches, k ≤ l := by
  have hlt : ∀ k ∈ sp.switches, k ∈ sp.switches.toFinset ∧ k < 32 * bits.nwords := by
    intro k hk
    have hkm := List.mem_toFinset.mpr hk
    exact ⟨hkm, Nat.lt_of_lt_of_le (h.marked.lt k hkm) h.marked.le⟩
  obtain ⟨last, hlast, hone⟩ := h.marked.bitsetFindLastOne
  cases last with
  | none =>
    obtain ⟨k, hk⟩ := List.exists_mem_of_ne_nil _ hne
    exact absurd (hlt k hk).1 (hlast k (hlt k hk).2)
  | some l =>
    obtain ⟨-, hl, habove⟩ := hlast
    refine ⟨l, List.mem_toFinset.mp hl, hone, ?_⟩
    intro k hk
    by_contra hlk
    exact habove k (Nat.lt_of_not_le hlk) (hlt k hk).2 (hlt k hk).1

theorem compactLoop_move {sp : SwitchSpace} {bits : Bitset} (h : sp.Indexed bits) {f l : Nat}
    (hl : l ∈ sp.switches) (hmax : ∀ k ∈ sp.switches, k ≤ l) (hhole : f ∉ sp.switches)
    (hfl : f < l) (hbelow : ∀ k < f, k ∈ sp.switches) :
    ∃ sp₁ bits₁, moveSwitch l f (sp, bits) = (sp₁, bits₁) ∧ sp₁.Indexed bits₁ ∧
      sp₁.switches.length = sp.switches.length ∧ bits₁.nbits = bits.nbits ∧
      (∀ k < f + 1, k ∈ sp₁.switches) ∧
      ∀ sp' bits', Packed sp₁ sp' bits' → Packed sp sp' bits' := by
  obtain ⟨sp₁, bits₁, p, hmove, h₁, hmax₁, hp, hset, hfirst, hmem₁, hnbits₁⟩ :=
    moveSwitch_spec h hl hmax hhole hfl
  have hlen₁ : sp₁.switches.length = sp.switches.length := by
    rw [hset, List.length_set]
  have hmoves := moves_iff hp hset (length_le_last h hmax hhole hfl)
  refine ⟨sp₁, bits₁, hmove, h₁, hlen₁, hnbits₁, ?_, ?_⟩
  · intro k hk
    by_cases hkf : k = f
    · exact (hmem₁ k).mpr (.inl hkf)
    · exact (hmem₁ k).mpr (.inr ⟨hbelow k (by omega), by omega⟩)
  · rintro sp' bits' ⟨hsp', hmax', hlen', hrest, hperm'⟩
    exact ⟨hsp', hmax'.trans hmax₁, hlen'.trans hlen₁, .of_entriesMoved hmoves hfirst hrest, hperm'⟩

theorem compactLoop_spec (fuel : Nat) : ∀ (start : Nat) (sp : SwitchSpace) (bits : Bitset),
    sp.Indexed bits → sp.switches ≠ [] → bits.nbits ≤ fuel + start →
      (∀ k < start, k < bits.nbits → k ∈ sp.switches) →
        ∃ sp' bits', compactLoop (fuel + 1) (bits.bitsetFindNextZero start) (sp, bits) =
            some (sp', bits') ∧ Packed sp sp' bits' := by
  induction fuel with
  | zero =>
    intro start sp bits h _ hfuel hdone
    rw [Tidy.bitsetFindNextZero_end bits (by omega)]
    exact compactLoop_end h 0 fun k hk => hdone k (by omega) hk
  | succ fuel ih =>
    intro start sp bits h hne hfuel hdone
    by_cases hstart : start < bits.nbits
    · obtain ⟨found, hfound, hzero⟩ := h.marked.bitsetFindNextZero hstart
      rw [hzero]
      cases found with
      | none =>
        refine compactLoop_end h (fuel + 1) fun k hk => ?_
        by_cases hks : k < start
        · exact hdone k hks hk
        · have hin := hfound k (Nat.le_of_not_lt hks) (Nat.lt_of_lt_of_le hk h.marked.le)
          exact List.mem_toFinset.mp (not_not.mp hin)
      | some f =>
        obtain ⟨hsf, -, hhole, hbefore⟩ := hfound
        have hbelow : ∀ k < f, k ∈ sp.switches := by
          intro k hk
          by_cases hks : k < start
          · exact hdone k hks (Nat.lt_trans hks hstart)
          · exact List.mem_toFinset.mp (not_not.mp (hbefore k (Nat.le_of_not_lt hks) hk))
        obtain ⟨l, hl, hlast, hmax⟩ := h.exists_last hne
        have hloop : compactLoop (fuel + 1 + 1) (f : Int) (sp, bits) =
            if (f : Int) > (l : Int) then some (sp, bits)
            else compactLoop (fuel + 1)
              ((moveSwitch l f (sp, bits)).2.bitsetFindNextZero (f + 1))
              (moveSwitch l f (sp, bits)) := by
          rw [compactLoop, if_neg (by omega)]
          dsimp only
          rw [hlast, if_pos (by omega)]
          rfl
        show ∃ sp' bits', compactLoop (fuel + 1 + 1) (f : Int) (sp, bits) =
          some (sp', bits') ∧ Packed sp sp' bits'
        rw [hloop]
        by_cases hfl : f > l
        · rw [if_pos (by omega)]
          refine ⟨sp, bits, rfl, packed_self h ?_⟩
          exact indices_of_dense h hbelow fun k hk => Nat.lt_of_le_of_lt (hmax k hk) hfl
        · rw [if_neg (by omega)]
          have hhole' : f ∉ sp.switches := fun hf => hhole (List.mem_toFinset.mpr hf)
          have hfl' : f < l :=
            Nat.lt_of_le_of_ne (Nat.le_of_not_lt hfl) fun heq => hhole' (heq ▸ hl)
          obtain ⟨sp₁, bits₁, hmove, h₁, hlen₁, hnbits₁, hdone₁, hpacked⟩ :=
            compactLoop_move h hl hmax hhole' hfl' hbelow
          have hne₁ : sp₁.switches ≠ [] := fun hnil =>
            hne (List.length_eq_zero_iff.mp (by rw [← hlen₁, hnil]; rfl))
          obtain ⟨sp', bits', hrun, hpack⟩ :=
            ih (f + 1) sp₁ bits₁ h₁ hne₁ (by omega) fun k hk _ => hdone₁ k hk
          rw [hmove]
          exact ⟨sp', bits', hrun, hpacked sp' bits' hpack⟩
    · rw [Tidy.bitsetFindNextZero_end bits (by omega)]
      exact compactLoop_end h (fuel + 1) fun k hk => hdone k (by omega) hk

/-! ## Compaction -/

def shrunk (sp : SwitchSpace) (n : Nat) (mem : CompactMemory) : SwitchSpace :=
  { sp with
    maxSws := n
    matrices := sp.matrices.map (SwitchMatrices.shrink sp.maxSws n mem) }

theorem sameEntries_shrunk {sp : SwitchSpace} {n : Nat} (mem : CompactMemory)
    (hlt : ∀ k ∈ sp.switches, k < n) : SameEntries sp (sp.shrunk n mem) := by
  intro p q _
  have hswitches : (sp.shrunk n mem).switches = sp.switches := rfl
  cases hm : sp.matrices with
  | none =>
    have hm' : (sp.shrunk n mem).matrices = none := by simp [shrunk, hm]
    rw [entry_none (.inl hm), entry_none (.inl hm')]
  | some m =>
    have hm' : (sp.shrunk n mem).matrices = some (SwitchMatrices.shrink sp.maxSws n mem m) := by
      simp [shrunk, hm]
    cases hp : sp.switches[p]? with
    | none =>
      rw [entry_none (.inr (.inl hp)), entry_none (.inr (.inl (hswitches ▸ hp)))]
    | some x =>
      cases hq : sp.switches[q]? with
      | none =>
        rw [entry_none (.inr (.inr hq)), entry_none (.inr (.inr (hswitches ▸ hq)))]
      | some y =>
        have hx := hlt x (List.mem_of_getElem? hp)
        have hy := hlt y (List.mem_of_getElem? hq)
        rw [entry_eq hm hp hq, entry_eq hm' hp hq]
        exact congrArg some (Prod.ext (copyRows_rowMajor _ _ hx hy)
          (copyRows_rowMajor _ _ hx hy))

def Compacts (sp : SwitchSpace) (switchbits : Bitset) (mem : CompactMemory) : Prop :=
  sp.stays switchbits = false ∧ (sp.matrices = none ∨ mem.cost ≠ none)

/-- The switches have the first indices, each of them once, `max_sws` is their number, and
what lies between any two of them is as before. -/
structure Compacted (sp sp' : SwitchSpace) : Prop where
  places : sp'.switches.length = sp.switches.length
  bijection : sp'.switches.Perm (List.range sp.switches.length)
  maxSws : sp'.maxSws = sp.switches.length
  entries : SameEntries sp sp'

theorem Indexed.nset {sp : SwitchSpace} {bits : Bitset} (h : sp.Indexed bits) :
    bits.nset = sp.switches.length :=
  h.marked.nset.trans (List.toFinset_card_of_nodup h.distinct)

theorem Indexed.nset_le {sp : SwitchSpace} {bits : Bitset} (h : sp.Indexed bits) :
    bits.nset ≤ sp.maxSws := by
  have hsub : sp.switches.toFinset ⊆ Finset.range sp.maxSws := fun k hk =>
    Finset.mem_range.mpr (h.lt k (List.mem_toFinset.mp hk))
  have hcard := Finset.card_le_card hsub
  rwa [Finset.card_range, ← h.marked.nset] at hcard

theorem Packed.shrunk {sp sp' : SwitchSpace} {bits bits' : Bitset} (hbits : sp.Indexed bits)
    (h : Packed sp sp' bits') (mem : CompactMemory) :
    bits'.nset = bits.nset ∧ Indexed (sp'.shrunk bits.nset mem) bits' ∧
      (Compacted sp (sp'.shrunk bits.nset mem) ↔ sp.MovedSymmetric) := by
  obtain ⟨hindexed, -, hlen, hfollows, hperm⟩ := h
  have hlt : ∀ k ∈ sp'.switches, k < sp'.switches.length := fun k hk =>
    List.mem_range.mp (hperm.mem_iff.mp hk)
  have hn : bits.nset = sp'.switches.length := hbits.nset.trans hlen.symm
  have hn' : bits'.nset = sp'.switches.length := hindexed.nset
  have hentries := hfollows.sameEntries_trans (sameEntries_shrunk mem (hn ▸ hlt))
  refine ⟨hn'.trans hn.symm, ⟨hindexed.distinct, hindexed.marked, fun k hk => hn ▸ hlt k hk⟩, ?_⟩
  rw [← hentries.sameEntries_iff]
  exact ⟨fun h => h.entries, fun hsame => ⟨hlen, hlen ▸ hperm, hn.trans hlen, hsame⟩⟩

end SwitchSpace

/-! ## Compaction of a topology -/

/-- A topology whose switches have different indices, marked in `switchbits`, with matrices that
are no longer than the pool can allocate. -/
structure IndexedSpace where
  space : SwitchSpace
  switchbits : Bitset
  indexed : space.Indexed switchbits
  fits : space.matrices ≠ none → space.maxSws * (space.maxSws * 32) < 2 ^ 31 - 48

namespace IndexedSpace

open SwitchSpace

/-- The compaction ends.  It either gives the switches the first indices, marks these and keeps
what the matrices say about any two switches, or changes nothing. -/
def Exact (t : IndexedSpace) (mem : CompactMemory) (extra : Nat) : Prop :=
  ∃ sp bits,
    smCompactSwitchSpace (t.switchbits.nbits + 1 + extra) mem t.space t.switchbits =
      some (.done sp bits) ∧
    (t.space.Compacts t.switchbits mem → sp.Indexed bits ∧ t.space.Compacted sp) ∧
    (¬t.space.Compacts t.switchbits mem → sp = t.space ∧ bits = t.switchbits)

theorem allocated_eq {α : Type} (mem : Option α) {bytes : Nat} (hpos : 0 < bytes)
    (hlt : bytes < 2 ^ 31 - 48) : allocated mem bytes = mem.map fun _ => bytes := by
  unfold allocated
  rw [Pool.vsPoolAlloc_of_lt hpos hlt]
  cases mem <;> rfl

section

variable {t : IndexedSpace} {mem : CompactMemory} {extra : Nat}

theorem nset_pos (hstays : t.space.stays t.switchbits = false) : 0 < t.switchbits.nset := by
  refine Nat.pos_of_ne_zero fun hzero => ?_
  have h : t.space.stays t.switchbits = true := by simp [stays, hzero]
  exact Bool.false_ne_true (hstays.symm.trans h)

theorem exact_of_stays (hstays : t.space.stays t.switchbits = true) : t.Exact mem extra := by
  refine ⟨t.space, t.switchbits, ?_, fun h => ?_, fun _ => ⟨rfl, rfl⟩⟩
  · unfold smCompactSwitchSpace
    exact if_pos hstays
  · exact absurd h.1 (by rw [hstays]; decide)

theorem smCompactSwitchSpace_matrices (hstays : t.space.stays t.switchbits = false)
    (hm : t.space.matrices ≠ none) (mem : CompactMemory) (fuel : Nat) :
    smCompactSwitchSpace fuel mem t.space t.switchbits =
      if mem.cost = none then some (.done t.space t.switchbits)
      else if mem.path = none then some .crash
      else (compactLoop fuel t.switchbits.bitsetFindFirstZero (t.space, t.switchbits)).map fun s =>
        .done { s.1.shrunk t.switchbits.nset mem with maxSws := s.2.nset } s.2 := by
  have hpos := nset_pos hstays
  have hle := t.indexed.nset_le
  have hpath : t.switchbits.nset * (t.switchbits.nset * 32) < 2 ^ 31 - 48 :=
    Nat.lt_of_le_of_lt (Nat.mul_le_mul hle (Nat.mul_le_mul_right 32 hle)) (t.fits hm)
  have hcost : t.switchbits.nset * t.switchbits.nset * 2 < 2 ^ 31 - 48 := by
    rw [Nat.mul_assoc]
    exact Nat.lt_of_le_of_lt (Nat.mul_le_mul_left _ (Nat.mul_le_mul_left _ (by decide))) hpath
  have hsome : t.space.matrices.isSome = true := Option.isSome_iff_ne_none.mpr hm
  unfold smCompactSwitchSpace
  dsimp only
  rw [if_neg (by rw [hstays]; decide), hsome,
    allocated_eq mem.cost (Nat.mul_pos (Nat.mul_pos hpos hpos) (by decide)) hcost,
    allocated_eq mem.path (Nat.mul_pos hpos (Nat.mul_pos hpos (by decide))) hpath]
  cases mem.cost with
  | none => rfl
  | some cost =>
    cases mem.path with
    | none => simp
    | some path => simp [shrunk]

theorem exact_iff_of_loop (hcompacts : t.space.Compacts t.switchbits mem)
    (hrun : smCompactSwitchSpace (t.switchbits.nbits + 1 + extra) mem t.space t.switchbits =
      (compactLoop (t.switchbits.nbits + 1 + extra) t.switchbits.bitsetFindFirstZero
        (t.space, t.switchbits)).map fun s =>
          .done { s.1.shrunk t.switchbits.nset mem with maxSws := s.2.nset } s.2) :
    t.Exact mem extra ↔ t.space.MovedSymmetric := by
  have hne : t.space.switches ≠ [] := by
    intro hnil
    have hzero : t.switchbits.nset = 0 := t.indexed.nset.trans (congrArg List.length hnil)
    have hpos := nset_pos hcompacts.1
    omega
  have hfuel : t.switchbits.nbits + 1 + extra = t.switchbits.nbits + extra + 1 := by omega
  obtain ⟨sp', bits', hloop, hpacked⟩ :=
    compactLoop_spec (t.switchbits.nbits + extra) 0 t.space t.switchbits t.indexed hne
      (by omega) fun k hk => absurd hk (Nat.not_lt_zero k)
  obtain ⟨hn, hindexed, hkept⟩ := hpacked.shrunk t.indexed mem
  have hdone : smCompactSwitchSpace (t.switchbits.nbits + 1 + extra) mem t.space t.switchbits =
      some (.done (sp'.shrunk t.switchbits.nset mem) bits') := by
    have hfirst : t.switchbits.bitsetFindFirstZero = t.switchbits.bitsetFindNextZero 0 := rfl
    rw [hrun, hfuel, hfirst, hloop]
    show some (Compaction.done { sp'.shrunk t.switchbits.nset mem with maxSws := bits'.nset } bits')
      = _
    rw [hn]
    rfl
  rw [← hkept]
  constructor
  · rintro ⟨sp, bits, hend, hcompacted, -⟩
    have heq := Compaction.done.inj (Option.some.inj (hend.symm.trans hdone))
    rw [← heq.1]
    exact (hcompacted hcompacts).2
  · intro hcompacted
    exact ⟨_, bits', hdone, fun _ => ⟨hindexed, hcompacted⟩, fun hnot => absurd hcompacts hnot⟩

theorem movedSymmetric_of_none {sp : SwitchSpace} (hm : sp.matrices = none) :
    sp.MovedSymmetric := by
  intro p q _ _
  unfold costOf
  rw [entry_none (.inl hm), entry_none (.inl hm)]

end

/-- The compaction is exact unless it finds memory for the costs and none for the paths, or a
switch with an index to be changed has another cost to some switch than from it. -/
theorem smCompactSwitchSpace_exact_iff (t : IndexedSpace) (mem : CompactMemory) (extra : Nat) :
    t.Exact mem extra ↔ t.space.stays t.switchbits = true ∨ t.space.matrices = none ∨
      mem.cost = none ∨ mem.path ≠ none ∧ t.space.MovedSymmetric := by
  by_cases hstays : t.space.stays t.switchbits = true
  · exact iff_of_true (exact_of_stays hstays) (.inl hstays)
  · have hsparse := Bool.eq_false_iff.mpr hstays
    by_cases hm : t.space.matrices = none
    · have hrun : t.Exact mem extra ↔ t.space.MovedSymmetric := by
        refine exact_iff_of_loop ⟨hsparse, .inl hm⟩ ?_
        unfold smCompactSwitchSpace
        dsimp only
        rw [if_neg hstays, hm]
        rfl
      exact iff_of_true (hrun.mpr (movedSymmetric_of_none hm)) (.inr (.inl hm))
    · have heq :=
        smCompactSwitchSpace_matrices hsparse hm mem (t.switchbits.nbits + 1 + extra)
      by_cases hcost : mem.cost = none
      · rw [if_pos hcost] at heq
        refine iff_of_true ?_ (.inr (.inr (.inl hcost)))
        refine ⟨_, _, heq, fun h => ?_, fun _ => ⟨rfl, rfl⟩⟩
        exact (h.2.elim hm fun h => h hcost).elim
      · rw [if_neg hcost] at heq
        by_cases hpath : mem.path = none
        · rw [if_pos hpath] at heq
          refine iff_of_false ?_ ?_
          · rintro ⟨sp, bits, hend, -⟩
            cases hend.symm.trans heq
          · rintro (h | h | h | h)
            · exact hstays h
            · exact hm h
            · exact hcost h
            · exact h.1 hpath
        · rw [if_neg hpath] at heq
          rw [exact_iff_of_loop ⟨hsparse, .inr hcost⟩ heq]
          constructor
          · exact fun h => .inr (.inr (.inr ⟨hpath, h⟩))
          · rintro (h | h | h | h)
            · exact absurd h hstays
            · exact absurd h hm
            · exact absurd h hcost
            · exact h.2

def oneWaySpace : SwitchSpace where
  maxSws := 10
  switches := [5, 0, 2]
  matrices := some
    { cost := fun ij => if ij % 11 = 0 then 0 else if ij = 5 then 20 else 10
      path := fun _ => ∅ }

theorem oneWaySpace_indexed : oneWaySpace.Indexed ⟨true, 1, 10, 3, [0x25#32]⟩ where
  distinct := by decide
  marked :=
    { good :=
        { length := rfl
          size := rfl
          pos := by decide
          small := by decide
          nbits := rfl
          members := by decide
          nset := by decide }
      le := by decide
      lt := by decide }
  lt := by decide

def oneWay : IndexedSpace where
  space := oneWaySpace
  switchbits := ⟨true, 1, 10, 3, [0x25#32]⟩
  indexed := oneWaySpace_indexed
  fits _ := Nat.lt_of_sub_eq_succ rfl

theorem oneWay_not_exact : ¬oneWay.Exact ⟨some fun _ => 0, some fun _ => ∅⟩ 0 ∧
    ¬oneWay.Exact ⟨some fun _ => 0, none⟩ 0 := by
  have hsparse : oneWay.space.stays oneWay.switchbits = false := rfl
  have hm : oneWay.space.matrices ≠ none := Option.some_ne_none _
  constructor
  · have heq := smCompactSwitchSpace_matrices hsparse hm ⟨some fun _ => 0, some fun _ => ∅⟩
      (oneWay.switchbits.nbits + 1 + 0)
    rw [if_neg (Option.some_ne_none _), if_neg (Option.some_ne_none _)] at heq
    rw [exact_iff_of_loop ⟨hsparse, .inr (Option.some_ne_none _)⟩ heq]
    intro hsymm
    have hcost : some 10 = some 20 := hsymm 0 1 (by decide) ⟨5, rfl, by decide⟩
    cases hcost
  · have heq := smCompactSwitchSpace_matrices hsparse hm ⟨some fun _ => 0, none⟩
      (oneWay.switchbits.nbits + 1 + 0)
    rintro ⟨sp, bits, hend, -⟩
    cases hend.symm.trans heq

end IndexedSpace

end OpaFm.Fabric
