import OpaFm.Qmap.OrderedMap
import OpaFm.Qmap.Proofs.Insert
import OpaFm.Qmap.Proofs.Remove

/-!
# Quick maps are ordered maps

Every call keeps the tree and the list of a map in step with an ordered map, and so does every
sequence of calls.
-/

namespace OpaFm.Qmap

section

open OpaFm.Lib OpaFm.Lib.RedBlack OpaFm.Lib.RedBlack.RbTree Qmaps

variable {μ ι : Type}

def entriesOf (s : Qmaps μ ι) (items : List ι) : List (Nat × ι) :=
  items.map fun i => (s.key (.item i), i)

/-- The map `m` in the memory, with the tree `T`, has the entries of `M`. -/
structure Refines {kc : Option KeyCompare} (s : Qmaps μ ι) (m : μ) (T : RbTree ι)
    (M : OrderedMap kc ι) : Prop where
  isMap : IsMap s m T
  keyCompare : s.keyCompare m = kc
  entries : M.entries = entriesOf s T.toList

variable [DecidableEq μ] [DecidableEq ι]

def callStep (s : Qmaps μ ι) (m : μ) : Call ι → Option (Qmaps μ ι × Option (Ref μ ι))
  | .insert key item => (s.clQmapInsert m key (.item item)).map fun x => (x.1, some x.2)
  | .get key => (s.clQmapGet m key).map fun r => (s, some r)
  | .remove key => (s.clQmapRemove m key).map fun x => (x.1, some x.2)
  | .removeItem item => (s.clQmapRemoveItem m (foundRef m item)).map fun s => (s, none)

def runCalls (s : Qmaps μ ι) (m : μ) : List (Call ι) → Option (Qmaps μ ι × List (Option (Ref μ ι)))
  | [] => some (s, [])
  | c :: calls =>
    (callStep s m c).bind fun x =>
      (runCalls x.1 m calls).map fun y => (y.1, x.2 :: y.2)

namespace Refines

variable {kc : Option KeyCompare} {s s' : Qmaps μ ι} {m : μ} {T T' : RbTree ι} {M M' : OrderedMap kc ι}
  {i : ι} {key : Nat} {l₁ l₂ : List ι}

omit [DecidableEq μ] [DecidableEq ι] in
theorem get_eq (h : Refines s m T M) (key : Nat) : M.get key = findKey s m key T.toList := by
  unfold OrderedMap.get findKey
  rw [h.entries, entriesOf, List.find?_map, Option.map_map, h.keyCompare]
  exact Option.map_id'

omit [DecidableEq μ] [DecidableEq ι] in
theorem items_eq (h : Refines s m T M) : M.items = T.toList := by
  unfold OrderedMap.items
  rw [h.entries, entriesOf, List.map_map]
  exact List.map_id' _

omit [DecidableEq μ] [DecidableEq ι] in
theorem filter_entriesOf_self {p : Nat × ι → Bool} {l : List ι}
    (hl : ∀ j ∈ l, p (s.key (.item j), j) = true) : (entriesOf s l).filter p = entriesOf s l := by
  apply List.filter_eq_self.mpr
  intro e he
  obtain ⟨j, hj, rfl⟩ := List.mem_map.mp he
  exact hl j hj

omit [DecidableEq μ] [DecidableEq ι] in
theorem filter_entriesOf_nil {p : Nat × ι → Bool} {l : List ι}
    (hl : ∀ j ∈ l, p (s.key (.item j), j) = false) : (entriesOf s l).filter p = [] := by
  apply List.filter_eq_nil_iff.mpr
  intro e he
  obtain ⟨j, hj, rfl⟩ := List.mem_map.mp he
  exact Bool.eq_false_iff.mp (hl j hj)

omit [DecidableEq μ] [DecidableEq ι] in
theorem filter_eq (h : Refines s m T M) (hT : T.toList = l₁ ++ i :: l₂) {p : Nat × ι → Bool}
    (hi : p (s.key (.item i), i) = false)
    (hothers : ∀ j ∈ l₁ ++ l₂, p (s.key (.item j), j) = true) :
    (M.filter p).entries = entriesOf s (l₁ ++ l₂) := by
  show M.entries.filter p = _
  rw [h.entries, hT]
  unfold entriesOf
  rw [List.map_append, List.map_cons, List.filter_append, List.filter_cons_of_neg (by simp [hi]),
    List.map_append]
  congr 1
  · exact filter_entriesOf_self fun j hj => hothers j (List.mem_append_left _ hj)
  · exact filter_entriesOf_self fun j hj => hothers j (List.mem_append_right _ hj)

omit [DecidableEq μ] [DecidableEq ι] in
theorem others_ne (h : Refines s m T M) (hT : T.toList = l₁ ++ i :: l₂)
    (hsame : SameKey kc (s.key (.item i)) key) : ∀ j ∈ l₁ ++ l₂, ¬SameKey kc (s.key (.item j)) key := by
  have hsorted := h.isMap.sorted
  rw [hT, List.pairwise_append, List.pairwise_cons] at hsorted
  obtain ⟨-, ⟨hafter, -⟩, hbefore⟩ := hsorted
  intro j hj hsame'
  have hij := hsame.trans hsame'.symm
  unfold ItemBefore at hafter hbefore
  rw [h.keyCompare] at hafter hbefore
  rcases List.mem_append.mp hj with hj | hj
  · exact (hbefore j hj i List.mem_cons_self).not_same hij.symm
  · exact (hafter j hj).not_same hij

omit [DecidableEq μ] [DecidableEq ι] in
theorem put_eq (h : Refines s m T M) (hT : T.toList = l₁ ++ l₂)
    (h₁ : ∀ j ∈ l₁, KeyBefore kc (s.key (.item j)) key)
    (h₂ : ∀ j ∈ l₂, KeyBefore kc key (s.key (.item j))) :
    (M.put key i).entries = entriesOf s l₁ ++ (key, i) :: entriesOf s l₂ := by
  have hsplit : M.entries = entriesOf s l₁ ++ entriesOf s l₂ := by
    rw [h.entries, hT, entriesOf, List.map_append]
    rfl
  have hbefore : M.entries.filter (fun e => KeyBefore kc e.1 key) = entriesOf s l₁ := by
    rw [hsplit, List.filter_append, filter_entriesOf_self (by simpa using h₁),
      filter_entriesOf_nil (by simpa using fun j hj => (h₂ j hj).not_before), List.append_nil]
  have hafter : M.entries.filter (fun e => KeyBefore kc key e.1) = entriesOf s l₂ := by
    rw [hsplit, List.filter_append,
      filter_entriesOf_nil (by simpa using fun j hj => (h₁ j hj).not_before),
      filter_entriesOf_self (by simpa using h₂), List.nil_append]
  show M.entries.filter _ ++ (key, i) :: M.entries.filter _ = _
  rw [hbefore, hafter]

theorem insert (h : Refines s m T M) (hi : M.Allowed (.insert key i)) :
    ∃ s' T', callStep s m (.insert key i) =
        some (s', (M.step (.insert key i)).2.map (foundRef m)) ∧
      Refines s' m T' (M.step (.insert key i)).1 := by
  have hnew : findKey s m key T.toList = none → i ∉ T.toList := by
    rw [← h.get_eq, ← h.items_eq]
    exact hi
  rcases clQmapInsert_spec h.isMap key hnew with
    ⟨j, hfound, hinsert⟩ | ⟨hfound, s', T', l₁, l₂, hinsert, hs', hT, hT', h₁, h₂, hkey, houtside⟩
  · have hget : M.get key = some j := (h.get_eq key).trans hfound
    refine ⟨s, T, ?_, ?_⟩
    · simp [callStep, hinsert, OrderedMap.step, hget, foundRef]
    · simpa only [OrderedMap.step, hget] using h
  · have hget : M.get key = none := (h.get_eq key).trans hfound
    have hinot := hnew hfound
    rw [h.keyCompare] at h₁ h₂
    have hold : ∀ l : List ι, i ∉ l → entriesOf s' l = entriesOf s l := by
      intro l hl
      apply List.map_congr_left
      intro j hj
      rw [hkey, Function.update_of_ne]
      rintro ⟨⟩
      exact hl hj
    refine ⟨s', T', ?_, ?_⟩
    · simp [callStep, hinsert, OrderedMap.step, hget, foundRef]
    · simp only [OrderedMap.step, hget]
      refine ⟨hs', by rw [houtside.keyCompare, h.keyCompare], ?_⟩
      rw [hT, List.mem_append, not_or] at hinot
      have hsplit : entriesOf s' (l₁ ++ i :: l₂) =
          entriesOf s' l₁ ++ (s'.key (.item i), i) :: entriesOf s' l₂ := by
        simp [entriesOf]
      rw [h.put_eq hT h₁ h₂, hT', hsplit, hold l₁ hinot.1, hold l₂ hinot.2, hkey,
        Function.update_self]

theorem removeItem (h : Refines s m T M) (hi : i ∈ T.toList) {p : Nat × ι → Bool}
    (hp : p (s.key (.item i), i) = false)
    (hothers : ∀ j ∈ T.toList, j ≠ i → p (s.key (.item j), j) = true) :
    ∃ s' T', s.clQmapRemoveItem m (.item i) = some s' ∧ Refines s' m T' (M.filter p) := by
  obtain ⟨l₁, l₂, hT⟩ := List.append_of_mem hi
  obtain ⟨s', T', hremove, hs', hT', hkey, houtside⟩ := clQmapRemoveItem_spec h.isMap hT
  refine ⟨s', T', hremove, hs', by rw [houtside.keyCompare, h.keyCompare], ?_⟩
  have hnodup := h.isMap.tree.nodup
  rw [hT] at hnodup hothers
  rw [h.filter_eq hT hp, hT']
  · unfold entriesOf
    rw [hkey]
  · intro j hj
    apply hothers j
    · grind
    · rintro rfl
      grind

theorem step (h : Refines s m T M) {c : Call ι} (hc : M.Allowed c) :
    ∃ s' T', callStep s m c = some (s', (M.step c).2.map (foundRef m)) ∧
      Refines s' m T' (M.step c).1 := by
  cases c with
  | insert key item => exact h.insert hc
  | get key =>
    refine ⟨s, T, ?_, h⟩
    simp [callStep, clQmapGet_eq h.isMap, OrderedMap.step, h.get_eq]
  | remove key =>
    have hget := h.get_eq key
    have hlookup := clQmapGet_eq h.isMap key
    cases hfound : findKey s m key T.toList with
    | none =>
      rw [hfound] at hget hlookup
      refine ⟨s, T, ?_, h.isMap, h.keyCompare, ?_⟩
      · simp [callStep, clQmapRemove, hlookup, clQmapRemoveItem, foundRef, OrderedMap.step, hget]
      · show M.entries.filter _ = _
        rw [findKey_eq_none, h.keyCompare] at hfound
        rw [h.entries]
        exact filter_entriesOf_self (by simpa using hfound)
    | some i =>
      rw [hfound] at hget hlookup
      have hi : i ∈ T.toList := List.mem_of_find?_eq_some hfound
      have hsame : SameKey kc (s.key (.item i)) key := by
        have := List.find?_some hfound
        rw [h.keyCompare] at this
        exact of_decide_eq_true this
      obtain ⟨l₁, l₂, hT⟩ := List.append_of_mem hi
      have hothers := h.others_ne hT hsame
      obtain ⟨s', T', hremove, hs'⟩ :=
        h.removeItem (p := fun e => ¬SameKey kc e.1 key) hi (by simpa using hsame) (by
          intro j hj hji
          rw [hT] at hj
          simpa using hothers j (by grind))
      exact ⟨s', T', by simp [callStep, clQmapRemove, hlookup, foundRef, hremove,
        OrderedMap.step, hget], hs'⟩
  | removeItem item =>
    cases item with
    | none => exact ⟨s, T, by simp [callStep, foundRef, clQmapRemoveItem, OrderedMap.step], h⟩
    | some i =>
      have hi : i ∈ T.toList := by
        rw [← h.items_eq]
        exact hc
      obtain ⟨s', T', hremove, hs'⟩ := h.removeItem (p := fun e => e.2 ≠ i) hi (by simp)
        (fun j _ hj => by simpa using hj)
      exact ⟨s', T', by simp [callStep, foundRef, hremove, OrderedMap.step], hs'⟩

theorem init (s : Qmaps μ ι) (m : μ) (kc : Option KeyCompare) :
    Refines (s.clQmapInit m kc) m .nil (OrderedMap.empty kc ι) := by
  refine ⟨⟨⟨.nil, ?_, trivial, ?_, ?_, ?_⟩, ⟨0, .nil⟩, .nil, ⟨?_, ?_⟩, ?_⟩, ?_, rfl⟩
  · simp [clQmapInit, treeRef]
  · simp [clQmapInit]
  · simp [clQmapInit]
  · simp [clQmapInit]
  · simp [toList]
  · simp [toList, clQmapInit, Follows]
  · simp [toList, clQmapInit]
  · simp [clQmapInit]

theorem run (h : Refines s m T M) {calls : List (Call ι)} (hcalls : M.AllowedRun calls) :
    ∃ s' T', runCalls s m calls = some (s', (M.run calls).2.map (Option.map (foundRef m))) ∧
      Refines s' m T' (M.run calls).1 := by
  induction calls generalizing s T M with
  | nil => exact ⟨s, T, rfl, h⟩
  | cons c calls ih =>
    obtain ⟨hc, hcalls⟩ := hcalls
    obtain ⟨s₁, T₁, hstep, h₁⟩ := h.step hc
    obtain ⟨s₂, T₂, hrun, h₂⟩ := ih h₁ hcalls
    refine ⟨s₂, T₂, ?_, h₂⟩
    simp [runCalls, hstep, hrun, OrderedMap.run]

end Refines

/-- After any sequence of calls on a new map, which all return, the answers and the contents of the
map are those of an ordered map, and the tree of the map is a red-black search tree. -/
theorem clQmap_refines (s₀ : Qmaps μ ι) (m : μ) (kc : Option KeyCompare) (calls : List (Call ι))
    (hcalls : (OrderedMap.empty kc ι).AllowedRun calls) :
    ∃ s T, runCalls (s₀.clQmapInit m kc) m calls =
        some (s, ((OrderedMap.empty kc ι).run calls).2.map (Option.map (foundRef m))) ∧
      IsMap s m T ∧ entriesOf s T.toList = ((OrderedMap.empty kc ι).run calls).1.entries ∧
      (∀ key, s.clQmapGet m key =
        some (foundRef m (((OrderedMap.empty kc ι).run calls).1.get key))) ∧
      (∀ key i j, ((OrderedMap.empty kc ι).run calls).1.get key = some j →
        s.clQmapInsert m key (.item i) = some (s, .item j)) ∧
      s.count m = ((OrderedMap.empty kc ι).run calls).1.entries.length ∧
      s.walk m (s.count m + 1) (s.clQmapHead m) =
        some (((OrderedMap.empty kc ι).run calls).1.items.map .item) := by
  obtain ⟨s, T, hrun, hs⟩ := (Refines.init s₀ m kc).run hcalls
  refine ⟨s, T, hrun, hs.isMap, hs.entries.symm, ?_, ?_, ?_, ?_⟩
  · intro key
    rw [hs.get_eq, clQmapGet_eq hs.isMap]
  · intro key i j hj
    rw [hs.get_eq] at hj
    rcases clQmapInsert_spec (i := i) hs.isMap key (fun hnone => by rw [hj] at hnone; cases hnone) with
      ⟨j', hfound, hinsert⟩ | ⟨hfound, -⟩
    · rw [hj] at hfound
      cases hfound
      exact hinsert
    · rw [hj] at hfound
      cases hfound
  · rw [hs.isMap.count, hs.entries, entriesOf, List.length_map]
  · rw [clQmapHead_eq hs.isMap, hs.items_eq, hs.isMap.count]
    exact walk_eq [] hs.isMap.list (Nat.lt_succ_self _)

theorem clQmap_refines_calls :
    let calls : List (Call Nat) :=
      [.insert 5 0, .insert 3 1, .insert 5 2, .insert 8 3, .remove 5, .removeItem (some 1), .get 8]
    (OrderedMap.empty none Nat).AllowedRun calls ∧
      ∀ s₀ : Qmaps Unit Nat, ∃ s T, runCalls (s₀.clQmapInit () none) () calls =
        some (s, [some (.item 0), some (.item 1), some (.item 0), some (.item 3), some (.item 0), none,
          some (.item 3)]) ∧ IsMap s () T ∧ entriesOf s T.toList = [(8, 3)] := by
  have hcalls : (OrderedMap.empty none Nat).AllowedRun
      [.insert 5 0, .insert 3 1, .insert 5 2, .insert 8 3, .remove 5, .removeItem (some 1), .get 8] :=
    ⟨by decide, by decide, by decide, by decide, by decide, by decide, by decide, trivial⟩
  refine ⟨hcalls, fun s₀ => ?_⟩
  obtain ⟨s, T, hrun, hmap, hentries, -⟩ := clQmap_refines s₀ () none _ hcalls
  exact ⟨s, T, hrun, hmap, hentries⟩

theorem getLoop_congr {s : Qmaps μ ι} {m : μ} {p : Ref μ ι} {t : RbTree ι}
    (ht : IsTree s.heap m p t) {key fuel fuel' : Nat} (hfuel : t.depth < fuel)
    (hfuel' : t.depth < fuel') :
    s.getLoop m key fuel (treeRef m t) = s.getLoop m key fuel' (treeRef m t) := by
  induction t generalizing p fuel fuel' with
  | nil =>
    obtain ⟨fuel, rfl⟩ := Nat.exists_eq_succ_of_ne_zero (Nat.ne_of_gt hfuel)
    obtain ⟨fuel', rfl⟩ := Nat.exists_eq_succ_of_ne_zero (Nat.ne_of_gt hfuel')
    simp [getLoop, treeRef]
  | node c l i r ihl ihr =>
    obtain ⟨fuel, rfl⟩ := Nat.exists_eq_succ_of_ne_zero (Nat.ne_of_gt (Nat.zero_lt_of_lt hfuel))
    obtain ⟨fuel', rfl⟩ := Nat.exists_eq_succ_of_ne_zero (Nat.ne_of_gt (Nat.zero_lt_of_lt hfuel'))
    obtain ⟨-, -, hleft, hright, hl, hr⟩ := ht
    simp only [depth] at hfuel hfuel'
    have hnear : s.getLoop m key fuel (treeRef m l) = s.getLoop m key fuel' (treeRef m l) :=
      ihl hl (by omega) (by omega)
    have hfar : s.getLoop m key fuel (treeRef m r) = s.getLoop m key fuel' (treeRef m r) :=
      ihr hr (by omega) (by omega)
    rw [treeRef, getLoop, getLoop, hleft, hright, hnear, hfar]

/-- After any sequence of calls a search passes at most `2 * log₂ (n + 1)` of the `n` items. -/
theorem clQmapGet_turns (s₀ : Qmaps μ ι) (m : μ) (kc : Option KeyCompare) (calls : List (Call ι))
    (hcalls : (OrderedMap.empty kc ι).AllowedRun calls) :
    ∃ s out, runCalls (s₀.clQmapInit m kc) m calls = some (s, out) ∧
      ∀ key fuel, 2 * Nat.log2 (s.count m + 1) < fuel →
        s.getLoop m key fuel (s.clQmapRoot m) = s.clQmapGet m key := by
  obtain ⟨s, T, hrun, hs⟩ := (Refines.init s₀ m kc).run hcalls
  refine ⟨s, _, hrun, fun key fuel hfuel => ?_⟩
  obtain ⟨n, hn⟩ := hs.isMap.balanced
  have hdepth := hn.depth_le_log
  rw [hs.isMap.count] at hfuel
  unfold clQmapGet clQmapRoot
  rw [hs.isMap.tree.root, hs.isMap.count]
  exact getLoop_congr hs.isMap.tree.tree (Nat.lt_of_le_of_lt hdepth hfuel)
    (Nat.lt_succ_of_le depth_le_length)

theorem clQmapGet_turns_three : ∃ s out,
    runCalls ((default : Qmaps Unit Nat).clQmapInit () none) ()
        [.insert 5 0, .insert 3 1, .insert 8 2] = some (s, out) ∧
      ∀ key fuel, 2 * Nat.log2 (s.count () + 1) < fuel →
        s.getLoop () key fuel (s.clQmapRoot ()) = s.clQmapGet () key :=
  clQmapGet_turns _ () none _ ⟨by decide, by decide, by decide, trivial⟩

end

/-!
## The next larger key

The search for the item after a key is right in the default order.  With a comparison function
it goes left at the items before the key, and so ends at the first item of the map or at its end.
-/

open OpaFm.Lib OpaFm.Lib.RedBlack OpaFm.Lib.RedBlack.RbTree Qmaps

variable {μ ι : Type} [DecidableEq μ] [DecidableEq ι]

def largerItems (s : Qmaps μ ι) (m : μ) (key : Nat) (items : List ι) : List ι :=
  items.filter fun i => KeyBefore (s.keyCompare m) key (s.key (.item i))

def NextItem (s : Qmaps μ ι) (m : μ) (items : List ι) (key : Nat) : Option ι → Prop
  | none => ∀ i ∈ items, ¬KeyBefore (s.keyCompare m) key (s.key (.item i))
  | some i => i ∈ items ∧ KeyBefore (s.keyCompare m) key (s.key (.item i)) ∧
      ∀ j ∈ items, KeyBefore (s.keyCompare m) key (s.key (.item j)) → ¬ItemBefore s m j i

def enumerate (s : Qmaps μ ι) (m : μ) : Nat → Nat → Option (List (Ref μ ι))
  | 0, _ => none
  | fuel + 1, key =>
    (s.clQmapGetNext m key).bind fun p_item =>
      if p_item = .nil m then some []
      else (enumerate s m fuel (s.clQmapKey p_item)).map (p_item :: ·)

/-- One call gives the next item, and repeated calls give all larger ones. -/
def GetNextMeets (s : Qmaps μ ι) (m : μ) (items : List ι) (key : Nat) : Prop :=
  (∃ next, s.clQmapGetNext m key = some (foundRef m next) ∧ NextItem s m items key next) ∧
    enumerate s m (s.count m + 1) key = some ((largerItems s m key items).map .item)

/-- Where a wrong turn does no harm: in an empty map, and if the item at the root has the key and
nothing on its right. -/
def NothingAbove (s : Qmaps μ ι) (m : μ) (key : Nat) : Prop :=
  s.clQmapRoot m = .nil m ∨
    (SameKey (s.keyCompare m) (s.key (s.clQmapRoot m)) key ∧
      s.heap.child (s.clQmapRoot m) .right = .nil m)

variable {s : Qmaps μ ι} {m : μ} {t T : RbTree ι} {p found : Ref μ ι} {key fuel : Nat}
  {c : KeyCompare} {items l₁ l₂ : List ι} {i : ι}

theorem keyBefore_none {k₁ k₂ : Nat} : KeyBefore none k₁ k₂ ↔ k₁ < k₂ := by
  unfold KeyBefore compareKey
  grind

theorem getNextLoop_default (hkc : s.keyCompare m = none) (ht : IsTree s.heap m p t)
    (hsorted : t.toList.Pairwise (ItemBefore s m)) (hfuel : t.toList.length < fuel) :
    s.getNextLoop m key fuel (treeRef m t) found =
      some (((largerItems s m key t.toList).head?.map .item).getD found) := by
  induction t generalizing p fuel found with
  | nil =>
    obtain ⟨fuel, rfl⟩ := Nat.exists_eq_succ_of_ne_zero (Nat.ne_of_gt hfuel)
    exact if_pos rfl
  | node c l i r ihl ihr =>
    obtain ⟨fuel, rfl⟩ := Nat.exists_eq_succ_of_ne_zero (Nat.ne_of_gt (Nat.zero_lt_of_lt hfuel))
    obtain ⟨-, -, hleft, hright, hl, hr⟩ := ht
    simp only [toList, List.length_append, List.length_cons, List.pairwise_append,
      List.pairwise_cons, List.mem_cons] at hfuel hsorted
    obtain ⟨hsl, ⟨-, hsr⟩, hlr⟩ := hsorted
    rw [getNextLoop, treeRef, if_neg (by simp), hleft, hright]
    simp only [hkc]
    have hsplit : largerItems s m key (node c l i r).toList =
        largerItems s m key l.toList ++ largerItems s m key (i :: r.toList) :=
      List.filter_append _ _
    by_cases hlt : key < s.key (.item i)
    · have hi : largerItems s m key (i :: r.toList) = i :: largerItems s m key r.toList :=
        List.filter_cons_of_pos (by simpa [hkc, keyBefore_none] using hlt)
      rw [if_pos hlt, ihl hl hsl (by omega), hsplit, hi]
      cases largerItems s m key l.toList <;> rfl
    · have hnone : largerItems s m key l.toList = [] := by
        apply List.filter_eq_nil_iff.mpr
        intro j hj
        have := hlr j hj i (.inl rfl)
        rw [ItemBefore, hkc, keyBefore_none] at this
        simp only [hkc, keyBefore_none, decide_eq_true_eq]
        omega
      have hi : largerItems s m key (i :: r.toList) = largerItems s m key r.toList :=
        List.filter_cons_of_neg (by simpa [hkc, keyBefore_none] using hlt)
      rw [if_neg hlt, ihr hr hsr (by omega), hsplit, hnone, hi, List.nil_append]

theorem getNextLoop_left (hkc : s.keyCompare m = some c) (ht : IsTree s.heap m p t)
    (hbefore : ∀ i ∈ t.toList, KeyBefore (some c) (s.key (.item i)) key)
    (hfuel : t.toList.length < fuel) :
    s.getNextLoop m key fuel (treeRef m t) found = some ((t.toList.head?.map .item).getD found) := by
  induction t generalizing p fuel found with
  | nil =>
    obtain ⟨fuel, rfl⟩ := Nat.exists_eq_succ_of_ne_zero (Nat.ne_of_gt hfuel)
    exact if_pos rfl
  | node c' l i r ihl _ =>
    obtain ⟨fuel, rfl⟩ := Nat.exists_eq_succ_of_ne_zero (Nat.ne_of_gt (Nat.zero_lt_of_lt hfuel))
    obtain ⟨-, -, hleft, -, hl, -⟩ := ht
    simp only [toList, List.length_append, List.length_cons] at hfuel
    have hi : c.compare (s.key (.item i)) key < 0 := hbefore i (by simp [toList])
    rw [getNextLoop, treeRef, if_neg (by simp), hleft]
    simp only [hkc]
    rw [if_pos hi, ihl hl (fun j hj => hbefore j (by simp [toList, hj])) (by omega), toList]
    cases l.toList <;> rfl

theorem getNextLoop_right (hkc : s.keyCompare m = some c) (ht : IsTree s.heap m p t)
    (hbefore : ∀ i ∈ t.toList, ¬KeyBefore (some c) (s.key (.item i)) key)
    (hfuel : t.toList.length < fuel) :
    s.getNextLoop m key fuel (treeRef m t) found = some found := by
  induction t generalizing p fuel with
  | nil =>
    obtain ⟨fuel, rfl⟩ := Nat.exists_eq_succ_of_ne_zero (Nat.ne_of_gt hfuel)
    exact if_pos rfl
  | node c' l i r _ ihr =>
    obtain ⟨fuel, rfl⟩ := Nat.exists_eq_succ_of_ne_zero (Nat.ne_of_gt (Nat.zero_lt_of_lt hfuel))
    obtain ⟨-, -, -, hright, -, hr⟩ := ht
    simp only [toList, List.length_append, List.length_cons] at hfuel
    have hi : ¬c.compare (s.key (.item i)) key < 0 := hbefore i (by simp [toList])
    rw [getNextLoop, treeRef, if_neg (by simp), hright]
    simp only [hkc]
    rw [if_neg hi]
    exact ihr hr (fun j hj => hbefore j (by simp [toList, hj])) (by omega)

omit [DecidableEq μ] [DecidableEq ι] in
theorem mem_largerItems : i ∈ largerItems s m key items ↔
    i ∈ items ∧ KeyBefore (s.keyCompare m) key (s.key (.item i)) := by
  simp [largerItems]

omit [DecidableEq μ] [DecidableEq ι] in
theorem nextItem_head (hsorted : items.Pairwise (ItemBefore s m)) :
    NextItem s m items key (largerItems s m key items).head? := by
  cases hlarger : largerItems s m key items with
  | nil =>
    intro i hi hlt
    have : i ∈ largerItems s m key items := mem_largerItems.mpr ⟨hi, hlt⟩
    rw [hlarger] at this
    exact List.not_mem_nil this
  | cons i rest =>
    have hsorted' : (i :: rest).Pairwise (ItemBefore s m) := hlarger ▸ hsorted.filter _
    obtain ⟨hi, hlt⟩ := mem_largerItems.mp (hlarger ▸ List.mem_cons_self : i ∈ largerItems s m key items)
    refine ⟨hi, hlt, ?_⟩
    intro j hj hltj hji
    have hj' : j ∈ i :: rest := hlarger ▸ mem_largerItems.mpr ⟨hj, hltj⟩
    rcases List.mem_cons.mp hj' with rfl | hj'
    · exact hji.not_same (SameKey.refl _)
    · exact hji.not_before ((List.pairwise_cons.mp hsorted').1 j hj')

omit [DecidableEq μ] [DecidableEq ι] in
theorem largerItems_next {rest : List ι} (hsorted : items.Pairwise (ItemBefore s m))
    (hlarger : largerItems s m key items = i :: rest) :
    largerItems s m (s.key (.item i)) items = rest := by
  have hsorted' : (i :: rest).Pairwise (ItemBefore s m) := hlarger ▸ hsorted.filter _
  obtain ⟨-, hlt⟩ := mem_largerItems.mp (hlarger ▸ List.mem_cons_self : i ∈ largerItems s m key items)
  have hfilter : largerItems s m (s.key (.item i)) items =
      (largerItems s m key items).filter
        fun j => KeyBefore (s.keyCompare m) (s.key (.item i)) (s.key (.item j)) := by
    unfold largerItems
    rw [List.filter_filter]
    apply List.filter_congr
    intro j _
    by_cases hij : KeyBefore (s.keyCompare m) (s.key (.item i)) (s.key (.item j))
    · simp [hij, hlt.trans hij]
    · simp [hij]
  rw [hfilter, hlarger, List.filter_cons_of_neg]
  · apply List.filter_eq_self.mpr
    intro j hj
    exact decide_eq_true ((List.pairwise_cons.mp hsorted').1 j hj)
  · simpa using fun hii : KeyBefore _ _ _ => hii.not_same (SameKey.refl _)

theorem enumerate_eq (hsorted : items.Pairwise (ItemBefore s m))
    (hnext : ∀ key, s.clQmapGetNext m key = some (foundRef m (largerItems s m key items).head?))
    (hfuel : (largerItems s m key items).length < fuel) :
    enumerate s m fuel key = some ((largerItems s m key items).map .item) := by
  induction fuel generalizing key with
  | zero => omega
  | succ fuel ih =>
    rw [enumerate, hnext]
    cases hlarger : largerItems s m key items with
    | nil => simp [foundRef]
    | cons i rest =>
      have hrest := largerItems_next hsorted hlarger
      have hlength : (largerItems s m (s.key (.item i)) items).length < fuel := by
        rw [hlarger, List.length_cons] at hfuel
        rw [hrest]
        omega
      have := ih hlength
      rw [hrest] at this
      simp [foundRef, clQmapKey, this]

theorem meets_of_none (hnext : s.clQmapGetNext m key = some (.nil m))
    (hlarger : largerItems s m key items = []) : GetNextMeets s m items key := by
  constructor
  · refine ⟨none, hnext, ?_⟩
    intro i hi hlt
    have : i ∈ largerItems s m key items := mem_largerItems.mpr ⟨hi, hlt⟩
    rw [hlarger] at this
    exact List.not_mem_nil this
  · rw [hlarger, enumerate, hnext]
    simp

theorem clQmapGetNext_compare {c' : Color} {l r : RbTree ι} (hs : IsMap s m (.node c' l i r))
    (hkc : s.keyCompare m = some c) :
    s.clQmapGetNext m key = some (if KeyBefore (some c) (s.key (.item i)) key then
      foundRef m (node c' l i r).toList.head? else .nil m) := by
  obtain ⟨-, -, hleft, hright, hl, hr⟩ := hs.tree.tree
  have hsorted := hs.sorted
  have hcount := hs.count
  simp only [toList, List.length_append, List.length_cons, List.pairwise_append,
    List.pairwise_cons, List.mem_cons] at hsorted hcount
  obtain ⟨-, ⟨hir, -⟩, hlr⟩ := hsorted
  unfold ItemBefore at hir hlr
  rw [hkc] at hir hlr
  rw [clQmapGetNext, clQmapRoot, hs.tree.root, treeRef, getNextLoop, if_neg (by simp), hleft, hright]
  simp only [hkc]
  by_cases hlt : KeyBefore (some c) (s.key (.item i)) key
  · have hbefore : ∀ j ∈ l.toList, KeyBefore (some c) (s.key (.item j)) key :=
      fun j hj => (hlr j hj i (.inl rfl)).trans hlt
    have hcompare : c.compare (s.key (.item i)) key < 0 := hlt
    rw [if_pos hlt, if_pos hcompare, getNextLoop_left hkc hl hbefore (by omega), toList]
    cases l.toList <;> rfl
  · have hafter : ∀ j ∈ r.toList, ¬KeyBefore (some c) (s.key (.item j)) key :=
      fun j hj hjk => hlt ((hir j hj).trans hjk)
    have hcompare : ¬c.compare (s.key (.item i)) key < 0 := hlt
    rw [if_neg hlt, if_neg hcompare, getNextLoop_right hkc hr hafter (by omega)]

theorem getNext_default (hs : IsMap s m T) (hkc : s.keyCompare m = none) (key : Nat) :
    GetNextMeets s m T.toList key := by
  have hnext : ∀ key, s.clQmapGetNext m key =
      some (foundRef m (largerItems s m key T.toList).head?) := by
    intro key
    rw [clQmapGetNext, clQmapRoot, hs.tree.root,
      getNextLoop_default hkc hs.tree.tree hs.sorted (by rw [hs.count]; omega)]
    cases (largerItems s m key T.toList).head? <;> rfl
  refine ⟨⟨_, hnext key, nextItem_head hs.sorted⟩, enumerate_eq hs.sorted hnext ?_⟩
  rw [hs.count]
  exact Nat.lt_succ_of_le (List.length_filter_le _ _)

theorem nothingAbove_of_meets (hs : IsMap s m T) (hkc : s.keyCompare m = some c)
    (hmeets : GetNextMeets s m T.toList key) : NothingAbove s m key := by
  obtain ⟨⟨next, hnext, hitem⟩, -⟩ := hmeets
  unfold NothingAbove clQmapRoot
  rw [hs.tree.root]
  cases T with
  | nil => exact .inl rfl
  | node c' l i r =>
    right
    rw [clQmapGetNext_compare hs hkc] at hnext
    have hsorted := hs.sorted
    simp only [toList, List.pairwise_append, List.pairwise_cons, List.mem_cons] at hsorted
    obtain ⟨-, ⟨hir, -⟩, hlr⟩ := hsorted
    unfold ItemBefore at hir hlr
    rw [hkc] at hir hlr
    by_cases hlt : KeyBefore (some c) (s.key (.item i)) key
    · -- The first item of the map is no larger one.
      rw [if_pos hlt] at hnext
      obtain ⟨j, hj, hji⟩ : ∃ j, (node c' l i r).toList.head? = some j ∧
          KeyBefore (some c) (s.key (.item j)) key := by
        cases hl : l.toList with
        | nil => exact ⟨i, by simp [toList, hl], hlt⟩
        | cons j l' =>
          refine ⟨j, by simp [toList, hl], (hlr j ?_ i (.inl rfl)).trans hlt⟩
          rw [hl]
          exact List.mem_cons_self
      rw [hj] at hnext
      cases next with
      | none => cases Option.some.inj hnext
      | some j' =>
        cases Option.some.inj hnext
        have hkj := hitem.2.1
        rw [hkc] at hkj
        exact absurd hji hkj.not_before
    · rw [if_neg hlt] at hnext
      cases next with
      | some j' => cases Option.some.inj hnext
      | none =>
        have hnone : ∀ j ∈ (node c' l i r).toList,
            ¬KeyBefore (some c) key (s.key (.item j)) := hkc ▸ hitem
        have hsame : SameKey (some c) (s.key (.item i)) key := by
          rcases key_cases (some c) (s.key (.item i)) key with h | h | h
          · exact absurd h hlt
          · exact h
          · exact absurd h (hnone i (by simp [toList]))
        refine ⟨hkc ▸ hsame, ?_⟩
        show s.heap.child (.item i) .right = .nil m
        rw [hs.tree.tree.2.2.2.1]
        cases r with
        | nil => rfl
        | node _ _ j _ =>
          have hj := hir j (by simp [toList])
          exact absurd (hsame.before_left.mp hj) (hnone j (by simp [toList]))
theorem meets_of_nothingAbove (hs : IsMap s m T) (hkc : s.keyCompare m = some c)
    (habove : NothingAbove s m key) : GetNextMeets s m T.toList key := by
  unfold NothingAbove clQmapRoot at habove
  rw [hs.tree.root] at habove
  cases T with
  | nil =>
    apply meets_of_none _ rfl
    rw [clQmapGetNext, clQmapRoot, hs.tree.root]
    exact if_pos rfl
  | node c' l i r =>
    obtain ⟨hsame, hright⟩ := habove.resolve_left (by simp [treeRef])
    have hsorted := hs.sorted
    simp only [toList, List.pairwise_append, List.pairwise_cons, List.mem_cons] at hsorted
    obtain ⟨-, -, hlr⟩ := hsorted
    unfold ItemBefore at hlr
    rw [treeRef, hkc] at hsame
    rw [hkc] at hlr
    obtain rfl : r = .nil := treeRef_eq_nil.mp (hs.tree.tree.2.2.2.1.symm.trans hright)
    apply meets_of_none
    · rw [clQmapGetNext_compare hs hkc, if_neg hsame.not_before]
    · apply List.filter_eq_nil_iff.mpr
      intro j hj
      rw [hkc]
      simp only [toList, List.mem_append, List.mem_singleton] at hj
      rcases hj with hj | rfl
      · simpa using (hsame.before_right.mp (hlr j hj i (.inl rfl))).not_before
      · simpa using hsame.symm.not_before

/-- `cl_qmap_get_next` does what it is for in the default order, and with a comparison function
where nothing stands above the key anyway. -/
theorem clQmapGetNext_meets_iff (hs : IsMap s m T) (key : Nat) :
    GetNextMeets s m T.toList key ↔ s.keyCompare m = none ∨ NothingAbove s m key := by
  cases hkc : s.keyCompare m with
  | none => exact iff_of_true (getNext_default hs hkc key) (.inl rfl)
  | some c =>
    constructor
    · exact fun hmeets => .inr (nothingAbove_of_meets hs hkc hmeets)
    · exact fun habove => meets_of_nothingAbove hs hkc (habove.resolve_left nofun)

theorem clQmapGetNext_meets_iff_three : ∃ (s : Qmaps Unit Nat) (T : RbTree Nat),
    IsMap s () T ∧ entriesOf s T.toList = [(2, 2), (5, 0), (8, 1)] ∧
      (GetNextMeets s () T.toList 5 ↔ s.keyCompare () = none ∨ NothingAbove s () 5) := by
  have hcalls : (OrderedMap.empty (some KeyCompare.default) Nat).AllowedRun
      [.insert 5 0, .insert 8 1, .insert 2 2] := ⟨by decide, by decide, by decide, trivial⟩
  obtain ⟨s, T, -, hs⟩ :=
    (Refines.init (default : Qmaps Unit Nat) () (some KeyCompare.default)).run hcalls
  exact ⟨s, T, hs.isMap, hs.entries.symm, clQmapGetNext_meets_iff hs.isMap 5⟩

/-- With one item of key 5 and a comparison function, nothing is found above 3. -/
theorem clQmapGetNext_misses : ∃ (s : Qmaps Unit Nat) (T : RbTree Nat),
    runCalls ((default : Qmaps Unit Nat).clQmapInit () (some KeyCompare.default)) () [.insert 5 0] =
        some (s, [some (.item 0)]) ∧
      IsMap s () T ∧ s.clQmapGetNext () 3 = some (.nil ()) ∧ ¬GetNextMeets s () T.toList 3 := by
  have hcalls : (OrderedMap.empty (some KeyCompare.default) Nat).AllowedRun [.insert 5 0] :=
    ⟨by decide, trivial⟩
  obtain ⟨s, T, hrun, hs⟩ :=
    (Refines.init (default : Qmaps Unit Nat) () (some KeyCompare.default)).run hcalls
  have hentries : entriesOf s T.toList = [(5, 0)] := hs.entries.symm
  obtain ⟨hitems, hkey⟩ : T.toList = [0] ∧ s.key (.item 0) = 5 := by
    cases hT : T.toList with
    | nil => simp [hT, entriesOf] at hentries
    | cons i rest =>
      simp only [hT, entriesOf, List.map_cons, List.cons.injEq, Prod.mk.injEq,
        List.map_eq_nil_iff] at hentries
      obtain ⟨⟨hkey, rfl⟩, rfl⟩ := hentries
      exact ⟨rfl, hkey⟩
  have hmap := hs.isMap
  have hlt : ¬KeyBefore (some KeyCompare.default) 5 3 := by decide
  have hne : ¬SameKey (some KeyCompare.default) 5 3 := by decide
  cases T with
  | nil => cases hitems
  | node c' l i r =>
    obtain ⟨-, rfl, -⟩ : l.toList = [] ∧ i = 0 ∧ r.toList = [] := by
      cases hl : l.toList with
      | nil => simpa [toList, hl] using hitems
      | cons j l' => simp [toList, hl] at hitems
    have hnext : s.clQmapGetNext () 3 = some (.nil ()) := by
      rw [clQmapGetNext_compare hmap hs.keyCompare, hkey, if_neg hlt]
    refine ⟨s, _, hrun, hmap, hnext, ?_⟩
    intro hmeets
    have habove := nothingAbove_of_meets hmap hs.keyCompare hmeets
    unfold NothingAbove clQmapRoot at habove
    rw [hmap.tree.root, treeRef, hkey, hs.keyCompare] at habove
    exact hne (habove.resolve_left (by simp)).1

end OpaFm.Qmap
