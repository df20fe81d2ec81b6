import OpaFm.Routing.SelectPorts
import Mathlib.Data.Finset.Card
import Mathlib.Data.List.Nodup
import Mathlib.Data.List.FinRange

/-!
# Balancing ends and permutes

The first pass of `_guid_cycle_sort` deals the ports out over runs of equal
GUIDs, so the marks are the places 0, 1, 2, … in some order.  The second pass
then puts at least one more port in its place with every swap.
-/

namespace OpaFm.Routing

open OpaFm.Fabric

/-! ## Runs of equal GUIDs -/

def remaining (gc : List GuidCounter) : List Nat :=
  gc.flatMap fun c => List.range' c.offset c.count

def CountsTo (m : Nat) (s : List GuidCounter × Nat) : Prop :=
  remaining s.1 = List.range m ∧
    (s.1 = [] ∧ s.2 = 0 ∨ ∃ gc c, s.1 = gc ++ [c] ∧ c.offset + c.count = m)

theorem modify_append_last {α : Type} (f : α → α) (l : List α) (a : α) :
    (l ++ [a]).modify l.length f = l ++ [f a] := by
  induction l with
  | nil => rfl
  | cons b l ih => simp [ih]

theorem countGuid_spec {m : Nat} {s : List GuidCounter × Nat} (hs : CountsTo m s)
    {useSysGuid : Bool} {e : SwitchportToNextGuid} (he : sortGuid useSysGuid e ≠ 0) :
    CountsTo (m + 1) (countGuid useSysGuid s (e, m)) := by
  obtain ⟨hrem, hlast⟩ := hs
  unfold countGuid CountsTo
  by_cases hnew : sortGuid useSysGuid e ≠ s.2
  · simp only [hnew, ne_eq, not_false_eq_true, if_true]
    refine ⟨?_, .inr ⟨s.1, ⟨_, m, 1⟩, rfl, rfl⟩⟩
    have happend : remaining (s.1 ++ [⟨sortGuid useSysGuid e, m, 1⟩]) = remaining s.1 ++ [m] := by
      simp [remaining]
    rw [happend, hrem, List.range_succ]
  · simp only [hnew, if_false]
    rcases hlast with ⟨-, hzero⟩ | ⟨gc, c, hgc, hend⟩
    · exact absurd (by rw [hzero]; exact he) hnew
    · have hmod : s.1.modify (s.1.length - 1) (fun c => { c with count := c.count + 1 }) =
          gc ++ [{ c with count := c.count + 1 }] := by
        rw [hgc, List.length_append, List.length_singleton, Nat.add_sub_cancel,
          modify_append_last]
      rw [hmod]
      refine ⟨?_, .inr ⟨gc, _, rfl, by simp only; omega⟩⟩
      rw [hgc] at hrem
      simp only [remaining, List.flatMap_append, List.flatMap_singleton] at hrem ⊢
      rw [List.range'_concat, ← List.append_assoc, hrem, List.range_succ, Nat.one_mul, hend]

theorem remaining_countGuids {useSysGuid : Bool} {ports : List SwitchportToNextGuid}
    (hguid : ∀ e ∈ ports, sortGuid useSysGuid e ≠ 0) :
    remaining (countGuids useSysGuid ports) = List.range ports.length := by
  have hall : ∀ (l : List SwitchportToNextGuid) m s, (∀ e ∈ l, sortGuid useSysGuid e ≠ 0) →
      CountsTo m s → CountsTo (m + l.length) ((l.zipIdx m).foldl (countGuid useSysGuid) s) := by
    intro l
    induction l with
    | nil =>
      intro m s _ hs
      exact hs
    | cons e l ih =>
      intro m s hl hs
      rw [List.zipIdx_cons, List.foldl_cons, List.length_cons, Nat.add_comm l.length 1,
        ← Nat.add_assoc]
      exact ih (m + 1) _ (fun e' he' => hl e' (.tail _ he'))
        (countGuid_spec hs (hl e (.head _)))
  have h := (hall ports 0 ([], 0) hguid ⟨rfl, .inl ⟨rfl, rfl⟩⟩).1
  rw [Nat.zero_add] at h
  exact h

/-! ## The first pass -/

theorem nextAvailable_of_distance (gc : List GuidCounter) {x : Nat} {c : GuidCounter}
    (hx : gc[x]? = some c) (hc : c.count ≠ 0) :
    ∀ dist fuel j, j < gc.length → (j + dist) % gc.length = x → dist < fuel →
      ∃ j' c', nextAvailable gc fuel j = some j' ∧ gc[j']? = some c' ∧ c'.count ≠ 0 := by
  have hxlt : x < gc.length := (List.getElem?_eq_some_iff.mp hx).1
  intro dist
  induction dist with
  | zero =>
    intro fuel j hj hmod hlt
    rw [Nat.add_zero, Nat.mod_eq_of_lt hj] at hmod
    subst hmod
    obtain ⟨fuel, rfl⟩ : ∃ f, fuel = f + 1 := ⟨fuel - 1, by omega⟩
    exact ⟨j, c, by simp [nextAvailable, hx, hc], hx, hc⟩
  | succ dist ih =>
    intro fuel j hj hmod hlt
    obtain ⟨fuel, rfl⟩ : ∃ f, fuel = f + 1 := ⟨fuel - 1, by omega⟩
    obtain ⟨cj, hcj⟩ : ∃ cj, gc[j]? = some cj := ⟨_, List.getElem?_eq_getElem hj⟩
    by_cases hzero : cj.count = 0
    · have hstep : nextAvailable gc (fuel + 1) j =
          nextAvailable gc fuel ((j + 1) % gc.length) := by
        simp [nextAvailable, hcj, hzero]
      rw [hstep]
      refine ih fuel _ (Nat.mod_lt _ (by omega)) ?_ (by omega)
      rw [Nat.mod_add_mod, Nat.add_assoc, Nat.add_comm 1 dist]
      exact hmod
    · exact ⟨j, cj, by simp [nextAvailable, hcj, hzero], hcj, hzero⟩

theorem nextAvailable_spec {gc : List GuidCounter} (hleft : remaining gc ≠ []) {j : Nat}
    (hj : j < gc.length) :
    ∃ j' c, nextAvailable gc gc.length j = some j' ∧ gc[j']? = some c ∧ c.count ≠ 0 := by
  obtain ⟨p, hp⟩ := List.exists_mem_of_ne_nil _ hleft
  obtain ⟨c, hc, hpc⟩ := List.mem_flatMap.mp hp
  obtain ⟨x, hx⟩ := List.mem_iff_getElem?.mp hc
  have hxlt : x < gc.length := (List.getElem?_eq_some_iff.mp hx).1
  have hcount : c.count ≠ 0 := by
    intro h0
    rw [h0] at hpc
    simp at hpc
  refine nextAvailable_of_distance gc hx hcount ((x + gc.length - j) % gc.length) gc.length j hj ?_
    (Nat.mod_lt _ (by omega))
  rw [Nat.add_mod_mod]
  have hsum : j + (x + gc.length - j) = x + gc.length := by omega
  rw [hsum, Nat.add_mod_right, Nat.mod_eq_of_lt hxlt]

theorem remaining_set {gc : List GuidCounter} {j : Nat} {c : GuidCounter} (hj : gc[j]? = some c)
    (hcount : c.count ≠ 0) :
    (remaining gc).Perm
      (c.offset ::
        remaining (gc.set j { c with offset := c.offset + 1, count := c.count - 1 })) := by
  obtain ⟨hlt, hget⟩ := List.getElem?_eq_some_iff.mp hj
  have hsplit : gc = gc.take j ++ c :: gc.drop (j + 1) := by
    rw [← hget, List.getElem_cons_drop, List.take_append_drop]
  have hset : gc.set j { c with offset := c.offset + 1, count := c.count - 1 } =
      gc.take j ++ { c with offset := c.offset + 1, count := c.count - 1 } :: gc.drop (j + 1) := by
    rw [List.set_eq_take_append_cons_drop, if_pos hlt]
  have hrange : List.range' c.offset c.count =
      c.offset :: List.range' (c.offset + 1) (c.count - 1) := by
    obtain ⟨k, hk⟩ : ∃ k, c.count = k + 1 := ⟨c.count - 1, by omega⟩
    rw [hk, List.range'_succ, Nat.add_sub_cancel]
  rw [hset]
  conv_lhs => rw [hsplit]
  simp only [remaining, List.flatMap_append, List.flatMap_cons, hrange, List.cons_append]
  exact List.perm_middle

def SwitchportToNextGuid.unmarked (e : SwitchportToNextGuid) : SwitchportToNextGuid :=
  { e with sortIndex := 0 }

def markOrder : Nat → Nat → List GuidCounter → List Nat
  | 0, _, _ => []
  | rounds + 1, j, gc =>
    match nextAvailable gc gc.length j with
    | none => []
    | some j =>
      match gc[j]? with
      | none => []
      | some c =>
        c.offset :: markOrder rounds ((j + 1) % gc.length)
          (gc.set j { c with offset := c.offset + 1, count := c.count - 1 })

theorem markOrder_succ {rounds j j' : Nat} {gc : List GuidCounter} {c : GuidCounter}
    (hnext : nextAvailable gc gc.length j = some j') (hget : gc[j']? = some c) :
    markOrder (rounds + 1) j gc = c.offset :: markOrder rounds ((j' + 1) % gc.length)
      (gc.set j' { c with offset := c.offset + 1, count := c.count - 1 }) := by
  simp only [markOrder, hnext, hget]

theorem markPorts_spec : ∀ (rounds sortIndex j : Nat) (gc : List GuidCounter)
    (ports : List SwitchportToNextGuid), (remaining gc).length = rounds → (remaining gc).Nodup →
    (∀ x ∈ remaining gc, x < ports.length) → j < gc.length →
    ∃ ports' : List SwitchportToNextGuid, markPorts rounds sortIndex j gc ports = some ports' ∧
      (markOrder rounds j gc).Perm (remaining gc) ∧
      ports'.map SwitchportToNextGuid.unmarked = ports.map SwitchportToNextGuid.unmarked ∧
      (∀ x, x ∉ remaining gc → ports'[x]? = ports[x]?) ∧
      ∀ t x, (markOrder rounds j gc)[t]? = some x →
        ∃ e, ports'[x]? = some e ∧ e.sortIndex = (sortIndex + t) % 0x10000 := by
  intro rounds
  induction rounds with
  | zero =>
    intro sortIndex j gc ports hlen _ _ _
    have hnil : remaining gc = [] := List.eq_nil_of_length_eq_zero hlen
    exact ⟨ports, rfl, by rw [hnil, markOrder], rfl, fun _ _ => rfl,
      fun t x h => by simp [markOrder] at h⟩
  | succ rounds ih =>
    intro sortIndex j gc ports hlen hnodup hlt hj
    have hleft : remaining gc ≠ [] := by
      intro h
      rw [h] at hlen
      simp at hlen
    obtain ⟨j', c, hnext, hget, hcount⟩ := nextAvailable_spec hleft hj
    have hperm := remaining_set hget hcount
    let gc' := gc.set j' { c with offset := c.offset + 1, count := c.count - 1 }
    have hnodup' := List.nodup_cons.mp (hperm.nodup_iff.mp hnodup)
    have hlt' : ∀ x ∈ c.offset :: remaining gc', x < ports.length :=
      fun x hx => hlt x (hperm.mem_iff.mpr hx)
    have hlen' : (remaining gc').length = rounds := by
      have h := hperm.length_eq
      rw [hlen, List.length_cons] at h
      exact (Nat.succ.inj h).symm
    obtain ⟨ports', hrun, horder, hsame, hrest, hmarks⟩ :=
      ih (sortIndex + 1) ((j' + 1) % gc.length) gc'
        (ports.modify c.offset fun e => { e with sortIndex := sortIndex % 0x10000 }) hlen' hnodup'.2
        (fun x hx => by simpa using hlt' x (.tail _ hx))
        (by simpa [gc'] using Nat.mod_lt _ (by omega))
    rw [markOrder_succ hnext hget]
    refine ⟨ports', ?_, ?_, ?_, ?_, ?_⟩
    · simp only [markPorts, hnext, hget]
      exact hrun
    · exact (horder.cons _).trans hperm.symm
    · rw [hsame]
      apply List.ext_getElem?
      intro x
      simp only [List.getElem?_map, List.getElem?_modify]
      by_cases hx : c.offset = x
      · cases ports[x]? <;> simp [hx, SwitchportToNextGuid.unmarked]
      · simp [hx]
    · intro x hx
      have hx' : x ∉ c.offset :: remaining gc' := fun h => hx (hperm.mem_iff.mpr h)
      rw [hrest x fun h => hx' (.tail _ h), List.getElem?_modify]
      have hne : c.offset ≠ x := fun h => hx' (h ▸ .head _)
      simp [hne]
    · intro t x ht
      cases t with
      | zero =>
        obtain rfl : c.offset = x := by simpa using ht
        have hin : c.offset < ports.length := hlt' _ (.head _)
        refine ⟨{ ports.get ⟨c.offset, hin⟩ with sortIndex := sortIndex % 0x10000 }, ?_, rfl⟩
        rw [hrest _ hnodup'.1, List.getElem?_modify]
        simp [hin]
      | succ t =>
        obtain ⟨e, he, hindex⟩ := hmarks t x (by simpa using ht)
        refine ⟨e, he, ?_⟩
        rw [hindex, Nat.add_assoc, Nat.add_comm 1 t]

/-! ## The second pass -/

structure Marked (ports : List SwitchportToNextGuid) : Prop where
  lt : ∀ e ∈ ports, e.sortIndex < ports.length
  distinct : (ports.map SwitchportToNextGuid.sortIndex).Nodup

theorem marked_of_order {ports : List SwitchportToNextGuid} {order : List Nat}
    (horder : order.Perm (List.range ports.length))
    (hmarks : ∀ t x : Nat, order[t]? = some x →
      ∃ e : SwitchportToNextGuid, ports[x]? = some e ∧ e.sortIndex = t) :
    Marked ports := by
  let mark (x : Nat) : Nat := (ports[x]?.map SwitchportToNextGuid.sortIndex).getD 0
  have hmap : ports.map SwitchportToNextGuid.sortIndex = (List.range ports.length).map mark := by
    apply List.ext_getElem?
    intro x
    by_cases hx : x < ports.length
    · simp [mark, hx]
    · simp [hx]
  have horder' : order.map mark = List.range ports.length := by
    have hlen : order.length = ports.length := by simpa using horder.length_eq
    apply List.ext_getElem?
    intro t
    by_cases ht : t < order.length
    · obtain ⟨e, he, hindex⟩ := hmarks t _ (List.getElem?_eq_getElem ht)
      rw [List.getElem?_map, List.getElem?_eq_getElem ht, List.getElem?_range (hlen ▸ ht)]
      simp [mark, he, hindex]
    · rw [List.getElem?_eq_none (by simpa using ht), List.getElem?_eq_none (by simp; omega)]
  have hperm : (ports.map SwitchportToNextGuid.sortIndex).Perm (List.range ports.length) := by
    rw [hmap]
    exact (horder.symm.map mark).trans (by rw [horder'])
  constructor
  · intro e he
    exact List.mem_range.mp (hperm.mem_iff.mp (List.mem_map_of_mem he))
  · exact hperm.nodup_iff.mpr List.nodup_range

theorem Marked.perm {ports ports' : List SwitchportToNextGuid} (h : Marked ports)
    (hperm : ports'.Perm ports) : Marked ports' where
  lt e he := hperm.length_eq ▸ h.lt e (hperm.mem_iff.mp he)
  distinct := (hperm.map _).nodup_iff.mpr h.distinct

theorem Marked.place_inj {ports : List SwitchportToNextGuid} (h : Marked ports) {x y : Nat}
    {e e' : SwitchportToNextGuid} (hx : ports[x]? = some e) (hy : ports[y]? = some e')
    (heq : e.sortIndex = e'.sortIndex) : x = y := by
  have hx' : (ports.map SwitchportToNextGuid.sortIndex)[x]? = some e.sortIndex := by
    rw [List.getElem?_map, hx]
    rfl
  have hy' : (ports.map SwitchportToNextGuid.sortIndex)[y]? = some e.sortIndex := by
    rw [List.getElem?_map, hy, heq]
    rfl
  obtain ⟨hlt, -⟩ := List.getElem?_eq_some_iff.mp hx'
  exact (List.getElem?_inj hlt h.distinct).mp (hx'.trans hy'.symm)

def misplaced (ports : List SwitchportToNextGuid) : Finset Nat :=
  (Finset.range ports.length).filter fun x =>
    ports[x]?.map SwitchportToNextGuid.sortIndex ≠ some x

theorem misplaced_swap_subset {ports : List SwitchportToNextGuid} {i : Nat}
    {e e' : SwitchportToNextGuid} (hi : ports[i]? = some e) (hne : e.sortIndex ≠ i)
    (ht : ports[e.sortIndex]? = some e') :
    misplaced ((ports.set i e').set e.sortIndex e) ⊆ misplaced ports := by
  have htlt : e.sortIndex < ports.length := (List.getElem?_eq_some_iff.mp ht).1
  intro x hx
  simp only [misplaced, Finset.mem_filter, Finset.mem_range, List.length_set] at hx ⊢
  refine ⟨hx.1, ?_⟩
  by_cases hxi : x = i
  · rw [hxi, hi]
    simpa using hne
  · by_cases hxt : x = e.sortIndex
    · refine absurd ?_ hx.2
      rw [hxt, List.getElem?_set_self (by simpa using htlt)]
      rfl
    · have hget : ((ports.set i e').set e.sortIndex e)[x]? = ports[x]? := by
        rw [List.getElem?_set_ne (Ne.symm hxt), List.getElem?_set_ne (Ne.symm hxi)]
      rw [← hget]
      exact hx.2

theorem misplaced_swap {ports : List SwitchportToNextGuid} (h : Marked ports) {i : Nat}
    {e e' : SwitchportToNextGuid} (hi : ports[i]? = some e) (hne : e.sortIndex ≠ i)
    (ht : ports[e.sortIndex]? = some e') :
    (misplaced ((ports.set i e').set e.sortIndex e)).card < (misplaced ports).card := by
  have htlt : e.sortIndex < ports.length := (List.getElem?_eq_some_iff.mp ht).1
  refine Finset.card_lt_card ⟨misplaced_swap_subset hi hne ht, fun hsub => ?_⟩
  have hold : e.sortIndex ∈ misplaced ports := by
    simp only [misplaced, Finset.mem_filter, Finset.mem_range]
    refine ⟨htlt, ?_⟩
    rw [ht, Option.map_some]
    intro heq
    exact hne (h.place_inj ht hi (Option.some.inj heq))
  have hnew := hsub hold
  simp only [misplaced, Finset.mem_filter] at hnew
  apply hnew.2
  rw [List.getElem?_set_self (by simpa using htlt)]
  rfl

theorem swapInto_spec : ∀ (fuel i : Nat) (ports : List SwitchportToNextGuid), Marked ports →
    i < ports.length → (misplaced ports).card < fuel →
    ∃ ports', swapInto fuel i ports = some ports' ∧ ports'.Perm ports ∧
      misplaced ports' ⊆ misplaced ports ∧ i ∉ misplaced ports' := by
  intro fuel
  induction fuel with
  | zero =>
    intro i ports _ _ hlt
    exact absurd hlt (Nat.not_lt_zero _)
  | succ fuel ih =>
    intro i ports hmarked hi hlt
    have hget : ports[i]? = some (ports.get ⟨i, hi⟩) := List.getElem?_eq_getElem hi
    generalize ports.get ⟨i, hi⟩ = e at hget
    by_cases hplaced : e.sortIndex = i
    · have hdone : i ∉ misplaced ports := by
        simp [misplaced, hget, hplaced]
      exact ⟨ports, by simp [swapInto, hget, hplaced], .rfl, Finset.Subset.refl _, hdone⟩
    · have ht : e.sortIndex < ports.length := hmarked.lt e (List.mem_of_getElem? hget)
      have hget' : ports[e.sortIndex]? = some (ports.get ⟨e.sortIndex, ht⟩) :=
        List.getElem?_eq_getElem ht
      have hperm :
          ((ports.set i (ports.get ⟨e.sortIndex, ht⟩)).set e.sortIndex e).Perm ports := by
        obtain ⟨_, hei⟩ := List.getElem?_eq_some_iff.mp hget
        have h := List.set_set_perm hi ht
        rw [hei] at h
        exact h
      have hfewer := misplaced_swap hmarked hget hplaced hget'
      obtain ⟨ports', hrun, hperm', hsub, hdone⟩ := ih i _ (hmarked.perm hperm)
        (by simpa using hi) (by omega)
      refine ⟨ports', ?_, hperm'.trans hperm,
        hsub.trans (misplaced_swap_subset hget hplaced hget'), hdone⟩
      simp only [swapInto, hget, hplaced, if_false, hget']
      exact hrun

theorem swapPorts_spec (is : List Nat) : ∀ (ports : List SwitchportToNextGuid), Marked ports →
    (∀ i ∈ is, i < ports.length) →
    ∃ ports', swapPorts is ports = some ports' ∧ ports'.Perm ports ∧
      misplaced ports' ⊆ misplaced ports ∧ ∀ i ∈ is, i ∉ misplaced ports' := by
  induction is with
  | nil =>
    intro ports _ _
    exact ⟨ports, rfl, .rfl, Finset.Subset.refl _, fun i hi => absurd hi List.not_mem_nil⟩
  | cons i is ih =>
    intro ports hmarked his
    have hcard : (misplaced ports).card < ports.length + 1 := by
      have h := Finset.card_filter_le (Finset.range ports.length) fun x =>
        ports[x]?.map SwitchportToNextGuid.sortIndex ≠ some x
      rw [Finset.card_range] at h
      exact Nat.lt_succ_of_le h
    obtain ⟨ports₁, hrun, hperm, hsub, hdone⟩ :=
      swapInto_spec (ports.length + 1) i ports hmarked (his i (.head _)) hcard
    obtain ⟨ports', hrun', hperm', hsub', hdone'⟩ := ih ports₁ (hmarked.perm hperm)
      (fun x hx => hperm.length_eq ▸ his x (.tail _ hx))
    refine ⟨ports', by rw [swapPorts, hrun, Option.bind_some, hrun'], hperm'.trans hperm,
      hsub'.trans hsub, fun x hx => ?_⟩
    rcases List.mem_cons.mp hx with hx | hx
    · rw [hx]
      exact fun hin => hdone (hsub' hin)
    · exact hdone' x hx

theorem swapPorts_all {ports : List SwitchportToNextGuid} (h : Marked ports) :
    ∃ ports', swapPorts (List.range ports.length) ports = some ports' ∧ ports'.Perm ports ∧
      ∀ i (e : SwitchportToNextGuid), ports'[i]? = some e → e.sortIndex = i := by
  obtain ⟨ports', hrun, hperm, -, hdone⟩ := swapPorts_spec (List.range ports.length) ports h
    fun i hi => List.mem_range.mp hi
  refine ⟨ports', hrun, hperm, fun i e he => ?_⟩
  have hi : i < ports'.length := (List.getElem?_eq_some_iff.mp he).1
  have hplaced := hdone i (List.mem_range.mpr (hperm.length_eq ▸ hi))
  by_contra hne
  refine hplaced (Finset.mem_filter.mpr ⟨Finset.mem_range.mpr hi, ?_⟩)
  rw [he]
  exact fun heq => hne (Option.some.inj heq)

/-! ## Balancing -/

theorem guidCycleSort_spec {ports : List SwitchportToNextGuid} {useSysGuid : Bool}
    (hfew : ports.length ≤ 0x10000) (hguid : ∀ e ∈ ports, sortGuid useSysGuid e ≠ 0) :
    ∃ ports', guidCycleSort ports useSysGuid = some ports' ∧
      (ports'.map SwitchportToNextGuid.unmarked).Perm
        (ports.map SwitchportToNextGuid.unmarked) := by
  have hclear : ((ports.map fun e => { e with sortIndex := 0 }).map
      SwitchportToNextGuid.unmarked) = ports.map SwitchportToNextGuid.unmarked := by
    rw [List.map_map]
    rfl
  unfold guidCycleSort
  split
  · exact ⟨ports, rfl, .rfl⟩
  · rename_i hlong
    simp only
    split
    · exact ⟨_, rfl, by rw [hclear]⟩
    · rename_i hruns
      have hrem := remaining_countGuids hguid
      obtain ⟨marked, hmark, horder, hsame, -, hmarks⟩ :=
        markPorts_spec ports.length 0 0 (countGuids useSysGuid ports)
          (ports.map fun e => { e with sortIndex := 0 }) (by rw [hrem, List.length_range])
          (by rw [hrem]; exact List.nodup_range)
          (fun x hx => by rw [hrem] at hx; simpa using hx) (by omega)
      have hlen : marked.length = ports.length := by
        have h := congrArg List.length hsame
        simpa using h
      have hall : Marked marked := by
        have hplaces : (markOrder ports.length 0 (countGuids useSysGuid ports)).Perm
            (List.range marked.length) := by
          rw [hlen, ← hrem]
          exact horder
        apply marked_of_order hplaces
        intro t x ht
        obtain ⟨e, he, hindex⟩ := hmarks t x ht
        have hlt : t < ports.length := by
          rw [← hlen, ← List.length_range (n := marked.length), ← hplaces.length_eq]
          exact (List.getElem?_eq_some_iff.mp ht).1
        exact ⟨e, he, by omega⟩
      obtain ⟨ports', hswap, hperm, -⟩ := swapPorts_all hall
      rw [hlen] at hswap
      refine ⟨ports', ?_, ?_⟩
      · simp only [List.length_map, hmark, Option.bind_some, hswap]
      · rw [← hclear, ← hsame]
        exact hperm.map _

theorem sortRun_perm {sort : List SwitchportToNextGuid → List SwitchportToNextGuid}
    (hsort : ∀ l, (sort l).Perm l) (s : List SwitchportToNextGuid × Nat) (i : Nat) :
    (sortRun sort s i).1.Perm s.1 := by
  unfold sortRun
  split
  · simp only
    calc s.1.take s.2 ++ sort ((s.1.drop s.2).take (i - s.2 + 1)) ++
          (s.1.drop s.2).drop (i - s.2 + 1)
        |>.Perm (s.1.take s.2 ++ (s.1.drop s.2).take (i - s.2 + 1) ++
          (s.1.drop s.2).drop (i - s.2 + 1)) := ((hsort _).append_left _).append_right _
      _ = s.1 := by rw [List.append_assoc, List.take_append_drop, List.take_append_drop]
  · exact .rfl

theorem balancePorts_spec (qsort : Qsort SwitchportToNextGuid) (load : RouteLoad) (switchp : Node)
    {ports : List SwitchportToNextGuid} (hfew : ports.length ≤ 0x10000)
    (hguid : ∀ e ∈ ports, e.guid ≠ 0) :
    ∃ ports', balancePorts qsort load switchp ports = some ports' ∧
      (ports'.map SwitchportToNextGuid.unmarked).Perm
        (ports.map SwitchportToNextGuid.unmarked) := by
  unfold balancePorts
  split
  · exact ⟨ports, rfl, .rfl⟩
  · split
    · exact ⟨_, rfl, (qsort.perm _ _).map _⟩
    · have hperm := qsort.perm (compareGuidsThenLidsRouted load switchp) ports
      obtain ⟨cycled, hcycle, hcycled⟩ :=
        @guidCycleSort_spec _ false (hperm.length_eq.trans_le hfew)
          fun e he => hguid e (hperm.mem_iff.mp he)
      have hruns : ∀ (is : List Nat) s, (is.foldl
          (sortRun (qsort.sort (compareLidsRoutedThenGuids load switchp))) s).1.Perm s.1 := by
        intro is
        induction is with
        | nil => exact fun _ => .rfl
        | cons i is ih =>
          intro s
          exact (ih _).trans (sortRun_perm (qsort.perm _) s i)
      refine ⟨_, by rw [hcycle, Option.map_some], ?_⟩
      exact ((hruns _ (cycled, 0)).map _).trans (hcycled.trans (hperm.map _))

end OpaFm.Routing
