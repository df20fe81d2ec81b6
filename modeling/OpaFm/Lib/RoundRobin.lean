import Mathlib.Data.List.Dedup
import Mathlib.Data.List.Sort
import Mathlib.Data.List.Range
import Mathlib.Order.Defs.LinearOrder

/-!
# Round-robin order

The occurrences of an entry in a list are numbered from the left.  In round-robin order the first
occurrences of all entries come first, in ascending order, then the second ones, and so on.  Any
arrangement of a list that goes through its places in this way is in round-robin order, and keeps
equal entries in their order.
-/

namespace OpaFm.Lib

section Occurrences

variable {κ : Type*} [LinearOrder κ]

def occurrence (l : List κ) (x : Nat) : Nat := (l.take x).countP fun g => l[x]? = some g

/-- A place has an earlier round than another, or the same round and a smaller entry. -/
def RoundBefore (l : List κ) (x y : Nat) : Prop :=
  occurrence l x < occurrence l y ∨
    occurrence l x = occurrence l y ∧ ∃ g h, l[x]? = some g ∧ l[y]? = some h ∧ g < h

def RoundRobin (l : List κ) : Prop := ∀ s t, s < t → t < l.length → RoundBefore l s t

theorem map_some_take {α : Type*} (l : List α) (x : Nat) (hx : x ≤ l.length) :
    (l.take x).map some = (List.range x).map fun y => l[y]? := by
  apply List.ext_getElem?
  intro i
  rw [List.getElem?_map, List.getElem?_take, List.getElem?_map]
  by_cases hi : i < x
  · have hget := List.getElem?_eq_getElem (l := l) (i := i) (by omega)
    rw [if_pos hi, List.getElem?_range hi, Option.map_some, hget]
    rfl
  · rw [if_neg hi, List.getElem?_eq_none (by simpa using hi)]
    rfl

theorem countP_map_some {α : Type*} [DecidableEq α] (l : List α) (a : Option α) :
    (l.map some).countP (fun b => b = a) = l.countP fun g => a = some g := by
  rw [List.countP_map]
  apply List.countP_congr
  intro g _
  simp only [Function.comp_apply, decide_eq_true_eq]
  exact eq_comm

theorem occurrence_eq (l : List κ) {x : Nat} (hx : x ≤ l.length) :
    occurrence l x = (List.range x).countP fun y => l[y]? = l[x]? := by
  rw [occurrence, ← countP_map_some, map_some_take l x hx, List.countP_map]
  rfl

theorem occurrence_lt {l : List κ} {x y : Nat} (hxy : x < y) (hy : y ≤ l.length)
    (heq : l[x]? = l[y]?) : occurrence l x < occurrence l y := by
  have hsucc : (List.range (x + 1)).countP (fun z => l[z]? = l[y]?) =
      (List.range x).countP (fun z => l[z]? = l[y]?) + 1 := by
    rw [List.range_succ, List.countP_append, List.countP_singleton, if_pos (decide_eq_true heq)]
  have hle : (List.range (x + 1)).countP (fun z => l[z]? = l[y]?) ≤
      (List.range y).countP fun z => l[z]? = l[y]? :=
    (List.range_sublist.mpr hxy).countP_le
  rw [occurrence_eq l (by omega), occurrence_eq l hy, heq]
  omega

theorem occurrence_eq_zero {l : List κ} {x : Nat} (hx : x ≤ l.length)
    (h : ∀ y < x, l[y]? ≠ l[x]?) : occurrence l x = 0 := by
  rw [occurrence_eq l hx, List.countP_eq_zero]
  intro y hy
  exact fun heq => h y (List.mem_range.mp hy) (of_decide_eq_true heq)

theorem RoundBefore.lt {l : List κ} {x y : Nat} (h : RoundBefore l x y) (hx : x ≤ l.length)
    (heq : l[x]? = l[y]?) : x < y := by
  rcases h with hlt | ⟨-, g, h, hg, hh, hlt⟩
  · by_contra hle
    rcases Nat.eq_or_lt_of_le (Nat.le_of_not_lt hle) with hyx | hyx
    · rw [hyx] at hlt
      exact lt_irrefl _ hlt
    · have := occurrence_lt hyx hx heq.symm
      omega
  · rw [hg, hh] at heq
    exact absurd hlt (Option.some.inj heq ▸ lt_irrefl g)

theorem two_le_count {l : List κ} {t : Nat} {g : κ} (ht : l[t]? = some g)
    (hocc : 0 < occurrence l t) : 2 ≤ l.count g := by
  obtain ⟨hlt, hget⟩ := List.getElem?_eq_some_iff.mp ht
  have hearlier : 0 < (l.take t).count g := by
    rw [List.count_eq_countP]
    refine Nat.lt_of_lt_of_le hocc (Nat.le_of_eq (List.countP_congr fun b _ => ?_))
    rw [ht, beq_iff_eq, decide_eq_true_eq, Option.some_inj]
    exact eq_comm
  have hlater : 0 < (l.drop t).count g := by
    rw [List.count_pos_iff, ← hget]
    exact List.mem_drop_iff_getElem.mpr ⟨0, by omega, by simp⟩
  have hsum : l.count g = (l.take t).count g + (l.drop t).count g := by
    rw [← List.count_append, List.take_append_drop]
  omega

theorem exists_occurrence (l : List κ) {g : κ} {k : Nat} (hk : k < l.count g) :
    ∃ t, l[t]? = some g ∧ occurrence l t = k := by
  induction l using List.reverseRecOn with
  | nil => exact absurd hk (Nat.not_lt_zero k)
  | append_singleton l a ih =>
    by_cases hold : k < l.count g
    · obtain ⟨t, ht, hocc⟩ := ih hold
      have hlt : t < l.length := (List.getElem?_eq_some_iff.mp ht).1
      have hget : (l ++ [a])[t]? = l[t]? := List.getElem?_append_left hlt
      refine ⟨t, hget.trans ht, ?_⟩
      unfold occurrence at hocc ⊢
      rw [hget, List.take_append_of_le_length (Nat.le_of_lt hlt)]
      exact hocc
    · have ha : a = g := by
        by_contra hne
        rw [List.count_append, List.count_singleton, if_neg (by simpa using hne)] at hk
        omega
      have hk' : k = l.count g := by
        rw [List.count_append, List.count_singleton] at hk
        split at hk <;> omega
      have hget : (l ++ [a])[l.length]? = some g := by
        rw [List.getElem?_append_right (Nat.le_refl _), Nat.sub_self, ha]
        rfl
      refine ⟨l.length, hget, ?_⟩
      unfold occurrence
      rw [hget, List.take_left, hk', List.count_eq_countP]
      apply List.countP_congr
      intro b _
      rw [beq_iff_eq, decide_eq_true_eq, Option.some_inj]
      exact eq_comm

end Occurrences

theorem nodup_take_dedup_iff {κ : Type*} [DecidableEq κ] (l : List κ) :
    (l.take l.dedup.length).Nodup ↔ ∀ g ∈ l, g ∈ l.take l.dedup.length := by
  have hlen : (l.take l.dedup.length).length = l.dedup.length := by
    rw [List.length_take, Nat.min_eq_left (List.dedup_sublist l).length_le]
  constructor
  · intro hnodup g hg
    have hsub : (l.take l.dedup.length).Subperm l.dedup :=
      List.subperm_of_subset hnodup fun x hx => List.mem_dedup.mpr (List.mem_of_mem_take hx)
    exact (hsub.perm_of_length_le (Nat.le_of_eq hlen.symm)).mem_iff.mpr (List.mem_dedup.mpr hg)
  · intro hall
    have hsub : l.dedup.Subperm (l.take l.dedup.length) :=
      List.subperm_of_subset (List.nodup_dedup l) fun x hx => hall x (List.mem_dedup.mp hx)
    exact (hsub.perm_of_length_le (Nat.le_of_eq hlen)).nodup_iff.mp (List.nodup_dedup l)

/-! ## Rounds -/

section Rounds

variable {κ : Type*} [LinearOrder κ] {l : List κ}

theorem RoundRobin.occurrence_le (h : RoundRobin l) {s t : Nat} (hst : s ≤ t) (ht : t < l.length) :
    occurrence l s ≤ occurrence l t := by
  rcases Nat.eq_or_lt_of_le hst with heq | hlt
  · rw [heq]
  · exact (h s t hlt ht).elim Nat.le_of_lt fun hsame => Nat.le_of_eq hsame.1

theorem RoundRobin.exists_firstRound (h : RoundRobin l) :
    ∃ k ≤ l.length, ∀ s < l.length, occurrence l s = 0 ↔ s < k := by
  have hend : ∃ k, k = l.length ∨ occurrence l k ≠ 0 := ⟨l.length, .inl rfl⟩
  refine ⟨Nat.find hend, Nat.find_min' hend (.inl rfl), fun s hs =>
    ⟨fun hzero => ?_, fun hlt => ?_⟩⟩
  · by_contra hle
    have hfirst := (Nat.find_spec hend).resolve_left (by omega)
    have := h.occurrence_le (Nat.le_of_not_lt hle) hs
    omega
  · have hmin := Nat.find_min hend hlt
    by_contra hne
    exact hmin (.inr hne)

theorem RoundRobin.firstRound (h : RoundRobin l) {s : Nat} (hs : s < l.length) :
    occurrence l s = 0 ↔ s < l.dedup.length := by
  obtain ⟨k, hk, hround⟩ := h.exists_firstRound
  have hnodup : (l.take k).Nodup := by
    rw [List.nodup_iff_injective_get]
    intro i j hij
    have hlen : (l.take k).length = k := by rw [List.length_take, Nat.min_eq_left hk]
    have hi : i.1 < k := Nat.lt_of_lt_of_eq i.2 hlen
    have hj : j.1 < k := Nat.lt_of_lt_of_eq j.2 hlen
    have heq : l[i.1]? = l[j.1]? := by
      have hget : (l.take k)[i.1]? = (l.take k)[j.1]? := by
        rw [List.getElem?_eq_getElem i.2, List.getElem?_eq_getElem j.2]
        exact congrArg some hij
      rwa [List.getElem?_take, List.getElem?_take, if_pos hi, if_pos hj] at hget
    have hzi := (hround i.1 (by omega)).mpr hi
    have hzj := (hround j.1 (by omega)).mpr hj
    apply Fin.ext
    by_contra hne
    rcases Nat.lt_or_gt_of_ne hne with hlt | hlt
    · have := occurrence_lt hlt (by omega) heq
      omega
    · have := occurrence_lt hlt (by omega) heq.symm
      omega
  have hmem : ∀ g, g ∈ l.dedup ↔ g ∈ l.take k := by
    intro g
    rw [List.mem_dedup]
    refine ⟨fun hg => ?_, List.mem_of_mem_take⟩
    obtain ⟨t, hfirst, hzero⟩ := exists_occurrence l (List.count_pos_iff.mpr hg)
    have hlt := (List.getElem?_eq_some_iff.mp hfirst).1
    have hin := (hround _ hlt).mp hzero
    exact List.mem_of_getElem? (by rw [List.getElem?_take, if_pos hin, hfirst])
  have hlen : l.dedup.length = k := by
    have hperm := (List.perm_ext_iff_of_nodup (List.nodup_dedup l) hnodup).mpr hmem
    rw [hperm.length_eq, List.length_take, Nat.min_eq_left hk]
  rw [hlen]
  exact hround s hs

theorem RoundRobin.ascending (h : RoundRobin l) {s t : Nat} (hst : s < t)
    (ht : t < l.dedup.length) (htl : t < l.length) :
    ∃ g g', l[s]? = some g ∧ l[t]? = some g' ∧ g < g' := by
  have hs := (h.firstRound (s := s) (by omega)).mpr (by omega)
  have ht' := (h.firstRound htl).mpr ht
  rcases h s t hst htl with hlt | ⟨-, hgs⟩
  · omega
  · exact hgs

theorem RoundRobin.nodup_take (h : RoundRobin l) : (l.take l.dedup.length).Nodup := by
  refine List.Pairwise.imp (fun {a b} (hlt : a < b) => ne_of_lt hlt) ?_
  rw [List.pairwise_iff_getElem]
  intro s t hs ht hst
  rw [List.length_take] at ht
  obtain ⟨g, g', hg, hg', hlt⟩ := h.ascending hst (by omega) (by omega)
  rw [List.getElem_take, List.getElem_take]
  rw [List.getElem?_eq_getElem (by omega)] at hg hg'
  rw [Option.some.inj hg, Option.some.inj hg']
  exact hlt

theorem RoundRobin.mem_firstRound (h : RoundRobin l) {g : κ} (hg : g ∈ l) :
    ∃ s < l.dedup.length, l[s]? = some g := by
  obtain ⟨t, hfirst, hzero⟩ := exists_occurrence l (List.count_pos_iff.mpr hg)
  have hlt := (List.getElem?_eq_some_iff.mp hfirst).1
  exact ⟨_, (h.firstRound hlt).mp hzero, hfirst⟩

theorem RoundRobin.of_constant (h : ∀ x y, x < l.length → y < l.length → l[x]? = l[y]?) :
    RoundRobin l :=
  fun s t hst ht => .inl (occurrence_lt hst (Nat.le_of_lt ht) (h s t (Nat.lt_trans hst ht) ht))

theorem RoundRobin.of_ascending (h : l.Pairwise (· < ·)) : RoundRobin l := by
  have hget (s t : Nat) (hst : s < t) (ht : t < l.length) :
      ∃ g g', l[s]? = some g ∧ l[t]? = some g' ∧ g < g' :=
    ⟨_, _, List.getElem?_eq_getElem (Nat.lt_trans hst ht), List.getElem?_eq_getElem ht,
      List.pairwise_iff_getElem.mp h s t _ ht hst⟩
  have hzero (t : Nat) (ht : t < l.length) : occurrence l t = 0 := by
    refine occurrence_eq_zero (Nat.le_of_lt ht) fun s hst heq => ?_
    obtain ⟨g, g', hg, hg', hlt⟩ := hget s t hst ht
    rw [hg, hg'] at heq
    exact absurd hlt (Option.some.inj heq ▸ lt_irrefl g)
  intro s t hst ht
  exact .inr ⟨(hzero s (Nat.lt_trans hst ht)).trans (hzero t ht).symm, hget s t hst ht⟩

end Rounds

/-! ## Arrangements -/

section Arranged

variable {κ : Type*} [LinearOrder κ]

/-- A list that goes through the places of another one round after round. -/
structure Arranged (l l' : List κ) (order : List Nat) : Prop where
  perm : order.Perm (List.range l.length)
  rounds : order.Pairwise (RoundBefore l)
  entries : l'.map some = order.map fun x => l[x]?

variable {l l' : List κ} {order : List Nat}

theorem Arranged.mem (h : Arranged l l' order) {x : Nat} : x ∈ order ↔ x < l.length :=
  h.perm.mem_iff.trans List.mem_range

theorem Arranged.getElem? (h : Arranged l l' order) {t x : Nat} (hx : order[t]? = some x) :
    l'[t]? = l[x]? := by
  have hlt : x < l.length := h.mem.mp (List.mem_of_getElem? hx)
  have hentry := congrArg (fun m => m[t]?) h.entries
  rw [List.getElem?_map, List.getElem?_map, hx, Option.map_some,
    List.getElem?_eq_getElem hlt] at hentry
  rw [List.getElem?_eq_getElem hlt]
  cases hl' : l'[t]? with
  | none =>
    rw [hl'] at hentry
    cases hentry
  | some g =>
    rw [hl'] at hentry
    exact Option.some.inj hentry

theorem Arranged.nodup (h : Arranged l l' order) : order.Nodup :=
  h.perm.nodup_iff.mpr List.nodup_range

theorem Arranged.length (h : Arranged l l' order) : l'.length = l.length := by
  have hlen := congrArg List.length h.entries
  rw [List.length_map, List.length_map] at hlen
  rw [hlen, h.perm.length_eq, List.length_range]

/-- The places of equal entries that have come so far are the earlier ones. -/
theorem Arranged.mem_take (h : Arranged l l' order) {t x y : Nat} (hx : order[t]? = some x)
    (heq : l[y]? = l[x]?) : y ∈ order.take t ↔ y < x := by
  have hxlt : x < l.length := h.mem.mp (List.mem_of_getElem? hx)
  obtain ⟨ht, hget⟩ := List.getElem?_eq_some_iff.mp hx
  constructor
  · intro hy
    obtain ⟨s, hs⟩ := List.mem_iff_getElem?.mp hy
    rw [List.getElem?_take] at hs
    by_cases hst : s < t
    · rw [if_pos hst] at hs
      obtain ⟨hs', hgets⟩ := List.getElem?_eq_some_iff.mp hs
      have hbefore := List.pairwise_iff_getElem.mp h.rounds s t hs' ht hst
      rw [hget, hgets] at hbefore
      exact hbefore.lt (Nat.le_of_lt (h.mem.mp (List.mem_of_getElem? hs))) heq
    · rw [if_neg hst] at hs
      cases hs
  · intro hyx
    obtain ⟨s, hs⟩ := List.mem_iff_getElem?.mp (h.mem.mpr (Nat.lt_trans hyx hxlt))
    obtain ⟨hs', hgets⟩ := List.getElem?_eq_some_iff.mp hs
    rcases Nat.lt_trichotomy s t with hst | hst | hst
    · exact List.mem_of_getElem? (by rw [List.getElem?_take, if_pos hst, hs])
    · rw [hst, hx] at hs
      exact absurd (Option.some.inj hs) (Nat.ne_of_gt hyx)
    · have hbefore := List.pairwise_iff_getElem.mp h.rounds t s ht hs' hst
      rw [hget, hgets] at hbefore
      have := hbefore.lt (Nat.le_of_lt hxlt) heq.symm
      omega

theorem Arranged.occurrence_eq (h : Arranged l l' order) {t x : Nat} (hx : order[t]? = some x) :
    occurrence l' t = occurrence l x := by
  have hxlt : x < l.length := h.mem.mp (List.mem_of_getElem? hx)
  have hplaces : ((order.take t).filter fun y => l[y]? = l[x]?).Perm
      ((List.range x).filter fun y => l[y]? = l[x]?) := by
    refine (List.perm_ext_iff_of_nodup (((List.take_sublist t order).nodup h.nodup).filter _)
      (List.nodup_range.filter _)).mpr fun y => ?_
    rw [List.mem_filter, List.mem_filter, List.mem_range, decide_eq_true_eq]
    exact and_congr_left fun heq => h.mem_take hx heq
  calc occurrence l' t = ((l'.take t).map some).countP fun b => b = l'[t]? :=
        (countP_map_some _ _).symm
    _ = ((order.take t).map fun y => l[y]?).countP fun b => b = l[x]? := by
        rw [List.map_take, h.entries, ← List.map_take, h.getElem? hx]
    _ = ((order.take t).filter fun y => l[y]? = l[x]?).length := by
        rw [List.countP_map, List.countP_eq_length_filter]
        rfl
    _ = ((List.range x).filter fun y => l[y]? = l[x]?).length := hplaces.length_eq
    _ = occurrence l x := by
        rw [Lib.occurrence_eq l (Nat.le_of_lt hxlt), List.countP_eq_length_filter]

theorem Arranged.roundRobin (h : Arranged l l' order) : RoundRobin l' := by
  intro s t hst ht
  have hlen : order.length = l'.length := by
    rw [h.length, h.perm.length_eq, List.length_range]
  have hs' : s < order.length := by omega
  have ht' : t < order.length := by omega
  have hs := List.getElem?_eq_getElem hs'
  have ht := List.getElem?_eq_getElem ht'
  have hbefore := List.pairwise_iff_getElem.mp h.rounds s t hs' ht' hst
  unfold RoundBefore at hbefore ⊢
  rw [h.occurrence_eq hs, h.occurrence_eq ht, h.getElem? hs, h.getElem? ht]
  exact hbefore

theorem Arranged.refl (h : RoundRobin l) : Arranged l l (List.range l.length) where
  perm := .rfl
  rounds := by
    rw [List.pairwise_iff_getElem]
    intro s t hs ht hst
    rw [List.getElem_range, List.getElem_range]
    exact h s t hst (by simpa using ht)
  entries := by
    have hmap := map_some_take l l.length (Nat.le_refl _)
    rwa [List.take_length] at hmap

end Arranged

theorem Arranged.filter_eq {κ α : Type*} [LinearOrder κ] {f : α → κ} {l l' : List α}
    {order : List Nat} (h : Arranged (l.map f) (l'.map f) order)
    (hentries : l'.map some = order.map fun x => l[x]?) (g : κ) :
    (l'.filter fun e => f e = g) = l.filter fun e => f e = g := by
  have hplaces : (order.filter fun x => (l.map f)[x]? = some g) =
      (List.range l.length).filter fun x => (l.map f)[x]? = some g := by
    have hperm := h.perm.filter fun x => (l.map f)[x]? = some g
    rw [List.length_map] at hperm
    refine List.Perm.eq_of_pairwise' (r := (· < ·)) ?_ ?_ hperm
    · refine (h.rounds.filter _).imp_of_mem fun {x y} hx hy hbefore => ?_
      have hx' := List.mem_filter.mp hx
      have hy' := List.mem_filter.mp hy
      exact hbefore.lt (Nat.le_of_lt (h.mem.mp hx'.1))
        ((of_decide_eq_true hx'.2).trans (of_decide_eq_true hy'.2).symm)
    · exact List.pairwise_lt_range.filter _
  have hkeep (m : List α) (places : List Nat) (hm : m.map some = places.map fun x => l[x]?) :
      (m.filter fun e => f e = g).map some =
        (places.filter fun x => (l.map f)[x]? = some g).map fun x => l[x]? := by
    have hleft : (m.filter fun e => f e = g).map some =
        (m.map some).filter fun b => b.map f = some g := by
      rw [List.filter_map]
      congr 1
      apply List.filter_congr
      intro e _
      simp
    rw [hleft, hm, List.filter_map]
    congr 1
    apply List.filter_congr
    intro x _
    simp
  have hself : l.map some = (List.range l.length).map fun x => l[x]? := by
    have := map_some_take l l.length (Nat.le_refl _)
    rwa [List.take_length] at this
  apply List.map_injective_iff.mpr (Option.some_injective α)
  rw [hkeep l' order hentries, hkeep l _ hself, hplaces]

end OpaFm.Lib
