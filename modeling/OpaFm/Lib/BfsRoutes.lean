import Mathlib.Data.List.Shortlex
import OpaFm.Lib.Bfs

/-!
# Routes in breadth-first order

A route names the neighbour that is taken at each step by its place.  `bfs` visits in the order of
the least routes: the shorter first, and of two with the same length the one that turns off first
to an earlier neighbour.
-/

namespace OpaFm.Lib

open List (Shortlex)

variable {α : Type*} {next : α → List α} {a : α}

inductive Route (next : α → List α) (a : α) : List Nat → α → Prop
  | nil : Route next a [] a
  | snoc {r : List Nat} {u x : α} {i : Nat} (h : Route next a r u) (hi : (next u)[i]? = some x) :
    Route next a (r ++ [i]) x

/-- `u` has a route that comes before every route to `w`. -/
def Before (next : α → List α) (a u w : α) : Prop :=
  ∃ r, Route next a r u ∧ ∀ r', Route next a r' w → Shortlex (· < ·) r r'

/-! ## The order of routes -/

section Order

variable {r s t : List Nat} {i j : Nat}

theorem shortlex_trans (h : Shortlex (· < ·) r s) (h' : Shortlex (· < ·) s t) :
    Shortlex (· < ·) r t := by
  rw [List.shortlex_def] at h h' ⊢
  rcases h with h | ⟨hlen, h⟩ <;> rcases h' with h' | ⟨hlen', h'⟩
  · exact .inl (by omega)
  · exact .inl (by omega)
  · exact .inl (by omega)
  · exact .inr ⟨hlen.trans hlen', List.lt_trans h h'⟩

theorem lex_snoc (h : List.Lex (· < ·) r s) (hlen : r.length = s.length) :
    List.Lex (· < ·) (r ++ [i]) (s ++ [j]) := by
  induction h with
  | nil => cases hlen
  | cons h ih => exact .cons (ih (Nat.succ.inj hlen))
  | rel h => exact .rel h

theorem shortlex_snoc (h : Shortlex (· < ·) r s) : Shortlex (· < ·) (r ++ [i]) (s ++ [j]) := by
  rw [List.shortlex_def] at h ⊢
  rw [List.length_append, List.length_append, List.length_singleton, List.length_singleton]
  rcases h with h | ⟨hlen, h⟩
  · exact .inl (by omega)
  · exact .inr ⟨by omega, lex_snoc h hlen⟩

theorem shortlex_snoc_of_lt (h : i < j) : Shortlex (· < ·) (r ++ [i]) (r ++ [j]) :=
  ((List.shortlex_singleton_iff i j).mpr h).append_left r

theorem shortlex_irrefl : ¬Shortlex (· < ·) r r := by
  intro h
  exact Std.Asymm.asymm r r h h

theorem Before.asymm {u w : α} (h : Before next a u w) : ¬Before next a w u := by
  rintro ⟨s, hs, hlater⟩
  obtain ⟨r, hr, hlater'⟩ := h
  exact shortlex_irrefl (shortlex_trans (hlater' s hs) (hlater r hr))

def RouteLe (r s : List Nat) : Prop := r = s ∨ Shortlex (· < ·) r s

theorem RouteLe.trans_lt (h : Shortlex (· < ·) r s) (h' : RouteLe s t) : Shortlex (· < ·) r t := by
  rcases h' with rfl | h'
  · exact h
  · exact shortlex_trans h h'

theorem RouteLe.trans (h : RouteLe r s) (h' : RouteLe s t) : RouteLe r t := by
  rcases h with rfl | h
  · exact h'
  · exact .inr (h'.trans_lt h)

theorem RouteLe.snoc (h : RouteLe r s) : RouteLe (r ++ [i]) (s ++ [i]) := by
  rcases h with rfl | h
  · exact .inl rfl
  · exact .inr (shortlex_snoc h)

end Order

/-! ## The least routes -/

/-- What has been found, in order and with its least route, after the places `looked` of the
found have been looked at. -/
structure Routed (next : α → List α) (a : α) (looked : List Nat × α → Nat → Prop)
    (found : List (List Nat × α)) : Prop where
  route : ∀ t ∈ found, Route next a t.1 t.2
  sorted : found.Pairwise fun s t => Shortlex (· < ·) s.1 t.1
  nodup : (found.map Prod.snd).Nodup
  closed : ∀ s i x, looked s i → (next s.2)[i]? = some x →
    ∃ t ∈ found, t.2 = x ∧ RouteLe t.1 (s.1 ++ [i])
  step : ∀ t ∈ found, t.1 = [] ∨ ∃ s i, looked s i ∧ t.1 = s.1 ++ [i]
  start : ([], a) ∈ found

variable {looked : List Nat × α → Nat → Prop} {found : List (List Nat × α)}
  {q : List Nat × α} {i : Nat} {x : α}

theorem Routed.before (h : Routed next a looked found)
    (hlooked : ∀ s j, looked s j → Shortlex (· < ·) s.1 q.1 ∨ s = q ∧ j < i) :
    ∀ t ∈ found, Shortlex (· < ·) t.1 (q.1 ++ [i]) := by
  intro t ht
  rcases h.step t ht with hnil | ⟨s, j, hs, heq⟩
  · rw [hnil]
    apply Shortlex.of_length_lt
    simp
  · rw [heq]
    rcases hlooked s j hs with hlt | ⟨rfl, hlt⟩
    · exact shortlex_snoc hlt
    · exact shortlex_snoc_of_lt hlt

theorem Routed.look_found (h : Routed next a looked found)
    (hlooked : ∀ s j, looked s j → Shortlex (· < ·) s.1 q.1 ∨ s = q ∧ j < i)
    (hx : (next q.2)[i]? = some x) (hfound : x ∈ found.map Prod.snd) :
    Routed next a (fun s j => looked s j ∨ s = q ∧ j = i) found where
  route := h.route
  sorted := h.sorted
  nodup := h.nodup
  closed s j y hs hy := by
    rcases hs with hs | ⟨rfl, rfl⟩
    · exact h.closed s j y hs hy
    · obtain rfl := Option.some.inj (hx.symm.trans hy)
      obtain ⟨t, ht, rfl⟩ := List.mem_map.mp hfound
      exact ⟨t, ht, rfl, .inr (h.before hlooked t ht)⟩
  step t ht := by
    rcases h.step t ht with hnil | ⟨s, j, hs, heq⟩
    · exact .inl hnil
    · exact .inr ⟨s, j, .inl hs, heq⟩
  start := h.start

theorem Routed.look_new (h : Routed next a looked found) (hq : q ∈ found)
    (hlooked : ∀ s j, looked s j → Shortlex (· < ·) s.1 q.1 ∨ s = q ∧ j < i)
    (hx : (next q.2)[i]? = some x) (hnew : x ∉ found.map Prod.snd) :
    Routed next a (fun s j => looked s j ∨ s = q ∧ j = i) (found ++ [(q.1 ++ [i], x)]) where
  route t ht := by
    rcases List.mem_append.mp ht with ht | ht
    · exact h.route t ht
    · obtain rfl := List.mem_singleton.mp ht
      exact (h.route q hq).snoc hx
  sorted := by
    refine List.pairwise_append.mpr ⟨h.sorted, List.pairwise_singleton _ _, ?_⟩
    intro t ht s hs
    obtain rfl := List.mem_singleton.mp hs
    exact h.before hlooked t ht
  nodup := by
    rw [List.map_append, List.map_singleton]
    exact h.nodup.append (List.nodup_singleton x) (List.disjoint_singleton.mpr hnew)
  closed s j y hs hy := by
    rcases hs with hs | ⟨rfl, rfl⟩
    · obtain ⟨t, ht, hty, hle⟩ := h.closed s j y hs hy
      exact ⟨t, List.mem_append_left _ ht, hty, hle⟩
    · exact ⟨_, List.mem_append_right _ (List.mem_singleton.mpr rfl),
        Option.some.inj (hx.symm.trans hy), .inl rfl⟩
  step t ht := by
    rcases List.mem_append.mp ht with ht | ht
    · rcases h.step t ht with hnil | ⟨s, j, hs, heq⟩
      · exact .inl hnil
      · exact .inr ⟨s, j, .inl hs, heq⟩
    · obtain rfl := List.mem_singleton.mp ht
      exact .inr ⟨q, i, .inr ⟨rfl, rfl⟩, rfl⟩
  start := List.mem_append_left _ h.start

theorem Routed.congr {looked' : List Nat × α → Nat → Prop} (h : Routed next a looked found)
    (hlooked : ∀ s i, looked s i → looked' s i)
    (hpast : ∀ s i, looked' s i → looked s i ∨ (next s.2)[i]? = none) :
    Routed next a looked' found where
  route := h.route
  sorted := h.sorted
  nodup := h.nodup
  closed s i x hs hx := by
    rcases hpast s i hs with hs | hnone
    · exact h.closed s i x hs hx
    · rw [hnone] at hx
      cases hx
  step t ht := by
    rcases h.step t ht with hnil | ⟨s, i, hs, heq⟩
    · exact .inl hnil
    · exact .inr ⟨s, i, hlooked s i hs, heq⟩
  start := h.start

theorem Routed.exists_le (h : Routed next a (fun s _ => s ∈ found) found) {r : List Nat}
    (hr : Route next a r x) : ∃ t ∈ found, t.2 = x ∧ RouteLe t.1 r := by
  induction hr with
  | nil => exact ⟨_, h.start, rfl, .inl rfl⟩
  | @snoc r u x i _ hi ih =>
    obtain ⟨s, hs, rfl, hle⟩ := ih
    obtain ⟨t, ht, htx, hle'⟩ := h.closed s i x hs hi
    exact ⟨t, ht, htx, hle'.trans hle.snoc⟩

variable [DecidableEq α]

/-- The places of `q` from the `k`-th on, where those of `done` have been looked at before. -/
theorem Routed.foldl {done queue : List (List Nat × α)} (hdone : ∀ s ∈ done, Shortlex (· < ·) s.1 q.1)
    {earlier rest : List α} (hsplit : next q.2 = earlier ++ rest)
    (h : Routed next a (fun s j => s ∈ done ∨ s = q ∧ j < earlier.length)
      ((done ++ [q]) ++ queue)) :
    ∃ queue' : List (List Nat × α),
      queue'.map Prod.snd =
        rest.foldl (enqueueNew ((done ++ [q]).map Prod.snd)) (queue.map Prod.snd) ∧
      Routed next a (fun s j => s ∈ done ∨ s = q ∧ j < (next q.2).length)
        ((done ++ [q]) ++ queue') := by
  induction rest generalizing earlier queue with
  | nil =>
    rw [List.append_nil] at hsplit
    exact ⟨queue, rfl, by rw [hsplit]; exact h⟩
  | cons x rest ih =>
    have hx : (next q.2)[earlier.length]? = some x := by
      rw [hsplit, List.getElem?_append_right (Nat.le_refl _), Nat.sub_self, List.getElem?_cons_zero]
    have hlooked : ∀ s j, (s ∈ done ∨ s = q ∧ j < earlier.length) →
        Shortlex (· < ·) s.1 q.1 ∨ s = q ∧ j < earlier.length :=
      fun s j hs => hs.imp_left (hdone s)
    have hnext : ∀ s j, ((s ∈ done ∨ s = q ∧ j < earlier.length) ∨ s = q ∧ j = earlier.length) ↔
        (s ∈ done ∨ s = q ∧ j < (earlier ++ [x]).length) := by
      intro s j
      rw [List.length_append, List.length_singleton, Nat.lt_succ_iff_lt_or_eq, and_or_left, or_assoc]
    have hsplit' : next q.2 = (earlier ++ [x]) ++ rest := by
      rw [hsplit, List.append_assoc, List.singleton_append]
    rw [List.foldl_cons]
    by_cases hin : x ∈ ((done ++ [q]) ++ queue).map Prod.snd
    · have hstep := (h.look_found hlooked hx hin).congr (fun s j hs => (hnext s j).mp hs)
        fun s j hs => .inl ((hnext s j).mpr hs)
      have henqueue : enqueueNew ((done ++ [q]).map Prod.snd) (queue.map Prod.snd) x =
          queue.map Prod.snd := by
        unfold enqueueNew
        rw [List.map_append, List.mem_append] at hin
        rw [if_pos hin]
      rw [henqueue]
      exact ih hsplit' hstep
    · have hq : q ∈ (done ++ [q]) ++ queue := by simp
      have hstep := (h.look_new hq hlooked hx hin).congr (fun s j hs => (hnext s j).mp hs)
        fun s j hs => .inl ((hnext s j).mpr hs)
      have henqueue : enqueueNew ((done ++ [q]).map Prod.snd) (queue.map Prod.snd) x =
          (queue ++ [(q.1 ++ [earlier.length], x)]).map Prod.snd := by
        unfold enqueueNew
        rw [List.map_append, List.mem_append] at hin
        rw [if_neg hin, List.map_append, List.map_singleton]
      rw [henqueue]
      rw [List.append_assoc] at hstep
      exact ih hsplit' hstep

theorem Routed.bfs {fuel : Nat} {done queue : List (List Nat × α)} {order : List α}
    (h : Routed next a (fun s _ => s ∈ done) (done ++ queue))
    (hrun : Lib.bfs next fuel (queue.map Prod.snd) (done.map Prod.snd) = some order) :
    ∃ found : List (List Nat × α), found.map Prod.snd = order ∧
      Routed next a (fun s _ => s ∈ found) found := by
  induction fuel generalizing done queue with
  | zero =>
    cases queue with
    | nil =>
      rw [List.append_nil] at h
      exact ⟨done, Option.some.inj hrun, h⟩
    | cons q queue => cases hrun
  | succ fuel ih =>
    cases queue with
    | nil =>
      rw [List.append_nil] at h
      exact ⟨done, Option.some.inj hrun, h⟩
    | cons q queue =>
      have hdone : ∀ s ∈ done, Shortlex (· < ·) s.1 q.1 := fun s hs =>
        (List.pairwise_append.mp h.sorted).2.2 s hs q List.mem_cons_self
      have hstart : Routed next a (fun s j => s ∈ done ∨ s = q ∧ j < ([] : List α).length)
          ((done ++ [q]) ++ queue) := by
        rw [List.append_assoc, List.singleton_append]
        refine h.congr (fun s j hs => .inl hs) fun s j hs => .inl ?_
        exact hs.resolve_right fun hlt => Nat.not_lt_zero _ hlt.2
      obtain ⟨queue', hqueue, hrest⟩ := Routed.foldl hdone (List.nil_append _).symm hstart
      have hall : Routed next a (fun s _ => s ∈ done ++ [q]) ((done ++ [q]) ++ queue') := by
        apply hrest.congr
        · rintro s j (hs | ⟨rfl, _⟩)
          · exact List.mem_append_left _ hs
          · exact List.mem_append_right _ (List.mem_singleton.mpr rfl)
        · intro s j hs
          rcases List.mem_append.mp hs with hs | hs
          · exact .inl (.inl hs)
          · obtain rfl := List.mem_singleton.mp hs
            rcases Nat.lt_or_ge j (next s.2).length with hlt | hge
            · exact .inl (.inr ⟨rfl, hlt⟩)
            · exact .inr (List.getElem?_eq_none hge)
      apply ih hall
      rw [hqueue, List.map_append, List.map_singleton]
      exact hrun

theorem exists_routed {fuel : Nat} {order : List α} (h : bfs next fuel [a] [] = some order) :
    ∃ found : List (List Nat × α), found.map Prod.snd = order ∧
      Routed next a (fun s _ => s ∈ found) found := by
  have hstart : Routed next a (fun s _ => s ∈ ([] : List (List Nat × α))) ([] ++ [([], a)]) := by
    constructor
    · intro t ht
      obtain rfl := List.mem_singleton.mp ht
      exact .nil
    · exact List.pairwise_singleton _ _
    · exact List.nodup_singleton _
    · intro s i x hs
      cases hs
    · intro t ht
      obtain rfl := List.mem_singleton.mp ht
      exact .inl rfl
    · exact List.mem_singleton.mpr rfl
  exact hstart.bfs h

theorem mem_bfs_iff {fuel : Nat} {order : List α} (h : bfs next fuel [a] [] = some order) :
    x ∈ order ↔ ∃ r, Route next a r x := by
  obtain ⟨found, rfl, hrouted⟩ := exists_routed h
  constructor
  · intro hx
    obtain ⟨t, ht, rfl⟩ := List.mem_map.mp hx
    exact ⟨t.1, hrouted.route t ht⟩
  · rintro ⟨r, hr⟩
    obtain ⟨t, ht, rfl, _⟩ := hrouted.exists_le hr
    exact List.mem_map_of_mem ht

theorem pairwise_bfs {fuel : Nat} {order : List α} (h : bfs next fuel [a] [] = some order) :
    order.Pairwise (Before next a) := by
  obtain ⟨found, rfl, hrouted⟩ := exists_routed h
  rw [List.pairwise_map]
  refine hrouted.sorted.imp_of_mem ?_
  intro s t hs ht hlt
  refine ⟨s.1, hrouted.route s hs, fun r hr => ?_⟩
  obtain ⟨t', ht', hsame, hle⟩ := hrouted.exists_le hr
  obtain rfl := List.inj_on_of_nodup_map hrouted.nodup ht' ht hsame
  exact hle.trans_lt hlt

end OpaFm.Lib
