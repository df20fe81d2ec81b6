import Mathlib.Data.List.Basic
import Mathlib.Data.Fintype.Pigeonhole
import Mathlib.Logic.Relation

/-!
# Loops over an iterator

`for (init; !done; next)` collects what the iterator shows at each round.  The states of an
iterator are given by a number that counts up, and `next` either takes the following number or
searches for the next one with a property.
-/

namespace OpaFm.Lib

section

variable {σ β : Type*} {done : σ → Bool} {next : σ → Option σ} {out : σ → β}

/-- The loop, for as many rounds as there is fuel.  A step that does not come back is `none`. -/
def collect (done : σ → Bool) (next : σ → Option σ) (out : σ → β) : Nat → σ → Option (List β)
  | 0, _ => none
  | fuel + 1, s =>
    if done s then some []
    else (next s).bind fun s' => (collect done next out fuel s').map (out s :: ·)

/-- The loop from `s` ends and has shown `l`. -/
def Yields (done : σ → Bool) (next : σ → Option σ) (out : σ → β) (s : σ) (l : List β) : Prop :=
  ∃ fuel, collect done next out fuel s = some l

theorem Yields.of_done {s : σ} (h : done s = true) : Yields done next out s [] :=
  ⟨1, by simp [collect, h]⟩

theorem Yields.cons {s s' : σ} {l : List β} (hdone : done s = false) (hnext : next s = some s')
    (h : Yields done next out s' l) : Yields done next out s (out s :: l) := by
  obtain ⟨fuel, hfuel⟩ := h
  exact ⟨fuel + 1, by simp [collect, hdone, hnext, hfuel]⟩

theorem collect_mono {fuel fuel' : Nat} (hle : fuel ≤ fuel') {s : σ} {l : List β}
    (h : collect done next out fuel s = some l) : collect done next out fuel' s = some l := by
  induction fuel generalizing fuel' s l with
  | zero => cases h
  | succ fuel ih =>
    cases fuel' with
    | zero => omega
    | succ fuel' =>
      rw [collect] at h ⊢
      by_cases hdone : done s = true
      · rw [if_pos hdone] at h ⊢
        exact h
      · rw [if_neg hdone] at h ⊢
        cases hnext : next s with
        | none => simp [hnext] at h
        | some s' =>
          rw [hnext, Option.bind_some, Option.map_eq_some_iff] at h
          obtain ⟨l', hl', rfl⟩ := h
          rw [Option.bind_some, ih (by omega) hl', Option.map_some]

theorem collect_congr {τ : Type*} {done' : τ → Bool} {next' : τ → Option τ} {out' : τ → β}
    {R : σ → τ → Prop} (hdone : ∀ s t, R s t → done s = done' t)
    (hout : ∀ s t, R s t → out s = out' t)
    (hnext : ∀ s t, R s t → Option.Rel R (next s) (next' t)) (fuel : Nat) {s : σ} {t : τ}
    (h : R s t) : collect done next out fuel s = collect done' next' out' fuel t := by
  induction fuel generalizing s t with
  | zero => rfl
  | succ fuel ih =>
    rw [collect, collect, hdone s t h, hout s t h]
    have hstep := hnext s t h
    generalize next s = s' at hstep ⊢
    generalize next' t = t' at hstep ⊢
    cases hstep with
    | none => rfl
    | some hst => simp only [Option.bind_some, ih hst]

/-- An iterator that counts up to `n` and stops after the last number. -/
theorem Yields.count {f : Nat → σ} {stop : Nat → σ} {n : Nat} {l : List β}
    (hdone : ∀ i < n, done (f i) = false)
    (hnext : ∀ i < n, next (f i) = some (if i + 1 < n then f (i + 1) else stop i))
    (hend : ∀ i < n, Yields done next out (stop i) l) {i : Nat} (hi : i < n) :
    Yields done next out (f i) ((List.range' i (n - i)).map (fun i => out (f i)) ++ l) := by
  induction hm : n - (i + 1) generalizing i with
  | zero =>
    have hlast : ¬i + 1 < n := by omega
    rw [show n - i = 1 by omega]
    apply Yields.cons (hdone i hi) (hnext i hi)
    rw [if_neg hlast]
    exact hend i hi
  | succ m ih =>
    have hmore : i + 1 < n := by omega
    rw [show n - i = n - (i + 1) + 1 by omega, List.range'_succ, List.map_cons, List.cons_append]
    apply Yields.cons (hdone i hi) (hnext i hi)
    rw [if_pos hmore]
    exact ih hmore (by omega)

theorem Yields.count_zero {f : Nat → σ} {stop : Nat → σ} {n : Nat} {l : List β}
    (hdone : ∀ i < n, done (f i) = false)
    (hnext : ∀ i < n, next (f i) = some (if i + 1 < n then f (i + 1) else stop i))
    (hend : ∀ i < n, Yields done next out (stop i) l) (hn : 0 < n) :
    Yields done next out (f 0) ((List.range n).map (fun i => out (f i)) ++ l) := by
  rw [List.range_eq_range']
  exact Yields.count hdone hnext hend hn

/-- The state at the first number from `k` on, below `n`, that passes the test. -/
def seek (f : Nat → σ) (stop : σ) (test : Nat → Bool) (n k : Nat) : σ :=
  match (List.range' k (n - k)).find? test with
  | some k' => f k'
  | none => stop

theorem seek_self {f : Nat → σ} {stop : σ} {test : Nat → Bool} {n k : Nat} (hk : k < n)
    (h : test k = true) : seek f stop test n k = f k := by
  rw [seek, show n - k = (n - (k + 1)) + 1 by omega, List.range'_succ]
  simp [h]

theorem seek_succ {f : Nat → σ} {stop : σ} {test : Nat → Bool} {n k : Nat} (hk : k < n)
    (h : test k = false) : seek f stop test n k = seek f stop test n (k + 1) := by
  rw [seek, show n - k = (n - (k + 1)) + 1 by omega, List.range'_succ,
    List.find?_cons_of_neg (by simp [h]), seek]

theorem seek_end {f : Nat → σ} {stop : σ} {test : Nat → Bool} {n k : Nat} (hk : n ≤ k) :
    seek f stop test n k = stop := by
  rw [seek, Nat.sub_eq_zero_of_le hk]
  rfl

theorem map_seek {τ : Type*} (g : σ → τ) (f : Nat → σ) (stop : σ) (test : Nat → Bool)
    (n k : Nat) : g (seek f stop test n k) = seek (fun i => g (f i)) (g stop) test n k := by
  unfold seek
  split <;> rfl

/-- An iterator whose steps search for the next number that passes the test.  It may stop in
different states. -/
theorem Yields.search {f : Nat → σ} {stop : Nat → σ} {test : Nat → Bool} {n : Nat} {l : List β}
    (hdone : ∀ k < n, done (f k) = false)
    (hnext : ∀ k < n, next (f k) = some (seek f (stop k) test n (k + 1)))
    (hend : ∀ k < n, Yields done next out (stop k) l) (k : Nat) {s : σ}
    (hs : Yields done next out s l) :
    Yields done next out (seek f s test n k)
      (((List.range' k (n - k)).filter test).map (fun i => out (f i)) ++ l) := by
  induction hm : n - k generalizing k s with
  | zero =>
    rw [seek_end (by omega)]
    exact hs
  | succ m ih =>
    have hk : k < n := by omega
    rw [List.range'_succ]
    cases htest : test k with
    | true =>
      rw [seek_self hk htest, List.filter_cons_of_pos htest, List.map_cons, List.cons_append]
      exact Yields.cons (hdone k hk) (hnext k hk) (ih (k + 1) (hend k hk) (by omega))
    | false =>
      rw [seek_succ hk htest, List.filter_cons_of_neg (by simp [htest])]
      exact ih (k + 1) hs (by omega)

end

/-!
## Walks with one way on

A walk that knows at every place at most one place to go on to.  On finitely many places it ends
if and only if it does not get into a cycle.
-/

open Relation

variable {α : Type*} {next : α → Option α} {a b c : α}

def orbit (next : α → Option α) : Nat → α → Option α
  | 0, a => some a
  | n + 1, a => (next a).bind (orbit next n)

def Ends (next : α → Option α) (a : α) : Prop := ∃ n, orbit next n a = none

def Leads (next : α → Option α) (a b : α) : Prop := next a = some b

/-- The walk from `a` comes to a place that it comes back to. -/
def Cycles (next : α → Option α) (a : α) : Prop :=
  ∃ b, ReflTransGen (Leads next) a b ∧ TransGen (Leads next) b b

theorem orbit_add (m n : Nat) (a : α) :
    orbit next (m + n) a = (orbit next m a).bind (orbit next n) := by
  induction m generalizing a with
  | zero => simp [orbit]
  | succ m ih =>
    rw [Nat.succ_add, orbit, orbit]
    cases next a with
    | none => rfl
    | some b => exact ih b

theorem orbit_succ_eq_some {n : Nat} :
    orbit next (n + 1) a = some b ↔ ∃ c, orbit next n a = some c ∧ Leads next c b := by
  rw [orbit_add, Option.bind_eq_some_iff]
  simp [orbit, Leads]

theorem reflTransGen_iff_orbit :
    ReflTransGen (Leads next) a b ↔ ∃ n, orbit next n a = some b := by
  constructor
  · intro h
    induction h with
    | refl => exact ⟨0, rfl⟩
    | tail _ hlast ih =>
      obtain ⟨n, hn⟩ := ih
      exact ⟨n + 1, orbit_succ_eq_some.mpr ⟨_, hn, hlast⟩⟩
  · rintro ⟨n, hn⟩
    induction n generalizing b with
    | zero =>
      cases hn
      exact .refl
    | succ n ih =>
      obtain ⟨c, hc, hlast⟩ := orbit_succ_eq_some.mp hn
      exact (ih hc).tail hlast

theorem transGen_iff_orbit :
    TransGen (Leads next) a b ↔ ∃ n, orbit next (n + 1) a = some b := by
  rw [TransGen.tail'_iff]
  constructor
  · rintro ⟨c, hc, hlast⟩
    obtain ⟨n, hn⟩ := reflTransGen_iff_orbit.mp hc
    exact ⟨n, orbit_succ_eq_some.mpr ⟨c, hn, hlast⟩⟩
  · rintro ⟨n, hn⟩
    obtain ⟨c, hc, hlast⟩ := orbit_succ_eq_some.mp hn
    exact ⟨c, reflTransGen_iff_orbit.mpr ⟨n, hc⟩, hlast⟩

theorem orbit_none_mono {m n : Nat} (hle : m ≤ n) (h : orbit next m a = none) :
    orbit next n a = none := by
  rw [← Nat.add_sub_cancel' hle, orbit_add, h, Option.bind_none]

theorem not_ends_of_cycles (h : Cycles next a) : ¬Ends next a := by
  obtain ⟨b, hab, hbb⟩ := h
  obtain ⟨m, hm⟩ := reflTransGen_iff_orbit.mp hab
  obtain ⟨k, hk⟩ := transGen_iff_orbit.mp hbb
  have hround : ∀ r, orbit next (m + r * (k + 1)) a = some b := by
    intro r
    induction r with
    | zero => rw [Nat.zero_mul, Nat.add_zero, hm]
    | succ r ih => rw [Nat.succ_mul, ← Nat.add_assoc, orbit_add, ih, Option.bind_some, hk]
  rintro ⟨n, hn⟩
  have hle : n ≤ m + n * (k + 1) := by
    rw [Nat.mul_succ]
    omega
  have hnone := orbit_none_mono hle hn
  rw [hround] at hnone
  cases hnone

theorem ends_or_cycles {s : Set α} (hfinite : s.Finite) (ha : a ∈ s)
    (hclosed : ∀ b ∈ s, ∀ c, Leads next b c → c ∈ s) : Ends next a ∨ Cycles next a := by
  by_contra hneither
  rw [not_or] at hneither
  obtain ⟨hgoes, hcycle⟩ := hneither
  have hin : ∀ n, ∃ b ∈ s, orbit next n a = some b := by
    intro n
    induction n with
    | zero => exact ⟨a, ha, rfl⟩
    | succ n ih =>
      obtain ⟨b, hb, hn⟩ := ih
      cases hnext : orbit next (n + 1) a with
      | none => exact absurd ⟨n + 1, hnext⟩ hgoes
      | some c =>
        obtain ⟨b', hb', hlast⟩ := orbit_succ_eq_some.mp hnext
        rw [hn, Option.some.injEq] at hb'
        exact ⟨c, hclosed b hb c (hb' ▸ hlast), rfl⟩
  choose place hmem hplace using hin
  have := hfinite.to_subtype
  obtain ⟨m, n, hne, heq⟩ :=
    Finite.exists_ne_map_eq_of_infinite (fun n => (⟨place n, hmem n⟩ : s))
  have hback : ∀ m n, m < n → place m = place n → Cycles next a := by
    intro m n hlt heq
    apply Exists.intro (place m)
    constructor
    · exact reflTransGen_iff_orbit.mpr ⟨m, hplace m⟩
    · apply transGen_iff_orbit.mpr
      apply Exists.intro (n - m - 1)
      have hn := hplace n
      rw [← Nat.add_sub_cancel' (Nat.le_of_lt hlt), orbit_add, hplace m, Option.bind_some] at hn
      rw [show n - m - 1 + 1 = n - m by omega, hn, Nat.add_sub_cancel' (Nat.le_of_lt hlt), heq]
  have hplaces : place m = place n := congrArg Subtype.val heq
  rcases Nat.lt_or_gt_of_ne hne with hlt | hlt
  · exact hcycle (hback m n hlt hplaces)
  · exact hcycle (hback n m hlt hplaces.symm)

theorem ends_iff_not_cycles {s : Set α} (hfinite : s.Finite) (ha : a ∈ s)
    (hclosed : ∀ b ∈ s, ∀ c, Leads next b c → c ∈ s) : Ends next a ↔ ¬Cycles next a := by
  constructor
  · intro hends hcycle
    exact not_ends_of_cycles hcycle hends
  · intro hcycle
    exact (ends_or_cycles hfinite ha hclosed).resolve_right hcycle

end OpaFm.Lib
