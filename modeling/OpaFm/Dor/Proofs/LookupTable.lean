import OpaFm.Dor.Lft

/-!
# Indices of switches are places

The index of a switch is the place of its coordinates in the box of all coordinates, with negative
coordinates counted from the end of their dimension.
-/

namespace OpaFm.Dor

open OpaFm.Lib

/-! ## Coordinates -/

def digit (length coord : BitVec 8) : Nat :=
  (if coord.toInt ≥ 0 then coord.toInt else length.toNat + coord.toInt).toNat

/-- A coordinate of a dimension, counted from its start or from its end. -/
def Foldable (length coord : BitVec 8) : Prop :=
  -(length.toNat : Int) ≤ coord.toInt ∧ coord.toInt < length.toNat

def Within (length coord : BitVec 8) : Prop := 0 ≤ coord.toInt ∧ coord.toInt < length.toNat

theorem Within.foldable {length coord : BitVec 8} (h : Within length coord) :
    Foldable length coord := by
  unfold Within at h
  unfold Foldable
  omega

theorem natCast_digit {length coord : BitVec 8} (h : Foldable length coord) :
    (digit length coord : Int) =
      if coord.toInt ≥ 0 then coord.toInt else length.toNat + coord.toInt := by
  unfold digit
  unfold Foldable at h
  apply Int.toNat_of_nonneg
  split <;> omega

theorem digit_lt {length coord : BitVec 8} (h : Foldable length coord) :
    digit length coord < length.toNat := by
  have hcast := natCast_digit h
  unfold Foldable at h
  split at hcast <;> omega

theorem remapCoord_eq {length coord : BitVec 8} (h : Foldable length coord) :
    remapCoord length coord = BitVec.ofNat 32 (digit length coord) := by
  unfold remapCoord
  rw [← natCast_digit h, BitVec.ofInt_natCast]

theorem setWidth_eq_ofNat (length : BitVec 8) :
    length.setWidth 32 = BitVec.ofNat 32 length.toNat := by
  apply BitVec.eq_of_toNat_eq
  rw [BitVec.toNat_setWidth, BitVec.toNat_ofNat]

def lengthsOf (lengths : List (BitVec 8)) : List Nat := lengths.map BitVec.toNat

def digitsOf (lengths coords : List (BitVec 8)) : List Nat := List.zipWith digit lengths coords

theorem lookupFrom_eq {lengths coords : List (BitVec 8)}
    (h : List.Forall₂ Foldable lengths coords) :
    ∀ {length coord : BitVec 8} (s : Nat), Foldable length coord →
      lookupFrom (length :: lengths) (coord :: coords) (BitVec.ofNat 32 s) =
        BitVec.ofNat 32 (s * boxVolume (lengthsOf lengths) +
          boxPlace (lengthsOf (length :: lengths))
            (digitsOf (length :: lengths) (coord :: coords))) := by
  induction h with
  | nil =>
    intro length coord s hcoord
    show BitVec.ofNat 32 s + remapCoord length coord =
      BitVec.ofNat 32 (s * 1 + (digit length coord * 1 + 0))
    rw [remapCoord_eq hcoord, ← BitVec.ofNat_add, Nat.mul_one, Nat.mul_one, Nat.add_zero]
  | @cons next coord' lengths coords hnext _ ih =>
    intro length coord s hcoord
    have hstep : (BitVec.ofNat 32 s + remapCoord length coord) * next.setWidth 32 =
        BitVec.ofNat 32 ((s + digit length coord) * next.toNat) := by
      rw [remapCoord_eq hcoord, setWidth_eq_ofNat, ← BitVec.ofNat_add, ← BitVec.ofNat_mul]
    show lookupFrom (next :: lengths) (coord' :: coords)
      ((BitVec.ofNat 32 s + remapCoord length coord) * next.setWidth 32) = _
    rw [hstep, ih _ hnext]
    apply congrArg
    show (s + digit length coord) * next.toNat * boxVolume (lengthsOf lengths) + _ =
      s * (next.toNat * boxVolume (lengthsOf lengths)) +
        (digit length coord * (next.toNat * boxVolume (lengthsOf lengths)) + _)
    rw [Nat.mul_assoc, Nat.add_mul, Nat.add_assoc]
    rfl

theorem lookupIndex_eq {lengths coords : List (BitVec 8)}
    (h : List.Forall₂ Foldable lengths coords) :
    lookupIndex lengths coords =
      BitVec.ofNat 32 (boxPlace (lengthsOf lengths) (digitsOf lengths coords)) := by
  cases h with
  | nil => rfl
  | cons hcoord htail =>
    have h := lookupFrom_eq htail 0 hcoord
    rw [Nat.zero_mul, Nat.zero_add] at h
    exact h

theorem digitsOf_inBox {lengths coords : List (BitVec 8)}
    (h : List.Forall₂ Foldable lengths coords) :
    InBox (lengthsOf lengths) (digitsOf lengths coords) := by
  induction h with
  | nil => exact .nil
  | cons hcoord _ ih => exact .cons (digit_lt hcoord) ih

theorem laterLengths_eq (lengths : List (BitVec 8)) :
    laterLengths lengths = boxVolume (lengthsOf lengths) := by
  have hfold : ∀ s : Int, lengths.foldl (fun (s : Int) length => s * length.toNat) s =
      s * boxVolume (lengthsOf lengths) := by
    induction lengths with
    | nil =>
      intro s
      exact (Int.mul_one s).symm
    | cons l lengths ih =>
      intro s
      show lengths.foldl _ (s * l.toNat) =
        s * ((l.toNat * boxVolume (lengthsOf lengths) : Nat) : Int)
      rw [ih, Int.natCast_mul, Int.mul_assoc]
  unfold laterLengths
  rw [hfold, Int.one_mul]

theorem coordsFrom_eq (lengths : List (BitVec 8)) : ∀ (i k : Nat),
    i + lengths.length ≤ smDorMaxDimensions →
      coordsFrom i lengths k =
        (boxPoint (lengthsOf lengths) k).map fun c : Nat => BitVec.ofInt 8 c := by
  induction lengths with
  | nil => exact fun _ _ _ => rfl
  | cons l lengths ih =>
    intro i k hfew
    rw [List.length_cons] at hfew
    have hwhole : lengths.take (smDorMaxDimensions - (i + 1)) = lengths :=
      List.take_of_length_le (by omega)
    unfold coordsFrom
    dsimp only
    rw [hwhole, laterLengths_eq, ← Int.ofNat_tdiv, ← Int.ofNat_tmod, ih _ _ (by omega)]
    rfl

theorem digit_eq_iff {length c c' : BitVec 8} (h : Foldable length c) (h' : Foldable length c') :
    digit length c = digit length c' ↔ (length.toNat : Int) ∣ c.toInt - c'.toInt := by
  have hcast := natCast_digit h
  have hcast' := natCast_digit h'
  have hlt := digit_lt h
  have hlt' := digit_lt h'
  have hturns : ∃ k : Int, c.toInt - c'.toInt =
      (digit length c : Int) - digit length c' + length.toNat * k := by
    split at hcast <;> split at hcast'
    · exact ⟨0, by omega⟩
    · exact ⟨1, by omega⟩
    · exact ⟨-1, by omega⟩
    · exact ⟨0, by omega⟩
  obtain ⟨k, hk⟩ := hturns
  rw [hk, Int.dvd_add_left (Int.dvd_mul_right _ _)]
  constructor
  · intro heq
    rw [heq, Int.sub_self]
    exact Int.dvd_zero _
  · intro hdvd
    have hzero := Int.eq_zero_of_abs_lt_dvd hdvd (by rw [abs_lt]; omega)
    omega

def SameModulo (lengths coords coords' : List (BitVec 8)) : Prop :=
  ∀ (i : Nat) (l c c' : BitVec 8), lengths[i]? = some l → coords[i]? = some c →
    coords'[i]? = some c' → (l.toNat : Int) ∣ c.toInt - c'.toInt

theorem digitsOf_eq_iff {lengths coords coords' : List (BitVec 8)}
    (h : List.Forall₂ Foldable lengths coords) (h' : List.Forall₂ Foldable lengths coords') :
    digitsOf lengths coords = digitsOf lengths coords' ↔ SameModulo lengths coords coords' := by
  induction h generalizing coords' with
  | nil =>
    cases h'
    exact ⟨fun _ i l c c' hl => by simp at hl, fun _ => rfl⟩
  | @cons l c lengths coords hc _ ih =>
    cases h' with
    | @cons _ c' _ coords' hc' htail' =>
      have hsplit : digitsOf (l :: lengths) (c :: coords) =
            digitsOf (l :: lengths) (c' :: coords') ↔
          digit l c = digit l c' ∧ digitsOf lengths coords = digitsOf lengths coords' :=
        List.cons_eq_cons
      rw [hsplit, ih htail', digit_eq_iff hc hc']
      constructor
      · rintro ⟨hhead, hrest⟩ i k d d' hk hd hd'
        cases i with
        | zero =>
          obtain rfl := Option.some.inj hk
          obtain rfl := Option.some.inj hd
          obtain rfl := Option.some.inj hd'
          exact hhead
        | succ i => exact hrest i k d d' hk hd hd'
      · intro hall
        exact ⟨hall 0 l c c' rfl rfl rfl, fun i => hall (i + 1)⟩

theorem toInt_sub_length {l c : BitVec 8} (h : Within l c) (hshort : l.toNat ≤ 127) :
    (c - l).toInt = c.toInt - l.toNat := by
  unfold Within at h
  have hl : l.toInt = l.toNat := BitVec.toInt_eq_toNat_of_lt (by omega)
  rw [BitVec.toInt_sub, hl]
  apply Int.bmod_eq_of_le <;> omega

theorem digitsOf_set {lengths coords : List (BitVec 8)} (h : List.Forall₂ Within lengths coords)
    (hshort : ∀ l ∈ lengths, l.toNat ≤ 127) : ∀ {i : Nat} {l c : BitVec 8},
      lengths[i]? = some l → coords[i]? = some c →
        List.Forall₂ Foldable lengths (coords.set i (c - l)) ∧
          digitsOf lengths (coords.set i (c - l)) = digitsOf lengths coords := by
  induction h with
  | nil => exact fun hl => by simp at hl
  | @cons k d lengths coords hd htail ih =>
    intro i l c hl hc
    have hshort' : ∀ l ∈ lengths, l.toNat ≤ 127 := fun j hj =>
      hshort j (List.mem_cons_of_mem k hj)
    cases i with
    | zero =>
      obtain rfl := Option.some.inj hl
      obtain rfl := Option.some.inj hc
      have hint := toInt_sub_length hd (hshort k List.mem_cons_self)
      have hfold : Foldable k (d - k) := by
        unfold Within at hd
        unfold Foldable
        omega
      have hdigit : digit k (d - k) = digit k d := by
        rw [digit_eq_iff hfold hd.foldable, hint]
        exact ⟨-1, by omega⟩
      refine ⟨.cons hfold (htail.imp fun _ _ => Within.foldable), ?_⟩
      show digit k (d - k) :: digitsOf lengths coords = digit k d :: digitsOf lengths coords
      rw [hdigit]
    | succ i =>
      obtain ⟨hfold, hdigits⟩ := ih hshort' hl hc
      refine ⟨.cons hd.foldable hfold, ?_⟩
      show digit k d :: digitsOf lengths (coords.set i (c - l)) =
        digit k d :: digitsOf lengths coords
      rw [hdigits]

namespace DorLengths

variable (L : DorLengths)

abbrev lengths : List Nat := lengthsOf L.dimensionLength

theorem lengths_pos : ∀ l ∈ L.lengths, 0 < l := by
  intro l hl
  obtain ⟨b, hb, rfl⟩ := List.mem_map.mp hl
  exact (L.bounds b hb).1

variable {L} {coords coords' : List (BitVec 8)}

theorem toNat_lookupIndex (h : List.Forall₂ Foldable L.dimensionLength coords) :
    (lookupIndex L.dimensionLength coords).toNat =
      boxPlace L.lengths (digitsOf L.dimensionLength coords) := by
  have hlt : boxPlace L.lengths (digitsOf L.dimensionLength coords) < boxVolume L.lengths :=
    boxPlace_lt (digitsOf_inBox h)
  have hsmall : boxVolume L.lengths < 0x80000000 := L.small
  rw [lookupIndex_eq h, BitVec.toNat_ofNat]
  exact Nat.mod_eq_of_lt (hlt.trans (hsmall.trans (by decide)))

theorem lookupIndex_eq_iff (h : List.Forall₂ Foldable L.dimensionLength coords)
    (h' : List.Forall₂ Foldable L.dimensionLength coords') :
    lookupIndex L.dimensionLength coords = lookupIndex L.dimensionLength coords' ↔
      SameModulo L.dimensionLength coords coords' := by
  rw [← digitsOf_eq_iff h h', ← BitVec.toNat_inj, toNat_lookupIndex h, toNat_lookupIndex h']
  exact ⟨boxPlace_inj (digitsOf_inBox h) (digitsOf_inBox h'), congrArg _⟩

theorem coordsFromIndex_eq (k : Nat) :
    coordsFromIndex L.dimensionLength k =
      (boxPoint L.lengths k).map fun c : Nat => BitVec.ofInt 8 c :=
  coordsFrom_eq L.dimensionLength 0 k (by rw [Nat.zero_add]; exact L.few)

theorem within_of_inBox {lengths : List (BitVec 8)} (hshort : ∀ l ∈ lengths, l.toNat ≤ 127) :
    ∀ {point : List Nat}, InBox (lengthsOf lengths) point →
      List.Forall₂ Within lengths (point.map fun c : Nat => BitVec.ofInt 8 c) ∧
        digitsOf lengths (point.map fun c : Nat => BitVec.ofInt 8 c) = point := by
  induction lengths with
  | nil =>
    intro point h
    cases h
    exact ⟨.nil, rfl⟩
  | cons l lengths ih =>
    intro point h
    cases h with
    | @cons _ c _ point hc htail =>
      obtain ⟨hwithin, hdigits⟩ :=
        ih (fun j hj => hshort j (List.mem_cons_of_mem l hj)) htail
      have hl := hshort l List.mem_cons_self
      have hint : (BitVec.ofInt 8 c).toInt = c := by
        rw [BitVec.toInt_ofInt]
        apply Int.bmod_eq_of_le <;> omega
      have hin : Within l (BitVec.ofInt 8 c) := by
        unfold Within
        omega
      have hdigit : digit l (BitVec.ofInt 8 c) = c := by
        have hcast := natCast_digit hin.foldable
        rw [if_pos hin.1, hint] at hcast
        exact Int.ofNat.inj hcast
      refine ⟨.cons hin hwithin, ?_⟩
      show digit l (BitVec.ofInt 8 c) ::
        digitsOf lengths (point.map fun c : Nat => BitVec.ofInt 8 c) = c :: point
      rw [hdigit, hdigits]

theorem coords_of_digits {lengths coords : List (BitVec 8)}
    (h : List.Forall₂ Within lengths coords) :
    (digitsOf lengths coords).map (fun c : Nat => BitVec.ofInt 8 c) = coords := by
  induction h with
  | nil => rfl
  | @cons l c lengths coords hc _ ih =>
    have hcast := natCast_digit hc.foldable
    rw [if_pos hc.1] at hcast
    show BitVec.ofInt 8 (digit l c) :: (digitsOf lengths coords).map _ = c :: coords
    rw [hcast, BitVec.ofInt_toInt, ih]

/-- The index of a switch and the coordinates of an index are inverse to each other, coordinates
may be counted from the end of their dimension, and only coordinates that are the same modulo the
lengths have one index. -/
theorem lookupIndex_coordsFromIndex (L : DorLengths) :
    (∀ coords, List.Forall₂ Within L.dimensionLength coords →
      (lookupIndex L.dimensionLength coords).toNat < boxVolume L.lengths ∧
        coordsFromIndex L.dimensionLength (lookupIndex L.dimensionLength coords).toNat = coords) ∧
    (∀ index < boxVolume L.lengths,
      List.Forall₂ Within L.dimensionLength (coordsFromIndex L.dimensionLength index) ∧
        (lookupIndex L.dimensionLength (coordsFromIndex L.dimensionLength index)).toNat = index) ∧
    (∀ coords i l c, List.Forall₂ Within L.dimensionLength coords →
      L.dimensionLength[i]? = some l → coords[i]? = some c →
        lookupIndex L.dimensionLength (coords.set i (c - l)) =
          lookupIndex L.dimensionLength coords) ∧
    ∀ coords coords', List.Forall₂ Foldable L.dimensionLength coords →
      List.Forall₂ Foldable L.dimensionLength coords' →
        (lookupIndex L.dimensionLength coords = lookupIndex L.dimensionLength coords' ↔
          SameModulo L.dimensionLength coords coords') := by
  have hshort : ∀ l ∈ L.dimensionLength, l.toNat ≤ 127 := fun l hl => (L.bounds l hl).2
  refine ⟨fun coords h => ?_, fun index hindex => ?_, fun coords i l c h hl hc => ?_,
    fun coords coords' h h' => lookupIndex_eq_iff h h'⟩
  · have hfold : List.Forall₂ Foldable L.dimensionLength coords :=
      h.imp fun _ _ => Within.foldable
    have hbox := digitsOf_inBox hfold
    rw [toNat_lookupIndex hfold, coordsFromIndex_eq, boxPoint_boxPlace L.lengths_pos hbox]
    exact ⟨boxPlace_lt hbox, coords_of_digits h⟩
  · have hbox := boxPoint_inBox L.lengths_pos hindex
    obtain ⟨hwithin, hdigits⟩ := within_of_inBox hshort hbox
    rw [coordsFromIndex_eq, toNat_lookupIndex (hwithin.imp fun _ _ => Within.foldable), hdigits]
    exact ⟨hwithin, boxPlace_boxPoint L.lengths_pos hindex⟩
  · obtain ⟨hfold, hdigits⟩ := digitsOf_set h hshort hl hc
    rw [lookupIndex_eq hfold, hdigits, lookupIndex_eq (h.imp fun _ _ => Within.foldable)]

theorem shortTorus_bounds : ∀ l ∈ [(4 : BitVec 8), 3], 0 < l.toNat ∧ l.toNat ≤ 127 := by decide

theorem shortTorus_few : [(4 : BitVec 8), 3].length ≤ smDorMaxDimensions := by decide

theorem shortTorus_small :
    boxVolume ([(4 : BitVec 8), 3].map BitVec.toNat) < 0x80000000 := by decide

def shortTorus : DorLengths where
  dimensionLength := [4, 3]
  few := shortTorus_few
  bounds := shortTorus_bounds
  small := shortTorus_small

theorem lookupIndex_coordsFromIndex_shortTorus :
    List.Forall₂ Within shortTorus.dimensionLength
        (coordsFromIndex shortTorus.dimensionLength 7) ∧
      (lookupIndex shortTorus.dimensionLength
        (coordsFromIndex shortTorus.dimensionLength 7)).toNat = 7 :=
  (lookupIndex_coordsFromIndex shortTorus).2.1 7 (by decide)

end DorLengths

/-! ## Bits of pairs -/

theorem dorBitMapsPlace_eq {n i j : BitVec 32}
    (h : i.toNat * n.toNat + j.toNat < 0x80000000) :
    dorBitMapsPlace n i j = (i.toNat * n.toNat + j.toNat : Nat) := by
  have hmul : (i * n).toNat = i.toNat * n.toNat := by
    rw [BitVec.toNat_mul]
    exact Nat.mod_eq_of_lt (by omega)
  have hplace : (i * n + j).toNat = i.toNat * n.toNat + j.toNat := by
    rw [BitVec.toNat_add, hmul]
    exact Nat.mod_eq_of_lt (by omega)
  unfold dorBitMapsPlace
  rw [BitVec.toInt_eq_toNat_of_lt (by rw [hplace]; omega), hplace]

theorem toNat_dorClosureSize {n : BitVec 32} (h : n.toNat * n.toNat ≤ 0x80000000) :
    (dorClosureSize n).toNat = 4 * (n.toNat * n.toNat) / 32 + 1 := by
  have hlt := n.isLt
  have hwide : (n.setWidth 64).toNat = n.toNat := by
    rw [BitVec.toNat_setWidth]
    exact Nat.mod_eq_of_lt (hlt.trans (by decide))
  have hmul : (4 * n.setWidth 64 * n.setWidth 64).toNat = 4 * (n.toNat * n.toNat) := by
    rw [BitVec.toNat_mul, BitVec.toNat_mul, hwide, Nat.mod_mul_mod, Nat.mul_assoc]
    exact Nat.mod_eq_of_lt (by show 4 * _ < _; omega)
  unfold dorClosureSize
  rw [BitVec.toNat_add, BitVec.toNat_udiv, hmul]
  show (4 * (n.toNat * n.toNat) / 32 + 1) % _ = _
  exact Nat.mod_eq_of_lt (by omega)

/-- The words of all pairs lie in a map exactly when its pairs have places that are no negative
`int`, and the part of a word that they end with has at least three bytes. -/
theorem dorBitMapsWord_inside_iff (n : BitVec 32) :
    (∀ i j, i < n → j < n → 0 ≤ dorBitMapsWord n i j ∧
        4 * dorBitMapsWord n i j + 4 ≤ (dorClosureSize n).toNat) ↔
      n.toNat * n.toNat ≤ 0x80000000 ∧
        (n.toNat * n.toNat % 32 = 0 ∨ 24 ≤ n.toNat * n.toNat % 32) := by
  constructor
  · intro h
    have hfits : n.toNat * n.toNat ≤ 0x80000000 := by
      by_contra hlarge
      -- the pair whose place is the least `int`
      have hpos : 0 < n.toNat := by
        rcases Nat.eq_zero_or_pos n.toNat with hzero | hpos
        · rw [hzero] at hlarge
          omega
        · exact hpos
      have hi : 0x80000000 / n.toNat < n.toNat := (Nat.div_lt_iff_lt_mul hpos).mpr (by omega)
      have hj : 0x80000000 % n.toNat < n.toNat := Nat.mod_lt _ hpos
      have hlt := n.isLt
      have hi' : (BitVec.ofNat 32 (0x80000000 / n.toNat)).toNat = 0x80000000 / n.toNat := by
        rw [BitVec.toNat_ofNat]
        exact Nat.mod_eq_of_lt (hi.trans hlt)
      have hj' : (BitVec.ofNat 32 (0x80000000 % n.toNat)).toNat = 0x80000000 % n.toNat := by
        rw [BitVec.toNat_ofNat]
        exact Nat.mod_eq_of_lt (hj.trans hlt)
      have hplace : BitVec.ofNat 32 (0x80000000 / n.toNat) * n +
          BitVec.ofNat 32 (0x80000000 % n.toNat) = 0x80000000#32 := by
        apply BitVec.eq_of_toNat_eq
        rw [BitVec.toNat_add, BitVec.toNat_mul, hi', hj', Nat.mod_add_mod, Nat.div_add_mod']
        rfl
      have hword := (h _ _ (BitVec.lt_def.mpr (by rw [hi']; exact hi))
        (BitVec.lt_def.mpr (by rw [hj']; exact hj))).1
      unfold dorBitMapsWord dorBitMapsPlace at hword
      rw [hplace] at hword
      exact absurd hword (by decide)
    refine ⟨hfits, ?_⟩
    by_contra hpart
    -- the last pair
    have hpos : 0 < n.toNat := by
      rcases Nat.eq_zero_or_pos n.toNat with hzero | hpos
      · rw [hzero] at hpart
        omega
      · exact hpos
    have hlast : (n - 1).toNat = n.toNat - 1 := by
      have hone : (1 : BitVec 32) ≤ n := BitVec.le_def.mpr hpos
      rw [BitVec.toNat_sub_of_le hone]
      rfl
    have hbelow : n - 1 < n := BitVec.lt_def.mpr (by rw [hlast]; omega)
    have hsquare : (n.toNat - 1) * n.toNat + (n.toNat - 1) = n.toNat * n.toNat - 1 := by
      have hle : n.toNat ≤ n.toNat * n.toNat := Nat.le_mul_of_pos_left _ hpos
      rw [Nat.sub_mul, Nat.one_mul]
      omega
    have hword := (h (n - 1) (n - 1) hbelow hbelow).2
    unfold dorBitMapsWord at hword
    rw [dorBitMapsPlace_eq (by rw [hlast, hsquare]; omega), toNat_dorClosureSize hfits, hlast,
      hsquare] at hword
    omega
  · rintro ⟨hfits, hpart⟩ i j hi hj
    have hrow : i.toNat * n.toNat + j.toNat < n.toNat * n.toNat := by
      have hi' : i.toNat + 1 ≤ n.toNat := BitVec.lt_def.mp hi
      have hj' : j.toNat < n.toNat := BitVec.lt_def.mp hj
      calc i.toNat * n.toNat + j.toNat < i.toNat * n.toNat + n.toNat := Nat.add_lt_add_left hj' _
        _ = (i.toNat + 1) * n.toNat := (Nat.succ_mul _ _).symm
        _ ≤ n.toNat * n.toNat := Nat.mul_le_mul_right _ hi'
    unfold dorBitMapsWord
    rw [dorBitMapsPlace_eq (by omega), toNat_dorClosureSize hfits]
    omega

/-- The map of one switch has one byte, of which a whole word is read. -/
theorem not_dorBitMapsWord_inside :
    ¬∀ n i j : BitVec 32, i < n → j < n → 0 ≤ dorBitMapsWord n i j ∧
      4 * dorBitMapsWord n i j + 4 ≤ (dorClosureSize n).toNat := by
  intro h
  exact absurd (h 1 0 0 (by decide) (by decide)).2 (by decide)

end OpaFm.Dor
