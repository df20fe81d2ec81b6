import OpaFm.Partition.PKey

/-!
# When the P_Key checks agree

Two tables share a key when both hold its value and one of the entries is a full
membership.  `smValidatePortPKey2Way` looks at the first entry of a value only,
and for the management key at two fixed slots of one port;
`smGetCommonPKey` stops at the first empty entry, although a table may go on
after it.  The main result says for which tables none of this matters.
-/

namespace OpaFm.Partition

open OpaFm.Fabric

def SharesPKey (k : Nat) (l₁ l₂ : List Nat) : Prop :=
  ∃ a ∈ l₁, ∃ b ∈ l₂, pKeyValue a = pKeyValue k ∧ pKeyValue b = pKeyValue k ∧
    (pKeyIsFull a = true ∨ pKeyIsFull b = true)

def HoldsPKey (k : Nat) (l : List Nat) : Prop := ∃ a ∈ l, pKeyValue a = pKeyValue k

def HoldsFullPKey (k : Nat) (l : List Nat) : Prop :=
  ∃ a ∈ l, pKeyValue a = pKeyValue k ∧ pKeyIsFull a = true

theorem SharesPKey.symm {k : Nat} {l₁ l₂ : List Nat} (h : SharesPKey k l₁ l₂) :
    SharesPKey k l₂ l₁ := by
  obtain ⟨a, ha, b, hb, hak, hbk, hfull⟩ := h
  exact ⟨b, hb, a, ha, hbk, hak, hfull.symm⟩

theorem sharesPKey_comm {k : Nat} {l₁ l₂ : List Nat} : SharesPKey k l₁ l₂ ↔ SharesPKey k l₂ l₁ :=
  ⟨SharesPKey.symm, SharesPKey.symm⟩

theorem sharesPKey_iff_holds {k : Nat} {l₁ l₂ : List Nat} :
    SharesPKey k l₁ l₂ ↔ HoldsPKey k l₁ ∧ HoldsPKey k l₂ ∧
      (HoldsFullPKey k l₁ ∨ HoldsFullPKey k l₂) := by
  constructor
  · rintro ⟨a, ha, b, hb, hak, hbk, hfull⟩
    exact ⟨⟨a, ha, hak⟩, ⟨b, hb, hbk⟩, hfull.imp (fun h => ⟨a, ha, hak, h⟩) fun h => ⟨b, hb, hbk, h⟩⟩
  · rintro ⟨⟨a, ha, hak⟩, ⟨b, hb, hbk⟩, ⟨c, hc, hck, hfull⟩ | ⟨c, hc, hck, hfull⟩⟩
    · exact ⟨c, hc, b, hb, hck, hbk, .inl hfull⟩
    · exact ⟨a, ha, c, hc, hak, hck, .inr hfull⟩

theorem HoldsFullPKey.holds {k : Nat} {l : List Nat} (h : HoldsFullPKey k l) : HoldsPKey k l := by
  obtain ⟨a, ha, hak, -⟩ := h
  exact ⟨a, ha, hak⟩

theorem pKeyValue_pKeyValue (k : Nat) : pKeyValue (pKeyValue k) = pKeyValue k := by
  simp [pKeyValue]

/-! ## `smValidatePortPKey` -/

theorem smValidatePortPKey_iff {k : Nat} {q : PKeyPort} :
    smValidatePortPKey k q = true ↔
      ∃ b ∈ q.pPKey.toList, pKeyValue b = pKeyValue k ∧
        (pKeyIsFull k = true ∨ pKeyIsFull b = true) := by
  simp only [smValidatePortPKey, List.any_eq_true, decide_eq_true_eq]

theorem smValidatePortPKey_full {k : Nat} {q : PKeyPort} (hk : pKeyIsFull k = true) :
    smValidatePortPKey k q = true ↔ HoldsPKey k q.pPKey.toList := by
  simp only [smValidatePortPKey_iff, hk, true_or, and_true, HoldsPKey]

theorem smValidatePortPKey_limited {k : Nat} {q : PKeyPort} (hk : pKeyIsFull k = false) :
    smValidatePortPKey k q = true ↔ HoldsFullPKey k q.pPKey.toList := by
  simp only [smValidatePortPKey_iff, hk, Bool.false_eq_true, false_or, HoldsFullPKey]

theorem sharesPKey_iff_validate {k : Nat} {l : List Nat} {q : PKeyPort} :
    SharesPKey k l q.pPKey.toList ↔
      ∃ a ∈ l, pKeyValue a = pKeyValue k ∧ smValidatePortPKey a q = true := by
  simp only [smValidatePortPKey_iff]
  constructor
  · rintro ⟨a, ha, b, hb, hak, hbk, hfull⟩
    exact ⟨a, ha, hak, b, hb, hbk.trans hak.symm, hfull⟩
  · rintro ⟨a, ha, hak, b, hb, hba, hfull⟩
    exact ⟨a, ha, b, hb, hak, hba.trans hak, hfull⟩

/-! ## `smValidatePortPKey2Way` -/

def FirstEntriesDecide (k : Nat) (p q : PKeyPort) : Prop :=
  SharesPKey k p.pPKey.toList q.pPKey.toList →
    ∃ a b, p.pPKey.toList.find? (fun e => pKeyValue e = pKeyValue k) = some a ∧
      q.pPKey.toList.find? (fun e => pKeyValue e = pKeyValue k) = some b ∧
      (pKeyIsFull a = true ∨ pKeyIsFull b = true)

def HasFmSlot (p : PKeyPort) : Prop :=
  p.pPKey.entry stlDefaultFmPkeyIdx = stlDefaultFmPkey ∨
    p.pPKey.entry stlDefaultClientPkeyIdx = stlDefaultFmPkey

instance (p : PKeyPort) : Decidable (HasFmSlot p) := inferInstanceAs (Decidable (_ ∨ _))

/-- Without a full management key in its slots, the first port has to hold the
key when the second is full, and may not be full elsewhere on its own. -/
def MngntSlotsDecide (p q : PKeyPort) : Prop :=
  HasFmSlot p ∨
    ((HoldsFullPKey stlDefaultFmPkey q.pPKey.toList → HoldsPKey stlDefaultFmPkey p.pPKey.toList) ∧
      (HoldsFullPKey stlDefaultFmPkey p.pPKey.toList → HoldsPKey stlDefaultFmPkey q.pPKey.toList →
        HoldsFullPKey stlDefaultFmPkey q.pPKey.toList))

theorem entry_mem {t : PKeyTable} {i : Nat} (h : t.entry i ≠ 0) : t.entry i ∈ t.toList := by
  unfold PKeyTable.entry at h ⊢
  cases hget : t[i]? with
  | none => simp [hget] at h
  | some e =>
    obtain ⟨hi, rfl⟩ := Vector.getElem?_eq_some_iff.mp hget
    simp

theorem HasFmSlot.holdsFull {p : PKeyPort} (h : HasFmSlot p) :
    HoldsFullPKey stlDefaultFmPkey p.pPKey.toList := by
  have hfull : ∀ i, p.pPKey.entry i = stlDefaultFmPkey →
      HoldsFullPKey stlDefaultFmPkey p.pPKey.toList := by
    intro i hi
    refine ⟨p.pPKey.entry i, entry_mem (by rw [hi]; decide), by rw [hi], by rw [hi]; decide⟩
  rcases h with h | h
  · exact hfull _ h
  · exact hfull _ h

theorem twoWay_self {k : Nat} {p q : PKeyPort} (h : p.addr = q.addr) :
    smValidatePortPKey2Way k p q = true := by
  simp [smValidatePortPKey2Way, h]

theorem twoWay_iff_shares {k : Nat} {p q : PKeyPort} (hne : p.addr ≠ q.addr)
    (hk : pKeyValue k ≠ stlDefaultClientPkey) :
    (smValidatePortPKey2Way k p q = true ↔ SharesPKey k p.pPKey.toList q.pPKey.toList) ↔
      FirstEntriesDecide k p q := by
  have htrue : smValidatePortPKey2Way k p q = true ↔
      ∃ a b, p.pPKey.toList.find? (fun e => pKeyValue e = pKeyValue k) = some a ∧
        q.pPKey.toList.find? (fun e => pKeyValue e = pKeyValue k) = some b ∧
        (pKeyIsFull a = true ∨ pKeyIsFull b = true) := by
    unfold smValidatePortPKey2Way
    rw [if_neg hne, if_neg hk]
    cases p.pPKey.toList.find? (fun e => pKeyValue e = pKeyValue k) with
    | none => simp
    | some a =>
      cases q.pPKey.toList.find? (fun e => pKeyValue e = pKeyValue k) with
      | none => simp
      | some b => simp
  have hsound : smValidatePortPKey2Way k p q = true →
      SharesPKey k p.pPKey.toList q.pPKey.toList := by
    rw [htrue]
    rintro ⟨a, b, ha, hb, hfull⟩
    refine ⟨a, List.mem_of_find?_eq_some ha, b, List.mem_of_find?_eq_some hb, ?_, ?_, hfull⟩
    · simpa using List.find?_some ha
    · simpa using List.find?_some hb
  constructor
  · intro hexact hshares
    exact htrue.mp (hexact.mpr hshares)
  · intro hfirst
    exact ⟨hsound, fun hshares => htrue.mpr (hfirst hshares)⟩

theorem twoWay_mngnt {k : Nat} {p q : PKeyPort} (hne : p.addr ≠ q.addr)
    (hk : pKeyValue k = stlDefaultClientPkey) :
    smValidatePortPKey2Way k p q = true ↔
      (HasFmSlot p ∧ HoldsPKey stlDefaultFmPkey q.pPKey.toList) ∨
        (¬HasFmSlot p ∧ HoldsFullPKey stlDefaultFmPkey q.pPKey.toList) := by
  have hclient : HoldsFullPKey stlDefaultClientPkey q.pPKey.toList ↔
      HoldsFullPKey stlDefaultFmPkey q.pPKey.toList := Iff.rfl
  unfold smValidatePortPKey2Way
  rw [if_neg hne, if_pos hk]
  change (if HasFmSlot p then _ else _) = true ↔ _
  by_cases hfm : HasFmSlot p
  · rw [if_pos hfm, smValidatePortPKey_full (by decide)]
    simp [hfm]
  · rw [if_neg hfm, smValidatePortPKey_limited (by decide), hclient]
    simp [hfm]

theorem twoWay_mngnt_iff_shares {k : Nat} {p q : PKeyPort} (hne : p.addr ≠ q.addr)
    (hk : pKeyValue k = stlDefaultClientPkey) :
    (smValidatePortPKey2Way k p q = true ↔ SharesPKey k p.pPKey.toList q.pPKey.toList) ↔
      MngntSlotsDecide p q := by
  have hkey : SharesPKey k p.pPKey.toList q.pPKey.toList ↔
      SharesPKey stlDefaultFmPkey p.pPKey.toList q.pPKey.toList := by
    have hvalue : pKeyValue k = pKeyValue stlDefaultFmPkey := by rw [hk]; rfl
    simp only [SharesPKey, hvalue]
  rw [hkey, twoWay_mngnt hne hk, sharesPKey_iff_holds]
  unfold MngntSlotsDecide
  by_cases hfm : HasFmSlot p
  · have hfull := hfm.holdsFull
    simp [hfm, hfull, hfull.holds]
  · have hq : HoldsFullPKey stlDefaultFmPkey q.pPKey.toList →
        HoldsPKey stlDefaultFmPkey q.pPKey.toList := HoldsFullPKey.holds
    have hp : HoldsFullPKey stlDefaultFmPkey p.pPKey.toList →
        HoldsPKey stlDefaultFmPkey p.pPKey.toList := HoldsFullPKey.holds
    tauto

/-! ## `smGetCommonPKey` -/

def beforeEmpty (l : List Nat) : List Nat := l.takeWhile fun e => pKeyValue e ≠ invalidPkey

def IsCommon (r : Nat) (l : List Nat) (q : PKeyPort) : Prop :=
  (r = invalidPkey ∧ ∀ k, pKeyValue k ≠ invalidPkey → ¬SharesPKey k l q.pPKey.toList) ∨
    (pKeyValue r ≠ invalidPkey ∧ SharesPKey r l q.pPKey.toList)

theorem isCommon_congr {r : Nat} {l l' : List Nat} {q : PKeyPort}
    (h : ∀ k, pKeyValue k ≠ invalidPkey →
      (SharesPKey k l q.pPKey.toList ↔ SharesPKey k l' q.pPKey.toList))
    (hr : IsCommon r l q) : IsCommon r l' q := by
  rcases hr with ⟨h0, hnone⟩ | ⟨hr, hshares⟩
  · exact .inl ⟨h0, fun k hk hshares => hnone k hk ((h k hk).mpr hshares)⟩
  · exact .inr ⟨hr, (h r hr).mp hshares⟩

theorem isCommon_of_validate {a : Nat} {l : List Nat} {q : PKeyPort} (ha : a ∈ l)
    (hne : pKeyValue a ≠ invalidPkey) (hval : smValidatePortPKey a q = true) :
    IsCommon (pKeyValue a) l q := by
  refine .inr ⟨by rwa [pKeyValue_pKeyValue], sharesPKey_iff_validate.mpr ⟨a, ha, ?_, hval⟩⟩
  rw [pKeyValue_pKeyValue]

theorem sharesPKey_cons_of_not_validate {k a : Nat} {l : List Nat} {q : PKeyPort}
    (hval : ¬smValidatePortPKey a q = true) :
    SharesPKey k (a :: l) q.pPKey.toList ↔ SharesPKey k l q.pPKey.toList := by
  rw [sharesPKey_iff_validate, sharesPKey_iff_validate]
  constructor
  · rintro ⟨e, he, hek, hev⟩
    rcases List.mem_cons.mp he with rfl | he
    · exact absurd hev hval
    · exact ⟨e, he, hek, hev⟩
  · rintro ⟨e, he, hek, hev⟩
    exact ⟨e, List.mem_cons_of_mem _ he, hek, hev⟩

theorem sharesPKey_cons_cons {k a b : Nat} {l l₂ : List Nat} (hab : pKeyValue b = pKeyValue a)
    (hfull : pKeyIsFull b = true → pKeyIsFull a = true) :
    SharesPKey k (a :: b :: l) l₂ ↔ SharesPKey k (a :: l) l₂ := by
  constructor
  · rintro ⟨e, he, c, hc, hek, hck, hf⟩
    simp only [List.mem_cons] at he
    rcases he with rfl | rfl | he
    · exact ⟨e, List.mem_cons_self, c, hc, hek, hck, hf⟩
    · exact ⟨a, List.mem_cons_self, c, hc, hab ▸ hek, hck, hf.imp_left hfull⟩
    · exact ⟨e, List.mem_cons_of_mem _ he, c, hc, hek, hck, hf⟩
  · rintro ⟨e, he, c, hc, hek, hck, hf⟩
    refine ⟨e, ?_, c, hc, hek, hck, hf⟩
    simp only [List.mem_cons] at he ⊢
    tauto

theorem sharesPKey_swap {k a b : Nat} {l l₂ : List Nat} :
    SharesPKey k (a :: b :: l) l₂ ↔ SharesPKey k (b :: a :: l) l₂ := by
  have hswap : ∀ e, e ∈ a :: b :: l ↔ e ∈ b :: a :: l := by
    intro e
    simp only [List.mem_cons]
    tauto
  simp only [SharesPKey, hswap]

theorem isCommon_default {d : Option Nat} {q : PKeyPort}
    (hd : ∀ a ∈ d, pKeyValue a = pKeyValue stlDefaultFmPkey) :
    IsCommon (defaultCommonPKey q d) d.toList q := by
  cases d with
  | none =>
    refine .inl ⟨rfl, fun k _ hshares => ?_⟩
    obtain ⟨a, ha, -⟩ := hshares
    simp at ha
  | some a =>
    have hne : pKeyValue a ≠ invalidPkey := by rw [hd a rfl]; decide
    by_cases hval : smValidatePortPKey a q = true
    · rw [defaultCommonPKey, if_pos hval]
      exact isCommon_of_validate (List.mem_singleton.mpr rfl) hne hval
    · rw [defaultCommonPKey, if_neg hval]
      refine .inl ⟨rfl, fun k _ hshares => ?_⟩
      rw [Option.toList_some, sharesPKey_cons_of_not_validate hval] at hshares
      obtain ⟨e, he, -⟩ := hshares
      cases he

theorem commonPKeyLoop_isCommon (q : PKeyPort) (l : List Nat) (d : Option Nat)
    (hd : ∀ a ∈ d, pKeyValue a = pKeyValue stlDefaultFmPkey) :
    IsCommon (commonPKeyLoop q l d) (d.toList ++ beforeEmpty l) q := by
  induction l generalizing d with
  | nil =>
    rw [commonPKeyLoop, beforeEmpty, List.takeWhile_nil, List.append_nil]
    exact isCommon_default hd
  | cons a l ih =>
    rw [commonPKeyLoop]
    by_cases hempty : pKeyValue a = invalidPkey
    · have hstop : beforeEmpty (a :: l) = [] := by simp [beforeEmpty, hempty]
      rw [if_pos hempty, hstop, List.append_nil]
      exact isCommon_default hd
    · have hgo : beforeEmpty (a :: l) = a :: beforeEmpty l := by simp [beforeEmpty, hempty]
      rw [if_neg hempty, hgo]
      by_cases hdef : pKeyValue a = pKeyValue stlDefaultFmPkey
      · rw [if_pos hdef]
        cases d with
        | none =>
          rw [if_pos (.inl rfl)]
          exact ih (some a) (fun b hb => by cases hb; exact hdef)
        | some b =>
          have hab : pKeyValue a = pKeyValue b := hdef.trans (hd b rfl).symm
          by_cases hfull : pKeyIsFull a = true
          · rw [if_pos (.inr hfull)]
            refine isCommon_congr (fun k _ => ?_) (ih (some a) fun c hc => by cases hc; exact hdef)
            simp only [Option.toList_some, List.cons_append, List.nil_append]
            rw [sharesPKey_swap]
            exact (sharesPKey_cons_cons hab.symm fun _ => hfull).symm
          · rw [if_neg (by simp [hfull])]
            refine isCommon_congr (fun k _ => ?_) (ih (some b) hd)
            simp only [Option.toList_some, List.cons_append, List.nil_append]
            exact (sharesPKey_cons_cons hab fun h => absurd h hfull).symm
      · rw [if_neg hdef]
        by_cases hval : smValidatePortPKey a q = true
        · rw [if_pos hval]
          exact isCommon_of_validate (by simp) hempty hval
        · rw [if_neg hval]
          refine isCommon_congr (fun k _ => ?_) (ih d hd)
          cases d with
          | none => exact (sharesPKey_cons_of_not_validate hval).symm
          | some b =>
            simp only [Option.toList_some, List.cons_append, List.nil_append]
            rw [sharesPKey_swap]
            exact (sharesPKey_cons_of_not_validate hval).symm

theorem smGetCommonPKey_isCommon (p q : PKeyPort) :
    IsCommon (smGetCommonPKey p q) (beforeEmpty p.pPKey.toList) q :=
  commonPKeyLoop_isCommon q _ none (by simp)

theorem smGetCommonPKey_ne_iff {p q : PKeyPort} :
    smGetCommonPKey p q ≠ invalidPkey ↔
      ∃ k, pKeyValue k ≠ invalidPkey ∧ SharesPKey k (beforeEmpty p.pPKey.toList) q.pPKey.toList := by
  rcases smGetCommonPKey_isCommon p q with ⟨hzero, hnone⟩ | ⟨hne, hshares⟩
  · refine ⟨fun h => absurd hzero h, ?_⟩
    rintro ⟨k, hk, hshares⟩
    exact absurd hshares (hnone k hk)
  · refine ⟨fun _ => ⟨_, hne, hshares⟩, fun _ hzero => hne ?_⟩
    rw [hzero]
    rfl

theorem SharesPKey.of_beforeEmpty {k : Nat} {l l₂ : List Nat}
    (h : SharesPKey k (beforeEmpty l) l₂) : SharesPKey k l l₂ := by
  obtain ⟨a, ha, hrest⟩ := h
  exact ⟨a, (List.takeWhile_prefix _).subset ha, hrest⟩

/-! ## Both checks -/

structure PKeyChecksExact (p q : PKeyPort) : Prop where
  symmetric : ∀ k, smValidatePortPKey2Way k p q = smValidatePortPKey2Way k q p
  exact_of_ne : p.addr ≠ q.addr → ∀ k, smValidatePortPKey2Way k p q = true ↔
    SharesPKey k p.pPKey.toList q.pPKey.toList
  common_iff : smGetCommonPKey p q ≠ invalidPkey ↔
    ∃ k, pKeyValue k ≠ invalidPkey ∧ SharesPKey k p.pPKey.toList q.pPKey.toList
  common_shared : smGetCommonPKey p q ≠ invalidPkey →
    SharesPKey (smGetCommonPKey p q) p.pPKey.toList q.pPKey.toList

structure PKeyTablesSuit (p q : PKeyPort) : Prop where
  first : p.addr ≠ q.addr → ∀ k, pKeyValue k ≠ stlDefaultClientPkey → FirstEntriesDecide k p q
  mngnt : p.addr ≠ q.addr → MngntSlotsDecide p q ∧ MngntSlotsDecide q p
  beforeHole : (∃ k, pKeyValue k ≠ invalidPkey ∧ SharesPKey k p.pPKey.toList q.pPKey.toList) →
    ∃ k, pKeyValue k ≠ invalidPkey ∧ SharesPKey k (beforeEmpty p.pPKey.toList) q.pPKey.toList

theorem FirstEntriesDecide.symm {k : Nat} {p q : PKeyPort} (h : FirstEntriesDecide k p q) :
    FirstEntriesDecide k q p := by
  intro hshares
  obtain ⟨a, b, ha, hb, hfull⟩ := h hshares.symm
  exact ⟨b, a, hb, ha, hfull.symm⟩

theorem twoWay_of_suit {p q : PKeyPort} (hne : p.addr ≠ q.addr)
    (hfirst : ∀ k, pKeyValue k ≠ stlDefaultClientPkey → FirstEntriesDecide k p q)
    (hmngnt : MngntSlotsDecide p q) (k : Nat) :
    smValidatePortPKey2Way k p q = true ↔ SharesPKey k p.pPKey.toList q.pPKey.toList := by
  by_cases hk : pKeyValue k = stlDefaultClientPkey
  · exact (twoWay_mngnt_iff_shares hne hk).mpr hmngnt
  · exact (twoWay_iff_shares hne hk).mpr (hfirst k hk)

/-- The checks are exact and symmetric on two ports if and only if their tables
suit them. -/
theorem pkey_checks_exact_iff (p q : PKeyPort) : PKeyChecksExact p q ↔ PKeyTablesSuit p q := by
  constructor
  · intro h
    refine ⟨fun hne k hk => (twoWay_iff_shares hne hk).mp (h.exact_of_ne hne k), fun hne => ?_,
      fun hshares => smGetCommonPKey_ne_iff.mp (h.common_iff.mpr hshares)⟩
    have hk : pKeyValue stlDefaultClientPkey = stlDefaultClientPkey := rfl
    refine ⟨(twoWay_mngnt_iff_shares hne hk).mp (h.exact_of_ne hne _), ?_⟩
    apply (twoWay_mngnt_iff_shares (Ne.symm hne) hk).mp
    rw [← h.symmetric, h.exact_of_ne hne, sharesPKey_comm]
  · intro h
    constructor
    · intro k
      by_cases heq : p.addr = q.addr
      · rw [twoWay_self heq, twoWay_self heq.symm]
      · have hpq := twoWay_of_suit heq (h.first heq) (h.mngnt heq).1 k
        have hqp := twoWay_of_suit (Ne.symm heq) (fun k hk => (h.first heq k hk).symm)
          (h.mngnt heq).2 k
        rw [Bool.eq_iff_iff, hpq, hqp, sharesPKey_comm]
    · intro hne
      exact twoWay_of_suit hne (h.first hne) (h.mngnt hne).1
    · rw [smGetCommonPKey_ne_iff]
      refine ⟨?_, h.beforeHole⟩
      rintro ⟨k, hk, hshares⟩
      exact ⟨k, hk, hshares.of_beforeEmpty⟩
    · intro hne
      rcases smGetCommonPKey_isCommon p q with ⟨hzero, -⟩ | ⟨-, hshares⟩
      · exact absurd hzero hne
      · exact hshares.of_beforeEmpty

/-! Two hosts outside the management group.  Both are full members of the
virtual fabric with P_Key 0x20; the first is also one of P_Key 0x10, which takes
slot 0, so that its common key stands behind the empty slot 2. -/

def twoAppVfs : VirtualFabrics :=
  { vFabric := [{ index := 0, pkey := 0x10 }, { index := 1, pkey := 0x7fff },
      { index := 2, pkey := 0x20 }] }

/-- The table of a host that is a full member of `full` and a limited one of the
management virtual fabric. -/
def hostPkeys (full : Finset Nat) : Except PKeyTable PKeyResult :=
  smSetPortPkey (some twoAppVfs) { index := 1, nodeType := .ca, numPorts := 1 } 1
    { vfMember := insert 1 full, fullPKeyMember := full } none false false none

def hostWith (addr : Nat) (keys : List Nat) : PKeyPort :=
  ⟨addr, keys.zipIdx.foldl (fun t e => t.write e.2 e.1) PKeyTable.empty⟩

theorem pkey_checks_hole :
    (hostPkeys {0, 2}).map PKeyResult.pPKey = .ok (hostWith 1 [0x8010, 0x7fff, 0, 0x8020]).pPKey ∧
      (hostPkeys {2}).map PKeyResult.pPKey = .ok (hostWith 2 [0x8020, 0x7fff]).pPKey ∧
      ¬PKeyChecksExact (hostWith 1 [0x8010, 0x7fff, 0, 0x8020]) (hostWith 2 [0x8020, 0x7fff]) := by
  refine ⟨by decide +kernel, by decide +kernel, fun h => ?_⟩
  have hnone : smGetCommonPKey (hostWith 1 [0x8010, 0x7fff, 0, 0x8020])
      (hostWith 2 [0x8020, 0x7fff]) = invalidPkey := by decide +kernel
  refine h.common_iff.mpr ⟨0x8020, by decide, ?_⟩ hnone
  exact ⟨0x8020, by decide +kernel, 0x8020, by decide +kernel, rfl, rfl, .inl rfl⟩

end OpaFm.Partition
