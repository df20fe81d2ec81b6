import OpaFm.Sa.ServiceTemplate
import OpaFm.Sa.Proofs.ServiceRecord

/-!
# The two formats of a service query

The bytes of a template mask are read as one row of bits, the most significant bit of a byte first.
In it a masked component has all its bits set, so that a template lets exactly the records pass that
agree with it in the masked components.  The query in the other format is compared with that.
-/

namespace OpaFm.Sa

open OpaFm.Cs OpaFm.Lib

/-! ## Bits of bytes -/

def streamBit (bytes : Nat → BitVec 8) (b : Nat) : Bool := (bytes (b / 8)).getMsbD (b % 8)

def FieldMask.Covers (f : FieldMask) (b : Nat) : Prop := f.offset ≤ b ∧ b < f.offset + f.length

theorem streamBit_orByte (m : TemplateMask) {i : Nat} (hi : i < templateMaskSize) (bits : BitVec 8)
    (b : Nat) : streamBit (orByte m i bits) b = true ↔
      streamBit m b = true ∨ b / 8 = i ∧ bits.getMsbD (b % 8) = true := by
  unfold streamBit orByte
  rw [if_pos hi]
  by_cases hb : b / 8 = i
  · subst hb
    rw [Function.update_self, BitVec.getMsbD_or, Bool.or_eq_true]
    simp only [true_and]
  · rw [Function.update_of_ne hb]
    simp only [hb, false_and, or_false]

theorem fullByte_getMsbD (k : Nat) : (0xff#8).getMsbD k = decide (k < 8) :=
  BitVec.getMsbD_allOnes

theorem streamBit_fillBytes (n : Nat) : ∀ (m : TemplateMask) (offset : Nat),
    (0 < n → offset % 8 = 0) → offset + 8 * n ≤ 8 * templateMaskSize → ∀ b,
      (streamBit (fillBytes m offset n) b = true ↔
        streamBit m b = true ∨ (offset ≤ b ∧ b < offset + 8 * n)) := by
  induction n with
  | zero =>
    intro m offset _ _ b
    show streamBit m b = true ↔ _
    constructor
    · exact Or.inl
    · rintro (h | ⟨hlo, hhi⟩)
      · exact h
      · omega
  | succ n ih =>
    intro m offset haligned hfit b
    have hoffset := haligned n.succ_pos
    have hbyte : offset / 8 < templateMaskSize := by omega
    have hfull : (0xff#8).getMsbD (b % 8) = true := by
      rw [fullByte_getMsbD, decide_eq_true_iff]
      exact Nat.mod_lt _ (by decide)
    have hsplit : (b / 8 = offset / 8 ∨ offset + 8 ≤ b ∧ b < offset + 8 + 8 * n) ↔
        (offset ≤ b ∧ b < offset + 8 * (n + 1)) := by omega
    show streamBit (fillBytes (orByte m (offset / 8) 0xff#8) (offset + 8) n) b = true ↔ _
    rw [ih _ _ (by omega) (by omega), streamBit_orByte m hbyte]
    simp only [hfull, and_true]
    rw [or_assoc, hsplit]

theorem firstBits_getMsbD {start len k : Nat} (hlen : start + len ≤ 8) :
    ((0xff#8 >>> (8 - len)) <<< (8 - len - start)).getMsbD k = true ↔
      start ≤ k ∧ k < start + len := by
  rw [BitVec.getMsbD_shiftLeft, BitVec.getMsbD_ushiftRight, fullByte_getMsbD]
  simp only [Bool.and_eq_true, Bool.not_eq_true', decide_eq_true_eq, decide_eq_false_iff_not]
  omega

theorem lastBits_getMsbD {len k : Nat} (hlen : len ≤ 8) :
    (0xff#8 <<< (8 - len)).getMsbD k = true ↔ k < len := by
  rw [BitVec.getMsbD_shiftLeft, fullByte_getMsbD, decide_eq_true_eq]
  omega

theorem streamBit_fillField (m : TemplateMask) (f : FieldMask)
    (hfit : f.offset + f.length ≤ 8 * templateMaskSize) (b : Nat) :
    streamBit (fillField m f) b = true ↔ streamBit m b = true ∨ f.Covers b := by
  unfold fillField
  -- what the first byte takes of the field
  generalize hlen : (if f.offset % 8 ≠ 0 then min (8 - f.offset % 8) f.length else 0) = len
  have hlen_le : len ≤ f.length ∧ f.offset % 8 + len ≤ 8 ∧
      (f.offset % 8 = 0 → len = 0) ∧ (len < f.length → (f.offset + len) % 8 = 0) := by
    split at hlen <;> omega
  obtain ⟨hle, hroom, hzero, haligned⟩ := hlen_le
  generalize hfirst : (if f.offset % 8 ≠ 0 then
    orByte m (f.offset / 8) ((0xff#8 >>> (8 - len)) <<< (8 - len - f.offset % 8)) else m) = first
  have hfirst_bit : streamBit first b = true ↔
      streamBit m b = true ∨ (f.offset ≤ b ∧ b < f.offset + len) := by
    rw [← hfirst]
    split
    next hpartial =>
      rw [streamBit_orByte m (by omega), firstBits_getMsbD hroom]
      exact or_congr_right (by omega)
    next hwhole =>
      have hnone : len = 0 := hzero (by omega)
      constructor
      · exact Or.inl
      · rintro (h | ⟨hlo, hhi⟩)
        · exact h
        · omega
  dsimp only
  rw [hfirst]
  have hfull_bit : streamBit (fillBytes first (f.offset + len) ((f.length - len) / 8)) b = true ↔
      streamBit m b = true ∨
        (f.offset ≤ b ∧ b < f.offset + len + 8 * ((f.length - len) / 8)) := by
    rw [streamBit_fillBytes _ _ _ (by omega) (by omega), hfirst_bit, or_assoc]
    exact or_congr_right (by omega)
  unfold FieldMask.Covers
  split
  next hpartial =>
    rw [streamBit_orByte _ (by omega), lastBits_getMsbD (by omega), hfull_bit, or_assoc]
    exact or_congr_right (by omega)
  next hwhole =>
    rw [hfull_bit]
    exact or_congr_right (by omega)

def MaskedBit (fields : List FieldMask) (componentMask : BitVec 64) (b : Nat) : Prop :=
  ∃ i f, fields[i]? = some f ∧ componentMask.getLsbD i = true ∧ f.Covers b

theorem maskedBit_cons (f : FieldMask) (fields : List FieldMask) (componentMask : BitVec 64)
    (b : Nat) : MaskedBit (f :: fields) componentMask b ↔
      componentMask.getLsbD 0 = true ∧ f.Covers b ∨
        MaskedBit fields (componentMask >>> 1) b := by
  unfold MaskedBit
  constructor
  · rintro ⟨i, g, hg, hmask, hcovers⟩
    cases i with
    | zero =>
      obtain rfl := Option.some.inj hg
      exact .inl ⟨hmask, hcovers⟩
    | succ i =>
      refine .inr ⟨i, g, hg, ?_, hcovers⟩
      rw [BitVec.getLsbD_ushiftRight, Nat.add_comm]
      exact hmask
  · rintro (⟨hmask, hcovers⟩ | ⟨i, g, hg, hmask, hcovers⟩)
    · exact ⟨0, f, rfl, hmask, hcovers⟩
    · refine ⟨i + 1, g, hg, ?_, hcovers⟩
      rw [BitVec.getLsbD_ushiftRight, Nat.add_comm] at hmask
      exact hmask

theorem streamBit_createMaskFrom (fields : List FieldMask) :
    ∀ (componentMask : BitVec 64) (m : TemplateMask),
      (∀ f ∈ fields, f.offset + f.length ≤ 8 * templateMaskSize) → ∀ b,
        (streamBit (createMaskFrom fields componentMask m) b = true ↔
          streamBit m b = true ∨ MaskedBit fields componentMask b) := by
  induction fields with
  | nil =>
    intro componentMask m _ b
    show streamBit m b = true ↔ _
    constructor
    · exact Or.inl
    · rintro (h | ⟨i, f, hf, _⟩)
      · exact h
      · nomatch hf
  | cons f fields ih =>
    intro componentMask m hfit b
    unfold createMaskFrom
    by_cases hmask : componentMask = 0
    · rw [if_neg (not_not.mpr hmask)]
      constructor
      · exact Or.inl
      · rintro (h | ⟨i, g, _, hbit, _⟩)
        · exact h
        · rw [hmask] at hbit
          simp at hbit
    rw [if_pos hmask, ih _ _ (fun g hg => hfit g (List.mem_cons_of_mem f hg)), maskedBit_cons]
    have hlow : componentMask &&& 1 ≠ 0 ↔ componentMask.getLsbD 0 = true :=
      and_shift_ne_zero (by decide : 0 < 64)
    by_cases hbit : componentMask.getLsbD 0 = true
    · rw [if_pos (hlow.mpr hbit), streamBit_fillField m f (hfit f List.mem_cons_self), or_assoc]
      simp only [hbit, true_and]
    · rw [if_neg fun h => hbit (hlow.mp h)]
      simp only [hbit, Bool.false_eq_true, false_and, false_or]

theorem saTemplateTestNoinc_iff (m : TemplateMask) (src dst : Nat → BitVec 8) (n : Nat) :
    saTemplateTestNoinc m src dst n = true ↔
      ∀ b < 8 * n, streamBit m b = true → streamBit src b = streamBit dst b := by
  have hbyte : ∀ i, (src i ^^^ dst i) &&& m i = 0 ↔
      ∀ k < 8, (m i).getMsbD k = true → (src i).getMsbD k = (dst i).getMsbD k := by
    intro i
    constructor
    · intro h k _ hk
      have := congrArg (BitVec.getMsbD · k) h
      simpa [hk] using this
    · intro h
      apply BitVec.eq_of_getMsbD_eq
      intro k hk
      rw [BitVec.getMsbD_and, BitVec.getMsbD_xor]
      by_cases hm : (m i).getMsbD k = true
      · simp [h k hk hm]
      · simp [hm]
  unfold saTemplateTestNoinc streamBit
  rw [List.all_eq_true]
  simp only [List.mem_range, decide_eq_true_eq, hbyte]
  constructor
  · intro h b hb
    exact h (b / 8) (by omega) (b % 8) (Nat.mod_lt _ (by decide))
  · intro h i hi k hk
    have hdiv : (8 * i + k) / 8 = i := by omega
    have hmod : (8 * i + k) % 8 = k := by omega
    have := h (8 * i + k) (by omega)
    rwa [hdiv, hmod] at this

theorem saTemplateTest_fields_iff {fields : List FieldMask} {n : Nat}
    (hfit : ∀ f ∈ fields, f.offset + f.length ≤ 8 * n) (hn : n ≤ templateMaskSize)
    (componentMask : BitVec 64) (src dst : Nat → BitVec 8) :
    saTemplateTestNoinc (saCreateTemplateMask fields componentMask) src dst n = true ↔
      ∀ i f, fields[i]? = some f → componentMask.getLsbD i = true →
        ∀ b, f.Covers b → streamBit src b = streamBit dst b := by
  have hmask : ∀ b, streamBit (saCreateTemplateMask fields componentMask) b = true ↔
      MaskedBit fields componentMask b := by
    intro b
    unfold saCreateTemplateMask
    rw [streamBit_createMaskFrom _ _ _ (fun f hf => (hfit f hf).trans (by omega))]
    constructor
    · rintro (h | h)
      · simp [streamBit] at h
      · exact h
    · exact Or.inr
  rw [saTemplateTestNoinc_iff]
  simp only [hmask]
  constructor
  · intro h i f hf hbit b hb
    have hend := hfit f (List.mem_of_getElem? hf)
    exact h b (by unfold FieldMask.Covers at hb; omega) ⟨i, f, hf, hbit, hb⟩
  · rintro h b _ ⟨i, f, hf, hbit, hb⟩
    exact h i f hf hbit b hb

/-! ## Components -/

inductive ServiceComponent where
  | id
  | gid
  | pkey
  | lease
  | key
  | name
  | data8 (i : Fin 16)
  | data16 (i : Fin 8)
  | data32 (i : Fin 4)
  | data64 (i : Fin 2)

namespace ServiceComponent

def isData : ServiceComponent → Bool
  | data8 _ | data16 _ | data32 _ | data64 _ => true
  | _ => false

def ibBit : ServiceComponent → Nat
  | id => 0
  | gid => 1
  | pkey => 2
  | lease => 4
  | key => 5
  | name => 6
  | data8 i => 7 + i
  | data16 i => 23 + i
  | data32 i => 31 + i
  | data64 i => 35 + i

def stlBit : ServiceComponent → Nat
  | id => 0
  | gid => 4
  | pkey => 2
  | lease => 5
  | key => 7
  | name => 8
  | data8 i => 9 + i
  | data16 i => 25 + i
  | data32 i => 33 + i
  | data64 i => 37 + i

def width : ServiceComponent → Nat
  | id => 64
  | gid => 128
  | pkey => 16
  | lease => 32
  | key => 128
  | name => 512
  | data8 _ => 8
  | data16 _ => 16
  | data32 _ => 32
  | data64 _ => 64

def value (r : ServiceRecord) : (c : ServiceComponent) → BitVec c.width
  | id => r.serviceId
  | gid => r.serviceGid
  | pkey => r.servicePKey
  | lease => r.serviceLease
  | key => r.serviceKey
  | name => r.serviceName
  | data8 i => r.serviceData.extractLsb' (504 - 8 * i) 8
  | data16 i => r.serviceData.extractLsb' (368 - 16 * i) 16
  | data32 i => r.serviceData.extractLsb' (224 - 32 * i) 32
  | data64 i => r.serviceData.extractLsb' (64 - 64 * i) 64

def offset : ServiceComponent → Nat
  | id => 0
  | gid => 128
  | pkey => 96
  | lease => 256
  | key => 320
  | name => 448
  | data8 i => 960 + 8 * i
  | data16 i => 1088 + 16 * i
  | data32 i => 1216 + 32 * i
  | data64 i => 1344 + 64 * i

end ServiceComponent

/-- A record agrees with a template in the components that a mask of an IB query names. -/
def Answers (mask : BitVec 64) (template answer : ServiceRecord) (c : ServiceComponent) : Prop :=
  mask.getLsbD c.ibBit = true → c.value template = c.value answer

def stlComponentMask (mask : BitVec 64) : BitVec 64 :=
  mask &&& 5#64 ||| (mask &&& 2#64) <<< 3 ||| (mask &&& 0x10#64) <<< 1 |||
    (mask &&& 0x20#64) <<< 2 ||| (mask >>> 6) <<< 8

theorem stlComponentMask_high (mask : BitVec 64) {k : Nat} (hk : 8 ≤ k) (hlt : k < 64) :
    (stlComponentMask mask).getLsbD k = mask.getLsbD (k - 2) := by
  have hlow : ∀ n j, n < 64 → 6 ≤ j → (BitVec.ofNat 64 n).getLsbD j = false := by
    intro n j hn hj
    have hpow : n < 2 ^ j := calc
      n < 2 ^ 6 := hn
      _ ≤ 2 ^ j := Nat.pow_le_pow_right (by decide) hj
    rw [BitVec.getLsbD_ofNat, Nat.testBit_lt_two_pow hpow, Bool.and_false]
  have htwo : (2#64).getLsbD (k - 3) = false := by
    by_cases h : k - 3 = 5
    · rw [h]; rfl
    · exact hlow 2 _ (by decide) (by omega)
  have hsub : 6 + (k - 8) = k - 2 := by omega
  unfold stlComponentMask
  simp only [BitVec.getLsbD_or, BitVec.getLsbD_shiftLeft, BitVec.getLsbD_and,
    BitVec.getLsbD_ushiftRight, hsub, hlow 5 k (by decide) (by omega), htwo,
    hlow 0x10 (k - 1) (by decide) (by omega), hlow 0x20 (k - 2) (by decide) (by omega)]
  simp [hlt, hk]

theorem stlComponentMask_bit (mask : BitVec 64) (c : ServiceComponent) :
    (stlComponentMask mask).getLsbD c.stlBit = mask.getLsbD c.ibBit := by
  have hhigh : 6 ≤ c.ibBit → c.ibBit < 62 → c.stlBit = c.ibBit + 2 →
      (stlComponentMask mask).getLsbD c.stlBit = mask.getLsbD c.ibBit := by
    intro hlo hhi heq
    rw [heq]
    exact stlComponentMask_high mask (by omega) (by omega)
  cases c with
  | id => simp [ServiceComponent.stlBit, ServiceComponent.ibBit, stlComponentMask]
  | gid => simp [ServiceComponent.stlBit, ServiceComponent.ibBit, stlComponentMask]
  | pkey => simp [ServiceComponent.stlBit, ServiceComponent.ibBit, stlComponentMask]
  | lease => simp [ServiceComponent.stlBit, ServiceComponent.ibBit, stlComponentMask]
  | key => simp [ServiceComponent.stlBit, ServiceComponent.ibBit, stlComponentMask]
  | name => exact hhigh (by decide) (by decide) rfl
  | data8 i =>
    simp only [ServiceComponent.stlBit, ServiceComponent.ibBit] at hhigh ⊢
    exact hhigh (by omega) (by omega) (by omega)
  | data16 i =>
    simp only [ServiceComponent.stlBit, ServiceComponent.ibBit] at hhigh ⊢
    exact hhigh (by omega) (by omega) (by omega)
  | data32 i =>
    simp only [ServiceComponent.stlBit, ServiceComponent.ibBit] at hhigh ⊢
    exact hhigh (by omega) (by omega) (by omega)
  | data64 i =>
    simp only [ServiceComponent.stlBit, ServiceComponent.ibBit] at hhigh ⊢
    exact hhigh (by omega) (by omega) (by omega)

theorem stlComponentMask_other (mask : BitVec 64) {i : Nat} (hi : i = 1 ∨ i = 3 ∨ i = 6) :
    (stlComponentMask mask).getLsbD i = false := by
  rcases hi with rfl | rfl | rfl <;> simp [stlComponentMask]

/-! ## The records that pass -/

theorem stlServiceRecordFieldMask_component (c : ServiceComponent) :
    stlServiceRecordFieldMask[c.stlBit]? = some ⟨c.offset, c.width⟩ := by
  cases c with
  | data8 i => revert i; decide
  | data16 i => revert i; decide
  | data32 i => revert i; decide
  | data64 i => revert i; decide
  | _ => rfl

theorem exists_component {i : Nat} (hi : i < 39) :
    (i = 1 ∨ i = 3 ∨ i = 6) ∨ ∃ c : ServiceComponent, c.stlBit = i := by
  by_cases h9 : i < 9
  · have hfew : ∀ j < 9, (j = 1 ∨ j = 3 ∨ j = 6) ∨
        j = 0 ∨ j = 4 ∨ j = 2 ∨ j = 5 ∨ j = 7 ∨ j = 8 := by
      decide
    rcases hfew i h9 with h | rfl | rfl | rfl | rfl | rfl | rfl
    · exact .inl h
    · exact .inr ⟨.id, rfl⟩
    · exact .inr ⟨.gid, rfl⟩
    · exact .inr ⟨.pkey, rfl⟩
    · exact .inr ⟨.lease, rfl⟩
    · exact .inr ⟨.key, rfl⟩
    · exact .inr ⟨.name, rfl⟩
  · right
    by_cases h25 : i < 25
    · exact ⟨.data8 ⟨i - 9, by omega⟩, by show 9 + (i - 9) = i; omega⟩
    by_cases h33 : i < 33
    · exact ⟨.data16 ⟨i - 25, by omega⟩, by show 25 + (i - 25) = i; omega⟩
    by_cases h37 : i < 37
    · exact ⟨.data32 ⟨i - 33, by omega⟩, by show 33 + (i - 33) = i; omega⟩
    · exact ⟨.data64 ⟨i - 37, by omega⟩, by show 37 + (i - 37) = i; omega⟩

theorem getMsbD_slice {w : Nat} (x : BitVec w) {lo len k : Nat} (hfit : lo + len ≤ w)
    (hk : k < len) : (x.extractLsb' lo len).getMsbD k = x.getMsbD (w - (lo + len) + k) := by
  rw [BitVec.getMsbD_eq_getLsbD, BitVec.getLsbD_extractLsb', BitVec.getMsbD_eq_getLsbD]
  have hin : len - 1 - k < len := by omega
  have hout : w - (lo + len) + k < w := by omega
  have hbit : w - 1 - (w - (lo + len) + k) = lo + (len - 1 - k) := by omega
  simp only [hk, hin, hout, hbit, decide_true, Bool.true_and]

theorem wire_dataSlice (r : ServiceRecord) {lo len start k : Nat} (hdata : 960 ≤ start)
    (hstart : start + lo + len = 1472) (hk : k < len) :
    r.wire.getMsbD (start + k) = (r.serviceData.extractLsb' lo len).getMsbD k := by
  rw [getMsbD_slice _ (by omega) hk]
  unfold ServiceRecord.wire
  rw [BitVec.getMsbD_append, if_pos (by omega)]
  exact congrArg _ (by omega)

theorem wire_component (r : ServiceRecord) (c : ServiceComponent) {k : Nat} (hk : k < c.width) :
    r.wire.getMsbD (c.offset + k) = (c.value r).getMsbD k := by
  cases c with
  | data8 i =>
    have hdata : 960 ≤ 960 + 8 * i.val := by omega
    have hplace : 960 + 8 * i.val + (504 - 8 * i.val) + 8 = 1472 := by omega
    exact wire_dataSlice r hdata hplace hk
  | data16 i =>
    have hdata : 960 ≤ 1088 + 16 * i.val := by omega
    have hplace : 1088 + 16 * i.val + (368 - 16 * i.val) + 16 = 1472 := by omega
    exact wire_dataSlice r hdata hplace hk
  | data32 i =>
    have hdata : 960 ≤ 1216 + 32 * i.val := by omega
    have hplace : 1216 + 32 * i.val + (224 - 32 * i.val) + 32 = 1472 := by omega
    exact wire_dataSlice r hdata hplace hk
  | data64 i =>
    have hdata : 960 ≤ 1344 + 64 * i.val := by omega
    have hplace : 1344 + 64 * i.val + (64 - 64 * i.val) + 64 = 1472 := by omega
    exact wire_dataSlice r hdata hplace hk
  | _ =>
    simp only [ServiceComponent.width] at hk
    unfold ServiceRecord.wire
    simp (disch := omega) only [ServiceComponent.offset, ServiceComponent.value,
      BitVec.getMsbD_append, if_pos, if_neg]
    exact congrArg _ (by omega)

theorem sameBits_iff (q r : ServiceRecord) (c : ServiceComponent) :
    (∀ b, FieldMask.Covers ⟨c.offset, c.width⟩ b → q.wire.getMsbD b = r.wire.getMsbD b) ↔
      c.value q = c.value r := by
  constructor
  · intro h
    apply BitVec.eq_of_getMsbD_eq
    intro k hk
    rw [← wire_component q c hk, ← wire_component r c hk]
    exact h _ ⟨Nat.le_add_right _ _, Nat.add_lt_add_left hk _⟩
  · intro h b hb
    obtain ⟨k, rfl⟩ := Nat.exists_eq_add_of_le hb.1
    have hk : k < c.width := Nat.lt_of_add_lt_add_left hb.2
    rw [wire_component q c hk, wire_component r c hk, h]

theorem streamBit_wireByte (r : ServiceRecord) {b : Nat} (hb : b < 1472) :
    streamBit r.wireByte b = r.wire.getMsbD b := by
  unfold streamBit ServiceRecord.wireByte
  rw [getMsbD_slice _ (by omega) (Nat.mod_lt _ (by decide))]
  exact congrArg _ (by omega)

theorem stlTemplatePasses_iff (mask : BitVec 64) (q r : ServiceRecord) :
    stlTemplatePasses (stlComponentMask mask) q r = true ↔ ∀ c, Answers mask q r c := by
  have hsmall : ∀ f ∈ stlServiceRecordFieldMask,
      f.offset + f.length ≤ 8 * stlServiceRecordSize := by
    decide
  have hbits : ∀ c : ServiceComponent, (∀ b, FieldMask.Covers ⟨c.offset, c.width⟩ b →
      streamBit q.wireByte b = streamBit r.wireByte b) ↔ c.value q = c.value r := by
    intro c
    rw [← sameBits_iff]
    refine forall_congr' fun b => imp_congr_right fun hb => ?_
    have hend : b < 1472 := Nat.lt_of_lt_of_le hb.2
      (hsmall _ (List.mem_of_getElem? (stlServiceRecordFieldMask_component c)))
    rw [streamBit_wireByte q hend, streamBit_wireByte r hend]
  unfold stlTemplatePasses
  rw [saTemplateTest_fields_iff hsmall (by decide)]
  constructor
  · intro h c hc
    rw [← hbits]
    exact h _ _ (stlServiceRecordFieldMask_component c) ((stlComponentMask_bit mask c).trans hc)
  · intro h i f hf hbit
    have hi : i < 39 := (List.getElem?_eq_some_iff.mp hf).1
    rcases exists_component hi with hother | ⟨c, rfl⟩
    · rw [stlComponentMask_other mask hother] at hbit
      nomatch hbit
    · obtain rfl := Option.some.inj ((stlServiceRecordFieldMask_component c).symm.trans hf)
      rw [stlComponentMask_bit] at hbit
      exact (hbits c).mpr (h c hbit)

theorem passes_step {p : Prop} [Decidable p] {α : Type} [DecidableEq α] {x y : α} {rest : Bool} :
    (if p ∧ x ≠ y then false else rest) = true ↔ (p → x = y) ∧ rest = true := by
  by_cases h : p ∧ x ≠ y
  · rw [if_pos h]
    constructor
    · intro hfalse
      nomatch hfalse
    · intro hall
      exact absurd (hall.1 h.1) h.2
  · rw [if_neg h]
    constructor
    · intro hrest
      exact ⟨fun hp => not_not.mp fun hne => h ⟨hp, hne⟩, hrest⟩
    · exact And.right

theorem ibQueryPasses_iff (mask : BitVec 64) (q r : ServiceRecord) :
    ibQueryPasses mask q r = true ↔
      ∀ c : ServiceComponent, c.isData = false → Answers mask q r c := by
  have hsplit : ibQueryPasses mask q r = true ↔
      Answers mask q r .id ∧ Answers mask q r .pkey ∧ Answers mask q r .gid ∧
        Answers mask q r .lease ∧ Answers mask q r .key ∧ Answers mask q r .name := by
    have hid : mask &&& srComponentmaskId ≠ 0 ↔ mask.getLsbD 0 = true :=
      and_shift_ne_zero (by decide : 0 < 64)
    have hgid : mask &&& srComponentmaskGid ≠ 0 ↔ mask.getLsbD 1 = true :=
      and_shift_ne_zero (by decide : 1 < 64)
    have hpkey : mask &&& srComponentmaskPkey ≠ 0 ↔ mask.getLsbD 2 = true :=
      and_shift_ne_zero (by decide : 2 < 64)
    have hlease : mask &&& srComponentmaskLease ≠ 0 ↔ mask.getLsbD 4 = true :=
      and_shift_ne_zero (by decide : 4 < 64)
    have hkey : mask &&& srComponentmaskKey ≠ 0 ↔ mask.getLsbD 5 = true :=
      and_shift_ne_zero (by decide : 5 < 64)
    have hname : mask &&& srComponentmaskName ≠ 0 ↔ mask.getLsbD 6 = true :=
      and_shift_ne_zero (by decide : 6 < 64)
    unfold ibQueryPasses
    rw [passes_step, passes_step, passes_step, passes_step, passes_step, passes_step,
      hid, hgid, hpkey, hlease, hkey, hname]
    simp only [and_true]
    rfl
  rw [hsplit]
  constructor
  · rintro ⟨hid, hpkey, hgid, hlease, hkey, hname⟩ c hc
    cases c with
    | id => exact hid
    | gid => exact hgid
    | pkey => exact hpkey
    | lease => exact hlease
    | key => exact hkey
    | name => exact hname
    | _ => nomatch hc
  · intro h
    exact ⟨h .id rfl, h .pkey rfl, h .gid rfl, h .lease rfl, h .key rfl, h .name rfl⟩

/-! ## Replies -/

def consulted (env : QueryEnv) (t : ServiceTable) : List (ServiceRecKey × OpaServiceRecord) :=
  if env.lock = true ∧ t.entrycount > 0 then t.entries else []

def isReported (env : QueryEnv) (passes : ServiceRecord → Bool)
    (x : ServiceRecKey × OpaServiceRecord) : Bool :=
  passes x.2.serviceRecord && !filtersRecord env x.1 x.2

/-- A record passes after as many have been reported as there is room for. -/
def RunsOut (env : QueryEnv) (passes : ServiceRecord → Bool) (room : Nat)
    (l : List (ServiceRecKey × OpaServiceRecord)) : Prop :=
  ∃ before x after, l = before ++ x :: after ∧ passes x.2.serviceRecord = true ∧
    room ≤ (before.filter (isReported env passes)).length

theorem runsOut_cons (env : QueryEnv) (passes : ServiceRecord → Bool) (room : Nat)
    (y : ServiceRecKey × OpaServiceRecord) (l : List (ServiceRecKey × OpaServiceRecord)) :
    RunsOut env passes room (y :: l) ↔
      (passes y.2.serviceRecord = true ∧ room = 0) ∨
        RunsOut env passes (if isReported env passes y then room - 1 else room) l := by
  unfold RunsOut
  have hcount : ∀ before : List (ServiceRecKey × OpaServiceRecord),
      room ≤ ((y :: before).filter (isReported env passes)).length ↔
        (if isReported env passes y then room - 1 else room) ≤
          (before.filter (isReported env passes)).length := by
    intro before
    by_cases hy : isReported env passes y = true
    · rw [List.filter_cons_of_pos hy, if_pos hy, List.length_cons]
      omega
    · rw [List.filter_cons_of_neg hy, if_neg hy]
  constructor
  · rintro ⟨before, x, after, hl, hpasses, hroom⟩
    cases before with
    | nil =>
      obtain ⟨rfl, rfl⟩ := List.cons.inj hl
      exact .inl ⟨hpasses, Nat.le_zero.mp hroom⟩
    | cons z before =>
      obtain ⟨rfl, rfl⟩ := List.cons.inj hl
      exact .inr ⟨before, x, after, rfl, hpasses, (hcount before).mp hroom⟩
  · rintro (⟨hpasses, rfl⟩ | ⟨before, x, after, rfl, hpasses, hroom⟩)
    · exact ⟨[], y, l, rfl, hpasses, Nat.zero_le _⟩
    · exact ⟨y :: before, x, after, rfl, hpasses, (hcount before).mpr hroom⟩

theorem tableRecords_spec (env : QueryEnv) (passes : ServiceRecord → Bool)
    (l : List (ServiceRecKey × OpaServiceRecord)) : ∀ room,
      (RunsOut env passes room l → (tableRecords env passes room l).2 = true) ∧
      (¬RunsOut env passes room l → tableRecords env passes room l =
        ((l.filter (isReported env passes)).map fun x => (x.1, reportedRecord env x.2),
          false)) := by
  induction l with
  | nil =>
    intro room
    refine ⟨?_, fun _ => rfl⟩
    rintro ⟨before, x, after, hl, _⟩
    exact absurd hl (by simp)
  | cons y l ih =>
    intro room
    rw [runsOut_cons]
    by_cases hpasses : passes y.2.serviceRecord = true
    case neg =>
      have hout : ¬isReported env passes y = true := by simp [isReported, hpasses]
      have hnext : tableRecords env passes room (y :: l) = tableRecords env passes room l := by
        rw [tableRecords.eq_def]
        exact if_pos (by simp [hpasses])
      rw [hnext, List.filter_cons_of_neg hout, if_neg hout]
      simp only [hpasses, Bool.false_eq_true, false_and, false_or]
      exact ih room
    cases room with
    | zero =>
      have hend : tableRecords env passes 0 (y :: l) = ([], true) := by
        rw [tableRecords, if_neg (by simp [hpasses])]
      exact ⟨fun _ => by rw [hend], fun h => absurd (.inl ⟨hpasses, rfl⟩) h⟩
    | succ room =>
      simp only [Nat.add_eq_zero_iff, one_ne_zero, and_false, false_or]
      by_cases hfilters : filtersRecord env y.1 y.2 = true
      · have hout : ¬isReported env passes y = true := by simp [isReported, hfilters]
        have hnext : tableRecords env passes (room + 1) (y :: l) =
            tableRecords env passes (room + 1) l := by
          rw [tableRecords, if_neg (by simp [hpasses])]
          dsimp only
          rw [if_pos hfilters]
        rw [hnext, List.filter_cons_of_neg hout, if_neg hout]
        exact ih (room + 1)
      · have hin : isReported env passes y = true := by simp [isReported, hpasses, hfilters]
        have hnext : tableRecords env passes (room + 1) (y :: l) =
            ((y.1, reportedRecord env y.2) :: (tableRecords env passes room l).1,
              (tableRecords env passes room l).2) := by
          rw [tableRecords, if_neg (by simp [hpasses])]
          dsimp only
          rw [if_neg hfilters]
        rw [hnext, List.filter_cons_of_pos hin, if_pos hin, List.map_cons]
        refine ⟨(ih room).1, fun h => ?_⟩
        rw [(ih room).2 h]

def asIb (x : ServiceRecKey × ServiceRecord) : ServiceRecKey × ServiceRecord :=
  (x.1, { x.2 with serviceLid := 0 })

def reportOf (env : QueryEnv) (x : ServiceRecKey × OpaServiceRecord) :
    ServiceRecKey × ServiceRecord :=
  (x.1, reportedRecord env x.2)

theorem queryTable_spec (env : QueryEnv) (t : ServiceTable) (passes : ServiceRecord → Bool) :
    (RunsOut env passes env.room (consulted env t) →
        (queryTable env t passes).2 = some madStatusSaNoResources) ∧
      (¬RunsOut env passes env.room (consulted env t) → queryTable env t passes =
        (((consulted env t).filter (isReported env passes)).map (reportOf env), none)) := by
  by_cases hlooks : env.lock = true ∧ t.entrycount > 0
  · have hconsulted : consulted env t = t.entries := if_pos hlooks
    have hquery : queryTable env t passes = ((tableRecords env passes env.room t.entries).1,
        if (tableRecords env passes env.room t.entries).2 then some madStatusSaNoResources
        else none) := by
      unfold queryTable
      rw [if_neg (by simp [hlooks.1]), if_pos hlooks.2]
    obtain ⟨hout, hall⟩ := tableRecords_spec env passes t.entries env.room
    rw [hconsulted, hquery]
    exact ⟨fun h => by rw [hout h]; rfl, fun h => by rw [hall h]; rfl⟩
  · have hconsulted : consulted env t = [] := if_neg hlooks
    have hquery : queryTable env t passes = ([], none) := by
      unfold queryTable
      by_cases hlock : env.lock = true
      · rw [if_neg (by simp [hlock]), if_neg fun h => hlooks ⟨hlock, h⟩]
      · rw [if_pos (by simp [hlock])]
    rw [hconsulted, hquery]
    refine ⟨?_, fun _ => rfl⟩
    rintro ⟨before, x, after, hl, _⟩
    exact absurd hl (by simp)

@[simp] theorem serviceReply_none_fst (l : List (ServiceRecKey × ServiceRecord)) :
    (serviceReply (l, none)).1 = l := by
  unfold serviceReply
  dsimp only
  split
  next h => exact (List.length_eq_zero_iff.mp h).symm
  next => rfl

theorem serviceReply_none_ne (l : List (ServiceRecKey × ServiceRecord)) :
    (serviceReply (l, none)).2 ≠ madStatusSaNoResources := by
  unfold serviceReply
  dsimp only
  split
  next => decide
  next => exact Nat.zero_ne_add_one _

instance (mask : BitVec 64) (q r : ServiceRecord) : Decidable (∀ c, Answers mask q r c) :=
  decidable_of_iff _ (stlTemplatePasses_iff mask q r)

def isWanted (env : QueryEnv) (mask : BitVec 64) (q : ServiceRecord)
    (x : ServiceRecKey × OpaServiceRecord) : Bool :=
  decide (∀ c, Answers mask q x.2.serviceRecord c) && !filtersRecord env x.1 x.2

/-- What is to be replied: the stored records that agree with the template in all masked
components, but for those that are kept from the requester. -/
def wantedReply (env : QueryEnv) (t : ServiceTable) (mask : BitVec 64) (q : ServiceRecord) :
    List (ServiceRecKey × ServiceRecord) × Nat :=
  serviceReply ((((consulted env t).filter (isWanted env mask q)).map (reportOf env)).map asIb,
    none)

def replyAsIb (reply : List (ServiceRecKey × ServiceRecord) × Nat) :
    List (ServiceRecKey × ServiceRecord) × Nat :=
  (reply.1.map asIb, reply.2)

theorem replyAsIb_serviceReply (found : List (ServiceRecKey × ServiceRecord) × Option Nat) :
    replyAsIb (serviceReply found) = serviceReply (found.1.map asIb, found.2) := by
  unfold replyAsIb serviceReply
  cases found.2 with
  | some status => rfl
  | none =>
    dsimp only
    rw [List.length_map]
    split <;> rfl

theorem queryReply_eq_iff (env : QueryEnv) (room : Nat) (t : ServiceTable) (mask : BitVec 64)
    (q : ServiceRecord) {passes : ServiceRecord → Bool}
    (hpasses : ∀ r, (∀ c, Answers mask q r c) → passes r = true) :
    serviceReply ((queryTable { env with room := room } t passes).1.map asIb,
          (queryTable { env with room := room } t passes).2) = wantedReply env t mask q ↔
      ¬RunsOut env passes room (consulted env t) ∧
        ∀ x ∈ consulted env t, isReported env passes x = true →
          ∀ c, Answers mask q x.2.serviceRecord c := by
  obtain ⟨hout, hall⟩ := queryTable_spec { env with room := room } t passes
  change RunsOut env passes room (consulted env t) → _ at hout
  change ¬RunsOut env passes room (consulted env t) →
    queryTable { env with room := room } t passes =
      (((consulted env t).filter (isReported env passes)).map (reportOf env), none) at hall
  by_cases hruns : RunsOut env passes room (consulted env t)
  · refine ⟨fun h => ?_, fun h => absurd hruns h.1⟩
    rw [hout hruns] at h
    exact absurd (congrArg Prod.snd h).symm (serviceReply_none_ne _)
  rw [hall hruns]
  have hwanted : ∀ x, isWanted env mask q x = true ↔
      isReported env passes x = true ∧ ∀ c, Answers mask q x.2.serviceRecord c := by
    intro x
    unfold isWanted isReported
    rw [Bool.and_eq_true, Bool.and_eq_true, decide_eq_true_eq]
    constructor
    · rintro ⟨h, hkept⟩
      exact ⟨⟨hpasses _ h, hkept⟩, h⟩
    · rintro ⟨⟨_, hkept⟩, h⟩
      exact ⟨h, hkept⟩
  have hfilter : (consulted env t).filter (isWanted env mask q) =
      ((consulted env t).filter (isReported env passes)).filter (isWanted env mask q) := by
    rw [List.filter_filter]
    apply List.filter_congr
    intro x _
    rw [Bool.eq_iff_iff, Bool.and_eq_true]
    exact ⟨fun h => ⟨h, ((hwanted x).mp h).1⟩, And.left⟩
  unfold wantedReply
  rw [hfilter]
  constructor
  · intro h
    have hlists := congrArg Prod.fst h
    rw [serviceReply_none_fst, serviceReply_none_fst] at hlists
    have hlength := congrArg List.length hlists
    simp only [List.length_map] at hlength
    refine ⟨hruns, fun x hx hreported => ?_⟩
    have hall := List.length_filter_eq_length_iff.mp hlength.symm
    exact ((hwanted x).mp (hall x (List.mem_filter.mpr ⟨hx, hreported⟩))).2
  · rintro ⟨-, h⟩
    have hall : ((consulted env t).filter (isReported env passes)).filter (isWanted env mask q) =
        (consulted env t).filter (isReported env passes) := by
      rw [List.filter_eq_self]
      intro x hx
      obtain ⟨hmem, hreported⟩ := List.mem_filter.mp hx
      exact (hwanted x).mpr ⟨hreported, h x hmem hreported⟩
    rw [hall]

theorem stlServiceReply_eq_iff (env : QueryEnv) (saDataLength : Nat) (t : ServiceTable)
    (mask : BitVec 64) (q : ServiceRecord) :
    replyAsIb (stlServiceReply env saDataLength t (stlComponentMask mask) q) =
        wantedReply env t mask q ↔
      ¬RunsOut env (stlTemplatePasses (stlComponentMask mask) q)
        (recordRoom saDataLength stlServiceRecordSize) (consulted env t) := by
  unfold stlServiceReply saServiceRecordGetTable
  rw [replyAsIb_serviceReply, queryReply_eq_iff env _ t mask q
    fun r hr => (stlTemplatePasses_iff mask q r).mpr hr]
  refine ⟨And.left, fun h => ⟨h, fun x _ hx => (stlTemplatePasses_iff mask q _).mp ?_⟩⟩
  exact (Bool.and_eq_true _ _ ▸ hx).1

theorem ibServiceReply_eq_iff (env : QueryEnv) (saDataLength : Nat) (t : ServiceTable)
    (mask : BitVec 64) (q : ServiceRecord) :
    ibServiceReply env saDataLength t mask q = wantedReply env t mask q ↔
      ¬RunsOut env (ibQueryPasses mask q) (recordRoom saDataLength ibServiceRecordSize)
          (consulted env t) ∧
        ∀ x ∈ consulted env t, isReported env (ibQueryPasses mask q) x = true →
          ∀ c : ServiceComponent, c.isData = true → Answers mask q x.2.serviceRecord c := by
  have hspec : ibServiceReply env saDataLength t mask q =
      serviceReply ((queryTable { env with room := recordRoom saDataLength ibServiceRecordSize } t
          (ibQueryPasses mask q)).1.map asIb,
        (queryTable { env with room := recordRoom saDataLength ibServiceRecordSize } t
          (ibQueryPasses mask q)).2) := rfl
  rw [hspec, queryReply_eq_iff env _ t mask q
    fun r hr => (ibQueryPasses_iff mask q r).mpr fun c _ => hr c]
  refine and_congr_right fun _ => forall₂_congr fun x _ => ?_
  constructor
  · intro h hx c _
    exact h hx c
  · intro h hx c
    cases hc : c.isData with
    | true => exact h hx c hc
    | false =>
      have hpass : ibQueryPasses mask q x.2.serviceRecord = true := (Bool.and_eq_true _ _ ▸ hx).1
      exact (ibQueryPasses_iff mask q _).mp hpass c hc

/-- Both formats get exactly the records that agree in all masked components when neither reply
runs out of room and no record that agrees in the components tested one by one differs in masked
data. -/
theorem serviceReplies_agree_iff (env : QueryEnv) (saDataLength : Nat) (t : ServiceTable)
    (mask : BitVec 64) (q : ServiceRecord) :
    (ibServiceReply env saDataLength t mask q =
          replyAsIb (stlServiceReply env saDataLength t (stlComponentMask mask) q) ∧
        replyAsIb (stlServiceReply env saDataLength t (stlComponentMask mask) q) =
          wantedReply env t mask q) ↔
      ¬RunsOut env (stlTemplatePasses (stlComponentMask mask) q)
          (recordRoom saDataLength stlServiceRecordSize) (consulted env t) ∧
        ¬RunsOut env (ibQueryPasses mask q) (recordRoom saDataLength ibServiceRecordSize)
          (consulted env t) ∧
        ∀ x ∈ consulted env t, isReported env (ibQueryPasses mask q) x = true →
          ∀ c : ServiceComponent, c.isData = true → Answers mask q x.2.serviceRecord c := by
  rw [← stlServiceReply_eq_iff, ← ibServiceReply_eq_iff env saDataLength t mask q]
  constructor
  · rintro ⟨hsame, hstl⟩
    exact ⟨hstl, hsame.trans hstl⟩
  · rintro ⟨hstl, hib⟩
    exact ⟨hib.trans hstl.symm, hstl⟩

def secondQuery : QueryEnv := ⟨1000000, true, fun _ => true, 0, true⟩

def otherData : ServiceRecord := { ServiceRun.tenSeconds with serviceData := 1#512 <<< 504 }

theorem consulted_ten {t : ServiceTable} (ht : saServiceRecInit true = some t) :
    ((consulted secondQuery (ServiceRun.tableAfter t ServiceRun.addTenSeconds)).any fun x =>
      isReported secondQuery (ibQueryPasses 0x80 otherData) x &&
        decide (ServiceComponent.value otherData (.data8 0) ≠
          ServiceComponent.value x.2.serviceRecord (.data8 0))) = true := by
  obtain rfl := Option.some.inj ht
  decide +kernel

/-- The IB query returns the only record, although its data differ in the byte that is asked for. -/
theorem not_serviceReplies_agree :
    ∃ t, saServiceRecInit true = some t ∧
      ¬(ibServiceReply secondQuery 4096 (ServiceRun.tableAfter t ServiceRun.addTenSeconds) 0x80
            otherData =
          replyAsIb (stlServiceReply secondQuery 4096
            (ServiceRun.tableAfter t ServiceRun.addTenSeconds) (stlComponentMask 0x80) otherData) ∧
        replyAsIb (stlServiceReply secondQuery 4096
            (ServiceRun.tableAfter t ServiceRun.addTenSeconds) (stlComponentMask 0x80) otherData) =
          wantedReply secondQuery (ServiceRun.tableAfter t ServiceRun.addTenSeconds) 0x80
            otherData) := by
  obtain ⟨t, ht⟩ : ∃ t, saServiceRecInit true = some t := ⟨_, rfl⟩
  refine ⟨t, ht, ?_⟩
  rintro ⟨hsame, hwanted⟩
  have hib := ((ibServiceReply_eq_iff _ _ _ _ _).mp (hsame.trans hwanted)).2
  obtain ⟨x, hx, hdiffers⟩ := List.any_eq_true.mp (consulted_ten ht)
  rw [Bool.and_eq_true, decide_eq_true_eq] at hdiffers
  exact hdiffers.2 (hib x hx hdiffers.1 (.data8 0) rfl rfl)

end OpaFm.Sa
