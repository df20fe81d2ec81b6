import OpaFm.Partition.NodeDescription
import OpaFm.Partition.Proofs.DescriptionArrays
import Mathlib.Algebra.Order.Ring.Nat
import Mathlib.Data.List.TakeWhile
import Mathlib.Tactic.Ring

/-!
# Ranges of numbers

What `processBracketSyntax` finds in a range, and the numbers that `isNumberInRange` takes for
it.
-/

namespace OpaFm.Partition

/-! ## Numbers as text -/

structure Digits where
  text : List Char
  digits : ∀ c ∈ text, c.isDigit
  nonempty : text ≠ []

def leadingZeros (text : List Char) : Nat := (text.takeWhile (· = '0')).length

def significant (text : List Char) : Nat := (text.dropWhile (· = '0')).length

def value (text : List Char) : Nat :=
  text.foldl (fun v c => 10 * v + (c.toNat - '0'.toNat)) 0

def padding (text : List Char) : Nat := if text = ['0'] then 0 else leadingZeros text

def counted (text : List Char) : Nat := if text = ['0'] then 1 else significant text

theorem leadingZeros_add_significant (text : List Char) :
    leadingZeros text + significant text = text.length := by
  unfold leadingZeros significant
  rw [← List.length_append, List.takeWhile_append_dropWhile]

theorem drop_leadingZeros (text : List Char) :
    text.drop (leadingZeros text) = text.dropWhile (· = '0') :=
  drop_takeWhile_length _ text

theorem padding_add_counted (text : List Char) : padding text + counted text = text.length := by
  have hsplit := leadingZeros_add_significant text
  unfold padding counted
  split
  · next h => simp [h]
  · exact hsplit

@[simp] theorem leadingZeros_zero (cs : List Char) :
    leadingZeros ('0' :: cs) = leadingZeros cs + 1 := by
  simp [leadingZeros]

@[simp] theorem significant_zero (cs : List Char) : significant ('0' :: cs) = significant cs := by
  simp [significant]

theorem leadingZeros_of_ne {c : Char} (hc : c ≠ '0') (cs : List Char) :
    leadingZeros (c :: cs) = 0 := by
  simp [leadingZeros, hc]

theorem significant_of_ne {c : Char} (hc : c ≠ '0') (cs : List Char) :
    significant (c :: cs) = cs.length + 1 := by
  simp [significant, hc]

theorem isZero_iff (text : List Char) :
    text = ['0'] ↔ significant text = 0 ∧ leadingZeros text = 1 := by
  constructor
  · intro h
    simp [h, significant, leadingZeros]
  · intro h
    have hlength := leadingZeros_add_significant text
    obtain ⟨c, rfl⟩ := List.length_eq_one_iff.1 (show text.length = 1 by omega)
    by_cases hc : c = '0'
    · rw [hc]
    · rw [leadingZeros_of_ne hc] at h
      omega

theorem foldl_value (text : List Char) (v : Nat) :
    text.foldl (fun v c => 10 * v + (c.toNat - '0'.toNat)) v =
      v * 10 ^ text.length + value text := by
  unfold value
  induction text generalizing v with
  | nil => simp
  | cons c cs ih =>
    rw [List.foldl_cons, List.foldl_cons, ih, ih (10 * 0 + _), List.length_cons]
    ring

theorem value_cons (c : Char) (cs : List Char) :
    value (c :: cs) = (c.toNat - '0'.toNat) * 10 ^ cs.length + value cs := by
  rw [value, List.foldl_cons, foldl_value]
  ring

theorem toNat_of_isDigit {c : Char} (hc : c.isDigit) : 48 ≤ c.toNat ∧ c.toNat ≤ 57 := by
  simpa [Char.isDigit, UInt32.le_iff_toNat_le] using hc

theorem value_lt {text : List Char} (h : ∀ c ∈ text, c.isDigit) :
    value text < 10 ^ text.length := by
  induction text with
  | nil => simp [value]
  | cons c cs ih =>
    have hc := toNat_of_isDigit (h c List.mem_cons_self)
    have hcs := ih fun d hd => h d (List.mem_cons_of_mem c hd)
    have hdigit : (c.toNat - '0'.toNat) * 10 ^ cs.length ≤ 9 * 10 ^ cs.length :=
      Nat.mul_le_mul_right _ (by simp; omega)
    calc value (c :: cs) = (c.toNat - '0'.toNat) * 10 ^ cs.length + value cs := value_cons c cs
      _ < 9 * 10 ^ cs.length + 10 ^ cs.length := by omega
      _ = 10 ^ (c :: cs).length := by rw [List.length_cons]; ring

theorem value_dropWhile (text : List Char) : value (text.dropWhile (· = '0')) = value text := by
  induction text with
  | nil => rfl
  | cons c cs ih =>
    by_cases hc : c = '0'
    · simp [hc, ih, value_cons]
    · simp [hc]

theorem value_lt_significant {text : List Char} (h : ∀ c ∈ text, c.isDigit) :
    value text < 10 ^ significant text := by
  rw [← value_dropWhile]
  exact value_lt fun c hc => h c (List.dropWhile_suffix _ |>.subset hc)

theorem le_value {text : List Char} (h : ∀ c ∈ text, c.isDigit) (hs : 0 < significant text) :
    10 ^ (significant text - 1) ≤ value text := by
  induction text with
  | nil => simp [significant] at hs
  | cons c cs ih =>
    by_cases hc : c = '0'
    · subst hc
      rw [significant_zero] at hs ⊢
      rw [value_cons]
      have := ih (fun d hd => h d (List.mem_cons_of_mem _ hd)) hs
      omega
    · have hdigit := toNat_of_isDigit (h c List.mem_cons_self)
      have hne : c.toNat ≠ 48 := fun heq => hc (Char.toNat_inj.1 heq)
      have hone : 1 ≤ c.toNat - '0'.toNat := by simp; omega
      rw [significant_of_ne hc, value_cons, Nat.add_sub_cancel]
      have := Nat.mul_le_mul_right (10 ^ cs.length) hone
      omega

namespace Digits

def width (d : Digits) : Nat := d.text.length

def Padded (d : Digits) : Prop := 0 < padding d.text

instance (d : Digits) : Decidable d.Padded := inferInstanceAs (Decidable (_ < _))

end Digits

/-! ## The scan of a range -/

/-- The variables after the digits of a number, of which the first is at index `i`. -/
def BracketScan.number (s : BracketScan) (text : List Char) (i : Nat) : BracketScan :=
  { s with
    countingLeadingZeros := significant text = 0
    num1charPtr :=
      if 0 < significant text ∧ s.parsingNum1 then some (i + leadingZeros text)
      else s.num1charPtr
    num2charPtr :=
      if 0 < significant text ∧ ¬s.parsingNum1 then some (i + leadingZeros text)
      else s.num2charPtr
    tempNumDigits := significant text
    tempLeading0s := s.tempLeading0s + leadingZeros text }

theorem scanBracket_digit {c : Char} (hc : c.isDigit) (rest : List Char) (i : Nat)
    (s : BracketScan) :
    scanBracket (c :: rest) i s = scanBracket rest (i + 1) (s.digit c i) := by
  have hminus : c ≠ '-' := by
    intro h
    simp [h] at hc
  have hclose : c ≠ ']' := by
    intro h
    simp [h] at hc
  simp [scanBracket, hminus, hclose, hc]

theorem scanBracket_significant {text : List Char} (h : ∀ c ∈ text, c.isDigit)
    (rest : List Char) (i : Nat) (s : BracketScan) (hs : s.countingLeadingZeros = false)
    (hdigits : 0 < s.tempNumDigits) :
    scanBracket (text ++ rest) i s =
      scanBracket rest (i + text.length)
        { s with tempNumDigits := s.tempNumDigits + text.length } := by
  induction text generalizing i s with
  | nil => rfl
  | cons c cs ih =>
    have hdigit : s.digit c i = { s with tempNumDigits := s.tempNumDigits + 1 } := by
      simp [BracketScan.digit, hs, Nat.ne_of_gt hdigits]
    rw [List.cons_append, scanBracket_digit (h c List.mem_cons_self), hdigit,
      ih (fun d hd => h d (List.mem_cons_of_mem c hd)) (i + 1)
        { s with tempNumDigits := s.tempNumDigits + 1 } hs (Nat.succ_pos _)]
    simp [Nat.add_assoc, Nat.add_comm 1]

theorem scanBracket_number {text : List Char} (h : ∀ c ∈ text, c.isDigit) (rest : List Char)
    (i : Nat) (s : BracketScan) (hs : s.countingLeadingZeros = true)
    (hdigits : s.tempNumDigits = 0) :
    scanBracket (text ++ rest) i s = scanBracket rest (i + text.length) (s.number text i) := by
  induction text generalizing i s with
  | nil =>
    have hsame : s.number [] i = s := by
      cases s
      simp_all [BracketScan.number, significant, leadingZeros]
    rw [hsame]
    rfl
  | cons c cs ih =>
    have hcs : ∀ d ∈ cs, d.isDigit := fun d hd => h d (List.mem_cons_of_mem c hd)
    rw [List.cons_append, scanBracket_digit (h c List.mem_cons_self)]
    by_cases hc : c = '0'
    · have hdigit : s.digit c i = { s with tempLeading0s := s.tempLeading0s + 1 } := by
        simp [BracketScan.digit, hc, hs]
      rw [hdigit, ih hcs (i + 1) { s with tempLeading0s := s.tempLeading0s + 1 } hs hdigits]
      simp [BracketScan.number, hc, Nat.add_assoc, Nat.add_comm 1]
    · have hdigit : s.digit c i = { s.number [c] i with tempLeading0s := s.tempLeading0s } := by
        simp [BracketScan.digit, BracketScan.number, hc, hs, hdigits, significant, leadingZeros]
      rw [hdigit, scanBracket_significant hcs]
      · simp [BracketScan.number, significant_of_ne hc, leadingZeros_of_ne hc, Nat.add_assoc,
          Nat.add_comm 1]
      · simp [BracketScan.number, significant_of_ne hc]
      · simp [BracketScan.number, significant_of_ne hc]

def scanned (idx : Nat) (a b : List Char) : BracketScan :=
  { curIdxPtr := idx
    parsingNum1 := false
    countingLeadingZeros := significant b = 0
    leadingZeroNum1 := padding a
    numDigitsNum1 := counted a
    num1charPtr := if 0 < counted a then some (idx + 1 + padding a) else none
    num2charPtr :=
      if 0 < significant b then some (idx + 1 + a.length + 1 + leadingZeros b) else none
    tempNumDigits := significant b
    tempLeading0s := leadingZeros b }

theorem scanBracket_numbers {a b : List Char} (ha : ∀ c ∈ a, c.isDigit)
    (hb : ∀ c ∈ b, c.isDigit) (rest : List Char) (idx : Nat) :
    scanBracket (a ++ '-' :: (b ++ rest)) (idx + 1) { curIdxPtr := idx } =
      scanBracket rest (idx + 1 + a.length + 1 + b.length) (scanned idx a b) := by
  have hminus : ∀ (i : Nat) (s : BracketScan), s.parsingNum1 = true →
      scanBracket ('-' :: (b ++ rest)) i s = scanBracket (b ++ rest) (i + 1) (s.endNum1 i) := by
    intro i s hs
    simp [scanBracket, hs]
  rw [scanBracket_number ha _ _ _ rfl rfl, hminus _ _ rfl, scanBracket_number hb _ _ _ rfl rfl]
  congr 1
  by_cases hzero : a = ['0']
  · simp [BracketScan.number, BracketScan.endNum1, scanned, hzero, padding, counted, significant,
      leadingZeros]
  · have hnot : ¬(significant a = 0 ∧ leadingZeros a = 1) := fun h => hzero ((isZero_iff a).2 h)
    simp [BracketScan.number, BracketScan.endNum1, scanned, hzero, hnot, padding, counted]

/-! ## Accepted ranges -/

structure CountsFit (a b : List Char) : Prop where
  pos : 0 < counted a
  le : counted a ≤ counted b
  few : counted b ≤ maxDigitsToProcess
  padding_eq : counted a = counted b → padding a = padding b

structure ValidRange (a b : List Char) : Prop where
  first : ∀ c ∈ a, c.isDigit
  last : ∀ c ∈ b, c.isDigit
  counts : CountsFit a b
  le : value a ≤ value b

theorem countsFit_iff (a b : List Char) :
    CountsFit a b ↔ 0 < counted a ∧ counted a ≤ counted b ∧ counted b ≤ maxDigitsToProcess ∧
      (counted a = counted b → padding a = padding b) :=
  ⟨fun h => ⟨h.pos, h.le, h.few, h.padding_eq⟩, fun ⟨h1, h2, h3, h4⟩ => ⟨h1, h2, h3, h4⟩⟩

instance (a b : List Char) : Decidable (CountsFit a b) :=
  decidable_of_iff _ (countsFit_iff a b).symm

def closed (idx : Nat) (a b : List Char) : BracketScan :=
  { scanned idx a b with
    isSyntaxValid := CountsFit a b
    curIdxPtr := idx + 1 + a.length + 1 + b.length
    leadingZeroNum2 := padding b
    numDigitsNum2 := counted b
    num2charPtr := if 0 < counted b then some (idx + 1 + a.length + 1 + padding b) else none }

theorem countsValid_iff (s : BracketScan) :
    s.countsValid ↔ 0 < s.numDigitsNum1 ∧ s.numDigitsNum1 ≤ s.numDigitsNum2 ∧
      s.numDigitsNum2 ≤ maxDigitsToProcess ∧
      (s.numDigitsNum1 = s.numDigitsNum2 → s.leadingZeroNum1 = s.leadingZeroNum2) := by
  simp only [BracketScan.countsValid, Bool.not_eq_true', Bool.or_eq_false_iff,
    Bool.and_eq_false_iff, decide_eq_false_iff_not]
  omega

theorem endNum2_scanned (idx : Nat) (a b : List Char) :
    (scanned idx a b).endNum2 (idx + 1 + a.length + 1 + b.length) = closed idx a b := by
  have hcounts : ∀ s : BracketScan, s.numDigitsNum1 = counted a → s.numDigitsNum2 = counted b →
      s.leadingZeroNum1 = padding a → s.leadingZeroNum2 = padding b →
      s.countsValid = decide (CountsFit a b) := by
    intro s h1 h2 h3 h4
    rw [Bool.eq_iff_iff, countsValid_iff, decide_eq_true_iff, countsFit_iff, h1, h2, h3, h4]
  have hlead : (if significant b = 0 ∧ leadingZeros b = 1 then 0 else leadingZeros b) =
      padding b := by
    simp only [← isZero_iff, padding]
  have hnum : (if significant b = 0 ∧ leadingZeros b = 1 then 1 else significant b) =
      counted b := by
    simp only [← isZero_iff, counted]
  have hptr : (if significant b = 0 ∧ leadingZeros b = 1 then
        some (idx + 1 + a.length + 1 + b.length - 1)
      else (scanned idx a b).num2charPtr) =
      if 0 < counted b then some (idx + 1 + a.length + 1 + padding b) else none := by
    simp only [← isZero_iff, scanned]
    split
    · next h => simp [h, counted, padding]
    · next h => simp [h, counted, padding]
  have hb : (scanned idx a b).tempNumDigits = significant b := rfl
  have hz : (scanned idx a b).tempLeading0s = leadingZeros b := rfl
  unfold BracketScan.endNum2
  dsimp only
  rw [hb, hz, hlead, hnum, hptr, hcounts _ rfl rfl rfl rfl]
  rfl

variable {inputStr a b post : List Char} {idx : Nat}

theorem scanBracket_closed (ha : ∀ c ∈ a, c.isDigit) (hb : ∀ c ∈ b, c.isDigit)
    (hinput : inputStr.drop (idx + 1) = a ++ '-' :: (b ++ ']' :: post)) :
    scanBracket (inputStr.drop (idx + 1)) (idx + 1) { curIdxPtr := idx } = closed idx a b := by
  rw [hinput, scanBracket_numbers ha hb, ← endNum2_scanned]
  simp [scanBracket, scanned]

theorem convertNumber_eq {text rest : List Char} {i : Nat} (htext : ∀ c ∈ text, c.isDigit)
    (hinput : inputStr.drop i = text ++ rest) (hfew : counted text ≤ maxDigitsToProcess) :
    convertNumber inputStr (i + padding text) (counted text) = some (value text) := by
  have hlength := padding_add_counted text
  have htake : (inputStr.drop (i + padding text)).take (counted text) =
      text.drop (padding text) := by
    rw [← List.drop_drop, hinput, List.drop_append_of_le_length (by omega),
      List.take_append_of_le_length (by rw [List.length_drop]; omega), List.take_of_length_le]
    rw [List.length_drop]
    omega
  have hvalue : value (text.drop (padding text)) = value text := by
    unfold padding
    split
    · rfl
    · rw [drop_leadingZeros, value_dropWhile]
  have hall : (text.drop (padding text)).takeWhile Char.isDigit = text.drop (padding text) :=
    List.takeWhile_eq_self_iff.2 fun c hc => htext c (List.mem_of_mem_drop hc)
  rw [convertNumber, if_pos (by omega), htake, atoi, hall, ← hvalue]
  rfl

theorem processBracketSyntax_closed (ha : ∀ c ∈ a, c.isDigit) (hb : ∀ c ∈ b, c.isDigit)
    (hinput : inputStr.drop (idx + 1) = a ++ '-' :: (b ++ ']' :: post)) (info : RegexInfo)
    (isPortRange : Bool) :
    processBracketSyntax inputStr idx info isPortRange =
      if CountsFit a b then
        (info.save (closed idx a b) (value a) (value b) isPortRange).map fun info =>
          (decide (value a ≤ value b), idx + 1 + a.length + 1 + b.length, info)
      else some (false, idx + 1 + a.length + 1 + b.length, info) := by
  have hlast : inputStr.drop (idx + 1 + a.length + 1) = b ++ ']' :: post := by
    have hsplit : a ++ '-' :: (b ++ ']' :: post) = (a ++ ['-']) ++ (b ++ ']' :: post) := by simp
    rw [Nat.add_assoc (idx + 1), ← List.drop_drop, hinput, hsplit]
    exact List.drop_left' (by simp)
  unfold processBracketSyntax
  rw [scanBracket_closed ha hb hinput]
  split_ifs with hcounts
  · have hpos : 0 < counted b := hcounts.pos.trans_le hcounts.le
    have hvalid : (closed idx a b).isSyntaxValid = true := decide_eq_true hcounts
    have h1 : (closed idx a b).num1charPtr = some (idx + 1 + padding a) := if_pos hcounts.pos
    have h2 : (closed idx a b).num2charPtr = some (idx + 1 + a.length + 1 + padding b) :=
      if_pos hpos
    have hnum1 : convertNumber inputStr (idx + 1 + padding a) (closed idx a b).numDigitsNum1 =
        some (value a) := convertNumber_eq ha hinput (hcounts.le.trans hcounts.few)
    have hnum2 : convertNumber inputStr (idx + 1 + a.length + 1 + padding b)
        (closed idx a b).numDigitsNum2 = some (value b) := convertNumber_eq hb hlast hcounts.few
    simp only [hvalid, h1, h2, Option.bind_eq_bind]
    rw [hnum1, Option.bind_some, hnum2, Option.bind_some, Option.map_eq_bind]
    rfl
  · have hvalid : (closed idx a b).isSyntaxValid = false := decide_eq_false hcounts
    simp only [hvalid]
    rfl

/-! ## Numbers in a range -/

/-- The range is closed in some description, and accepted there. -/
structure AcceptedRange (a b : Digits) (r : ParsedRange) where
  before : List Char
  after : List Char
  info : RegexInfo
  result : Nat × RegexInfo
  accepted : processBracketSyntax (before ++ '[' :: (a.text ++ '-' :: (b.text ++ ']' :: after)))
    before.length info false = some (true, result)
  kept : result.2.ranges = info.ranges ++ [r]

/-- The width of a number goes with the padding of the ends.  Without padding a number has none,
and else it is as wide as both ends. -/
def WidthConsistent (a b number : Digits) : Prop :=
  if a.Padded ∨ b.Padded then number.width = a.width ∧ number.width = b.width
  else ¬number.Padded

instance (a b number : Digits) : Decidable (WidthConsistent a b number) := by
  unfold WidthConsistent
  infer_instance

/-- A number is taken exactly when it is between the ends and has their width, and the ends are
taken as well.  No digit is written outside of the array. -/
structure MatchesRange (a b number : Digits) (r : BracketRange) : Prop where
  accepts : isNumberInRange (String.ofList number.text) r =
    some (decide ((value a.text ≤ value number.text ∧ value number.text ≤ value b.text) ∧
      WidthConsistent a b number))
  first : isNumberInRange (String.ofList a.text) r = some true
  last : isNumberInRange (String.ofList b.text) r = some true

theorem AcceptedRange.spec {a b : Digits} {r : ParsedRange} (h : AcceptedRange a b r) :
    ValidRange a.text b.text ∧ r.number1 = value a.text ∧ r.number2 = value b.text ∧
      r.numDigitsNum1 = counted a.text ∧ r.leading0sNum1 = padding a.text := by
  have haccepted := h.accepted
  have hinput : (h.before ++ '[' :: (a.text ++ '-' :: (b.text ++ ']' :: h.after))).drop
      (h.before.length + 1) = a.text ++ '-' :: (b.text ++ ']' :: h.after) := by
    rw [← List.drop_drop, List.drop_left]
    rfl
  rw [processBracketSyntax_closed a.digits b.digits hinput] at haccepted
  split_ifs at haccepted with hcounts
  · simp only [RegexInfo.save, Bool.false_eq_true, if_false] at haccepted
    split_ifs at haccepted with hroom
    · have hkept := h.kept
      simp only [Option.map_some, Option.some.injEq, Prod.mk.injEq, decide_eq_true_eq] at haccepted
      obtain ⟨hle, hresult⟩ := haccepted
      rw [← hresult] at hkept
      have hr := List.append_cancel_left hkept
      rw [List.singleton_inj] at hr
      rw [← hr]
      exact ⟨⟨a.digits, b.digits, hcounts, hle⟩, rfl, rfl, rfl, rfl⟩
    · simp at haccepted
  · simp at haccepted

theorem isNumberInRange_eq (number : Digits) (r : BracketRange) :
    isNumberInRange (String.ofList number.text) r =
      if significant number.text ≤ maxDigitsToProcess then
        some (decide ((r.number1 ≤ value number.text ∧ value number.text ≤ r.number2) ∧
          (r.leading0sNum1 = 0 ∧ leadingZeros number.text = 0 ∨
            number.width = r.leading0sNum1 + r.numDigitsNum1)))
      else none := by
  have hall : number.text.all Char.isDigit = true := List.all_eq_true.2 number.digits
  have hwidth : leadingZeros number.text + significant number.text = number.width :=
    leadingZeros_add_significant number.text
  have hzeros : (number.text.takeWhile (· = '0')).length = leadingZeros number.text := rfl
  have hdigits : (number.text.dropWhile (· = '0')).length = significant number.text := rfl
  have hvalue : (number.text.dropWhile (· = '0')).foldl
      (fun v c => 10 * v + (c.toNat - '0'.toNat)) 0 = value number.text :=
    value_dropWhile number.text
  unfold isNumberInRange
  simp only [String.toList_ofList, hall, if_true, hzeros, drop_leadingZeros, hdigits, hvalue,
    Nat.lt_succ_iff]
  by_cases hfew : significant number.text ≤ maxDigitsToProcess
  · rw [if_pos hfew, if_pos hfew]
    by_cases hplain : r.leading0sNum1 = 0 ∧ leadingZeros number.text = 0
    · simp [hplain]
    have hcount : (r.leading0sNum1 : Int) - ((significant number.text : Int) - r.numDigitsNum1) =
        leadingZeros number.text ↔ number.width = r.leading0sNum1 + r.numDigitsNum1 := by omega
    simp [hplain, hcount, and_comm]
  · rw [if_neg hfew, if_neg hfew]

variable {a b number : Digits} {r : ParsedRange}

theorem AcceptedRange.checked (h : AcceptedRange a b r) (number : Digits)
    (hfew : significant number.text ≤ maxDigitsToProcess) :
    isNumberInRange (String.ofList number.text) r.toBracketRange =
      some (decide ((value a.text ≤ value number.text ∧ value number.text ≤ value b.text) ∧
        (padding a.text = 0 ∧ leadingZeros number.text = 0 ∨ number.width = a.width))) := by
  obtain ⟨_, h1, h2, h3, h4⟩ := h.spec
  have hwidth : padding a.text + counted a.text = a.width := padding_add_counted a.text
  rw [isNumberInRange_eq, if_pos hfew, h1, h2, h3, h4, hwidth]

theorem significant_le_counted (text : List Char) : significant text ≤ counted text := by
  unfold counted
  split
  · next h => simp [h, significant]
  · exact Nat.le_refl _

theorem padding_le_leadingZeros (text : List Char) : padding text ≤ leadingZeros text := by
  unfold padding
  split
  · exact Nat.zero_le _
  · exact Nat.le_refl _

theorem leadingZeros_of_not_padded (h : ¬number.Padded) :
    leadingZeros number.text = 0 ∨ number.text = ['0'] := by
  unfold Digits.Padded padding at h
  split at h
  · next hzero => exact Or.inr hzero
  · exact Or.inl (by omega)

theorem not_padded_of_leadingZeros (h : leadingZeros number.text = 0) : ¬number.Padded := by
  have hle := padding_le_leadingZeros number.text
  unfold Digits.Padded
  omega

theorem value_pos (number : Digits) (hcounted : 0 < counted number.text)
    (hzero : number.text ≠ ['0']) :
    0 < value number.text := by
  have hsig : 0 < significant number.text := by rwa [counted, if_neg hzero] at hcounted
  calc 0 < 10 ^ (significant number.text - 1) := Nat.pos_of_ne_zero (by simp)
    _ ≤ value number.text := le_value number.digits hsig

theorem not_padded_of_width (hcounted : 0 < counted a.text) (ha : ¬a.Padded)
    (hle : value a.text ≤ value number.text) (hwidth : number.width = a.width) :
    ¬number.Padded := by
  intro hpadded
  have hsum := leadingZeros_add_significant number.text
  have hsumA := padding_add_counted a.text
  have hzeros := padding_le_leadingZeros number.text
  unfold Digits.width at hwidth
  unfold Digits.Padded at ha hpadded
  have hlt : value number.text < 10 ^ (number.text.length - 1) :=
    calc value number.text < 10 ^ significant number.text := value_lt_significant number.digits
      _ ≤ 10 ^ (number.text.length - 1) := Nat.pow_le_pow_right (by omega) (by omega)
  by_cases hzero : a.text = ['0']
  · have hone : number.text.length = 1 := by rw [hwidth, hzero]; rfl
    have hval : number.text = ['0'] := (isZero_iff number.text).2 (by omega)
    simp [hval, padding] at hpadded
  · have hsig : significant a.text = counted a.text := by rw [counted, if_neg hzero]
    have hge : 10 ^ (significant a.text - 1) ≤ value a.text := le_value a.digits (by omega)
    rw [hsig, show counted a.text = number.text.length by omega] at hge
    omega

theorem first_padded (hfit : CountsFit a.text b.text) (hwidth : a.width = b.width)
    (hpadded : a.Padded ∨ b.Padded) : a.Padded := by
  have hsumA := padding_add_counted a.text
  have hsumB := padding_add_counted b.text
  have hle := hfit.le
  unfold Digits.width at hwidth
  unfold Digits.Padded at hpadded ⊢
  omega

theorem widthConsistent_iff (hfit : CountsFit a.text b.text)
    (hends : ¬a.Padded ∧ ¬b.Padded ∨ a.width = b.width)
    (hle : value a.text ≤ value number.text) :
    padding a.text = 0 ∧ leadingZeros number.text = 0 ∨ number.width = a.width ↔
      WidthConsistent a b number := by
  unfold WidthConsistent
  split
  · next hpadded =>
    have hwidth : a.width = b.width :=
      hends.resolve_left fun h => hpadded.elim h.1 h.2
    have ha : 0 < padding a.text := first_padded hfit hwidth hpadded
    rw [← hwidth]
    omega
  · next hplain =>
    have ha : ¬a.Padded := fun h => hplain (Or.inl h)
    have hzero : padding a.text = 0 := Nat.eq_zero_of_not_pos ha
    constructor
    · rintro (⟨_, hn⟩ | hn)
      · exact not_padded_of_leadingZeros hn
      · exact not_padded_of_width hfit.pos ha hle hn
    · intro hn
      rcases leadingZeros_of_not_padded hn with hlead | hnumber
      · exact Or.inl ⟨hzero, hlead⟩
      · have ha0 : a.text = ['0'] := by
          by_contra hne
          have := value_pos a hfit.pos hne
          have hval : value number.text = 0 := by rw [hnumber]; rfl
          omega
        exact Or.inr (by rw [Digits.width, Digits.width, hnumber, ha0])

/-- The range is matched as written exactly for numbers that fit the array, when neither end has
leading zeros or both are written with one width. -/
theorem AcceptedRange.matches_iff (h : AcceptedRange a b r) (number : Digits) :
    MatchesRange a b number r.toBracketRange ↔
      significant number.text ≤ maxDigitsToProcess ∧
        (¬a.Padded ∧ ¬b.Padded ∨ a.width = b.width) := by
  have hvalid := h.spec.1
  have hfit := hvalid.counts
  have hfewB : significant b.text ≤ maxDigitsToProcess :=
    (significant_le_counted b.text).trans hfit.few
  have hfewA : significant a.text ≤ maxDigitsToProcess :=
    (significant_le_counted a.text).trans (hfit.le.trans hfit.few)
  constructor
  · intro hmatches
    constructor
    · by_contra hfew
      have haccepts := hmatches.accepts
      rw [isNumberInRange_eq, if_neg hfew] at haccepts
      cases haccepts
    · have hlast := hmatches.last
      rw [h.checked b hfewB, Option.some.injEq, decide_eq_true_iff] at hlast
      rcases hlast.2 with ⟨hpad, hlead⟩ | hwidth
      · exact Or.inl ⟨Nat.not_lt.2 (Nat.le_of_eq hpad), not_padded_of_leadingZeros hlead⟩
      · exact Or.inr hwidth.symm
  · intro hcond
    have hends := hcond.2
    refine ⟨?_, ?_, ?_⟩
    · rw [h.checked number hcond.1, Option.some.injEq, decide_eq_decide]
      exact and_congr_right fun hin => widthConsistent_iff hfit hends hin.1
    · rw [h.checked a hfewA, Option.some.injEq, decide_eq_true_iff]
      exact ⟨⟨Nat.le_refl _, hvalid.le⟩, Or.inr rfl⟩
    · rw [h.checked b hfewB, Option.some.injEq, decide_eq_true_iff]
      refine ⟨⟨hvalid.le, Nat.le_refl _⟩, (widthConsistent_iff hfit hends hvalid.le).2 ?_⟩
      unfold WidthConsistent
      split
      · next hpadded =>
        have hwidth := hends.resolve_left fun hn => hpadded.elim hn.1 hn.2
        exact ⟨hwidth.symm, rfl⟩
      · next hplain => exact fun hb => hplain (Or.inr hb)

theorem digits_06 : ∀ c ∈ ['0', '6'], c.isDigit = true := List.all_eq_true.1 rfl

theorem digits_6 : ∀ c ∈ ['6'], c.isDigit = true := List.all_eq_true.1 rfl

theorem digits_10 : ∀ c ∈ ['1', '0'], c.isDigit = true := List.all_eq_true.1 rfl

theorem digits_010 : ∀ c ∈ ['0', '1', '0'], c.isDigit = true := List.all_eq_true.1 rfl

theorem accepted_06_10 :
    Nonempty (AcceptedRange ⟨['0', '6'], digits_06, by simp⟩ ⟨['1', '0'], digits_10, by simp⟩
      ⟨⟨1, 6, 1, 1, 10⟩, 2, 0⟩) :=
  ⟨⟨['n', 'o', 'd', 'e'], [], {}, (10, ⟨1, none, [⟨⟨1, 6, 1, 1, 10⟩, 2, 0⟩]⟩), rfl, rfl⟩⟩

theorem range_06_10_matches :
    MatchesRange ⟨['0', '6'], digits_06, by simp⟩ ⟨['1', '0'], digits_10, by simp⟩
      ⟨['0', '1', '0'], digits_010, by simp⟩ ⟨1, 6, 1, 1, 10⟩ :=
  accepted_06_10.elim fun h => (h.matches_iff _).2 (by decide)

/-- `node[6-010]`: the first end has no leading zeros, so that the second must be as wide. -/
theorem not_matches_last :
    ∃ (a b : Digits) (r : ParsedRange), Nonempty (AcceptedRange a b r) ∧ b.text = ['0', '1', '0'] ∧
      isNumberInRange (String.ofList b.text) r.toBracketRange = some false := by
  refine ⟨⟨['6'], digits_6, by simp⟩, ⟨['0', '1', '0'], digits_010, by simp⟩,
    ⟨⟨1, 6, 1, 0, 10⟩, 2, 1⟩, ⟨⟨['n', 'o', 'd', 'e'], [], {}, (10, ⟨1, none, ?_⟩), ?_, ?_⟩⟩, rfl,
    ?_⟩
  · exact [⟨⟨1, 6, 1, 0, 10⟩, 2, 1⟩]
  · rfl
  · rfl
  · decide

end OpaFm.Partition
