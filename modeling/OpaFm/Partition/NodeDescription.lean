import OpaFm.Partition.DeviceGroup

/-!
# Ranges in node descriptions

To the regular expression that a node description of a device group is turned into, a range of
numbers is only `([0-9]+)`.  Its numbers are checked after a match.  A write outside of a
fixed-size array has no result.
-/

namespace OpaFm.Partition

/-- What `processBracketSyntax` saves of a range. -/
structure ParsedRange extends BracketRange where
  numDigitsNum2 : Nat
  leading0sNum2 : Nat

/-- The port range of a `RegexBracketParseInfo_t`. -/
structure PortRange where
  portNum1 : Nat
  portNum2 : Nat
  lead0sPort1 : Nat
  lead0sPort2 : Nat

/-- `RegexBracketParseInfo_t`.  The ranges are the entries of its arrays that are in use. -/
structure RegexInfo where
  totalGroups : Nat := 0
  portRange : Option PortRange := none
  ranges : List ParsedRange := []

/-! ## Ranges -/

def atoi (text : List Char) : Nat :=
  (text.takeWhile Char.isDigit).foldl (fun v c => 10 * v + (c.toNat - '0'.toNat)) 0

/-- The variables of `processBracketSyntax`.  A `char` pointer is an index of the input. -/
structure BracketScan where
  isSyntaxValid : Bool := true
  curIdxPtr : Nat
  parsingNum1 : Bool := true
  countingLeadingZeros : Bool := true
  leadingZeroNum1 : Nat := 0
  leadingZeroNum2 : Nat := 0
  numDigitsNum1 : Nat := 0
  numDigitsNum2 : Nat := 0
  num1charPtr : Option Nat := none
  num2charPtr : Option Nat := none
  tempNumDigits : Nat := 0
  tempLeading0s : Nat := 0

/-- At the `-` after the first number.  A single `0` is a digit and no leading zero. -/
def BracketScan.endNum1 (s : BracketScan) (curIdx : Nat) : BracketScan :=
  let isZero := s.tempNumDigits = 0 ∧ s.tempLeading0s = 1
  { s with
    parsingNum1 := false
    countingLeadingZeros := true
    leadingZeroNum1 := if isZero then 0 else s.tempLeading0s
    numDigitsNum1 := if isZero then 1 else s.tempNumDigits
    num1charPtr := if isZero then some (curIdx - 1) else s.num1charPtr
    tempNumDigits := 0
    tempLeading0s := 0 }

def BracketScan.countsValid (s : BracketScan) : Bool :=
  !(s.numDigitsNum1 ≤ 0 || s.numDigitsNum2 ≤ 0 ||
    maxDigitsToProcess < s.numDigitsNum1 || maxDigitsToProcess < s.numDigitsNum2 ||
    s.numDigitsNum2 < s.numDigitsNum1 ||
    (s.numDigitsNum1 = s.numDigitsNum2 && s.leadingZeroNum1 ≠ s.leadingZeroNum2))

def BracketScan.endNum2 (s : BracketScan) (curIdx : Nat) : BracketScan :=
  let isZero := s.tempNumDigits = 0 ∧ s.tempLeading0s = 1
  let s := { s with
    curIdxPtr := curIdx
    leadingZeroNum2 := if isZero then 0 else s.tempLeading0s
    numDigitsNum2 := if isZero then 1 else s.tempNumDigits
    num2charPtr := if isZero then some (curIdx - 1) else s.num2charPtr }
  { s with isSyntaxValid := s.isSyntaxValid && s.countsValid }

def BracketScan.digit (s : BracketScan) (c : Char) (curIdx : Nat) : BracketScan :=
  if c = '0' ∧ s.countingLeadingZeros then { s with tempLeading0s := s.tempLeading0s + 1 }
  else
    let first := s.tempNumDigits = 0
    { s with
      countingLeadingZeros := if first then false else s.countingLeadingZeros
      num1charPtr := if first ∧ s.parsingNum1 then some curIdx else s.num1charPtr
      num2charPtr := if first ∧ ¬s.parsingNum1 then some curIdx else s.num2charPtr
      tempNumDigits := s.tempNumDigits + 1 }

/-- The loop of `processBracketSyntax`, from index `curIdx` to the end of the input. -/
def scanBracket : List Char → Nat → BracketScan → BracketScan
  | [], _, s => s
  | c :: rest, curIdx, s =>
    if s.parsingNum1 ∧ c = '-' then scanBracket rest (curIdx + 1) (s.endNum1 curIdx)
    else if ¬s.parsingNum1 ∧ c = ']' then s.endNum2 curIdx
    else if c.isDigit then scanBracket rest (curIdx + 1) (s.digit c curIdx)
    else { s with isSyntaxValid := false }

/-- A number is copied to an array with room for its digits and a NUL, and converted. -/
def convertNumber (inputStr : List Char) (charPtr numDigits : Nat) : Option Nat :=
  if numDigits < maxDigitsToProcess + 1 then some (atoi ((inputStr.drop charPtr).take numDigits))
  else none

/-- The fields of `regexInfo` are set from a range. -/
def RegexInfo.save (info : RegexInfo) (s : BracketScan) (num1 num2 : Nat) (isPortRange : Bool) :
    Option RegexInfo :=
  let totalGroups := info.totalGroups + 1
  if isPortRange then
    some { info with
      totalGroups
      portRange := some ⟨num1, num2, s.leadingZeroNum1, s.leadingZeroNum2⟩ }
  else if info.ranges.length < maxBracketsSupported then
    some { info with
      totalGroups
      ranges := info.ranges ++ [{
        bracketGroupNum := totalGroups
        number1 := num1
        numDigitsNum1 := s.numDigitsNum1
        leading0sNum1 := s.leadingZeroNum1
        number2 := num2
        numDigitsNum2 := s.numDigitsNum2
        leading0sNum2 := s.leadingZeroNum2 }] }
  else none

/-- `processBracketSyntax`: whether the range is valid, `*curIdxPtr` and `regexInfo`. -/
def processBracketSyntax (inputStr : List Char) (curIdx : Nat) (info : RegexInfo)
    (isPortRange : Bool) : Option (Bool × Nat × RegexInfo) :=
  let s := scanBracket (inputStr.drop (curIdx + 1)) (curIdx + 1) { curIdxPtr := curIdx }
  match s.isSyntaxValid, s.num1charPtr, s.num2charPtr with
  | true, some num1charPtr, some num2charPtr => do
      let num1 ← convertNumber inputStr num1charPtr s.numDigitsNum1
      let num2 ← convertNumber inputStr num2charPtr s.numDigitsNum2
      let info ← info.save s num1 num2 isPortRange
      some (decide (num1 ≤ num2), s.curIdxPtr, info)
  | _, _, _ => some (false, s.curIdxPtr, info)

end OpaFm.Partition
