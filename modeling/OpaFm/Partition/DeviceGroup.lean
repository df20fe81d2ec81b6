import OpaFm.Fabric.Topology

/-!
# Device groups

`smSetupNodeDGs` finds the device groups of every live port.  The criteria of
the node are evaluated first, for all groups; those of the port are evaluated
group by group, together with the groups that a group includes, and two bit sets
per port record what is known so far.  A read or write outside of a fixed-size array has
no result.
-/

namespace OpaFm.Partition

open OpaFm.Fabric

/-! ## Configuration -/

/-- One bracket range of a `RegexBracketParseInfo_t`. -/
structure BracketRange where
  bracketGroupNum : Nat
  number1 : Nat
  numDigitsNum1 : Nat
  leading0sNum1 : Nat
  number2 : Nat

/-- `RegExp_t`.  `regexec` stands for the compiled expression: the text that each
group matched, if the description matches. -/
structure RegExp where
  isSyntaxValid : Bool := true
  regexec : String → Option (Nat → Option String)
  brackets : List BracketRange := []
  portRange : Option (Nat × Nat) := none

structure DGConfig where
  name : String
  systemImageGuid : List Nat := []
  nodeGuid : List Nat := []
  portGuid : List Nat := []
  regExpr : List RegExp := []
  includedGroup : List String := []
  selectAll : Bool := false
  selectSelf : Bool := false
  selectSwe0 : Bool := false
  selectAllMgmtAllowed : Bool := false
  selectHfiDirectConnect : Bool := false
  selectAllTfis : Bool := false
  nodeTypeFi : Bool := false
  nodeTypeSw : Bool := false

/-- `DGXmlConfig_t`.  The parser refuses a second group of the same name. -/
structure DGXmlConfig where
  dg : List DGConfig
  distinct : (dg.map DGConfig.name).Nodup

/-- What the criteria read besides the node: whether the fabric is a pair of
directly connected HFIs, and the GUIDs of SM appliances. -/
structure DgEnv where
  hfiDirectConnect : Bool := false
  smStlAppliance : Nat → Bool := fun _ => false

def smGetDgIdx (cfg : DGXmlConfig) (dgName : String) : Option Nat :=
  cfg.dg.findIdx? fun g => g.name = dgName

/-! ## Node criteria -/

def maxBracketsSupported : Nat := 10

def maxDigitsToProcess : Nat := 5

/-- `isNumberInRange`.  The digits after the leading zeros are copied to an array with room for
`MAX_DIGITS_TO_PROCESS` of them and a NUL. -/
def isNumberInRange (number : String) (r : BracketRange) : Option Bool :=
  let chars := number.toList
  if chars.all Char.isDigit then
    let numberLeading0s := (chars.takeWhile (· = '0')).length
    let digits := chars.drop numberLeading0s
    if digits.length < maxDigitsToProcess + 1 then
      let value := digits.foldl (fun v c => 10 * v + (c.toNat - '0'.toNat)) 0
      let inRange := r.number1 ≤ value ∧ value ≤ r.number2
      if r.leading0sNum1 = 0 ∧ numberLeading0s = 0 then some inRange
      else
        some ((r.leading0sNum1 : Int) - ((digits.length : Int) - r.numDigitsNum1) =
            numberLeading0s ∧ inRange)
    else none
  else some false

/-- The bracket ranges, after a match of the expression.  A group that took no
part in the match only clears `isMatch` until the next range. -/
def bracketsMatch (groupText : Nat → Option String) : List BracketRange → Bool → Option Bool
  | [], isMatch => some isMatch
  | r :: rest, _ =>
    if r.bracketGroupNum < maxBracketsSupported then
      match groupText r.bracketGroupNum with
      | some text =>
        match isNumberInRange text r with
        | none => none
        | some true => bracketsMatch groupText rest true
        | some false => some false
      | none => bracketsMatch groupText rest false
    else none

def RegExp.isMatch (e : RegExp) (nodeDesc : String) : Option Bool :=
  if e.isSyntaxValid then
    match e.regexec nodeDesc with
    | none => some false
    | some groupText => bracketsMatch groupText e.brackets true
  else some false

def maxNodeDescEntries : Nat := 30

/-- The result of `smEvaluateNodeDG`: membership, and the port ranges in
`portInfo`. -/
structure NodeDg where
  isDgMember : Bool := false
  portRanges : List (Nat × Nat) := []

/-- The loop body over the node descriptions.  The parser does not limit the port ranges to what
`portInfo` holds. -/
def evaluateNodeDesc (nodeDesc : String) (r : NodeDg) (e : RegExp) : Option NodeDg :=
  match e.isMatch nodeDesc with
  | none => none
  | some false => some r
  | some true =>
    match e.portRange with
    | some range =>
      if r.portRanges.length < maxNodeDescEntries then some ⟨true, r.portRanges ++ [range]⟩
      else none
    | none => some ⟨true, []⟩

def nodeCriteria (n : Node) (dg : DGConfig) : Bool :=
  dg.selectAll || (dg.selectSelf && n.index == 0) ||
    ((n.nodeType == .switch && dg.nodeTypeSw) || (n.nodeType == .ca && dg.nodeTypeFi)) ||
    dg.systemImageGuid.contains n.systemImageGuid || dg.nodeGuid.contains n.nodeGuid

def smEvaluateNodeDG (n : Node) (dg : DGConfig) : Option NodeDg :=
  if nodeCriteria n dg then some { isDgMember := true }
  else dg.regExpr.foldlM (evaluateNodeDesc n.nodeDesc) {}

def inRange (portIndex : Nat) (range : Nat × Nat) : Bool :=
  range.1 ≤ portIndex ∧ portIndex ≤ range.2

def NodeDg.selects (r : NodeDg) (portIndex : Nat) : Bool :=
  r.isDgMember && (r.portRanges.isEmpty || r.portRanges.any (inRange portIndex))

/-! ## Port criteria and included groups -/

def portCriteria (env : DgEnv) (n : Node) (vp : ValidPort) (dg : DGConfig) : Bool :=
  (vp.port.index == 0 && dg.selectSwe0 && n.nodeType == .switch && n.enhancedPort0) ||
    (dg.selectHfiDirectConnect && env.hfiDirectConnect) ||
    (dg.selectAllMgmtAllowed &&
      (vp.data.mgmtAllowed || env.smStlAppliance vp.data.neighborNodeGuid)) ||
    (dg.selectAllTfis && n.nodeType == .ca && vp.data.isDeviceMgtSupported) ||
    dg.portGuid.contains vp.data.guid

/-- `dgMember` and `dgsEvaluated` of the port at hand. -/
structure DgBits where
  dgMember : Finset Nat := ∅
  dgsEvaluated : Finset Nat := ∅

def DgBits.setMember (s : DgBits) (dgIdx : Nat) : DgBits :=
  { s with dgMember := insert dgIdx s.dgMember }

def DgBits.setEvaluated (s : DgBits) (dgIdx : Nat) : DgBits :=
  { s with dgsEvaluated := insert dgIdx s.dgsEvaluated }

/-- The loop of `smEvaluatePortDG` over the included groups of `dgIdx`, where
`evaluate` is the recursive call. -/
def evaluateIncluded (evaluate : Nat → DgBits → Option (Bool × DgBits)) (dgIdx : Nat) :
    List Nat → DgBits → Option (Bool × DgBits)
  | [], s => some (false, s)
  | includedDgIdx :: rest, s =>
    if includedDgIdx ∉ s.dgsEvaluated then
      match evaluate includedDgIdx s with
      | none => none
      | some (true, s) => some (true, (s.setMember dgIdx).setMember includedDgIdx)
      | some (false, s) => evaluateIncluded evaluate dgIdx rest s
    else if includedDgIdx ∈ s.dgMember then some (true, s)
    else evaluateIncluded evaluate dgIdx rest s

/-- `smEvaluatePortDG`, with the port criteria and the included groups of each
group given; `none` when the recursion is deeper than the fuel. -/
def evaluatePortDG (own : Nat → Bool) (included : Nat → List Nat) :
    Nat → Nat → DgBits → Option (Bool × DgBits)
  | 0, _, _ => none
  | fuel + 1, dgIdx, s =>
    if dgIdx ∉ s.dgsEvaluated then
      if own dgIdx then some (true, (s.setMember dgIdx).setEvaluated dgIdx)
      else
        (evaluateIncluded (evaluatePortDG own included fuel) dgIdx (included dgIdx) s).map
          fun r => (r.1, r.2.setEvaluated dgIdx)
    else some (decide (dgIdx ∈ s.dgMember), s.setEvaluated dgIdx)

def dgHolds (cfg : DGXmlConfig) (test : DGConfig → Bool) (dgIdx : Nat) : Bool :=
  cfg.dg[dgIdx]?.any test

/-- The indices of the groups that a group includes; names that no group has are
skipped. -/
def includedDgs (cfg : DGXmlConfig) (dgIdx : Nat) : List Nat :=
  match cfg.dg[dgIdx]? with
  | none => []
  | some dg => dg.includedGroup.filterMap (smGetDgIdx cfg)

def smEvaluatePortDG (env : DgEnv) (cfg : DGXmlConfig) (n : Node) (vp : ValidPort) :
    Nat → Nat → DgBits → Option (Bool × DgBits) :=
  evaluatePortDG (dgHolds cfg (portCriteria env n vp)) (includedDgs cfg)

/-- The loop body of `smSetupNodeDGs` for one group, at one port. -/
def setupDG (node : Nat → Bool) (evaluate : Nat → DgBits → Option (Bool × DgBits)) (s : DgBits)
    (dgIdx : Nat) : Option DgBits :=
  let s := if node dgIdx then (s.setMember dgIdx).setEvaluated dgIdx else s
  match evaluate dgIdx s with
  | none => none
  | some (true, s) => some (s.setMember dgIdx)
  | some (false, s) => some s

/-- `smSetupNodeDGs`, at one live port, with the results of the node criteria of all groups. -/
def smSetupPortDGs (env : DgEnv) (cfg : DGXmlConfig) (n : Node) (saved : List NodeDg) (fuel : Nat)
    (vp : ValidPort) : Option (Finset Nat) :=
  ((List.range cfg.dg.length).foldlM
    (setupDG (fun dgIdx => saved[dgIdx]?.any fun r => r.selects vp.port.index)
      (smEvaluatePortDG env cfg n vp fuel))
    {}).map DgBits.dgMember

def livePorts (n : Node) : List ValidPort :=
  (allPorts n).filterMap fun p => if p.state.isUp then p.toValid else none

/-- `smSetupNodeDGs`: the `dgMember` of every live port, in order. -/
def smSetupNodeDGs (env : DgEnv) (cfg : DGXmlConfig) (fuel : Nat) (n : Node) :
    Option (List (Finset Nat)) := do
  let saved ← cfg.dg.mapM (smEvaluateNodeDG n)
  (livePorts n).mapM (smSetupPortDGs env cfg n saved fuel)

end OpaFm.Partition
