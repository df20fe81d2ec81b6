import Mathlib.Data.Fintype.Basic
import Mathlib.Data.List.Basic

/-!
# Images of the performance manager

Each sweep fills one of the images of `Pm_t`.  Clients name an image by an id that is looked up
in the history of sweeps or in the table of freeze frames.
-/

namespace OpaFm.PerfMgr

/-! ## Data -/

/-- The numbers of images, after the manager has adjusted its configuration. -/
structure PmConfig where
  totalImages : Nat
  freezeFrameImages : Nat
  freezeFrameImages_le : freezeFrameImages ≤ 100
  totalImages_ge : freezeFrameImages + 2 ≤ totalImages

inductive PmImageState where
  | invalid
  | inProgress
  | valid
  deriving DecidableEq, Repr

/-- The fields of `ImageId_t`, in place of the 64 bits that they make up. -/
structure ImageId where
  type : BitVec 2
  clientId : BitVec 6
  sweepNum : BitVec 32
  instanceId : BitVec 8
  index : BitVec 16
  deriving DecidableEq, Repr

/-- `IMAGEID_TYPE_ANY`, `IMAGEID_TYPE_FREEZE_FRAME` and `IMAGEID_TYPE_HISTORY`. -/
def imageIdTypeAny : BitVec 2 := 0#2

def imageIdTypeFreezeFrame : BitVec 2 := 1#2

def imageIdTypeHistory : BitVec 2 := 2#2

def imageIdLiveData : ImageId := ⟨0#2, 0#6, 0#32, 0#8, 0#16⟩

def imageIdAbsoluteTime : ImageId :=
  ⟨BitVec.allOnes 2, BitVec.allOnes 6, BitVec.allOnes 32, BitVec.allOnes 8, BitVec.allOnes 16⟩

structure ImageIdData where
  imageNumber : ImageId
  imageOffset : Int
  absoluteTime : Nat

/-- The fields of `PmImage_t` that name it and keep it frozen; `contents` is what the sweep has
put into it. -/
structure PmImage (α : Type) where
  state : PmImageState
  sweepNum : BitVec 32
  historyIndex : Nat
  ffRefCount : BitVec 64
  nextClientId : BitVec 6
  sweepStart : Nat
  sweepDuration : Nat
  contents : α

/-- The fields of `Pm_t` for the images, and the flag of the first sweep as master; `none` is
`PM_IMAGE_INDEX_INVALID`. -/
structure Pm (c : PmConfig) (α : Type) where
  image : Fin c.totalImages → PmImage α
  history : Fin c.totalImages → Option (Fin c.totalImages)
  freezeFrames : Fin c.freezeFrameImages → Option (Fin c.totalImages)
  lastSweepIndex : Option (Fin c.totalImages)
  lastHistoryIndex : Fin c.totalImages
  sweepIndex : Fin c.totalImages
  numSweeps : BitVec 32
  firstSweepAsMaster : Bool
  interval : Nat

inductive FStatus where
  | invalidParameter
  | unavailable
  | notFound
  | insufficientMemory
  deriving DecidableEq, Repr

/-- A status with the message that explains it. -/
structure PaError where
  status : FStatus
  msg : String

/-- What a look-up finds; `clientId` where the id names a client. -/
structure Found (c : PmConfig) where
  imageIndex : Fin c.totalImages
  retImageId : ImageId
  clientId : Option (BitVec 6)

namespace PmConfig

variable (c : PmConfig)

theorem totalImages_pos : 0 < c.totalImages := by
  have h := c.totalImages_ge
  omega

def wrap (i : Nat) : Fin c.totalImages := ⟨i % c.totalImages, Nat.mod_lt i c.totalImages_pos⟩

end PmConfig

/-- `1 << clientId` for an `int`, whose shift takes the count modulo 32, as it is extended to the
64 bits of `ffRefCount`. -/
def intMask (clientId : BitVec 6) : BitVec 64 := (1#32 <<< (clientId.toNat % 32)).signExtend 64

def clientMask (clientId : BitVec 6) : BitVec 64 := 1#64 <<< clientId.toNat

namespace Pm

variable {c : PmConfig} {α : Type} (s : Pm c α)

/-! ## Looking up images -/

/-- `BuildHistoryImageId`, for an entry of the history that is in use. -/
def buildHistoryImageId (historyIndex : Fin c.totalImages) : ImageId where
  type := imageIdTypeHistory
  clientId := 0#6
  sweepNum := ((s.history historyIndex).map fun i => (s.image i).sweepNum).getD 0#32
  instanceId := 0#8
  index := BitVec.ofNat 16 historyIndex.val

def computeHistory (historyIndex : Nat) (offset : Int) (baseSweepNum : BitVec 32) :
    Except PaError (Found c) :=
  if h : historyIndex < c.totalImages then
    if s.history ⟨historyIndex, h⟩ = none then .error ⟨.invalidParameter, "Invalid Image Id"⟩
    else if c.totalImages ≤ offset.natAbs ∨ s.numSweeps.toNat < offset.natAbs then
      .error ⟨.notFound,
        if offset < 0 then "negative offset exceeds duration of history"
        else "positive offset exceeds duration of history"⟩
    else
      let index := c.wrap ((historyIndex + c.totalImages : Int) + offset).toNat
      match s.history index with
      | none => .error ⟨.invalidParameter, "Invalid Image Id"⟩
      | some i =>
        if (s.image i).sweepNum ≠ baseSweepNum + BitVec.ofInt 32 offset ∨
            (s.image i).state ≠ .valid then
          .error ⟨.notFound, "offset exceeds duration of history"⟩
        else .ok ⟨i, s.buildHistoryImageId index, none⟩
  else .error ⟨.invalidParameter, "Invalid Image Id"⟩

def lastImage : Option (Fin c.totalImages × Fin c.totalImages) :=
  match s.lastSweepIndex, s.history s.lastHistoryIndex with
  | some lastSweepIndex, some lastImageIndex =>
    if (s.image lastImageIndex).state = .valid then some (lastSweepIndex, lastImageIndex) else none
  | _, _ => none

def clearSlot (slot : Fin c.freezeFrameImages) : Pm c α :=
  { s with freezeFrames := Function.update s.freezeFrames slot none }

/-- The part of `GetIndexFromImageId` for a freeze frame in slot `slot`, which is emptied where
its image has expired. -/
def getFreezeFrame (type : BitVec 2) (id : ImageId) (offset : Int) (slot : Fin c.freezeFrameImages) :
    Pm c α × Except PaError (Found c) :=
  match s.freezeFrames slot with
  | none => (s, .error ⟨.invalidParameter, "Invalid Image Id"⟩)
  | some i =>
    if (s.image i).sweepNum ≠ id.sweepNum ∨ (s.image i).state ≠ .valid then
      (s, .error ⟨.notFound, "Freeze Frame expired or invalid"⟩)
    else if (s.image i).ffRefCount = 0#64 then
      (s.clearSlot slot, .error ⟨.notFound, "Freeze Frame expired or invalid"⟩)
    else if (s.image i).ffRefCount &&& intMask id.clientId = 0#64 then
      (s, .error ⟨.notFound, "Freeze Frame expired or invalid"⟩)
    else if type = imageIdTypeFreezeFrame ∧ offset ≠ 0 then
      (s, .error ⟨.invalidParameter, "Freeze Frame offset not allowed in this query"⟩)
    else if offset = 0 then (s, .ok ⟨i, id, some id.clientId⟩)
    else
      (s, (s.computeHistory (s.image i).historyIndex offset id.sweepNum).map fun found =>
        { found with clientId := some id.clientId })

def getIndexFromImageId (type : BitVec 2) (id : ImageId) (offset : Int) :
    Pm c α × Except PaError (Found c) :=
  match s.lastImage with
  | none => (s, .error ⟨.unavailable, "Sweep Engine not ready"⟩)
  | some (lastSweepIndex, lastImageIndex) =>
    if type ≠ imageIdTypeAny ∧
        decide (id.type = imageIdTypeFreezeFrame) ≠ decide (type = imageIdTypeFreezeFrame) then
      (s, .error ⟨.invalidParameter, "Invalid Image Id Type"⟩)
    else if id = imageIdLiveData then
      if 0 < offset then
        (s, .error ⟨.invalidParameter, "Positive offset not allowed for live data"⟩)
      else if offset = 0 then
        (s, .ok ⟨lastSweepIndex, s.buildHistoryImageId s.lastHistoryIndex, none⟩)
      else
        (s, s.computeHistory s.lastHistoryIndex offset (s.image lastImageIndex).sweepNum)
    else if id.type = imageIdTypeHistory then (s, s.computeHistory id.index.toNat offset id.sweepNum)
    else if id.type = imageIdTypeFreezeFrame then
      if h : id.index.toNat < c.freezeFrameImages then
        s.getFreezeFrame type id offset ⟨id.index.toNat, h⟩
      else (s, .error ⟨.invalidParameter, "Invalid Image Id"⟩)
    else (s, .error ⟨.invalidParameter, "Invalid Image Id"⟩)

def sweptAt (i : Fin c.totalImages) (requestTime : Nat) : Bool :=
  decide ((s.image i).sweepStart ≤ requestTime) &&
    decide (requestTime <
      (s.image i).sweepStart + max ((s.image i).sweepDuration / 1000000) s.interval)

def getIndexFromTime (requestTime : Nat) : Except PaError (Found c) :=
  match s.lastImage with
  | none => .error ⟨.unavailable, "Sweep Engine not ready"⟩
  | some (_, lastImageIndex) =>
    let found := (List.range c.totalImages).findSome? fun (i : Nat) =>
      match s.computeHistory s.lastHistoryIndex (-(i : Int)) (s.image lastImageIndex).sweepNum with
      | .error _ => none
      | .ok found => if s.sweptAt found.imageIndex requestTime then some found else none
    match found with
    | none => .error ⟨.notFound, "No Image found matching request time"⟩
    | some found => .ok found

def findImage (type : BitVec 2) (imageId : ImageIdData) : Pm c α × Except PaError (Found c) :=
  if imageId.imageNumber = imageIdAbsoluteTime then
    if imageId.absoluteTime = 0 then (s, .error ⟨.invalidParameter, "Invalid request time"⟩)
    else (s, s.getIndexFromTime imageId.absoluteTime)
  else s.getIndexFromImageId type imageId.imageNumber imageId.imageOffset

end Pm

/-!
## Freeze frames

Clients freeze images, so that no sweep overwrites them: the slots of `freezeFrames` say where
an id leads to, and the bits of `ffRefCount` which clients have frozen an image.
-/

/-- A write to `freezeFrames` beyond its end. -/
inductive PmFault where
  | outOfBounds
  deriving DecidableEq, Repr

namespace Pm

variable {c : PmConfig} {α : Type} (s : Pm c α)

def setImage (i : Fin c.totalImages) (f : PmImage α → PmImage α) : Pm c α :=
  { s with image := Function.update s.image i (f (s.image i)) }

@[simp] theorem setImage_image_self (i : Fin c.totalImages) (f : PmImage α → PmImage α) :
    (s.setImage i f).image i = f (s.image i) := by
  show Function.update s.image i (f (s.image i)) i = f (s.image i)
  rw [Function.update_self]

@[simp] theorem setImage_image_of_ne {i j : Fin c.totalImages} (h : j ≠ i)
    (f : PmImage α → PmImage α) : (s.setImage i f).image j = s.image j := by
  show Function.update s.image i (f (s.image i)) j = s.image j
  rw [Function.update_of_ne h]

/-! ### Calls of clients -/

/-- `BuildFreezeFrameImageId`, for a slot that has been set. -/
def buildFreezeFrameImageId (slot : Fin c.freezeFrameImages) (clientId : BitVec 6) : ImageId where
  type := imageIdTypeFreezeFrame
  clientId := clientId
  sweepNum := ((s.freezeFrames slot).map fun i => (s.image i).sweepNum).getD 0#32
  instanceId := 0#8
  index := BitVec.ofNat 16 slot.val

/-- `allocFreezeFrame`: a slot that leads to the image, or one that is empty or stale; `none` is
`freeze_frame_images`. -/
def allocFreezeFrame (imageIndex : Fin c.totalImages) : Pm c α × Option (Fin c.freezeFrameImages) :=
  let own :=
    if (s.image imageIndex).ffRefCount ≠ 0#64 then
      Fin.find? fun slot => s.freezeFrames slot = some imageIndex
    else none
  match own with
  | some slot => (s, some slot)
  | none =>
    let free := Fin.find? fun slot =>
      match s.freezeFrames slot with
      | none => true
      | some i => (s.image i).ffRefCount = 0#64
    match free with
    | some slot => (s.clearSlot slot, some slot)
    | none => (s, none)

/-- The client number that `getNextClientId` finds. -/
def nextClient (imageIndex : Fin c.totalImages) : Option (BitVec 6) :=
  ((List.range 64).map fun i => (s.image imageIndex).nextClientId + BitVec.ofNat 6 i).find?
    fun clientId => (s.image imageIndex).ffRefCount &&& clientMask clientId = 0#64

def freezeImage (imageIndex : Fin c.totalImages) (clientId : BitVec 6) : Pm c α :=
  s.setImage imageIndex fun image =>
    { image with
      ffRefCount := image.ffRefCount ||| clientMask clientId
      nextClientId := clientId + 1#6 }

def releaseImage (imageIndex : Fin c.totalImages) (clientId : BitVec 6) : Pm c α :=
  s.setImage imageIndex fun image =>
    { image with ffRefCount := image.ffRefCount &&& ~~~clientMask clientId }

/-- The end of a create or move: the client freezes the image, the slot leads to it, and the id
for it. -/
def setFreezeFrame (slot : Fin c.freezeFrameImages) (imageIndex : Fin c.totalImages)
    (clientId : BitVec 6) : Pm c α × ImageId :=
  let s := s.freezeImage imageIndex clientId
  let s := { s with freezeFrames := Function.update s.freezeFrames slot (some imageIndex) }
  (s, s.buildFreezeFrameImageId slot clientId)

def paFreezeFrameCreate (imageId : ImageIdData) : Pm c α × Except PaError ImageId :=
  match s.findImage imageIdTypeAny imageId with
  | (s, .error e) => (s, .error e)
  | (s, .ok found) =>
    match s.allocFreezeFrame found.imageIndex with
    | (s, none) => (s, .error ⟨.insufficientMemory, "Out of Freeze Frame Images"⟩)
    | (s, some slot) =>
      match s.nextClient found.imageIndex with
      | none => (s, .error ⟨.insufficientMemory, "Too many freezes of 1 image"⟩)
      | some clientId =>
        let (s, id) := s.setFreezeFrame slot found.imageIndex clientId
        (s, .ok id)

/-- `paFreezeFrameRenew`; the time that is renewed is that of the lease. -/
def paFreezeFrameRenew (imageId : ImageIdData) : Pm c α × Except PaError Unit :=
  let (s, found) := s.findImage imageIdTypeFreezeFrame imageId
  (s, found.map fun _ => ())

/-- `paFreezeFrameRelease`; `junk` is the value that `clientId` has before anything is stored
there, which a shift takes modulo 64. -/
def paFreezeFrameRelease (imageId : ImageIdData) (junk : BitVec 6) : Pm c α × Except PaError Unit :=
  match s.findImage imageIdTypeFreezeFrame imageId with
  | (s, .error e) => (s, .error e)
  | (s, .ok found) =>
    let clientId := found.clientId.getD junk
    if (s.image found.imageIndex).ffRefCount &&& clientMask clientId = 0#64 then
      (s, .error ⟨.invalidParameter, "Attempted to release freeze frame with no references"⟩)
    else (s.releaseImage found.imageIndex clientId, .ok ())

/-- The slot for a move: that of the old freeze frame where the bit of its client is the only one
of the image, or another one. -/
def moveSlot (ffIndex : Nat) (ffClientId : BitVec 6) (imageIndex : Fin c.totalImages) :
    Pm c α × Option (Fin c.freezeFrameImages) :=
  if (s.image imageIndex).ffRefCount = clientMask ffClientId then
    (s, if h : ffIndex < c.freezeFrameImages then some ⟨ffIndex, h⟩ else none)
  else s.allocFreezeFrame imageIndex

/-- `paFreezeFrameMove`; without a slot `freezeFrames` is written at its end. -/
def paFreezeFrameMove (ffImageId imageId : ImageIdData) :
    Except PmFault (Pm c α × Except PaError ImageId) :=
  match s.findImage imageIdTypeFreezeFrame ffImageId with
  | (s, .error e) => .ok (s, .error e)
  | (s, .ok ff) =>
    let ffClientId := ff.clientId.getD 0#6
    match s.findImage imageIdTypeAny imageId with
    | (s, .error e) => .ok (s, .error e)
    | (s, .ok found) =>
      let (s, slot) := s.moveSlot ffImageId.imageNumber.index.toNat ffClientId found.imageIndex
      match s.nextClient found.imageIndex with
      | none => .ok (s, .error ⟨.insufficientMemory, "Too many freezes of 1 image"⟩)
      | some clientId =>
        match slot with
        | none => .error .outOfBounds
        | some slot =>
          let (s, id) := s.setFreezeFrame slot found.imageIndex clientId
          .ok (s.releaseImage ff.imageIndex ffClientId, .ok id)

/-! ### Sweeps -/

/-- The start of `PmSweep`, and what it puts into its image. -/
def sweepBegin (sweepStart : Nat) (contents : α) : Pm c α :=
  s.setImage s.sweepIndex fun image =>
    { image with
      sweepNum := s.numSweeps
      state := .inProgress
      sweepStart := sweepStart
      contents := contents }

def lastSweepValid : Bool :=
  match s.lastSweepIndex with
  | none => false
  | some i => decide ((s.image i).state = .valid)

def appendHistory : Pm c α :=
  let next := c.wrap (s.lastHistoryIndex + 1)
  { s.setImage s.sweepIndex (fun image => { image with historyIndex := next }) with
    lastSweepIndex := some s.sweepIndex
    lastHistoryIndex := next
    history := Function.update s.history next (some s.sweepIndex) }

@[simp] theorem appendHistory_image_self : s.appendHistory.image s.sweepIndex =
    { s.image s.sweepIndex with historyIndex := c.wrap (s.lastHistoryIndex + 1) } := by
  unfold appendHistory
  dsimp only
  rw [setImage_image_self]

@[simp] theorem appendHistory_image_of_ne {i : Fin c.totalImages} (h : i ≠ s.sweepIndex) :
    s.appendHistory.image i = s.image i := by
  unfold appendHistory
  dsimp only
  rw [setImage_image_of_ne s h]

/-- The image of a finished sweep enters the history, the first one of a master only where there
is one before it. -/
def enterHistory : Pm c α :=
  if !s.firstSweepAsMaster || s.lastSweepValid then s.appendHistory else s

/-- The loop for the next image to use, which skips those that are frozen; no lease expires. -/
def nextFree : Option (Fin c.totalImages) :=
  ((List.range c.totalImages).map fun k => c.wrap (s.sweepIndex + 1 + k)).find? fun i =>
    (s.image i).ffRefCount = 0#64

def useImage (next : Fin c.totalImages) : Pm c α :=
  { s.setImage next (fun image => { image with state := .inProgress }) with
    firstSweepAsMaster := false
    sweepIndex := next
    numSweeps := s.numSweeps + 1#32 }

@[simp] theorem useImage_image_self (next : Fin c.totalImages) :
    (s.useImage next).image next = { s.image next with state := .inProgress } := by
  unfold useImage
  dsimp only
  rw [setImage_image_self]

@[simp] theorem useImage_image_of_ne {i next : Fin c.totalImages} (h : i ≠ next) :
    (s.useImage next).image i = s.image i := by
  unfold useImage
  dsimp only
  rw [setImage_image_of_ne s h]

/-- The end of `PmSweep`; `none` where the loop does not end. -/
def sweepComplete (sweepDuration : Nat) : Option (Pm c α) :=
  let s := (s.setImage s.sweepIndex fun image =>
    { image with sweepDuration := sweepDuration, state := .valid }).enterHistory
  s.nextFree.map s.useImage

def init (c : PmConfig) (interval : Nat) (contents : α) : Pm c α where
  image := fun _ =>
    { state := .invalid
      sweepNum := 0#32
      historyIndex := 0
      ffRefCount := 0#64
      nextClientId := 0#6
      sweepStart := 0
      sweepDuration := 0
      contents := contents }
  history := fun _ => none
  freezeFrames := fun _ => none
  lastSweepIndex := none
  lastHistoryIndex := c.wrap (c.totalImages - 1)
  sweepIndex := c.wrap 0
  numSweeps := 0#32
  firstSweepAsMaster := true
  interval := interval

end Pm

/-! ### Runs -/

/-- A freeze frame that has not been released or moved: its id, the image that was frozen and
what was in it. -/
structure Frozen (c : PmConfig) (α : Type) where
  id : ImageId
  imageIndex : Fin c.totalImages
  contents : α

/-- The manager with the freeze frames that are outstanding. -/
structure PmRun (c : PmConfig) (α : Type) where
  pm : Pm c α
  outstanding : List (Frozen c α)

inductive PmCall (α : Type) where
  | create (imageId : ImageIdData)
  | renew (imageId : ImageIdData)
  | release (imageId : ImageIdData) (junk : BitVec 6)
  | move (ffImageId imageId : ImageIdData)
  | sweepBegin (sweepStart : Nat) (contents : α)
  | sweepComplete (sweepDuration : Nat)

namespace PmRun

variable {c : PmConfig} {α : Type} (r : PmRun c α)

def start (c : PmConfig) (interval : Nat) (contents : α) : PmRun c α := ⟨Pm.init c interval contents, []⟩

def without (id : ImageId) : List (Frozen c α) := r.outstanding.filter fun f => f.id ≠ id

def froze (s : Pm c α) (imageId : ImageIdData) (id : ImageId) : List (Frozen c α) :=
  match (s.findImage imageIdTypeAny imageId).2 with
  | .error _ => []
  | .ok found => [⟨id, found.imageIndex, (s.image found.imageIndex).contents⟩]

/-- One call of a client or one half of a sweep.  A sweep that finds no image to go on with does
not end, and is no step. -/
def step : PmCall α → Except PmFault (PmRun c α × Except PaError (Option ImageId))
  | .create imageId =>
    match r.pm.paFreezeFrameCreate imageId with
    | (s, .error e) => .ok (⟨s, r.outstanding⟩, .error e)
    | (s, .ok id) => .ok (⟨s, froze r.pm imageId id ++ r.outstanding⟩, .ok (some id))
  | .renew imageId =>
    match r.pm.paFreezeFrameRenew imageId with
    | (s, reply) => .ok (⟨s, r.outstanding⟩, reply.map fun _ => none)
  | .release imageId junk =>
    match r.pm.paFreezeFrameRelease imageId junk with
    | (s, .error e) => .ok (⟨s, r.outstanding⟩, .error e)
    | (s, .ok _) => .ok (⟨s, r.without imageId.imageNumber⟩, .ok none)
  | .move ffImageId imageId =>
    match r.pm.paFreezeFrameMove ffImageId imageId with
    | .error e => .error e
    | .ok (s, .error e) => .ok (⟨s, r.outstanding⟩, .error e)
    | .ok (s, .ok id) =>
      .ok (⟨s, froze r.pm imageId id ++ r.without ffImageId.imageNumber⟩, .ok (some id))
  | .sweepBegin sweepStart contents =>
    .ok (⟨r.pm.sweepBegin sweepStart contents, r.outstanding⟩, .ok none)
  | .sweepComplete sweepDuration =>
    .ok (⟨(r.pm.sweepComplete sweepDuration).getD r.pm, r.outstanding⟩, .ok none)

def next (x : Except PmFault (PmRun c α)) (call : PmCall α) : Except PmFault (PmRun c α) :=
  match x with
  | .error e => .error e
  | .ok r => (r.step call).map Prod.fst

end PmRun

end OpaFm.PerfMgr
