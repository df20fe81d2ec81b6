import OpaFm.Sa.ServiceRecord
import Mathlib.Logic.Function.Basic

/-!
# Template queries of service records

A query in the format of the STL class is compared with the stored records byte by byte, under a
mask that is made from the component mask and the table of the fields.  A query in the format of
the InfiniBand class has its components tested one by one.
-/

namespace OpaFm.Sa

/-! ## The mask of a template -/

structure FieldMask where
  offset : Nat
  length : Nat
  deriving DecidableEq

def templateMaskSize : Nat := 4096

abbrev TemplateMask := Nat → BitVec 8

def orByte (m : TemplateMask) (i : Nat) (bits : BitVec 8) : TemplateMask :=
  if i < templateMaskSize then Function.update m i (m i ||| bits) else m

def fillBytes (m : TemplateMask) (offset : Nat) : Nat → TemplateMask
  | 0 => m
  | n + 1 => fillBytes (orByte m (offset / 8) 0xff#8) (offset + 8) n

/-- A field is filled from its partial first byte over the full bytes to its partial last one. -/
def fillField (m : TemplateMask) (f : FieldMask) : TemplateMask :=
  let len := if f.offset % 8 ≠ 0 then min (8 - f.offset % 8) f.length else 0
  let first :=
    if f.offset % 8 ≠ 0 then
      orByte m (f.offset / 8) ((0xff#8 >>> (8 - len)) <<< (8 - len - f.offset % 8))
    else m
  let offset := f.offset + len
  let length := f.length - len
  let full := fillBytes first offset (length / 8)
  if length % 8 > 0 then
    orByte full ((offset + 8 * (length / 8)) / 8) (0xff#8 <<< (8 - length % 8))
  else full

/-- The loop of `sa_create_template_mask`; the field of length 0 that ends a table is left out. -/
def createMaskFrom : List FieldMask → BitVec 64 → TemplateMask → TemplateMask
  | [], _, m => m
  | f :: fields, componentMask, m =>
    if componentMask ≠ 0 then
      createMaskFrom fields (componentMask >>> 1)
        (if componentMask &&& 1 ≠ 0 then fillField m f else m)
    else m

def saCreateTemplateMask (fields : List FieldMask) (componentMask : BitVec 64) : TemplateMask :=
  createMaskFrom fields componentMask fun _ => 0

def saTemplateTestNoinc (m : TemplateMask) (src dst : Nat → BitVec 8) (length : Nat) : Bool :=
  (List.range length).all fun i => (src i ^^^ dst i) &&& m i = 0

/-! ## Service records -/

def stlServiceRecordFieldMask : List FieldMask :=
  [⟨0, 64⟩, ⟨64, 32⟩, ⟨96, 16⟩, ⟨112, 16⟩, ⟨128, 128⟩, ⟨256, 32⟩, ⟨288, 32⟩, ⟨320, 128⟩, ⟨448, 512⟩,
    ⟨960, 8⟩, ⟨968, 8⟩, ⟨976, 8⟩, ⟨984, 8⟩, ⟨992, 8⟩, ⟨1000, 8⟩, ⟨1008, 8⟩, ⟨1016, 8⟩,
    ⟨1024, 8⟩, ⟨1032, 8⟩, ⟨1040, 8⟩, ⟨1048, 8⟩, ⟨1056, 8⟩, ⟨1064, 8⟩, ⟨1072, 8⟩, ⟨1080, 8⟩,
    ⟨1088, 16⟩, ⟨1104, 16⟩, ⟨1120, 16⟩, ⟨1136, 16⟩, ⟨1152, 16⟩, ⟨1168, 16⟩, ⟨1184, 16⟩, ⟨1200, 16⟩,
    ⟨1216, 32⟩, ⟨1248, 32⟩, ⟨1280, 32⟩, ⟨1312, 32⟩, ⟨1344, 64⟩, ⟨1408, 64⟩]

/-- The bits of `STL_SERVICE_RECORD` in network order.  No query that both formats have masks a
reserved field, and these are taken as zero. -/
def ServiceRecord.wire (r : ServiceRecord) : BitVec 1472 :=
  r.serviceId ++ r.serviceLid ++ r.servicePKey ++ 0#16 ++ r.serviceGid ++ r.serviceLease ++ 0#32 ++
    r.serviceKey ++ r.serviceName ++ r.serviceData

def ServiceRecord.wireByte (r : ServiceRecord) (i : Nat) : BitVec 8 :=
  r.wire.extractLsb' (1472 - 8 * (i + 1)) 8

def stlServiceRecordSize : Nat := 184
def ibServiceRecordSize : Nat := 176

/-- What `sa_template_test_noinc` lets pass. -/
def stlTemplatePasses (mask : BitVec 64) (template answer : ServiceRecord) : Bool :=
  saTemplateTestNoinc (saCreateTemplateMask stlServiceRecordFieldMask mask) template.wireByte
    answer.wireByte stlServiceRecordSize

/-! ## Replies -/

def calculatePadding (recsize : Nat) : Nat := if recsize % 8 = 0 then 0 else 8 - recsize % 8

/-- The number of records for which `sa_check_len` finds room. -/
def recordRoom (saDataLength recsize : Nat) : Nat :=
  saDataLength / (recsize + calculatePadding recsize)

/-- The records and the status that `sa_ServiceRecord` replies to `SA_CM_GETTABLE`. -/
def serviceReply (found : List (ServiceRecKey × ServiceRecord) × Option Nat) :
    List (ServiceRecKey × ServiceRecord) × Nat :=
  match found.2 with
  | some status => ([], status)
  | none => if found.1.length = 0 then ([], madStatusSaNoRecords) else (found.1, 0)

def stlServiceReply (env : QueryEnv) (saDataLength : Nat) (t : ServiceTable) (mask : BitVec 64)
    (template : ServiceRecord) : List (ServiceRecKey × ServiceRecord) × Nat :=
  serviceReply (saServiceRecordGetTable
    { env with room := recordRoom saDataLength stlServiceRecordSize } t
    (stlTemplatePasses mask template))

def ibServiceReply (env : QueryEnv) (saDataLength : Nat) (t : ServiceTable) (mask : BitVec 64)
    (query : ServiceRecord) : List (ServiceRecKey × ServiceRecord) × Nat :=
  serviceReply (saIbServiceRecordGetTable
    { env with room := recordRoom saDataLength ibServiceRecordSize } t mask query)

end OpaFm.Sa
