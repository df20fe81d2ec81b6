import OpaFm.Lib.LinkedList
import OpaFm.Lib.RedBlackTree

/-!
# Quick maps

A quick map links items that its caller provides into a red-black tree and into a list in the
order of their keys.  Each map has two items of its own: `root`, above the tree, and
`nil_item`, which stands for every missing child and ends the list.

Loops take fuel.  The number of items of the map bounds what they need.
-/

namespace OpaFm.Qmap

open OpaFm.Lib OpaFm.Lib.RedBlack

/-- A pointer to a `cl_map_item_t`: the two of the map `m`, or an item of the caller. -/
inductive Ref (μ ι : Type) where
  | root (m : μ)
  | nil (m : μ)
  | item (i : ι)
  deriving DecidableEq

/-- `cl_pfn_qmap_compare_key_t`, consistent as its description asks: it may take different
keys for equal. -/
structure KeyCompare where
  compare : Nat → Nat → Int
  swap : ∀ key1 key2, 0 < compare key1 key2 ↔ compare key2 key1 < 0
  trans : ∀ key1 key2 key3, compare key1 key2 ≤ 0 → compare key2 key3 ≤ 0 → compare key1 key3 ≤ 0

/-- `p_left` and `p_right`, `p_up` and `color` of all items. -/
structure TreeHeap (μ ι : Type) where
  child : Ref μ ι → Side → Ref μ ι
  up : Ref μ ι → Ref μ ι
  color : Ref μ ι → Color

/-- All maps, with their items. -/
structure Qmaps (μ ι : Type) where
  heap : TreeHeap μ ι
  links : CircularLinks (Ref μ ι)
  key : Ref μ ι → Nat
  count : μ → Nat
  keyCompare : μ → Option KeyCompare

variable {μ ι : Type}

instance : Inhabited (Qmaps μ ι) where
  default :=
    { heap := { child := fun r _ => r, up := id, color := fun _ => .black }
      links := { next := id, prev := id }
      key := fun _ => 0
      count := fun _ => 0
      keyCompare := fun _ => none }

variable [DecidableEq μ] [DecidableEq ι]

/-! ## The tree -/

namespace TreeHeap

def setChild (h : TreeHeap μ ι) (r : Ref μ ι) (s : Side) (x : Ref μ ι) : TreeHeap μ ι :=
  { h with child := fun r' s' => if r' = r ∧ s' = s then x else h.child r' s' }

def setUp (h : TreeHeap μ ι) (r x : Ref μ ι) : TreeHeap μ ι :=
  { h with up := fun r' => if r' = r then x else h.up r' }

def setColor (h : TreeHeap μ ι) (r : Ref μ ι) (c : Color) : TreeHeap μ ι :=
  { h with color := fun r' => if r' = r then c else h.color r' }

section Writes

variable (h : TreeHeap μ ι) (r r' x : Ref μ ι) (s s' : Side) (c : Color)

@[simp] theorem setChild_child : (h.setChild r s x).child r' s' =
    if r' = r ∧ s' = s then x else h.child r' s' := rfl

@[simp] theorem setChild_up : (h.setChild r s x).up = h.up := rfl

@[simp] theorem setChild_color : (h.setChild r s x).color = h.color := rfl

@[simp] theorem setUp_child : (h.setUp r x).child = h.child := rfl

@[simp] theorem setUp_up : (h.setUp r x).up r' = if r' = r then x else h.up r' := rfl

@[simp] theorem setUp_color : (h.setUp r x).color = h.color := rfl

@[simp] theorem setColor_child : (h.setColor r c).child = h.child := rfl

@[simp] theorem setColor_up : (h.setColor r c).up = h.up := rfl

@[simp] theorem setColor_color : (h.setColor r c).color r' = if r' = r then c else h.color r' := rfl

end Writes

/-- The side of its parent that an item is on: `__cl_map_is_left_child`, and
`__cl_map_get_parent_ptr_to_item`. -/
def parentSide (h : TreeHeap μ ι) (p_item : Ref μ ι) : Side :=
  if h.child (h.up p_item) .left = p_item then .left else .right

/-- `__cl_map_rot_left` and `__cl_map_rot_right`: the item goes down on the side `d`. -/
def rot (d : Side) (m : μ) (h : TreeHeap μ ι) (p_item : Ref μ ι) : TreeHeap μ ι :=
  let root := h.child p_item d.other
  let h := h.setChild (h.up p_item) (h.parentSide p_item) root
  let h := h.setUp root (h.up p_item)
  let h := h.setChild p_item d.other (h.child root d)
  let h := if h.child root d ≠ .nil m then h.setUp (h.child root d) p_item else h
  let h := h.setChild root d p_item
  h.setUp p_item root

/-- A turn of `__cl_map_ins_bal` where the parent is on the side `d` of its own parent; the
item to go on from. -/
def insBalTurn (d : Side) (m : μ) (h : TreeHeap μ ι) (p_item : Ref μ ι) : TreeHeap μ ι × Ref μ ι :=
  let p_grand_uncle := h.child (h.up (h.up p_item)) d.other
  if h.color p_grand_uncle = .red then
    let h := h.setColor p_grand_uncle .black
    let h := h.setColor (h.up p_item) .black
    let h := h.setColor (h.up (h.up p_item)) .red
    (h, h.up (h.up p_item))
  else
    let (h, p_item) :=
      if h.parentSide p_item ≠ d then (h.rot d m (h.up p_item), h.up p_item) else (h, p_item)
    let h := h.setColor (h.up p_item) .black
    let h := h.setColor (h.up (h.up p_item)) .red
    (h.rot d.other m (h.up (h.up p_item)), p_item)

def insBal (m : μ) : Nat → TreeHeap μ ι → Ref μ ι → Option (TreeHeap μ ι)
  | 0, _, _ => none
  | fuel + 1, h, p_item =>
    if h.color (h.up p_item) = .red then
      let (h, p_item) := h.insBalTurn (h.parentSide (h.up p_item)) m p_item
      insBal m fuel h p_item
    else some h

/-- A red uncle on the side away from `d` is turned up. -/
def delBalRed (d : Side) (m : μ) (h : TreeHeap μ ι) (p_item : Ref μ ι) : TreeHeap μ ι :=
  let p_uncle := h.child (h.up p_item) d.other
  if h.color p_uncle = .red then
    let h := h.setColor p_uncle .black
    let h := h.setColor (h.up p_item) .red
    h.rot d m (h.up p_item)
  else h

/-- The rest of a turn, where the uncle is black: an item to go on from, or the end of the
loop. -/
def delBalBlack (d : Side) (m : μ) (h : TreeHeap μ ι) (p_item : Ref μ ι) :
    TreeHeap μ ι × Option (Ref μ ι) :=
  let p_uncle := h.child (h.up p_item) d.other
  if h.color (h.child p_uncle d.other) ≠ .red ∧ h.color (h.child p_uncle d) ≠ .red then
    (h.setColor p_uncle .red, some (h.up p_item))
  else
    let h :=
      if h.color (h.child p_uncle d.other) ≠ .red then
        let h := h.setColor (h.child p_uncle d) .black
        let h := h.setColor p_uncle .red
        h.rot d.other m p_uncle
      else h
    let p_uncle := h.child (h.up p_item) d.other
    let h := h.setColor p_uncle (h.color (h.up p_item))
    let h := h.setColor (h.up p_item) .black
    let h := h.setColor (h.child p_uncle d.other) .black
    (h.rot d m (h.up p_item), none)

def delBal (m : μ) : Nat → TreeHeap μ ι → Ref μ ι → Option (TreeHeap μ ι)
  | 0, _, _ => none
  | fuel + 1, h, p_item =>
    if h.color p_item ≠ .red ∧ h.up p_item ≠ .root m then
      let d := h.parentSide p_item
      match (h.delBalRed d m p_item).delBalBlack d m p_item with
      | (h, some p_item) => delBal m fuel h p_item
      | (h, none) => some (h.setColor p_item .black)
    else some (h.setColor p_item .black)

end TreeHeap

/-! ## Maps -/

namespace Qmaps

def clQmapRoot (s : Qmaps μ ι) (m : μ) : Ref μ ι := s.heap.child (.root m) .left

def clQmapHead (s : Qmaps μ ι) (m : μ) : Ref μ ι := s.links.next (.nil m)

def clQmapNext (s : Qmaps μ ι) (p_item : Ref μ ι) : Ref μ ι := s.links.next p_item

def clQmapKey (s : Qmaps μ ι) (p_item : Ref μ ι) : Nat := s.key p_item

/-- `cl_qmap_init`, with `cl_qmap_remove_all`. -/
def clQmapInit (s : Qmaps μ ι) (m : μ) (key_compare : Option KeyCompare) : Qmaps μ ι where
  heap :=
    { child := fun r side => if r = .root m ∨ r = .nil m then .nil m else s.heap.child r side
      up := fun r => if r = .root m then .root m else if r = .nil m then .nil m else s.heap.up r
      color := fun r => if r = .root m ∨ r = .nil m then .black else s.heap.color r }
  links :=
    { next := Function.update s.links.next (.nil m) (.nil m)
      prev := Function.update s.links.prev (.nil m) (.nil m) }
  key := s.key
  count := Function.update s.count m 0
  keyCompare := Function.update s.keyCompare m key_compare

/-- How the key of an item stands to another one, as all searches but `cl_qmap_get_next` see
it. -/
def compareKey (key_compare : Option KeyCompare) (itemKey key : Nat) : Int :=
  match key_compare with
  | none => if key = itemKey then 0 else if key < itemKey then 1 else -1
  | some c => c.compare itemKey key

def getLoop (s : Qmaps μ ι) (m : μ) (key : Nat) : Nat → Ref μ ι → Option (Ref μ ι)
  | 0, _ => none
  | fuel + 1, p_item =>
    if p_item = .nil m then some p_item
    else
      let compare_res := compareKey (s.keyCompare m) (s.key p_item) key
      if compare_res = 0 then some p_item
      else if compare_res > 0 then getLoop s m key fuel (s.heap.child p_item .left)
      else getLoop s m key fuel (s.heap.child p_item .right)

def clQmapGet (s : Qmaps μ ι) (m : μ) (key : Nat) : Option (Ref μ ι) :=
  s.getLoop m key (s.count m + 1) (s.clQmapRoot m)

/-- `cl_qmap_get_next` has its own loops: the item's key comes first in the comparison of both,
but only the default one goes left at a larger key. -/
def getNextLoop (s : Qmaps μ ι) (m : μ) (key : Nat) : Nat → Ref μ ι → Ref μ ι → Option (Ref μ ι)
  | 0, _, _ => none
  | fuel + 1, p_item, p_item_found =>
    if p_item = .nil m then some p_item_found
    else
      match s.keyCompare m with
      | none =>
        if key < s.key p_item then getNextLoop s m key fuel (s.heap.child p_item .left) p_item
        else getNextLoop s m key fuel (s.heap.child p_item .right) p_item_found
      | some key_compare =>
        let compare_res := key_compare.compare (s.key p_item) key
        if compare_res < 0 then getNextLoop s m key fuel (s.heap.child p_item .left) p_item
        else getNextLoop s m key fuel (s.heap.child p_item .right) p_item_found

def clQmapGetNext (s : Qmaps μ ι) (m : μ) (key : Nat) : Option (Ref μ ι) :=
  s.getNextLoop m key (s.count m + 1) (s.clQmapRoot m) (.nil m)

/-- Where an insertion ends up: at an item that has the key, or below `p_insert_at` on the
side that `compare_res` says. -/
inductive InsertPlace (μ ι : Type) where
  | present (p_item : Ref μ ι)
  | free (p_insert_at : Ref μ ι) (compare_res : Int)

def insertLoop (s : Qmaps μ ι) (m : μ) (key : Nat) :
    Nat → Ref μ ι → Ref μ ι → Int → Option (InsertPlace μ ι)
  | 0, _, _, _ => none
  | fuel + 1, p_insert_at, p_comp_item, compare_res =>
    if p_comp_item = .nil m then some (.free p_insert_at compare_res)
    else
      let compare_res := compareKey (s.keyCompare m) (s.key p_comp_item) key
      if compare_res = 0 then some (.present p_comp_item)
      else if compare_res > 0 then
        insertLoop s m key fuel p_comp_item (s.heap.child p_comp_item .left) compare_res
      else insertLoop s m key fuel p_comp_item (s.heap.child p_comp_item .right) compare_res

def linkItem (s : Qmaps μ ι) (m : μ) (key : Nat) (p_item p_insert_at : Ref μ ι) (compare_res : Int) :
    Qmaps μ ι :=
  let leaf := ((s.heap.setChild p_item .left (.nil m)).setChild p_item .right (.nil m)).setColor
    p_item .red
  let (heap, links) :=
    if p_insert_at = .root m then
      (leaf.setChild p_insert_at .left p_item, s.links.insertBefore (.nil m) p_item)
    else if compare_res > 0 then
      (leaf.setChild p_insert_at .left p_item, s.links.insertBefore p_insert_at p_item)
    else
      (leaf.setChild p_insert_at .right p_item,
        s.links.insertBefore (s.links.next p_insert_at) p_item)
  { s with
    heap := heap.setUp p_item p_insert_at
    links := links
    key := Function.update s.key p_item key
    count := Function.update s.count m (s.count m + 1) }

def clQmapInsert (s : Qmaps μ ι) (m : μ) (key : Nat) (p_item : Ref μ ι) :
    Option (Qmaps μ ι × Ref μ ι) :=
  match s.insertLoop m key (s.count m + 1) (.root m) (s.clQmapRoot m) 0 with
  | none => none
  | some (.present p_insert_at) => some (s, p_insert_at)
  | some (.free p_insert_at compare_res) =>
    let s := s.linkItem m key p_item p_insert_at compare_res
    (s.heap.insBal m (s.count m + 1) p_item).map fun heap =>
      ({ s with heap := heap.setColor (heap.child (.root m) .left) .black }, p_item)

def exchange (h : TreeHeap μ ι) (p_item p_del_item : Ref μ ι) : TreeHeap μ ι :=
  let h := h.setUp p_del_item (h.up p_item)
  let h := h.setChild p_del_item .left (h.child p_item .left)
  let h := h.setChild p_del_item .right (h.child p_item .right)
  let h := h.setChild (h.up p_item) (h.parentSide p_item) p_del_item
  let h := h.setUp (h.child p_item .right) p_del_item
  let h := h.setUp (h.child p_item .left) p_del_item
  h.setColor p_del_item (h.color p_item)

def unlinkItem (h : TreeHeap μ ι) (m : μ) (p_del_item : Ref μ ι) : TreeHeap μ ι × Ref μ ι :=
  let p_child :=
    if h.child p_del_item .left ≠ .nil m then h.child p_del_item .left
    else h.child p_del_item .right
  let h := h.setUp p_child (h.up p_del_item)
  (h.setChild (h.up p_del_item) (h.parentSide p_del_item) p_child, p_child)

def clQmapRemoveItem (s : Qmaps μ ι) (m : μ) (p_item : Ref μ ι) : Option (Qmaps μ ι) :=
  if p_item = .nil m then some s
  else
    let p_del_item :=
      if s.heap.child p_item .right = .nil m ∨ s.heap.child p_item .left = .nil m then p_item
      else s.clQmapNext p_item
    let (h, p_child) := unlinkItem s.heap m p_del_item
    let balanced :=
      if h.color p_del_item ≠ .red then h.delBal m (s.count m + 2) p_child else some h
    balanced.map fun h =>
      { s with
        heap := if p_del_item ≠ p_item then exchange h p_item p_del_item else h
        links := s.links.remove p_item
        count := Function.update s.count m (s.count m - 1) }

def clQmapRemove (s : Qmaps μ ι) (m : μ) (key : Nat) : Option (Qmaps μ ι × Ref μ ι) :=
  (s.clQmapGet m key).bind fun p_item =>
    (s.clQmapRemoveItem m p_item).map fun s => (s, p_item)

/-- The loop of `cl_qmap_apply_func`, from an item on: the items in the order of the visits. -/
def walk (s : Qmaps μ ι) (m : μ) : Nat → Ref μ ι → Option (List (Ref μ ι))
  | 0, _ => none
  | fuel + 1, p_map_item =>
    if p_map_item = .nil m then some []
    else (walk s m fuel (s.clQmapNext p_map_item)).map (p_map_item :: ·)

end Qmaps

end OpaFm.Qmap
