import OpaFm.Lib.LinkedList
import Mathlib.Data.BitVec

/-!
# Hash tables

Every entry is in the chain of its bucket and in a doubly linked list of all entries;
removed entries are kept in a free list.  Entries are numbered in the order in which
they were allocated, and each of their fields is a function of the number.
-/

namespace OpaFm.Cs

open OpaFm.Lib

variable {K V : Type}

def primes : List Nat :=
  [53, 97, 193, 389, 769, 1543, 3079, 6151, 12289, 24593, 49157, 98317, 196613, 393241, 786433,
    1572869, 3145739, 6291469, 12582917, 25165843, 50331653, 100663319, 201326611, 402653189,
    805306457, 1610612741]

/-- The functions that a table is made with. -/
structure HashFns (K : Type) where
  hashfn : K → BitVec 64
  eqfn : K → K → Bool

/-- `struct cs_hashtable` and the entries.  `allocated` is the number of entries that
have been allocated. -/
structure CsHashtable (K V : Type) where
  listHead : Option Nat
  listTail : Option Nat
  freeHead : Option Nat
  tablelength : Nat
  table : Nat → Option Nat
  entrycount : Nat
  loadlimit : Nat
  primeindex : Int
  allocated : Nat
  k : Nat → Option K
  v : Nat → Option V
  h : Nat → BitVec 64
  hashNext : Nat → Option Nat
  listNext : Nat → Option Nat
  listPrev : Nat → Option Nat

def hash (fns : HashFns K) (k : K) : BitVec 64 :=
  let i := fns.hashfn k
  let i := i + ~~~(i <<< 9)
  let i := i ^^^ ((i >>> 14) ||| (i <<< 18))
  let i := i + (i <<< 4)
  i ^^^ ((i >>> 10) ||| (i <<< 22))

/-- `indexFor`, which takes the hash value in 32 bits. -/
def indexFor (tablelength : Nat) (hashvalue : BitVec 64) : Nat :=
  (hashvalue.setWidth 32).toNat % tablelength

def inc32 (n : Nat) : Nat := (n + 1) % 2 ^ 32
def dec32 (n : Nat) : Nat := (n + (2 ^ 32 - 1)) % 2 ^ 32

namespace CsHashtable

variable (t : CsHashtable K V)

/-! ## Expanding -/

def rehash (newsize : Nat) :
    Nat → Option Nat → (Nat → Option Nat) × (Nat → Option Nat) →
      (Nat → Option Nat) × (Nat → Option Nat)
  | 0, _, s => s
  | _ + 1, none, s => s
  | fuel + 1, some e, (hashNext, newtable) =>
    let index := indexFor newsize (t.h e)
    rehash newsize fuel (t.listNext e)
      (Function.update hashNext e (newtable index), Function.update newtable index (some e))

/-- `cs_hashtable_expand`; `mem` tells whether there is memory for the new buckets. -/
def csHashtableExpand (mem : Bool) : CsHashtable K V × Bool :=
  if t.primeindex = primes.length - 1 then (t, false)
  else if !mem then (t, false)
  else
    let primeindex := t.primeindex + 1
    let newsize := primes.getD primeindex.toNat 0
    let (hashNext, table) :=
      t.rehash newsize (t.allocated + 1) t.listHead (t.hashNext, fun _ => none)
    ({ t with
        primeindex := primeindex
        hashNext := hashNext
        table := table
        tablelength := newsize
        loadlimit := newsize * 8 / 10 }, true)

def blank (primeindex : Int) : CsHashtable K V where
  listHead := none
  listTail := none
  freeHead := none
  tablelength := 0
  table := fun _ => none
  entrycount := 0
  loadlimit := 0
  primeindex := primeindex
  allocated := 0
  k := fun _ => none
  v := fun _ => none
  h := fun _ => 0
  hashNext := fun _ => none
  listNext := fun _ => none
  listPrev := fun _ => none

def csCreateHashtable (minsize : Nat) (mem : Bool) : Option (CsHashtable K V) :=
  if minsize > 2 ^ 30 then none
  else
    let pindex := (primes.takeWhile (· ≤ minsize)).length
    match (blank (pindex - 1)).csHashtableExpand mem with
    | (t, true) => some t
    | (_, false) => none

/-! ## Inserting -/

def putEntry (fns : HashFns K) (e : Nat) (k : K) (v : V) : CsHashtable K V :=
  let hashvalue := hash fns k
  let index := indexFor t.tablelength hashvalue
  let listNext := Function.update t.listNext e none
  let t : CsHashtable K V :=
    { t with
      k := Function.update t.k e (some k)
      v := Function.update t.v e (some v)
      h := Function.update t.h e hashvalue
      hashNext := Function.update t.hashNext e (t.table index)
      table := Function.update t.table index (some e)
      listNext := listNext }
  match t.listHead, t.listTail with
  | none, _ =>
    { t with
      listHead := some e
      listTail := some e
      listPrev := Function.update t.listPrev e none }
  | some _, listTail =>
    { t with
      listPrev := Function.update t.listPrev e listTail
      listNext := listTail.elim listNext fun tail => Function.update listNext tail (some e)
      listTail := some e }

/-- `cs_hashtable_insert`; `memTable` and `memEntry` tell what the two allocations do. -/
def csHashtableInsert (fns : HashFns K) (k : K) (v : V) (memTable memEntry : Bool) :
    CsHashtable K V × Bool :=
  let t := { t with entrycount := inc32 t.entrycount }
  let t := if t.entrycount > t.loadlimit then (t.csHashtableExpand memTable).1 else t
  match t.freeHead with
  | none =>
    if !memEntry then ({ t with entrycount := dec32 t.entrycount }, false)
    else (({ t with allocated := t.allocated + 1 } : CsHashtable K V).putEntry fns t.allocated k v,
      true)
  | some e => (({ t with freeHead := t.listNext e } : CsHashtable K V).putEntry fns e k v, true)

/-! ## Searching -/

def hits (fns : HashFns K) (k : K) (e : Nat) : Bool :=
  hash fns k = t.h e ∧ (t.k e).any (fns.eqfn k)

def bucket (fns : HashFns K) (k : K) : Nat := indexFor t.tablelength (hash fns k)

def csHashtableSearch (fns : HashFns K) (k : K) : Option V :=
  (findLinked t.hashNext (t.hits fns k) (t.allocated + 1) (t.table (t.bucket fns k))).bind t.v

def csHashtableChange (fns : HashFns K) (k : K) (v : V) : CsHashtable K V × Bool :=
  match findLinked t.hashNext (t.hits fns k) (t.allocated + 1) (t.table (t.bucket fns k)) with
  | none => (t, false)
  | some e => ({ t with v := Function.update t.v e (some v) }, true)

/-! ## Removing -/

def csHashentryDelete (e : Nat) : CsHashtable K V :=
  let listNext := (t.listPrev e).elim t.listNext fun p => Function.update t.listNext p (t.listNext e)
  let listPrev := (t.listNext e).elim t.listPrev fun n => Function.update t.listPrev n (t.listPrev e)
  { t with
    entrycount := dec32 t.entrycount
    listHead := if t.listHead = some e then t.listNext e else t.listHead
    listTail := if t.listTail = some e then t.listPrev e else t.listTail
    listNext := Function.update listNext e t.freeHead
    listPrev := listPrev
    freeHead := some e }

def removeFrom (index : Nat) (test : Nat → Bool) : CsHashtable K V × Option Nat :=
  match findLink t.hashNext test (t.allocated + 1) none (t.table index) with
  | none => (t, none)
  | some (prev, e) =>
    let t : CsHashtable K V :=
      match prev with
      | none => { t with table := Function.update t.table index (t.hashNext e) }
      | some p => { t with hashNext := Function.update t.hashNext p (t.hashNext e) }
    (t.csHashentryDelete e, some e)

def csHashtableRemove (fns : HashFns K) (k : K) : CsHashtable K V × Option V :=
  let (t', e) := t.removeFrom (t.bucket fns k) (t.hits fns k)
  (t', e.bind t.v)

/-- The entry at an iterator that was advanced `n` times. -/
def iteratorAt : Nat → Option Nat → Option Nat
  | 0, e => e
  | n + 1, e => iteratorAt n (e.bind t.listNext)

/-- `cs_hashtable_iterator_remove` at that entry. -/
def csHashtableIteratorRemove (fns : HashFns K) (n : Nat) : CsHashtable K V :=
  match t.iteratorAt n t.listHead with
  | none => t
  | some e =>
    match t.k e with
    | none => t
    | some k => (t.removeFrom (t.bucket fns k) (· == e)).1

def walkList : Nat → Option Nat → List Nat
  | 0, _ => []
  | _ + 1, none => []
  | fuel + 1, some e => e :: walkList fuel (t.listNext e)

def entries : List (K × V) :=
  (t.walkList (t.allocated + 1) t.listHead).filterMap fun e =>
    (t.k e).bind fun k => (t.v e).map fun v => (k, v)

end CsHashtable

inductive HashCall (K V : Type) where
  | insert (k : K) (v : V) (memTable memEntry : Bool)
  | remove (k : K)
  | change (k : K) (v : V)
  | iteratorRemove (n : Nat)

end OpaFm.Cs
