import OpaFm.Jm.Wire
import OpaFm.Lib.WordBits

/-!
# The bytes of a job

What the encoders write is a fixed sequence of bytes, whatever was in the buffer before, and the
decoders read it back.  They check each length before they read.
-/

namespace OpaFm.Jm

open OpaFm.Cs

/-! ## Words in network order -/

def bytes16 (v : BitVec 16) : Buffer := [(v >>> 8).setWidth 8, v.setWidth 8]

def bytes64 (v : BitVec 64) : Buffer :=
  [(v >>> 56).setWidth 8, (v >>> 48).setWidth 8, (v >>> 40).setWidth 8, (v >>> 32).setWidth 8,
    (v >>> 24).setWidth 8, (v >>> 16).setWidth 8, (v >>> 8).setWidth 8, v.setWidth 8]

theorem length_bytes64 (v : BitVec 64) : (bytes64 v).length = 8 := rfl

theorem byte_or_low {n : Nat} (v : BitVec n) (k : Nat) :
    ((v >>> k).setWidth 8).setWidth n <<< k ||| (v.setWidth k).setWidth n =
      (v.setWidth (k + 8)).setWidth n := by
  ext i hi
  simp only [BitVec.getElem_or, BitVec.getElem_shiftLeft, BitVec.getElem_setWidth,
    BitVec.getLsbD_setWidth, BitVec.getLsbD_ushiftRight]
  by_cases h : i < k
  · have hlt : i < k + 8 := by omega
    simp [h, hlt]
  · have hsum : k + (i - k) = i := by omega
    have hlow : i - k < 8 ↔ i < k + 8 := by omega
    simp [h, hsum, hlow, hi]

theorem ntoh16array_bytes (v : BitVec 16) (rest : Buffer) :
    ntoh16array (bytes16 v ++ rest) = some v := by
  show some _ = some v
  rw [byte_or_low v 8, BitVec.setWidth_eq, BitVec.setWidth_eq]

theorem ntoh64array_bytes (v : BitVec 64) (rest : Buffer) :
    ntoh64array (bytes64 v ++ rest) = some v := by
  show some _ = some v
  simp only [BitVec.or_assoc]
  rw [byte_or_low v 8, byte_or_low v 16, byte_or_low v 24, byte_or_low v 32, byte_or_low v 40,
    byte_or_low v 48, byte_or_low v 56, BitVec.setWidth_eq, BitVec.setWidth_eq]

/-! ## Writing -/

def pokes (mem : Buffer) (i : Nat) : Buffer → Option Buffer
  | [] => some mem
  | b :: bs => (poke mem i b).bind fun mem => pokes mem (i + 1) bs

theorem hton16array_eq (mem : Buffer) (i : Nat) (v : BitVec 16) :
    hton16array mem i v = pokes mem i (bytes16 v) := by
  simp [hton16array, pokes, bytes16, Option.bind_eq_bind]

theorem hton64array_eq (mem : Buffer) (i : Nat) (v : BitVec 64) :
    hton64array mem i v = pokes mem i (bytes64 v) := by
  simp [hton64array, pokes, bytes64, Option.bind_eq_bind]

section Writing

variable {before old after : Buffer} {i : Nat}

theorem pokes_at (hi : before.length = i) {bs : Buffer} (hold : old.length = bs.length) :
    pokes (before ++ (old ++ after)) i bs = some (before ++ (bs ++ after)) := by
  induction bs generalizing before old i with
  | nil =>
    rw [List.eq_nil_of_length_eq_zero hold]
    rfl
  | cons b bs ih =>
    obtain ⟨x, old, rfl⟩ := List.exists_cons_of_length_eq_add_one hold
    have hlt : i < (before ++ (x :: old ++ after)).length := by
      rw [List.length_append, List.length_append, List.length_cons]
      omega
    have hpoke : poke (before ++ (x :: old ++ after)) i b =
        some ((before ++ [b]) ++ (old ++ after)) := by
      rw [poke, if_pos hlt, List.set_append_right _ _ (Nat.le_of_eq hi), ← hi, Nat.sub_self,
        List.append_assoc]
      rfl
    have hlen : (before ++ [b]).length = i + 1 := by
      rw [List.length_append, hi]
      rfl
    rw [pokes, hpoke, Option.bind_some, ih hlen (Nat.succ.inj hold), List.append_assoc]
    rfl

variable (before old after) in
theorem hton16array_at (hi : before.length = i) (hold : old.length = 2) (v : BitVec 16) :
    hton16array (before ++ (old ++ after)) i v = some (before ++ (bytes16 v ++ after)) := by
  rw [hton16array_eq, pokes_at hi hold]

theorem hton64array_at (hi : before.length = i) (hold : old.length = 8) (v : BitVec 64) :
    hton64array (before ++ (old ++ after)) i v = some (before ++ (bytes64 v ++ after)) := by
  rw [hton64array_eq, pokes_at hi hold]

theorem encodeGuids_at (hi : before.length = i) {guids : List (BitVec 64)}
    (hold : old.length = 8 * guids.length) :
    encodeGuids (before ++ (old ++ after)) i guids =
      some (before ++ (guids.flatMap bytes64 ++ after)) := by
  induction guids generalizing before old i with
  | nil =>
    rw [List.eq_nil_of_length_eq_zero hold]
    rfl
  | cons guid guids ih =>
    rw [List.length_cons, Nat.mul_succ] at hold
    have hsplit : before ++ (old ++ after) =
        before ++ (old.take 8 ++ (old.drop 8 ++ after)) := by
      rw [← List.append_assoc (old.take 8), List.take_append_drop]
    have htake : (old.take 8).length = 8 := by
      rw [List.length_take]
      omega
    have hlen : (before ++ bytes64 guid).length = i + jmNsizeGuidlistElement := by
      rw [List.length_append, hi]
      rfl
    rw [encodeGuids, hsplit, hton64array_at hi htake, Option.bind_eq_bind, Option.bind_some,
      ← List.append_assoc before, ih hlen (by rw [List.length_drop]; omega), List.append_assoc,
      List.flatMap_cons, List.append_assoc]

end Writing

def guidBytes (job : JmEntry) : Buffer :=
  bytes16 job.portCount ++ job.ports.toList.flatMap bytes64

theorem length_flatMap_bytes (guids : List (BitVec 64)) :
    (guids.flatMap bytes64).length = 8 * guids.length := by
  induction guids with
  | nil => rfl
  | cons guid guids ih =>
    rw [List.flatMap_cons, List.length_append, ih, length_bytes64, List.length_cons]
    omega

theorem length_guidBytes (job : JmEntry) :
    (guidBytes job).length = jmNsizeGuidlist job.portCount.toNat := by
  rw [guidBytes, List.length_append, length_flatMap_bytes, List.Vector.toList_length]
  show 2 + 8 * job.portCount.toNat = 2 + job.portCount.toNat * 8
  omega

theorem smJmEncodeTypeGuidList_eq (job : JmEntry) {mem : Buffer}
    (hlen : jmNsizeGuidlist job.portCount.toNat ≤ mem.length) :
    smJmEncodeTypeGuidList mem mem.length job =
      some (.ok (guidBytes job ++ mem.drop (jmNsizeGuidlist job.portCount.toNat),
        jmNsizeGuidlist job.portCount.toNat)) := by
  have hn : jmNsizeGuidlist job.portCount.toNat = 2 + 8 * job.portCount.toNat := by
    show 2 + job.portCount.toNat * 8 = _
    omega
  have hsplit : mem = [] ++ (mem.take 2 ++ mem.drop 2) := (List.take_append_drop 2 mem).symm
  have htake : (mem.take 2).length = 2 := by
    rw [List.length_take]
    omega
  have hrest : mem.drop 2 = (mem.drop 2).take (8 * job.portCount.toNat) ++
      mem.drop (jmNsizeGuidlist job.portCount.toNat) := by
    rw [hn, ← List.drop_drop, List.take_append_drop]
  have hold : ((mem.drop 2).take (8 * job.portCount.toNat)).length =
      8 * job.ports.toList.length := by
    rw [List.length_take, List.length_drop, List.Vector.toList_length]
    omega
  have hlist : encodeGuids (bytes16 job.portCount ++
      ((mem.drop 2).take (8 * job.portCount.toNat) ++
        mem.drop (jmNsizeGuidlist job.portCount.toNat))) jmNsizeGuidlistHeader job.ports.toList =
      some (bytes16 job.portCount ++ (job.ports.toList.flatMap bytes64 ++
        mem.drop (jmNsizeGuidlist job.portCount.toNat))) := encodeGuids_at rfl hold
  have hcount : hton16array mem 0 job.portCount = some (bytes16 job.portCount ++ mem.drop 2) := by
    conv_lhs => rw [hsplit]
    exact hton16array_at [] _ _ rfl htake job.portCount
  rw [smJmEncodeTypeGuidList, if_neg (Nat.not_lt_of_le hlen), hcount, hrest, Option.bind_eq_bind,
    Option.bind_some, hlist, Option.bind_some, guidBytes, List.append_assoc]

/-! ## Reading -/

section Reading

variable {π : Type} {gives : π → Nat → Bool} {smPool : π}

theorem decodeGuids_bytes {n : Nat} (guids : List.Vector (BitVec 64) n) (rest : Buffer) :
    decodeGuids n (guids.toList.flatMap bytes64 ++ rest) = some guids := by
  induction n with
  | zero => rw [decodeGuids, guids.eq_nil]
  | succ n ih =>
    rw [← guids.cons_head_tail, List.Vector.toList_cons, List.flatMap_cons, List.append_assoc,
      decodeGuids, ntoh64array_bytes, Option.bind_eq_bind, Option.bind_some]
    have hdrop : (bytes64 guids.head ++ (guids.tail.toList.flatMap bytes64 ++ rest)).drop
        jmNsizeGuidlistElement = guids.tail.toList.flatMap bytes64 ++ rest :=
      List.drop_left' (length_bytes64 _)
    rw [hdrop, ih, Option.bind_eq_bind, Option.bind_some]

theorem smJmDecodeTypeGuidList_bytes (job : JmEntry) (rest : Buffer) {blen : Nat}
    (hblen : jmNsizeGuidlist job.portCount.toNat ≤ blen) :
    smJmDecodeTypeGuidList gives smPool (guidBytes job ++ rest) blen =
      if vsPoolAlloc gives (some smPool) (job.portCount.toNat * 8) then
        some (.ok (⟨job.portCount, job.ports⟩, jmNsizeGuidlist job.portCount.toNat))
      else some (.error .alloc) := by
  have hn : jmNsizeGuidlist job.portCount.toNat = 2 + job.portCount.toNat * 8 := rfl
  have hheader : ¬blen < jmNsizeGuidlistHeader := by
    show ¬blen < 2
    omega
  have helements : ¬blen - jmNsizeGuidlistHeader < jmNsizeGuidlistElements job.portCount.toNat := by
    show ¬blen - 2 < job.portCount.toNat * 8
    omega
  have hdrop : (guidBytes job ++ rest).drop jmNsizeGuidlistHeader =
      job.ports.toList.flatMap bytes64 ++ rest := rfl
  have hcount : ntoh16array (guidBytes job ++ rest) = some job.portCount := by
    rw [guidBytes, List.append_assoc]
    exact ntoh16array_bytes _ _
  rw [smJmDecodeTypeGuidList, if_neg hheader, hcount, Option.bind_eq_bind, Option.bind_some, hdrop,
    if_neg helements, decodeGuids_bytes]
  cases vsPoolAlloc gives (some smPool) (job.portCount.toNat * 8) <;> rfl

end Reading

/-! ## Use elements -/

def elementBytes (e : JmWireUseElement) : Buffer :=
  [((e.swidx.setWidth 16 &&& 0x7fff#16) >>> 8).setWidth 8 ||| e.bursty.setWidth 8 <<< 7,
    (e.swidx.setWidth 16 &&& 0x7fff#16).setWidth 8] ++ bytes16 e.dlid ++ [e.use]

theorem length_elementBytes (e : JmWireUseElement) : (elementBytes e).length = 5 := rfl

theorem mask_bits (i : Nat) :
    (0x7fff#16).getLsbD i = decide (i < 15) ∧ (0x7f#8).getLsbD i = decide (i < 7) := by
  have hmask : 0x7fff#16 = (BitVec.allOnes 15).setWidth 16 := by decide
  have hmask' : 0x7f#8 = (BitVec.allOnes 7).setWidth 8 := by decide
  rw [hmask, hmask', BitVec.getLsbD_setWidth, BitVec.getLsbD_setWidth, BitVec.getLsbD_allOnes,
    BitVec.getLsbD_allOnes, ← Bool.decide_and, ← Bool.decide_and, decide_eq_decide,
    decide_eq_decide]
  omega

theorem bursty_bits (s : BitVec 15) (b : BitVec 1) :
    (if (((s.setWidth 16 &&& 0x7fff#16) >>> 8).setWidth 8 ||| b.setWidth 8 <<< 7) &&& 0x80#8 ≠ 0#8
      then 1#1 else 0#1) = b := by
  have hbit : (((s.setWidth 16 &&& 0x7fff#16) >>> 8).setWidth 8 |||
      b.setWidth 8 <<< 7) &&& 0x80#8 ≠ 0#8 ↔ b.getLsbD 0 = true := by
    refine (Lib.and_shift_ne_zero (i := 7) (by decide)).trans ?_
    simp
  rcases BitVec.eq_zero_or_eq_one b with rfl | rfl
  · rw [if_neg (mt hbit.mp (by decide))]
  · rw [if_pos (hbit.mpr (by decide))]

theorem swidx_bits (s : BitVec 15) (b : BitVec 1) :
    ((((s.setWidth 16 &&& 0x7fff#16) >>> 8).setWidth 8 ||| b.setWidth 8 <<< 7) &&&
      0x7f#8).setWidth 15 <<< 8 ||| ((s.setWidth 16 &&& 0x7fff#16).setWidth 8).setWidth 15 = s := by
  ext i hi
  simp only [BitVec.getElem_or, BitVec.getElem_shiftLeft, BitVec.getElem_setWidth,
    BitVec.getLsbD_setWidth, BitVec.getLsbD_or, BitVec.getLsbD_and, BitVec.getLsbD_ushiftRight,
    BitVec.getLsbD_shiftLeft, (mask_bits _).1, (mask_bits _).2]
  by_cases h : i < 8
  · have h16 : i < 16 := by omega
    simp [h, hi, h16]
  · have hsum : 8 + (i - 8) = i := by omega
    have h7 : i - 8 < 7 := by omega
    have h8 : i - 8 < 8 := by omega
    have h16 : i < 16 := by omega
    simp [h, hsum, h7, h8, hi, h16]

section Elements

variable {before old after : Buffer} {i blen : Nat}

variable (before after) in
theorem poke_at (hi : before.length = i) (x b : BitVec 8) :
    poke (before ++ (x :: after)) i b = some (before ++ (b :: after)) := by
  have h : pokes (before ++ ([x] ++ after)) i [b] = some (before ++ ([b] ++ after)) :=
    pokes_at hi rfl
  rw [pokes] at h
  simpa [pokes] using h

theorem smJmEncodeTypeUseElement_at (hi : before.length = i) (hold : old.length = 5)
    (hblen : jmNsizeUsematrixElement ≤ blen) (e : JmWireUseElement) :
    smJmEncodeTypeUseElement (before ++ (old ++ after)) i blen e =
      some (.ok (before ++ (elementBytes e ++ after), jmNsizeUsematrixElement)) := by
  match old, hold with
  | [x0, x1, x2, x3, x4], _ =>
    let hi8 : BitVec 8 := ((e.swidx.setWidth 16 &&& 0x7fff#16) >>> 8).setWidth 8
    let lo8 : BitVec 8 := (e.swidx.setWidth 16 &&& 0x7fff#16).setWidth 8
    let first : BitVec 8 := hi8 ||| e.bursty.setWidth 8 <<< 7
    have hindex : hton16array (before ++ ([x0, x1, x2, x3, x4] ++ after)) i
        (e.swidx.setWidth 16 &&& 0x7fff#16) =
          some (before ++ (hi8 :: (lo8 :: x2 :: x3 :: x4 :: after))) :=
      hton16array_at before [x0, x1] (x2 :: x3 :: x4 :: after) hi rfl _
    have hget : (before ++ (hi8 :: (lo8 :: x2 :: x3 :: x4 :: after)))[i]? = some hi8 := by
      rw [List.getElem?_append_right (Nat.le_of_eq hi), ← hi, Nat.sub_self]
      rfl
    have hbursty := poke_at before (lo8 :: x2 :: x3 :: x4 :: after) hi hi8 first
    have hdlid : hton16array (before ++ (first :: (lo8 :: x2 :: x3 :: x4 :: after))) (i + 2)
        e.dlid = some ((before ++ [first, lo8]) ++ (bytes16 e.dlid ++ (x4 :: after))) := by
      have hlen : (before ++ [first, lo8]).length = i + 2 := by
        rw [List.length_append, hi]
        rfl
      have h := hton16array_at (before ++ [first, lo8]) [x2, x3] (x4 :: after) hlen rfl e.dlid
      rw [List.append_assoc before] at h
      exact h
    have huse : poke ((before ++ [first, lo8]) ++ (bytes16 e.dlid ++ (x4 :: after))) (i + 4)
        e.use = some (before ++ (elementBytes e ++ after)) := by
      have hlen : (before ++ [first, lo8] ++ bytes16 e.dlid).length = i + 4 := by
        rw [List.length_append, List.length_append, hi]
        rfl
      have h := poke_at _ after hlen x4 e.use
      rw [List.append_assoc] at h
      rw [h]
      simp [elementBytes, first, hi8, lo8]
    unfold smJmEncodeTypeUseElement
    simp only [Option.bind_eq_bind]
    rw [if_neg (Nat.not_lt_of_le hblen), hindex, Option.bind_some, hget, Option.bind_some,
      hbursty, Option.bind_some, hdlid, Option.bind_some, huse, Option.bind_some]

theorem smJmDecodeTypeUseElement_bytes (e : JmWireUseElement) (rest : Buffer)
    (hblen : jmNsizeUsematrixElement ≤ blen) :
    smJmDecodeTypeUseElement (elementBytes e ++ rest) blen =
      some (.ok (e, jmNsizeUsematrixElement)) := by
  have hdlid : ntoh16array ((elementBytes e ++ rest).drop 2) = some e.dlid :=
    ntoh16array_bytes e.dlid ([e.use] ++ rest)
  rw [smJmDecodeTypeUseElement, if_neg (Nat.not_lt_of_le hblen), hdlid]
  show some (Except.ok (({ bursty := _, swidx := _, dlid := e.dlid, use := e.use } :
    JmWireUseElement), jmNsizeUsematrixElement)) = _
  rw [bursty_bits, swidx_bits]

variable (before old after) in
theorem encodeElements_at (hi : before.length = i) {elements : List JmWireUseElement}
    (hold : old.length = 5 * elements.length) (hblen : 5 * elements.length ≤ blen) :
    encodeElements (before ++ (old ++ after)) i blen elements =
      some (.ok (before ++ (elements.flatMap elementBytes ++ after))) := by
  induction elements generalizing before old i blen with
  | nil =>
    rw [List.eq_nil_of_length_eq_zero hold]
    rfl
  | cons e elements ih =>
    rw [List.length_cons, Nat.mul_succ] at hold hblen
    have hsplit : before ++ (old ++ after) =
        before ++ (old.take 5 ++ (old.drop 5 ++ after)) := by
      rw [← List.append_assoc (old.take 5), List.take_append_drop]
    have htake : (old.take 5).length = 5 := by
      rw [List.length_take]
      omega
    have hlen : (before ++ elementBytes e).length = i + jmNsizeUsematrixElement := by
      rw [List.length_append, hi]
      rfl
    have hfirst : jmNsizeUsematrixElement ≤ blen := by
      show 5 ≤ blen
      omega
    have hrest : 5 * elements.length ≤ blen - jmNsizeUsematrixElement := by
      show 5 * elements.length ≤ blen - 5
      omega
    rw [encodeElements, hsplit, smJmEncodeTypeUseElement_at hi htake hfirst]
    dsimp only
    rw [← List.append_assoc before, ih _ _ hlen (by rw [List.length_drop]; omega) hrest,
      List.append_assoc, List.flatMap_cons, List.append_assoc]

theorem decodeElements_bytes {n : Nat} (elements : List.Vector JmWireUseElement n) (rest : Buffer)
    (hblen : 5 * n ≤ blen) :
    decodeElements n (elements.toList.flatMap elementBytes ++ rest) blen = some (.ok elements) := by
  induction n generalizing blen with
  | zero => rw [decodeElements, elements.eq_nil]
  | succ n ih =>
    have hfirst : jmNsizeUsematrixElement ≤ blen := by
      show 5 ≤ blen
      omega
    have hrest : 5 * n ≤ blen - jmNsizeUsematrixElement := by
      show 5 * n ≤ blen - 5
      omega
    have hdrop : (elementBytes elements.head ++
        (elements.tail.toList.flatMap elementBytes ++ rest)).drop jmNsizeUsematrixElement =
          elements.tail.toList.flatMap elementBytes ++ rest :=
      List.drop_left' (length_elementBytes _)
    rw [← elements.cons_head_tail, List.Vector.toList_cons, List.flatMap_cons, List.append_assoc,
      decodeElements, smJmDecodeTypeUseElement_bytes _ _ hfirst]
    dsimp only
    rw [hdrop, ih elements.tail hrest]

end Elements

/-! ## Use matrices -/

def matrixBytes (m : JmWireUseMatrix) : Buffer :=
  bytes16 m.multiplier ++ ([m.base] ++ (bytes16 m.count ++ m.elements.toList.flatMap elementBytes))

theorem length_flatMap_elements (elements : List JmWireUseElement) :
    (elements.flatMap elementBytes).length = 5 * elements.length := by
  induction elements with
  | nil => rfl
  | cons e elements ih =>
    rw [List.flatMap_cons, List.length_append, ih, length_elementBytes, List.length_cons]
    omega

theorem length_matrixBytes (m : JmWireUseMatrix) :
    (matrixBytes m).length = jmNsizeUsematrix m.count.toNat := by
  have helements := length_flatMap_elements m.elements.toList
  rw [List.Vector.toList_length] at helements
  rw [matrixBytes, List.length_append, List.length_append, List.length_append, helements]
  show 2 + (1 + (2 + 5 * m.count.toNat)) = 5 + m.count.toNat * 5
  omega

theorem smJmEncodeTypeUseMatrix_eq (job : JmEntry) {mem : Buffer}
    (hlen : jmNsizeUsematrix job.useMatrix.count.toNat ≤ mem.length) :
    smJmEncodeTypeUseMatrix mem mem.length job =
      some (.ok (matrixBytes job.useMatrix ++ mem.drop (jmNsizeUsematrix job.useMatrix.count.toNat),
        jmNsizeUsematrix job.useMatrix.count.toNat)) := by
  have hn : jmNsizeUsematrix job.useMatrix.count.toNat = 5 + 5 * job.useMatrix.count.toNat := by
    show 5 + job.useMatrix.count.toNat * 5 = _
    omega
  obtain ⟨x0, x1, x2, x3, x4, tail, rfl⟩ : ∃ x0 x1 x2 x3 x4 tail,
      mem = x0 :: x1 :: x2 :: x3 :: x4 :: tail := by
    match mem, (show 5 ≤ mem.length by omega) with
    | x0 :: x1 :: x2 :: x3 :: x4 :: tail, _ => exact ⟨x0, x1, x2, x3, x4, tail, rfl⟩
  have htail : tail.length + 5 = (x0 :: x1 :: x2 :: x3 :: x4 :: tail).length := rfl
  let head : Buffer := bytes16 job.useMatrix.multiplier ++ [job.useMatrix.base]
  have hmultiplier : hton16array (x0 :: x1 :: x2 :: x3 :: x4 :: tail) 0 job.useMatrix.multiplier =
      some (bytes16 job.useMatrix.multiplier ++ (x2 :: x3 :: x4 :: tail)) :=
    hton16array_at [] [x0, x1] (x2 :: x3 :: x4 :: tail) rfl rfl _
  have hbase : poke (bytes16 job.useMatrix.multiplier ++ (x2 :: x3 :: x4 :: tail)) 2
      job.useMatrix.base = some (head ++ ([x3, x4] ++ tail)) :=
    poke_at (bytes16 job.useMatrix.multiplier) (x3 :: x4 :: tail) rfl x2 _
  have hcount : hton16array (head ++ ([x3, x4] ++ tail)) 3 job.useMatrix.count =
      some (head ++ (bytes16 job.useMatrix.count ++ tail)) :=
    hton16array_at head [x3, x4] tail rfl rfl job.useMatrix.count
  have hold : (tail.take (5 * job.useMatrix.count.toNat)).length =
      5 * job.useMatrix.elements.toList.length := by
    rw [List.length_take, List.Vector.toList_length]
    omega
  have hroom : 5 * job.useMatrix.elements.toList.length ≤
      (x0 :: x1 :: x2 :: x3 :: x4 :: tail).length - jmNsizeUsematrixHeader := by
    rw [List.Vector.toList_length]
    show _ ≤ (x0 :: x1 :: x2 :: x3 :: x4 :: tail).length - 5
    omega
  have helements := encodeElements_at (head ++ bytes16 job.useMatrix.count)
    (tail.take (5 * job.useMatrix.count.toNat)) (tail.drop (5 * job.useMatrix.count.toNat))
    (show _ = jmNsizeUsematrixHeader from rfl) hold hroom
  rw [List.take_append_drop, List.append_assoc head] at helements
  have hdrop : (x0 :: x1 :: x2 :: x3 :: x4 :: tail).drop
      (jmNsizeUsematrix job.useMatrix.count.toNat) = tail.drop (5 * job.useMatrix.count.toNat) := by
    rw [hn, ← List.drop_drop]
    rfl
  unfold smJmEncodeTypeUseMatrix
  simp only [Option.bind_eq_bind]
  rw [if_neg (Nat.not_lt_of_le hlen), hmultiplier, Option.bind_some, hbase, Option.bind_some,
    hcount, Option.bind_some, helements, hdrop]
  simp [matrixBytes, head]

section

variable {π : Type} (gives : π → Nat → Bool) (smPool : π)

theorem smJmDecodeTypeUseMatrix_bytes (m : JmWireUseMatrix) (rest : Buffer) {blen : Nat}
    (hblen : jmNsizeUsematrix m.count.toNat ≤ blen)
    (halloc : m.count.toNat ≠ 0 →
      vsPoolAlloc gives (some smPool) (m.count.toNat * sizeofUseMatrix) = true) :
    smJmDecodeTypeUseMatrix gives smPool (matrixBytes m ++ rest) blen =
      some (.ok (m, jmNsizeUsematrix m.count.toNat)) := by
  have hn : 5 + m.count.toNat * 5 ≤ blen := hblen
  have hheader : ¬blen < jmNsizeUsematrixHeader := by
    show ¬blen < 5
    omega
  have hroom : ¬(m.count.toNat ≠ 0 ∧
      blen - jmNsizeUsematrixHeader < jmNsizeUsematrixElements m.count.toNat) := by
    show ¬(_ ∧ blen - 5 < m.count.toNat * 5)
    omega
  have hgives : ¬(m.count.toNat ≠ 0 ∧
      (!vsPoolAlloc gives (some smPool) (m.count.toNat * sizeofUseMatrix)) = true) := by
    rintro ⟨hne, hfail⟩
    rw [halloc hne] at hfail
    cases hfail
  have hmultiplier : ntoh16array (matrixBytes m ++ rest) = some m.multiplier := by
    rw [matrixBytes, List.append_assoc]
    exact ntoh16array_bytes _ _
  have hcount : ntoh16array ((matrixBytes m ++ rest).drop 3) = some m.count :=
    ntoh16array_bytes m.count (m.elements.toList.flatMap elementBytes ++ rest)
  have helements : decodeElements m.count.toNat
      ((matrixBytes m ++ rest).drop jmNsizeUsematrixHeader) (blen - jmNsizeUsematrixHeader) =
        some (.ok m.elements) :=
    decodeElements_bytes m.elements rest (show 5 * m.count.toNat ≤ blen - 5 by omega)
  have hbase : (matrixBytes m ++ rest)[2]? = some m.base := rfl
  unfold smJmDecodeTypeUseMatrix
  simp only [Option.bind_eq_bind]
  rw [if_neg hheader, hmultiplier, Option.bind_some, hbase, Option.bind_some, hcount,
    Option.bind_some, if_neg hroom, if_neg hgives, helements]

/-! ## Any bytes -/

/-- The result is there, so nothing was read past the end, and it is an error or consumes no more
than the bytes. -/
def Within {α : Type} (blen : Nat) (r : Option (Decoded α)) : Prop :=
  ∃ d, r = some d ∧ ∀ v n, d = .ok (v, n) → n ≤ blen

theorem within_error {α : Type} (blen : Nat) (s : JmStatus) :
    Within blen (some (.error s) : Option (Decoded α)) :=
  ⟨_, rfl, fun v n h => by cases h⟩

theorem within_ok {α : Type} {blen n : Nat} (v : α) (hn : n ≤ blen) :
    Within blen (some (.ok (v, n)) : Option (Decoded α)) :=
  ⟨_, rfl, fun v' n' h => by cases h; exact hn⟩

theorem ntoh16array_isSome (buf : Buffer) (h : 2 ≤ buf.length) : ∃ v, ntoh16array buf = some v := by
  match buf, h with
  | a0 :: a1 :: rest, _ => exact ⟨_, rfl⟩

theorem ntoh64array_isSome (buf : Buffer) (h : 8 ≤ buf.length) : ∃ v, ntoh64array buf = some v := by
  match buf, h with
  | a0 :: a1 :: a2 :: a3 :: a4 :: a5 :: a6 :: a7 :: rest, _ => exact ⟨_, rfl⟩

theorem decodeGuids_isSome {n : Nat} {buf : Buffer} (h : 8 * n ≤ buf.length) :
    ∃ guids, decodeGuids n buf = some guids := by
  induction n generalizing buf with
  | zero => exact ⟨_, rfl⟩
  | succ n ih =>
    have hrest : 8 * n ≤ (buf.drop jmNsizeGuidlistElement).length := by
      rw [List.length_drop]
      show 8 * n ≤ buf.length - 8
      omega
    obtain ⟨guid, hguid⟩ := ntoh64array_isSome buf (by omega)
    obtain ⟨guids, hguids⟩ := ih hrest
    refine ⟨guid ::ᵥ guids, ?_⟩
    rw [decodeGuids, hguid, Option.bind_eq_bind, Option.bind_some, hguids, Option.bind_eq_bind,
      Option.bind_some]

theorem smJmDecodeTypeGuidList_within (buf : Buffer) :
    Within buf.length (smJmDecodeTypeGuidList gives smPool buf buf.length) := by
  unfold smJmDecodeTypeGuidList
  by_cases hheader : buf.length < jmNsizeGuidlistHeader
  · rw [if_pos hheader]
    exact within_error _ _
  have hlen : 2 ≤ buf.length := Nat.le_of_not_lt hheader
  obtain ⟨count, hcount⟩ := ntoh16array_isSome buf hlen
  rw [if_neg hheader, hcount, Option.bind_eq_bind, Option.bind_some]
  dsimp only
  by_cases hshort : buf.length - jmNsizeGuidlistHeader < jmNsizeGuidlistElements count.toNat
  · rw [if_pos hshort]
    exact within_error _ _
  have hroom : count.toNat * 8 ≤ buf.length - 2 := Nat.le_of_not_lt hshort
  rw [if_neg hshort]
  by_cases halloc : (!vsPoolAlloc gives (some smPool) (count.toNat * 8)) = true
  · rw [if_pos halloc]
    exact within_error _ _
  have hdrop : 8 * count.toNat ≤ (buf.drop jmNsizeGuidlistHeader).length := by
    rw [List.length_drop]
    show 8 * count.toNat ≤ buf.length - 2
    omega
  obtain ⟨guids, hguids⟩ := decodeGuids_isSome hdrop
  rw [if_neg halloc, hguids, Option.bind_eq_bind, Option.bind_some]
  refine within_ok _ ?_
  show 2 + count.toNat * 8 ≤ buf.length
  omega

theorem smJmDecodeTypeUseElement_isSome (buf : Buffer) {blen : Nat} (h : 5 ≤ buf.length)
    (hblen : jmNsizeUsematrixElement ≤ blen) :
    ∃ e, smJmDecodeTypeUseElement buf blen = some (.ok (e, jmNsizeUsematrixElement)) := by
  match buf, h with
  | a0 :: a1 :: a2 :: a3 :: a4 :: rest, _ =>
    simp only [smJmDecodeTypeUseElement, if_neg (Nat.not_lt_of_le hblen)]
    exact ⟨_, rfl⟩

theorem decodeElements_isSome {n : Nat} {buf : Buffer} {blen : Nat} (h : 5 * n ≤ buf.length)
    (hblen : 5 * n ≤ blen) : ∃ elements, decodeElements n buf blen = some (.ok elements) := by
  induction n generalizing buf blen with
  | zero => exact ⟨_, rfl⟩
  | succ n ih =>
    have hfirst : jmNsizeUsematrixElement ≤ blen := by
      show 5 ≤ blen
      omega
    have hrest : 5 * n ≤ (buf.drop jmNsizeUsematrixElement).length := by
      rw [List.length_drop]
      show 5 * n ≤ buf.length - 5
      omega
    have hblen' : 5 * n ≤ blen - jmNsizeUsematrixElement := by
      show 5 * n ≤ blen - 5
      omega
    obtain ⟨e, he⟩ := smJmDecodeTypeUseElement_isSome buf (by omega) hfirst
    obtain ⟨elements, helements⟩ := ih hrest hblen'
    refine ⟨e ::ᵥ elements, ?_⟩
    rw [decodeElements, he]
    dsimp only
    rw [helements]

theorem smJmDecodeTypeUseMatrix_within (buf : Buffer) :
    Within buf.length (smJmDecodeTypeUseMatrix gives smPool buf buf.length) := by
  unfold smJmDecodeTypeUseMatrix
  simp only [Option.bind_eq_bind]
  by_cases hheader : buf.length < jmNsizeUsematrixHeader
  · rw [if_pos hheader]
    exact within_error _ _
  have hlen : 5 ≤ buf.length := Nat.le_of_not_lt hheader
  obtain ⟨multiplier, hmultiplier⟩ := ntoh16array_isSome buf (by omega)
  obtain ⟨count, hcount⟩ := ntoh16array_isSome (buf.drop 3)
    (by rw [List.length_drop]; omega)
  have hbase : buf[2]? = some (buf.get ⟨2, by omega⟩) := List.getElem?_eq_getElem (by omega)
  rw [if_neg hheader, hmultiplier, Option.bind_some, hbase, Option.bind_some, hcount,
    Option.bind_some]
  by_cases hshort : count.toNat ≠ 0 ∧
      buf.length - jmNsizeUsematrixHeader < jmNsizeUsematrixElements count.toNat
  · rw [if_pos hshort]
    exact within_error _ _
  have hroom : count.toNat * 5 ≤ buf.length - 5 := by
    by_cases hzero : count.toNat = 0
    · rw [hzero]
      omega
    · exact Nat.le_of_not_lt fun hlt => hshort ⟨hzero, hlt⟩
  rw [if_neg hshort]
  by_cases halloc : count.toNat ≠ 0 ∧
      (!vsPoolAlloc gives (some smPool) (count.toNat * sizeofUseMatrix)) = true
  · rw [if_pos halloc]
    exact within_error _ _
  have hdrop : 5 * count.toNat ≤ (buf.drop jmNsizeUsematrixHeader).length := by
    rw [List.length_drop]
    show 5 * count.toNat ≤ buf.length - 5
    omega
  have hrest : 5 * count.toNat ≤ buf.length - jmNsizeUsematrixHeader := by
    show 5 * count.toNat ≤ buf.length - 5
    omega
  obtain ⟨elements, helements⟩ := decodeElements_isSome hdrop hrest
  rw [if_neg halloc, helements]
  refine within_ok _ ?_
  show 5 + count.toNat * 5 ≤ buf.length
  omega

end

/-! ## There and back -/

section

variable {π : Type} (gives : π → Nat → Bool) (smPool : π) (job : JmEntry)

/-- Whatever was in a buffer with enough room, the bytes of the GUID list that are written there
are decoded to the list, and as many are consumed as were produced. -/
def GuidListRoundTrips : Prop :=
  ∀ mem : Buffer, jmNsizeGuidlist job.portCount.toNat ≤ mem.length →
    ∃ mem' n, smJmEncodeTypeGuidList mem mem.length job = some (.ok (mem', n)) ∧
      ∀ rest, smJmDecodeTypeGuidList gives smPool (mem'.take n ++ rest) (n + rest.length) =
        some (.ok (⟨job.portCount, job.ports⟩, n))

def UseMatrixRoundTrips : Prop :=
  ∀ mem : Buffer, jmNsizeUsematrix job.useMatrix.count.toNat ≤ mem.length →
    ∃ mem' n, smJmEncodeTypeUseMatrix mem mem.length job = some (.ok (mem', n)) ∧
      ∀ rest, smJmDecodeTypeUseMatrix gives smPool (mem'.take n ++ rest) (n + rest.length) =
        some (.ok (job.useMatrix, n))

theorem useMatrixRoundTrips (hgives : ∀ length, length ≠ 0 → gives smPool length = true) :
    UseMatrixRoundTrips gives smPool job := by
  intro mem hlen
  have htake : (matrixBytes job.useMatrix ++
      mem.drop (jmNsizeUsematrix job.useMatrix.count.toNat)).take
        (jmNsizeUsematrix job.useMatrix.count.toNat) = matrixBytes job.useMatrix :=
    List.take_left' (length_matrixBytes job.useMatrix)
  refine ⟨_, _, smJmEncodeTypeUseMatrix_eq job hlen, fun rest => ?_⟩
  rw [htake]
  refine smJmDecodeTypeUseMatrix_bytes gives smPool job.useMatrix rest (Nat.le_add_right _ _)
    fun hne => ?_
  have hpos : job.useMatrix.count.toNat * sizeofUseMatrix ≠ 0 := Nat.mul_ne_zero hne (by decide)
  simp only [vsPoolAlloc, if_neg hpos, hgives _ hpos]

theorem guidListRoundTrips_iff (hgives : ∀ length, length ≠ 0 → gives smPool length = true) :
    GuidListRoundTrips gives smPool job ↔ job.portCount.toNat ≠ 0 := by
  have htake (mem : Buffer) : (guidBytes job ++
      mem.drop (jmNsizeGuidlist job.portCount.toNat)).take (jmNsizeGuidlist job.portCount.toNat) =
        guidBytes job :=
    List.take_left' (length_guidBytes job)
  constructor
  · intro hround hzero
    let mem : Buffer := List.replicate (jmNsizeGuidlist job.portCount.toNat) 0
    have hlen : jmNsizeGuidlist job.portCount.toNat ≤ mem.length := by
      rw [List.length_replicate]
    obtain ⟨mem', n, hencode, hdecode⟩ := hround mem hlen
    rw [smJmEncodeTypeGuidList_eq job hlen] at hencode
    obtain ⟨rfl, rfl⟩ := Prod.mk.inj (Except.ok.inj (Option.some.inj hencode))
    have h := hdecode []
    rw [htake, smJmDecodeTypeGuidList_bytes job [] (Nat.le_add_right _ _), hzero] at h
    cases h
  · intro hne mem hlen
    refine ⟨_, _, smJmEncodeTypeGuidList_eq job hlen, fun rest => ?_⟩
    have hpos : job.portCount.toNat * 8 ≠ 0 := Nat.mul_ne_zero hne (by decide)
    have halloc : vsPoolAlloc gives (some smPool) (job.portCount.toNat * 8) = true := by
      simp only [vsPoolAlloc, if_neg hpos, hgives _ hpos]
    rw [htake, smJmDecodeTypeGuidList_bytes job rest (Nat.le_add_right _ _), if_pos halloc]

/-- The wire format of a job is read back exactly if the job has ports, and no bytes make a decoder
read or consume more than there are. -/
theorem jobWire_iff (hgives : ∀ length, length ≠ 0 → gives smPool length = true) :
    (∀ buf : Buffer, Within buf.length (smJmDecodeTypeGuidList gives smPool buf buf.length) ∧
        Within buf.length (smJmDecodeTypeUseMatrix gives smPool buf buf.length)) ∧
      UseMatrixRoundTrips gives smPool job ∧
      (GuidListRoundTrips gives smPool job ↔ job.portCount.toNat ≠ 0) :=
  ⟨fun buf => ⟨smJmDecodeTypeGuidList_within gives smPool buf,
    smJmDecodeTypeUseMatrix_within gives smPool buf⟩,
    useMatrixRoundTrips gives smPool job hgives, guidListRoundTrips_iff gives smPool job hgives⟩

end

def twoPortJob : JmEntry where
  portCount := 2
  ports := 0x0011750101672db1 ::ᵥ 0x0011750101672db2 ::ᵥ List.Vector.nil
  useMatrix := ⟨2, 1, 2, ⟨1, 300, 7, 9⟩ ::ᵥ ⟨0, 17, 8, 4⟩ ::ᵥ List.Vector.nil⟩

theorem jobWire_twoPortJob :
    (∀ buf : Buffer, Within buf.length
          (smJmDecodeTypeGuidList (fun (_ : Unit) _ => true) () buf buf.length) ∧
        Within buf.length (smJmDecodeTypeUseMatrix (fun (_ : Unit) _ => true) () buf buf.length)) ∧
      UseMatrixRoundTrips (fun (_ : Unit) _ => true) () twoPortJob ∧
      (GuidListRoundTrips (fun (_ : Unit) _ => true) () twoPortJob ↔
        twoPortJob.portCount.toNat ≠ 0) :=
  jobWire_iff (fun (_ : Unit) _ => true) () twoPortJob fun _ _ => rfl

def emptyJob : JmEntry where
  portCount := 0
  ports := List.Vector.nil
  useMatrix := ⟨2, 1, 1, ⟨1, 300, 7, 9⟩ ::ᵥ List.Vector.nil⟩

/-- The two bytes of an empty list are not accepted. -/
theorem not_guidListRoundTrips :
    ¬∀ (π : Type) (gives : π → Nat → Bool) (smPool : π) (job : JmEntry),
      (∀ length, length ≠ 0 → gives smPool length = true) →
      GuidListRoundTrips gives smPool job :=
  fun hall => (guidListRoundTrips_iff (fun (_ : Unit) _ => true) () emptyJob fun _ _ => rfl).mp
    (hall Unit (fun _ _ => true) () emptyJob fun _ _ => rfl) rfl

end OpaFm.Jm
