import OpaFm.PathRecord.Proofs.PathRecordSet
import OpaFm.PathRecord.PathRecordSet
import OpaFm.PathRecord.Request

/-!
# Which destinations a wildcard query answers for

What a destination adds is never longer than its first `numPath` records, so the list is complete
only if no destination is missing.  The loop over the end ports of a node is left at the first that
has `numPath` records, and with it go the ports after that.
-/

namespace OpaFm.PathRecord

section

open OpaFm.Fabric OpaFm.Partition

variable {f : PathFabric} {env : PathEnv} {q : PathQuery} {reqNodep : Node} {src dst : PathEnd f}
  {numPath fuel : Nat} {records : List IbPathRecord} {r : PathStatus × List IbPathRecord}
  {ends : List (PathEnd f)}

/-! ## All records of a call -/

open Classical in
noncomputable def allRecords (env : PathEnv) (q : PathQuery) (src dst : PathEnd f)
    (dlid : BitVec 16) : List IbPathRecord :=
  if h : ∃ p, Issues env q src dst p then
    (fills env q src dst dlid h.choose).map (pathRecord env q src dst h.choose.hopCount)
  else []

theorem saPathRecordSet_appends {dlid : BitVec 16}
    (h : saPathRecordSet env q fuel records numPath src dst dlid = some r) :
    r.2 = records ++
      (allRecords env q src dst dlid).take (room env numPath records.length) := by
  unfold allRecords
  split_ifs with hissues
  · rw [saPathRecordSet_of_issues hissues.choose_spec h]
  · rw [List.take_nil, List.append_nil]
    exact saPathRecordSet_of_not_issues (not_exists.mp hissues) h

open Classical in
noncomputable def aloneRecords (env : PathEnv) (q : PathQuery) (src dst : PathEnd f) :
    List IbPathRecord :=
  if h : ∃ r : PathStatus × List IbPathRecord, ∃ fuel,
      saPathRecordSet env q fuel [] 0 src dst 0xFFFF = some r then h.choose.2
  else []

theorem aloneRecords_eq (env : PathEnv) (q : PathQuery) (src dst : PathEnd f) :
    aloneRecords env q src dst =
      (allRecords env q src dst 0xFFFF).take (max 1 env.saMaxPathRecords) := by
  unfold aloneRecords
  split_ifs with hends
  · obtain ⟨fuel, h⟩ := hends.choose_spec
    exact saPathRecordSet_appends h
  · have hno : ¬∃ p, Issues env q src dst p := by
      intro hissues
      obtain ⟨p, hp⟩ := hissues
      obtain ⟨fuel, hreturns⟩ := saPathRecordSet_returns hp 0xFFFF
      obtain ⟨r, hr⟩ := hreturns fuel (Nat.le_refl fuel) [] 0
      exact hends ⟨r, fuel, hr⟩
    rw [allRecords, dif_neg hno, List.take_nil]

/-! ## What is due -/

noncomputable def due (env : PathEnv) (q : PathQuery) (numPath : Nat) (reqNodep : Node)
    (src : PathEnd f) (ends : List (PathEnd f)) : List IbPathRecord :=
  (ends.filter (wildcardDst q reqNodep src)).flatMap fun dst =>
    (aloneRecords env q src dst).take numPath

/-- No destination with `numPath` records comes before another one with records. -/
def NoneSkipped (env : PathEnv) (q : PathQuery) (numPath : Nat) (reqNodep : Node)
    (src : PathEnd f) (ends : List (PathEnd f)) : Prop :=
  (ends.filter (wildcardDst q reqNodep src)).Pairwise fun e e' =>
    numPath ≤ (aloneRecords env q src e).length → aloneRecords env q src e' = []

theorem due_cons_of_not (h : wildcardDst q reqNodep src dst ≠ true) :
    due env q numPath reqNodep src (dst :: ends) = due env q numPath reqNodep src ends := by
  rw [due, List.filter_cons_of_neg h, due]

theorem due_cons (h : wildcardDst q reqNodep src dst = true) :
    due env q numPath reqNodep src (dst :: ends) =
      (aloneRecords env q src dst).take numPath ++ due env q numPath reqNodep src ends := by
  rw [due, List.filter_cons_of_pos h, List.flatMap_cons, due]

theorem noneSkipped_cons_of_not (h : wildcardDst q reqNodep src dst ≠ true) :
    NoneSkipped env q numPath reqNodep src (dst :: ends) ↔
      NoneSkipped env q numPath reqNodep src ends := by
  rw [NoneSkipped, List.filter_cons_of_neg h, NoneSkipped]

theorem due_eq_nil_iff (hnum : 0 < numPath) :
    due env q numPath reqNodep src ends = [] ↔
      ∀ e ∈ ends.filter (wildcardDst q reqNodep src), aloneRecords env q src e = [] := by
  rw [due, List.flatMap_eq_nil_iff]
  apply forall₂_congr
  intro e _
  rw [List.take_eq_nil_iff]
  constructor
  · intro h
    exact h.resolve_left (Nat.ne_of_gt hnum)
  · exact .inr

theorem noneSkipped_cons (hnum : 0 < numPath) (h : wildcardDst q reqNodep src dst = true) :
    NoneSkipped env q numPath reqNodep src (dst :: ends) ↔
      (numPath ≤ (aloneRecords env q src dst).length →
        due env q numPath reqNodep src ends = []) ∧
      NoneSkipped env q numPath reqNodep src ends := by
  rw [NoneSkipped, List.filter_cons_of_pos h, List.pairwise_cons, due_eq_nil_iff hnum,
    NoneSkipped]
  apply and_congr_left
  intro _
  constructor
  · intro hskip hfull e he
    exact hskip e he hfull
  · intro hskip e he hfull
    exact hskip hfull e he

/-! ## One destination -/

structure Adds (env : PathEnv) (q : PathQuery) (numPath : Nat) (src dst : PathEnd f) (c : Nat)
    (added : List IbPathRecord) : Prop where
  length_le : added.length ≤ ((aloneRecords env q src dst).take numPath).length
  stops_iff : numPath ≤ added.length → numPath ≤ (aloneRecords env q src dst).length
  fits : c + ((aloneRecords env q src dst).take numPath).length ≤ env.saMaxPathRecords →
    added = (aloneRecords env q src dst).take numPath

theorem saPathRecordSet_adds (hnum : 0 < numPath)
    (h : saPathRecordSet env q fuel records (records.length + numPath) src dst 0xFFFF = some r) :
    ∃ added, r.2 = records ++ added ∧ Adds env q numPath src dst records.length added := by
  refine ⟨_, saPathRecordSet_appends h, ?_⟩
  have hlimit : recordLimit env (records.length + numPath) =
      min env.saMaxPathRecords (records.length + numPath) := if_neg (by omega)
  rw [room, hlimit]
  constructor
  · simp only [aloneRecords_eq, List.length_take]
    omega
  · simp only [aloneRecords_eq, List.length_take]
    omega
  · simp only [aloneRecords_eq, List.take_take, List.length_take]
    intro hfits
    rw [List.take_eq_take_iff]
    omega

theorem saPathRecordSet_bad {dlid : BitVec 16}
    (h : saPathRecordSet env q fuel records numPath src dst dlid = some r) (hbad : r.1 = .bad) :
    r.2 = records := by
  rcases saPathRecordSet_cases h with ⟨-, rfl⟩ | ⟨-, -, rfl⟩ | ⟨-, -, rfl⟩ | ⟨p, -, -, rfl⟩
  · rfl
  · rfl
  · rfl
  · cases hbad

/-! ## The loops -/

/-- How a stretch of a successful run compares with the records `owed` for it; `Whole` says that it
passes over none of them. -/
structure Answers (limit : Nat) (before after owed : List IbPathRecord) (Whole : Prop) : Prop where
  length_le : after.length ≤ before.length + owed.length
  whole : after.length = before.length + owed.length → Whole
  fits : Whole → before.length + owed.length ≤ limit → after = before ++ owed
  limit : before.length ≤ limit → after.length ≤ limit

theorem Answers.refl {limit : Nat} {Whole : Prop} (hwhole : Whole) :
    Answers limit records records [] Whole where
  length_le := Nat.le_refl _
  whole _ := hwhole
  fits _ _ := (List.append_nil records).symm
  limit h := h

theorem Answers.trans {limit : Nat} {a b c x y : List IbPathRecord} {P Q : Prop}
    (h : Answers limit a b x P) (h' : Answers limit b c y Q) :
    Answers limit a c (x ++ y) (P ∧ Q) := by
  have hle := h.length_le
  have hle' := h'.length_le
  constructor
  · rw [List.length_append]
    omega
  · intro heq
    rw [List.length_append] at heq
    exact ⟨h.whole (by omega), h'.whole (by omega)⟩
  · intro hwhole hfits
    rw [List.length_append] at hfits
    have hb := h.fits hwhole.1 (by omega)
    rw [h'.fits hwhole.2 (by rw [hb, List.length_append]; omega), hb, List.append_assoc]
  · intro ha
    exact h'.limit (h.limit ha)

theorem wildcardEnds_cons (hnum : 0 < numPath) (hdst : wildcardDst q reqNodep src dst = true)
    {after : List IbPathRecord}
    (h : wildcardEnds env q fuel numPath reqNodep src (dst :: ends) records =
      some (.ok, after)) :
    ∃ r, saPathRecordSet env q fuel records (records.length + numPath) src dst 0xFFFF = some r ∧
      (records.length ≤ env.saMaxPathRecords → r.2.length ≤ env.saMaxPathRecords) ∧
      (records.length + numPath ≤ r.2.length ∧ after = r.2 ∨
        r.2.length < records.length + numPath ∧
          wildcardEnds env q fuel numPath reqNodep src ends r.2 = some (.ok, after)) := by
  rw [wildcardEnds, if_neg (not_not.mpr hdst)] at h
  obtain ⟨r, hset, h⟩ := Option.bind_eq_some_iff.mp h
  refine ⟨r, hset, ?_⟩
  cases hstatus : r.1 with
  | ok =>
    rw [hstatus] at h
    dsimp only at h
    split_ifs at h with hmax hstop
    · cases h
    · cases h
      exact ⟨fun _ => Nat.le_of_not_lt hmax, .inl ⟨by omega, rfl⟩⟩
    · exact ⟨fun _ => Nat.le_of_not_lt hmax, .inr ⟨by omega, h⟩⟩
  | bad =>
    rw [hstatus] at h
    have hsame := saPathRecordSet_bad hset hstatus
    refine ⟨fun hle => hsame ▸ hle, .inr ⟨?_, h⟩⟩
    rw [hsame]
    omega
  | nomem =>
    rw [hstatus] at h
    cases h

theorem wildcardEnds_answers (hnum : 0 < numPath) {after : List IbPathRecord}
    (h : wildcardEnds env q fuel numPath reqNodep src ends records = some (.ok, after)) :
    Answers env.saMaxPathRecords records after (due env q numPath reqNodep src ends)
      (NoneSkipped env q numPath reqNodep src ends) := by
  induction ends generalizing records with
  | nil =>
    cases h
    exact .refl .nil
  | cons dst ends ih =>
    by_cases hdst : wildcardDst q reqNodep src dst = true
    · obtain ⟨r, hset, hmax, hgo⟩ := wildcardEnds_cons hnum hdst h
      obtain ⟨added, hr, hadds⟩ := saPathRecordSet_adds hnum hset
      have hle := hadds.length_le
      have hlen : r.2.length = records.length + added.length := by
        rw [hr, List.length_append]
      rw [due_cons hdst, noneSkipped_cons hnum hdst]
      rcases hgo with ⟨hstop, rfl⟩ | ⟨hmore, hgo⟩
      · -- the loop is left, so nothing may be due for the ports after this one
        constructor
        · rw [List.length_append]
          omega
        · intro heq
          rw [List.length_append] at heq
          have hnil := List.eq_nil_of_length_eq_zero (l := due env q numPath reqNodep src ends)
            (by omega)
          refine ⟨fun _ => hnil, ?_⟩
          apply List.pairwise_iff_forall_sublist.mpr
          intro e e' hsub _
          exact (due_eq_nil_iff hnum).mp hnil e' (hsub.subset (by simp))
        · rintro ⟨hskip, -⟩ hfits
          have hnil := hskip (hadds.stops_iff (by omega))
          rw [hnil, List.append_nil] at hfits ⊢
          rw [hr, hadds.fits hfits]
        · exact hmax
      · have hrest := ih hgo
        have hle' := hrest.length_le
        constructor
        · rw [List.length_append]
          omega
        · intro heq
          rw [List.length_append] at heq
          refine ⟨fun hfull => ?_, hrest.whole (by omega)⟩
          have htake := List.length_take_of_le hfull
          omega
        · rintro ⟨-, hskip⟩ hfits
          rw [List.length_append] at hfits
          have hadded := hadds.fits (by omega)
          rw [hrest.fits hskip (by rw [hlen, hadded]; omega), hr, hadded, List.append_assoc]
        · intro hrecords
          exact hrest.limit (hmax hrecords)
    · rw [wildcardEnds, if_pos hdst] at h
      rw [due_cons_of_not hdst, noneSkipped_cons_of_not hdst]
      exact ih h

noncomputable def nodesDue (env : PathEnv) (q : PathQuery) (numPath : Nat) (reqNodep : Node)
    (src : PathEnd f) (nodes : List { n : Node // n ∈ f.topology.nodes }) : List IbPathRecord :=
  nodes.flatMap fun n => due env q numPath reqNodep src (nodeEnds n)

theorem wildcardNodes_answers (hnum : 0 < numPath)
    {nodes : List { n : Node // n ∈ f.topology.nodes }} {after : List IbPathRecord}
    (h : wildcardNodes env q fuel numPath reqNodep src nodes records = some (.ok, after)) :
    Answers env.saMaxPathRecords records after (nodesDue env q numPath reqNodep src nodes)
      (∀ n ∈ nodes, NoneSkipped env q numPath reqNodep src (nodeEnds n)) := by
  induction nodes generalizing records with
  | nil =>
    cases h
    exact .refl fun _ hn => nomatch hn
  | cons n nodes ih =>
    rw [wildcardNodes] at h
    obtain ⟨r, hends, h⟩ := Option.bind_eq_some_iff.mp h
    split_ifs at h with hok
    · rw [← Prod.mk.eta (p := r), hok] at hends
      rw [nodesDue, List.flatMap_cons, List.forall_mem_cons]
      exact (wildcardEnds_answers hnum hends).trans (ih h)
    · cases h
      exact absurd rfl hok

/-- A wildcard query that succeeds has all records due if and only if they are no more than may be
reported and no node has a port with `numPath` records before another port with records. -/
theorem saPathRecordWildcard_complete_iff (hnum : 0 < numPath) {after : List IbPathRecord}
    (h : saPathRecordWildcard env q fuel [] numPath reqNodep src = some (.ok, after)) :
    after = nodesDue env q numPath reqNodep src f.topology.nodes.attach ↔
      (∀ n ∈ f.topology.nodes.attach, NoneSkipped env q numPath reqNodep src (nodeEnds n)) ∧
      (nodesDue env q numPath reqNodep src f.topology.nodes.attach).length ≤
        env.saMaxPathRecords := by
  have hanswers := wildcardNodes_answers hnum h
  have hlimit := hanswers.limit (Nat.zero_le _)
  constructor
  · intro heq
    rw [← heq]
    refine ⟨hanswers.whole ?_, hlimit⟩
    rw [← heq, List.length_nil, Nat.zero_add]
  · rintro ⟨hskip, hfits⟩
    apply hanswers.fits hskip
    rwa [List.length_nil, Nat.zero_add]

theorem starWildcard_ok :
    (saPathRecordWildcard starEnv starQuery 10 [] 1 starLeft starSource).map Prod.fst =
      some .ok := by
  decide +kernel

theorem saPathRecordWildcard_complete_star :
    ∃ after, saPathRecordWildcard starEnv starQuery 10 [] 1 starLeft starSource =
        some (.ok, after) ∧
      (after = nodesDue starEnv starQuery 1 starLeft starSource starNodes.attach ↔
        (∀ n ∈ starNodes.attach, NoneSkipped (f := starFabric) starEnv starQuery 1 starLeft
          starSource (nodeEnds n)) ∧
        (nodesDue starEnv starQuery 1 starLeft starSource starNodes.attach).length ≤
          starEnv.saMaxPathRecords) := by
  obtain ⟨⟨status, after⟩, hrun, hok⟩ := Option.map_eq_some_iff.mp starWildcard_ok
  cases hok
  exact ⟨after, hrun, saPathRecordWildcard_complete_iff Nat.one_pos hrun⟩

theorem starSecond_mem : starRight.port 2 ∈ endPorts starRight := by
  simp [starRight, starHost, endPorts, physicalPorts, List.range'_succ]

def starSecond : PathEnd starFabric where
  nodep := starRight
  node_mem := starRight_mem
  port := starRight.port 2
  port_mem := starSecond_mem
  portData := starPort 32 0
  valid := rfl

/-- With one path for each destination, the second port of the second host is left out. -/
theorem saPathRecordWildcard_skips :
    wildcardDst starQuery starLeft starSource starSecond = true ∧
    (saPathRecordSet starEnv starQuery 10 [] 0 starSource starSecond 0xFFFF).map
      (fun r => (r.1, r.2.map IbPathRecord.dlid)) = some (.ok, [32]) ∧
    (saPathRecordWildcard starEnv starQuery 10 [] 1 starLeft starSource).map
      (fun r => (r.1, r.2.map IbPathRecord.dlid)) = some (.ok, [8, 16]) := by
  decide +kernel

end

/-!
## Locks of a path record request

Every way through the checks ends at the label where the locks are given back, except the return
for a MAD that is too short.  The lengths are subtracted in `size_t`, so a MAD that does not even
hold its header is not one of these.
-/

open OpaFm.Fabric OpaFm.Partition
open OpaFm.Multicast hiding smFindPortLid smFindActivePortLid smFindActivePortGuid ownsLid

variable {f : PathFabric} {env : RequestEnv f} {maip : PathMai} {fuel : Nat}

/-! ### What is left of the locks -/

def heldStep (lock : SaLock) (held : Bool) (e : LockEvent) : Bool :=
  if e = .take lock then true else if e = .giveBack lock then false else held

def heldAfter (lock : SaLock) (events : List LockEvent) : Bool :=
  events.foldl (heldStep lock) false

/-- The read lock of the topology is given back as often as it is taken, and no lock is held at
the end. -/
structure GivesBack (events : List LockEvent) : Prop where
  topology : events.count (.giveBack .topology) = events.count (.take .topology)
  once : events.count (.take .topology) ≤ 1
  topologyFree : heldAfter .topology events = false
  mcGroupsFree : heldAfter .mcGroups events = false

theorem givesBack_nil : GivesBack [] := by
  constructor <;> decide

inductive BodyLocks : List LockEvent → Bool → Prop
  | none : BodyLocks [] false
  | noGroup : BodyLocks [.take .mcGroups, .giveBack .mcGroups] false
  | group : BodyLocks [.take .mcGroups] true

theorem BodyLocks.givesBack {locks : List LockEvent} {dstIsGroup : Bool}
    (h : BodyLocks locks dstIsGroup) :
    GivesBack (.take .topology :: locks ++
      (.giveBack .topology :: if dstIsGroup then [.giveBack .mcGroups] else [])) := by
  cases h with
  | none => constructor <;> decide
  | noGroup => constructor <;> decide
  | group => constructor <;> decide

theorem replyPathRecord_locks (maip : PathMai) (b : PathBody) :
    (replyPathRecord maip b).locks = .take .topology :: b.locks ++
      (.giveBack .topology :: if b.dstIsGroup then [.giveBack .mcGroups] else []) := by
  unfold replyPathRecord
  dsimp only
  split_ifs <;> rfl

theorem givesBack_reply {b : PathBody} (h : BodyLocks b.locks b.dstIsGroup) :
    GivesBack (replyPathRecord maip b).locks := by
  rw [replyPathRecord_locks]
  exact h.givesBack

def foundGroup : Check (PathDst f) → Bool
  | .ok (.group _) => true
  | _ => false

theorem requestedDst_locks (env : RequestEnv f) (maip : PathMai) :
    BodyLocks (requestedDst env maip).1 (foundGroup (requestedDst env maip).2) := by
  unfold requestedDst
  dsimp only
  split_ifs
  · exact .none
  · cases env.portMap maip.record.dgid.interfaceId with
    | none =>
      dsimp only
      cases findPathGroup env.mcGroups maip.record.dgid with
      | none => exact .noGroup
      | some g => exact .group
    | some dst =>
      dsimp only
      split_ifs
      · exact .none
      · exact .none
  · cases smFindActivePortLid env maip.record.dlid with
    | none => exact .none
    | some dst => exact .none
  · exact .none

theorem pathsToPort_dstIsGroup {s : PathSource f} {dst : PathEnd f} {b : PathBody}
    (h : pathsToPort env maip fuel s dst = some b) : b.dstIsGroup = false := by
  have hearly : ∀ status, (some { status := status } : Option PathBody) = some b →
      b.dstIsGroup = false := by
    intro status heq
    rw [← Option.some.inj heq]
  unfold pathsToPort at h
  dsimp only at h
  split at h
  · exact hearly _ h
  · split at h
    · exact hearly _ h
    · split at h
      · exact hearly _ h
      · split at h
        · exact hearly _ h
        · obtain ⟨r, -, rfl⟩ := Option.map_eq_some_iff.mp h
          rfl

theorem destinationPaths_locks {s : PathSource f} {b : PathBody}
    (h : destinationPaths env maip fuel s = some b) : BodyLocks b.locks b.dstIsGroup := by
  have hlocks := requestedDst_locks env maip
  unfold destinationPaths at h
  by_cases hwild : maip.mask.hasAny PathMask.noDst = true
  · rw [if_neg (not_not.mpr hwild)] at h
    dsimp only at h
    cases hdst : (requestedDst env maip).2 with
    | error status =>
      rw [hdst] at h hlocks
      cases h
      exact hlocks
    | ok dst =>
      rw [hdst] at h hlocks
      cases dst with
      | port dst =>
        obtain ⟨b', hb', rfl⟩ := Option.map_eq_some_iff.mp h
        dsimp only
        rw [pathsToPort_dstIsGroup hb']
        exact hlocks
      | group g =>
        cases h
        exact hlocks
  · rw [if_pos hwild] at h
    obtain ⟨r, -, rfl⟩ := Option.map_eq_some_iff.mp h
    exact .none

/-! ### The length of the MAD -/

theorem PathMai.tooShort_iff (maip : PathMai) :
    maip.tooShort = true ↔ 32 ≤ maip.datasize.toInt ∧ maip.datasize.toInt < 96 := by
  have hint : (maip.datasize.signExtend 64).toInt = maip.datasize.toInt :=
    BitVec.toInt_signExtend_of_le (by decide)
  have hlow := maip.datasize.le_two_mul_toInt
  have hhigh := maip.datasize.two_mul_toInt_lt
  have hlt := (maip.datasize.signExtend 64).isLt
  rw [BitVec.toInt_eq_toNat_cond] at hint
  have hhdr : saMadHdrSize.toNat = 32 := rfl
  have hrecord : ibPathRecordSize.toNat = 64 := rfl
  rw [PathMai.tooShort, BitVec.ult_iff_toNat_lt, BitVec.toNat_sub, hhdr, hrecord]
  omega

/-- The locks are given back unless the MAD of a request for records ends inside the record. -/
theorem saPathRecord_givesBack_iff {o : PathOutcome} (h : saPathRecord env maip fuel = some o) :
    GivesBack o.locks ↔
      ¬(maip.cversion = saMadCversion ∧ maip.methodOk = true ∧ 32 ≤ maip.datasize.toInt ∧
        maip.datasize.toInt < 96) := by
  rw [← maip.tooShort_iff]
  unfold saPathRecord at h
  by_cases hclass : maip.cversion = saMadCversion
  · rw [if_neg (not_not.mpr hclass)] at h
    by_cases hshort : maip.methodOk = true ∧ maip.tooShort = true
    · rw [if_pos hshort] at h
      cases h
      have hkept : ¬GivesBack [.take .topology] := fun hgives => nomatch hgives.topology
      exact iff_of_false hkept fun hnot => hnot ⟨hclass, hshort⟩
    · rw [if_neg hshort] at h
      apply iff_of_true _ fun hall => hshort hall.2
      cases hchecks : sourceChecks env maip with
      | error status =>
        rw [hchecks] at h
        cases h
        exact givesBack_reply .none
      | ok s =>
        rw [hchecks] at h
        obtain ⟨b, hb, rfl⟩ := Option.map_eq_some_iff.mp h
        exact givesBack_reply (destinationPaths_locks hb)
  · rw [if_pos hclass] at h
    cases h
    exact iff_of_true givesBack_nil fun hall => hclass hall.1

def starRequestEnv : RequestEnv starFabric where
  toPathEnv := starEnv
  subnetPrefix := 0
  queryValidation := false
  activateInProgress := false
  lidmap := fun _ => none
  portMap := fun _ => none
  mcGroups := []

/-- A request for the path from LID 8 to LID 16, in a MAD of the given length. -/
def starRequest (datasize : BitVec 16) : PathMai where
  method := saCmGet
  slid := 8
  datasize := datasize
  mask := PathMask.slid ||| PathMask.dlid
  record := { slid := 8, dlid := 16 }

theorem saPathRecord_givesBack_star :
    ∃ o, saPathRecord starRequestEnv (starRequest 96) 10 = some o ∧
      (GivesBack o.locks ↔
        ¬((starRequest 96).cversion = saMadCversion ∧ (starRequest 96).methodOk = true ∧
          32 ≤ (starRequest 96).datasize.toInt ∧ (starRequest 96).datasize.toInt < 96)) := by
  have hreturns : (saPathRecord starRequestEnv (starRequest 96) 10).isSome = true := by
    decide +kernel
  obtain ⟨o, ho⟩ := Option.isSome_iff_exists.mp hreturns
  exact ⟨o, ho, saPathRecord_givesBack_iff ho⟩

/-- A MAD that ends in the middle of the record. -/
theorem saPathRecord_keeps_lock :
    ∃ o, saPathRecord starRequestEnv (starRequest 64) 10 = some o ∧
      heldAfter .topology o.locks = true ∧ o.replied = false :=
  ⟨_, rfl, rfl, rfl⟩

end OpaFm.PathRecord
