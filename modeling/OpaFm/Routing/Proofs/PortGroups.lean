import OpaFm.Lib.FirstMatch
import OpaFm.Routing.PortGroups
import OpaFm.Routing.Proofs.SelectPorts

/-!
# The calls that set up port groups

What a push does to the table, what is written to the forwarding table, and from both
the cases of `sm_routing_func_setup_pgs`.
-/

namespace OpaFm.Routing

open OpaFm.Fabric OpaFm.Lib

/-! ## The table -/

def tableList (pgp : Nat → BitVec 64) (length : Nat) : List (BitVec 64) := (List.range length).map pgp

theorem length_tableList (pgp : Nat → BitVec 64) (length : Nat) :
    (tableList pgp length).length = length := by
  rw [tableList, List.length_map, List.length_range]

theorem tableList_update (pgp : Nat → BitVec 64) (newPg : BitVec 64) (length : Nat) :
    tableList (Function.update pgp length newPg) (length + 1) = tableList pgp length ++ [newPg] := by
  unfold tableList
  rw [List.range_succ, List.map_append, List.map_singleton, Function.update_self]
  congr 1
  apply List.map_congr_left
  intro i hi
  exact Function.update_of_ne (Nat.ne_of_lt (List.mem_range.mp hi)) _ _

theorem smPushPortGroup_cases (pgp : Nat → BitVec 64) (newPg : BitVec 64) (length cap : Nat) :
    (newPg ∈ tableList pgp length ∧ ∃ i < length, pgp i = newPg ∧
      smPushPortGroup pgp newPg length cap = ⟨0, i, pgp, length⟩) ∨
    (newPg ∉ tableList pgp length ∧ length < cap ∧
      smPushPortGroup pgp newPg length cap =
        ⟨1, length, Function.update pgp length newPg, length + 1⟩) ∨
    (newPg ∉ tableList pgp length ∧ ¬length < cap ∧
      smPushPortGroup pgp newPg length cap = ⟨-1, length, pgp, length⟩) := by
  unfold smPushPortGroup tableList
  cases hfind : (List.range length).find? fun i => newPg == pgp i with
  | some i =>
    have hi : i < length := List.mem_range.mp (List.mem_of_find?_eq_some hfind)
    have heq : newPg = pgp i := by
      have hbeq := List.find?_some hfind
      exact beq_iff_eq.mp hbeq
    refine .inl ⟨List.mem_map.mpr ⟨i, List.mem_range.mpr hi, heq.symm⟩, i, hi, heq.symm, ?_⟩
    exact if_neg (Nat.ne_of_lt hi)
  | none =>
    have hout : newPg ∉ (List.range length).map pgp := by
      intro hin
      obtain ⟨i, hi, heq⟩ := List.mem_map.mp hin
      exact List.find?_eq_none.mp hfind i hi (beq_iff_eq.mpr heq.symm)
    by_cases hroom : length < cap
    · exact .inr (.inl ⟨hout, hroom, by simp [hroom]⟩)
    · exact .inr (.inr ⟨hout, hroom, by simp [hroom]⟩)

/-! ## Masks -/

def GroupOf (mask : BitVec 64) (ports : List SwitchportToNextGuid) : Prop :=
  ∀ p, 1 ≤ p ∧ mask.getLsbD (p - 1) = true ↔ ∃ e ∈ ports, e.portp.index = p

theorem getLsbD_one_shiftLeft {n i : Nat} (hn : n < 64) :
    (1#64 <<< n).getLsbD i = true ↔ i = n := by
  rw [BitVec.getLsbD_shiftLeft, BitVec.getLsbD_one]
  simp only [Bool.and_eq_true, decide_eq_true_eq, Bool.not_eq_true', decide_eq_false_iff_not]
  omega

theorem portGroupMask_spec {ports : List SwitchportToNextGuid}
    (h : ∀ e ∈ ports, 1 ≤ e.portp.index ∧ e.portp.index ≤ maxStlPorts) :
    GroupOf (portGroupMask ports) ports := by
  unfold portGroupMask
  induction ports using List.reverseRecOn with
  | nil =>
    intro p
    simp
  | append_singleton ports e ih =>
    have he := h e (List.mem_append_right ports List.mem_cons_self)
    have hpast := ih fun e' he' => h e' (List.mem_append_left _ he')
    unfold maxStlPorts at he
    intro p
    have hskip : ¬(e.portp.index = 0 ∨ 64 < e.portp.index) := by omega
    rw [List.foldl_append, List.foldl_cons, List.foldl_nil, if_neg hskip, BitVec.getLsbD_or,
      Bool.or_eq_true, getLsbD_one_shiftLeft (by omega), and_or_left, hpast p]
    constructor
    · rintro (⟨e', he', heq⟩ | ⟨hp, heq⟩)
      · exact ⟨e', List.mem_append_left _ he', heq⟩
      · exact ⟨e, List.mem_append_right _ List.mem_cons_self, by omega⟩
    · rintro ⟨e', he', rfl⟩
      rcases List.mem_append.mp he' with he' | he'
      · exact .inl ⟨e', he', rfl⟩
      · rw [List.mem_singleton.mp he']
        exact .inr ⟨he.1, rfl⟩

/-! ## Forwarding entries -/

namespace ArSwitch

def entry (sw : ArSwitch) (lid : Nat) : Option Nat :=
  if lid < sw.pgftSize then sw.pgft.map (· lid) else none

def SameGroups (sw sw' : ArSwitch) : Prop :=
  ∃ arChange pgft pgftSize,
    sw' = { sw with arChange := arChange, pgft := pgft, pgftSize := pgftSize }

variable {sw sw' sw'' : ArSwitch}

theorem SameGroups.refl (sw : ArSwitch) : SameGroups sw sw := ⟨_, _, _, rfl⟩

theorem SameGroups.trans (h : SameGroups sw sw') (h' : SameGroups sw' sw'') : SameGroups sw sw'' := by
  obtain ⟨_, _, _, rfl⟩ := h
  obtain ⟨_, _, _, rfl⟩ := h'
  exact ⟨_, _, _, rfl⟩

theorem smNodeGetPgftWr_spec (sw : ArSwitch) (mem : Bool) :
    SameGroups sw (sw.smNodeGetPgftWr mem).1 ∧
      (∀ lid g, sw.entry lid = some g → (sw.smNodeGetPgftWr mem).1.entry lid = some g) ∧
      ((sw.smNodeGetPgftWr mem).2 = true → (sw.smNodeGetPgftWr mem).1.pgft.isSome = true) := by
  unfold smNodeGetPgftWr
  split
  next => exact ⟨.refl sw, fun _ _ h => h, fun h => absurd h Bool.false_ne_true⟩
  next =>
    simp only
    split
    next hnone =>
      split
      next =>
        refine ⟨⟨_, _, _, rfl⟩, fun lid g h => ?_, fun _ => rfl⟩
        simp [entry, hnone] at h
      next => exact ⟨.refl sw, fun _ _ h => h, fun h => absurd h Bool.false_ne_true⟩
    next pgft hsome =>
      split
      next hgrow =>
        split
        next =>
          refine ⟨⟨_, _, _, rfl⟩, fun lid g h => ?_, fun _ => rfl⟩
          unfold entry at h ⊢
          split at h
          next hlid =>
            rw [hsome] at h
            rw [if_pos (Nat.lt_trans hlid hgrow)]
            simp only [Option.map_some, if_pos hlid]
            exact h
          next => cases h
        next => exact ⟨.refl sw, fun _ _ h => h, fun h => absurd h Bool.false_ne_true⟩
      next => exact ⟨.refl sw, fun _ _ h => h, fun _ => by rw [hsome]; rfl⟩

theorem setPgftEntry_spec (hpgft : sw.pgft.isSome = true) (pgid lid : Nat) :
    SameGroups sw (sw.setPgftEntry pgid lid) ∧ (sw.setPgftEntry pgid lid).pgft.isSome = true ∧
      (sw.setPgftEntry pgid lid).pgftSize = sw.pgftSize ∧
      ∀ l, (sw.setPgftEntry pgid lid).entry l =
        if l = lid ∧ lid < sw.pgftSize then some pgid else sw.entry l := by
  obtain ⟨pgft, hsome⟩ := Option.isSome_iff_exists.mp hpgft
  unfold setPgftEntry
  rw [hsome]
  simp only
  split
  next hlid =>
    refine ⟨⟨_, _, _, rfl⟩, rfl, rfl, fun l => ?_⟩
    by_cases hl : l = lid
    · subst hl
      simp [entry, hlid]
    · simp [entry, hl, hsome]
  next hlid =>
    refine ⟨.refl sw, hpgft, rfl, fun l => ?_⟩
    rw [if_neg fun h => hlid h.2]

theorem foldl_setPgftEntry (lids : List Nat) (pgid : Nat) (hpgft : sw.pgft.isSome = true) :
    SameGroups sw (lids.foldl (fun sw lid => sw.setPgftEntry pgid lid) sw) ∧
      ∀ l, (lids.foldl (fun sw lid => sw.setPgftEntry pgid lid) sw).entry l =
        if l ∈ lids.filter (· < sw.pgftSize) then some pgid else sw.entry l := by
  induction lids generalizing sw with
  | nil => exact ⟨.refl sw, fun l => rfl⟩
  | cons lid lids ih =>
    obtain ⟨hsame, hpgft', hsize, hentry⟩ := setPgftEntry_spec hpgft pgid lid
    obtain ⟨hsame', hentry'⟩ := ih hpgft'
    refine ⟨hsame.trans hsame', fun l => ?_⟩
    rw [List.foldl_cons, hentry', hsize, hentry]
    by_cases hin : l ∈ lids.filter (· < sw.pgftSize)
    · rw [if_pos hin, if_pos]
      rw [List.filter_cons]
      split
      · exact List.mem_cons_of_mem lid hin
      · exact hin
    · rw [if_neg hin]
      by_cases hl : l = lid ∧ lid < sw.pgftSize
      · rw [if_pos hl, if_pos]
        rw [List.mem_filter, decide_eq_true_iff, hl.1]
        exact ⟨List.mem_cons_self, hl.2⟩
      · rw [if_neg hl, if_neg]
        rw [List.mem_filter, List.mem_cons, decide_eq_true_iff]
        rintro ⟨rfl | hmem, hlt⟩
        · exact hl ⟨rfl, hlt⟩
        · exact hin (List.mem_filter.mpr ⟨hmem, decide_eq_true hlt⟩)

end ArSwitch

/-! ## Destinations -/

namespace PgSource

variable (src : PgSource) (sw : ArSwitch)

def reaches (dstSw : Node) : Bool :=
  decide (src.srcSw.nodeType = .switch) && src.considered sw dstSw && smValidPort (dstSw.port 0)

def single (dstSw : Node) : Bool :=
  src.reaches sw dstSw && decide ((src.selectPorts dstSw.swIdx).length ≤ 1)

def multi (dstSw : Node) : Bool :=
  src.reaches sw dstSw && decide (1 < (src.selectPorts dstSw.swIdx).length)

def mask (dstSw : Node) : BitVec 64 := portGroupMask (src.selectPorts dstSw.swIdx)

inductive SetupCase (sw : ArSwitch) (dstSw : Node) : PgResult → Prop
  | skipped (hno : src.reaches sw dstSw = false) (status : Status) :
      SetupCase sw dstSw ⟨status, sw, []⟩
  | single (hsingle : src.single sw dstSw = true) :
      SetupCase sw dstSw ⟨.ok, { sw with portGroupTop := 0 }, []⟩
  | full (hmulti : src.multi sw dstSw = true) (hout : src.mask dstSw ∉ tableList sw.pgt sw.pgtLen)
      (hfull : ¬sw.pgtLen < sw.portGroupCap) : SetupCase sw dstSw ⟨.ok, sw, []⟩
  | pushed (hmulti : src.multi sw dstSw = true) (pushed : PushResult)
      (hpushed : smPushPortGroup sw.pgt (src.mask dstSw) sw.pgtLen sw.portGroupCap = pushed)
      (hrc : 0 ≤ pushed.rc) (status : Status) (sw' : ArSwitch) (wrote : List Nat)
      (hsame : ArSwitch.SameGroups { sw with
        pgt := pushed.pgp, pgtLen := pushed.length, portGroupTop := pushed.length } sw')
      (hold : ∀ lid g, lid ∉ wrote → sw.entry lid = some g → sw'.entry lid = some g)
      (hnew : ∀ lid ∈ wrote, sw'.entry lid = some pushed.index) :
      SetupCase sw dstSw ⟨status, sw', wrote⟩

theorem pushGroup_cases {sw : ArSwitch} {dstSw : Node} (hmulti : src.multi sw dstSw = true)
    (mem : Bool) : src.SetupCase sw dstSw (src.pushGroup sw dstSw mem) := by
  unfold pushGroup
  simp only
  generalize hpush : smPushPortGroup sw.pgt (portGroupMask (src.selectPorts dstSw.swIdx)) sw.pgtLen
    sw.portGroupCap = pushed
  split
  next hrc =>
    rcases smPushPortGroup_cases sw.pgt (src.mask dstSw) sw.pgtLen sw.portGroupCap with
      ⟨-, i, -, -, heq⟩ | ⟨-, -, heq⟩ | ⟨hout, hfull, heq⟩
    · cases hpush.symm.trans heq
      exact absurd hrc (by simp)
    · cases hpush.symm.trans heq
      exact absurd hrc (by simp)
    · cases hpush.symm.trans heq
      exact .full hmulti hout hfull
  next hrc =>
    generalize hgroups : ({ sw with
      arChange := _, pgt := pushed.pgp, pgtLen := pushed.length, portGroupTop := _ } : ArSwitch) = sw₁
    have hpushed : ArSwitch.SameGroups { sw with
        pgt := pushed.pgp, pgtLen := pushed.length, portGroupTop := pushed.length } sw₁ :=
      ⟨_, _, _, hgroups.symm⟩
    have hentry : ∀ lid, sw₁.entry lid = sw.entry lid := by
      intro lid
      rw [← hgroups]
      rfl
    obtain ⟨hsame, hkeep, hsome⟩ := sw₁.smNodeGetPgftWr_spec mem
    split
    next =>
      exact .pushed hmulti pushed hpush (Int.not_lt.mp hrc) _ _ _ (hpushed.trans hsame)
        (fun lid g _ h => hkeep lid g ((hentry lid).trans h))
        (fun lid h => absurd h List.not_mem_nil)
    next hacquired =>
      obtain ⟨hsame', hentry'⟩ := ArSwitch.foldl_setPgftEntry (destinationLids src.topop dstSw)
        pushed.index (hsome (by simpa using hacquired))
      refine .pushed hmulti pushed hpush (Int.not_lt.mp hrc) _ _ _
        ((hpushed.trans hsame).trans hsame') (fun lid g hlid h => ?_) (fun lid hlid => ?_)
      · exact (hentry' lid).trans ((if_neg hlid).trans (hkeep lid g ((hentry lid).trans h)))
      · exact (hentry' lid).trans (if_pos hlid)

theorem smRoutingFuncSetupPgs_cases (dstSw : Node) (mem : Bool) :
    src.SetupCase sw dstSw (src.smRoutingFuncSetupPgs sw dstSw mem) := by
  unfold smRoutingFuncSetupPgs
  by_cases hreaches : src.reaches sw dstSw = true
  · have hparts := hreaches
    simp only [reaches, Bool.and_eq_true, decide_eq_true_eq] at hparts
    obtain ⟨⟨htype, hconsidered⟩, hport⟩ := hparts
    rw [if_neg (not_not.mpr htype), hconsidered, if_neg (by decide), hport, if_neg (by decide)]
    split
    next hsingle => exact .single (by simp [single, hreaches, hsingle])
    next hmulti => exact src.pushGroup_cases (by simpa [multi, hreaches] using hmulti) mem
  · have hno : src.reaches sw dstSw = false := Bool.eq_false_iff.mpr hreaches
    simp only [reaches, Bool.and_eq_true, decide_eq_true_eq, not_and] at hreaches
    split
    next => exact .skipped hno _
    next htype =>
      split
      next => exact .skipped hno _
      next hconsidered =>
        split
        next => exact .skipped hno _
        next hport =>
          exact absurd (by simpa using hport)
            (hreaches ⟨not_not.mp htype, by simpa using hconsidered⟩)

end PgSource

/-!
## Port groups over a run

Whatever the order of the destinations, the table holds the first distinct groups, and
every forwarding entry that was written is the number of the group of its destination.
The top index follows the last destination that decides it, and one with a single path
sets it to zero.
-/

namespace PgSource

variable (src : PgSource) (sw : ArSwitch)

def masks (dsts : List Node) : List (BitVec 64) := (dsts.filter (src.multi sw)).map src.mask

def groups (dsts : List Node) : List (BitVec 64) := firstDistinct sw.portGroupCap (src.masks sw dsts)

def decides (dsts : List Node) (dstSw : Node) : Bool :=
  src.single sw dstSw ∨ src.multi sw dstSw ∧ src.mask dstSw ∈ src.groups sw dsts

def lastDecides (dsts : List Node) : Option Node := (dsts.filter (src.decides sw dsts)).getLast?

def topAfter (dsts : List Node) : Nat :=
  (src.lastDecides sw dsts).elim sw.portGroupTop fun d =>
    if src.single sw d then 0 else (src.groups sw dsts).length

variable {src sw}

theorem getLast?_filter_snoc {α : Type} (p : α → Bool) (l : List α) (a : α) :
    ((l ++ [a]).filter p).getLast? = if p a then some a else (l.filter p).getLast? := by
  rw [List.filter_append]
  cases hp : p a <;> simp [hp]

theorem single_of_multi {d : Node} (h : src.multi sw d = true) : src.single sw d = false := by
  simp only [multi, Bool.and_eq_true, decide_eq_true_eq] at h
  simp only [single, Bool.and_eq_false_iff, decide_eq_false_iff_not, Nat.not_le]
  exact .inr h.2

theorem masks_snoc (dsts : List Node) (d : Node) :
    src.masks sw (dsts ++ [d]) =
      if src.multi sw d then src.masks sw dsts ++ [src.mask d] else src.masks sw dsts := by
  unfold masks
  rw [List.filter_append, List.map_append]
  cases h : src.multi sw d <;> simp [h]

theorem topAfter_snoc {dsts : List Node} {d : Node}
    (hgroups : src.groups sw (dsts ++ [d]) = src.groups sw dsts)
    (hno : src.decides sw dsts d = false) : src.topAfter sw (dsts ++ [d]) = src.topAfter sw dsts := by
  have hsame : src.decides sw (dsts ++ [d]) = src.decides sw dsts := by
    funext e
    simp only [decides, hgroups]
  unfold topAfter lastDecides
  rw [hsame, hgroups, getLast?_filter_snoc, hno, if_neg Bool.false_ne_true]

theorem topAfter_snoc_decides {dsts : List Node} {d : Node}
    (hdecides : src.decides sw (dsts ++ [d]) d = true) :
    src.topAfter sw (dsts ++ [d]) =
      if src.single sw d then 0 else (src.groups sw (dsts ++ [d])).length := by
  unfold topAfter lastDecides
  rw [getLast?_filter_snoc, hdecides, if_pos rfl]
  rfl

end PgSource

structure PgRun where
  sw : ArSwitch
  owner : Nat → Option Node

namespace PgRun

def start (sw : ArSwitch) : PgRun := ⟨{ sw with pgtLen := 0 }, fun _ => none⟩

/-- A call for a destination, with whether there is memory for the PGFT. -/
def step (src : PgSource) (r : PgRun) (call : Node × Bool) : PgRun :=
  let res := src.smRoutingFuncSetupPgs r.sw call.1 call.2
  ⟨res.sw, fun lid => if lid ∈ res.wrote then some call.1 else r.owner lid⟩

def run (src : PgSource) (sw : ArSwitch) (calls : List (Node × Bool)) : PgRun :=
  calls.foldl (step src) (start sw)

structure After (src : PgSource) (sw : ArSwitch) (dsts : List Node) (r : PgRun) : Prop where
  arSupport : r.sw.arSupport = sw.arSupport
  portGroupCap : r.sw.portGroupCap = sw.portGroupCap
  table : tableList r.sw.pgt r.sw.pgtLen = src.groups sw dsts
  top : r.sw.portGroupTop = src.topAfter sw dsts
  entries : ∀ lid d, r.owner lid = some d →
    ∃ g, r.sw.entry lid = some g ∧ g < r.sw.pgtLen ∧ r.sw.pgt g = src.mask d

variable {src : PgSource} {sw : ArSwitch} {dsts : List Node} {r : PgRun}

theorem After.pgtLen (h : After src sw dsts r) : r.sw.pgtLen = (src.groups sw dsts).length := by
  rw [← h.table, length_tableList]

theorem After.start : After src sw [] (start sw) where
  arSupport := rfl
  portGroupCap := rfl
  table := by simp [tableList, PgRun.start, PgSource.groups, PgSource.masks, firstDistinct]
  top := rfl
  entries := fun lid d h => by cases h

theorem After.unchanged (h : After src sw dsts r) {d : Node} {top : Nat}
    (hgroups : src.groups sw (dsts ++ [d]) = src.groups sw dsts)
    (htop : top = src.topAfter sw (dsts ++ [d])) :
    After src sw (dsts ++ [d])
      ⟨{ r.sw with portGroupTop := top }, fun lid => if lid ∈ [] then some d else r.owner lid⟩ where
  arSupport := h.arSupport
  portGroupCap := h.portGroupCap
  table := h.table.trans hgroups.symm
  top := htop
  entries := fun lid e he => h.entries lid e (by simpa using he)

theorem After.pushed (h : After src sw dsts r) {d : Node} (hmulti : src.multi sw d = true)
    {pushed : PushResult}
    (hpushed : smPushPortGroup r.sw.pgt (src.mask d) r.sw.pgtLen r.sw.portGroupCap = pushed)
    (hrc : 0 ≤ pushed.rc) :
    tableList pushed.pgp pushed.length = src.groups sw (dsts ++ [d]) ∧
      pushed.index < pushed.length ∧ pushed.pgp pushed.index = src.mask d ∧
      ∀ g < r.sw.pgtLen, g < pushed.length ∧ pushed.pgp g = r.sw.pgt g := by
  have hmasks : src.groups sw (dsts ++ [d]) =
      firstDistinct sw.portGroupCap (src.masks sw dsts ++ [src.mask d]) := by
    rw [PgSource.groups, PgSource.masks_snoc, if_pos hmulti]
  have htable := h.table
  rcases smPushPortGroup_cases r.sw.pgt (src.mask d) r.sw.pgtLen r.sw.portGroupCap with
    ⟨hin, i, hi, hmask, heq⟩ | ⟨hout, hroom, heq⟩ | ⟨-, -, heq⟩
  · cases hpushed.symm.trans heq
    rw [htable] at hin
    refine ⟨?_, hi, hmask, fun g hg => ⟨hg, rfl⟩⟩
    rw [hmasks, firstDistinct_snoc_old (.inl hin)]
    exact htable
  · cases hpushed.symm.trans heq
    rw [htable] at hout
    rw [h.pgtLen, h.portGroupCap] at hroom
    refine ⟨?_, Nat.lt_succ_self _, Function.update_self .., fun g hg =>
      ⟨Nat.lt_succ_of_lt hg, Function.update_of_ne (Nat.ne_of_lt hg) _ _⟩⟩
    rw [hmasks, firstDistinct_snoc_new hout hroom, tableList_update, htable]
    rfl
  · cases hpushed.symm.trans heq
    exact absurd hrc (by simp)

theorem After.step (h : After src sw dsts r) (call : Node × Bool) :
    After src sw (dsts ++ [call.1]) (step src r call) := by
  obtain ⟨d, mem⟩ := call
  have hreaches : src.reaches r.sw d = src.reaches sw d := by
    simp only [PgSource.reaches, PgSource.considered, h.arSupport]
  have hmulti : src.multi r.sw d = src.multi sw d := by
    rw [PgSource.multi, PgSource.multi, hreaches]
  have hsingle : src.single r.sw d = src.single sw d := by
    rw [PgSource.single, PgSource.single, hreaches]
  have hcase := src.smRoutingFuncSetupPgs_cases r.sw d mem
  unfold PgRun.step
  simp only
  generalize src.smRoutingFuncSetupPgs r.sw d mem = res at hcase ⊢
  -- only a destination with several paths has a group
  have hgroups : src.multi sw d = false → src.groups sw (dsts ++ [d]) = src.groups sw dsts := by
    intro hm
    rw [PgSource.groups, PgSource.masks_snoc, hm, if_neg Bool.false_ne_true]
    rfl
  cases hcase with
  | skipped hno status =>
    have hm : src.multi sw d = false := by
      rw [← hmulti, PgSource.multi, hno, Bool.false_and]
    have hs : src.single sw d = false := by
      rw [← hsingle, PgSource.single, hno, Bool.false_and]
    apply h.unchanged (hgroups hm)
    rw [PgSource.topAfter_snoc (hgroups hm) (by simp [PgSource.decides, hm, hs])]
    exact h.top
  | single hs =>
    rw [hsingle] at hs
    have hm : src.multi sw d = false := by
      cases hm : src.multi sw d with
      | false => rfl
      | true => exact absurd hs (by rw [PgSource.single_of_multi hm]; exact Bool.false_ne_true)
    apply h.unchanged (hgroups hm)
    rw [PgSource.topAfter_snoc_decides (by simp [PgSource.decides, hs]), if_pos hs]
  | full hm hout hfull =>
    rw [hmulti] at hm
    rw [h.table] at hout
    rw [h.pgtLen, h.portGroupCap] at hfull
    have hsame : src.groups sw (dsts ++ [d]) = src.groups sw dsts := by
      rw [PgSource.groups, PgSource.masks_snoc, if_pos hm]
      exact firstDistinct_snoc_old (.inr hfull)
    apply h.unchanged hsame
    rw [PgSource.topAfter_snoc hsame
      (by simp [PgSource.decides, hout, PgSource.single_of_multi hm])]
    exact h.top
  | pushed hm pushed hpushed hrc status sw' wrote hsame hold hnew =>
    rw [hmulti] at hm
    obtain ⟨htable, hindex, hmask, hkeep⟩ := h.pushed hm hpushed hrc
    obtain ⟨_, _, _, rfl⟩ := hsame
    have hin : src.mask d ∈ src.groups sw (dsts ++ [d]) := by
      rw [← htable, ← hmask]
      exact List.mem_map.mpr ⟨_, List.mem_range.mpr hindex, rfl⟩
    refine ⟨h.arSupport, h.portGroupCap, htable, ?_, fun lid e he => ?_⟩
    · rw [PgSource.topAfter_snoc_decides (by simp [PgSource.decides, hm, hin]),
        PgSource.single_of_multi hm, if_neg Bool.false_ne_true, ← htable, length_tableList]
    · simp only at he
      split at he
      next hwrote =>
        cases he
        exact ⟨pushed.index, hnew lid hwrote, hindex, hmask⟩
      next hwrote =>
        obtain ⟨g, hentry, hg, hgmask⟩ := h.entries lid e he
        exact ⟨g, hold lid g hwrote hentry, (hkeep g hg).1, (hkeep g hg).2.trans hgmask⟩

theorem After.run (src : PgSource) (sw : ArSwitch) (calls : List (Node × Bool)) :
    After src sw (calls.map Prod.fst) (run src sw calls) := by
  induction calls using List.reverseRecOn with
  | nil => exact .start
  | append_singleton calls call ih =>
    unfold PgRun.run at ih ⊢
    rw [List.map_append, List.foldl_append]
    exact ih.step call

/-- The tables of a switch are right. -/
structure Correct (src : PgSource) (r : PgRun) : Prop where
  distinct : ∀ i j, i < r.sw.pgtLen → j < r.sw.pgtLen → r.sw.pgt i = r.sw.pgt j → i = j
  bounded : r.sw.pgtLen ≤ r.sw.portGroupCap
  top : r.sw.portGroupTop = r.sw.pgtLen
  entries : ∀ lid d, r.owner lid = some d →
    ∃ g, r.sw.entry lid = some g ∧ g < r.sw.portGroupTop ∧
      GroupOf (r.sw.pgt g) (src.selectPorts d.swIdx)

/-- The last destination that sets the top has several paths, or no destination has a
group; where none sets the top, it was zero. -/
def TopKept (src : PgSource) (sw : ArSwitch) (dsts : List Node) : Prop :=
  match src.lastDecides sw dsts with
  | none => sw.portGroupTop = 0
  | some d => src.single sw d = true → src.groups sw dsts = []

theorem After.distinct (h : After src sw dsts r) {i j : Nat} (hi : i < r.sw.pgtLen)
    (hj : j < r.sw.pgtLen) (heq : r.sw.pgt i = r.sw.pgt j) : i = j := by
  have hnodup : (tableList r.sw.pgt r.sw.pgtLen).Nodup := by
    rw [h.table]
    exact nodup_firstDistinct _ _
  have hget : ∀ k < r.sw.pgtLen, (tableList r.sw.pgt r.sw.pgtLen)[k]? = some (r.sw.pgt k) := by
    intro k hk
    simp [tableList, hk]
  apply (List.getElem?_inj (by rwa [length_tableList]) hnodup).mp
  rw [hget i hi, hget j hj, heq]

theorem groups_of_lastDecides_none (h : src.lastDecides sw dsts = none) : src.groups sw dsts = [] := by
  rw [PgSource.lastDecides, List.getLast?_eq_none_iff, List.filter_eq_nil_iff] at h
  apply List.eq_nil_iff_forall_not_mem.mpr
  intro m hm
  obtain ⟨d, hd, rfl⟩ := List.mem_map.mp (mem_of_mem_firstDistinct hm)
  rw [List.mem_filter] at hd
  exact h d hd.1 (by simp [PgSource.decides, hd.2, hm])

theorem topAfter_eq_iff :
    src.topAfter sw dsts = (src.groups sw dsts).length ↔ TopKept src sw dsts := by
  unfold PgSource.topAfter TopKept
  cases hlast : src.lastDecides sw dsts with
  | none =>
    rw [groups_of_lastDecides_none hlast]
    rfl
  | some d =>
    simp only [Option.elim_some]
    cases src.single sw d with
    | true =>
      constructor
      · exact fun h _ => List.length_eq_zero_iff.mp h.symm
      · intro h
        rw [h rfl]
        rfl
    | false => simp

/-- After any sequence of calls the tables are right exactly when the top is kept. -/
theorem run_correct_iff (src : PgSource) (sw : ArSwitch) (calls : List (Node × Bool)) :
    Correct src (run src sw calls) ↔ TopKept src sw (calls.map Prod.fst) := by
  have hafter := After.run src sw calls
  have htop : (run src sw calls).sw.portGroupTop = (run src sw calls).sw.pgtLen ↔
      TopKept src sw (calls.map Prod.fst) := by
    rw [hafter.top, hafter.pgtLen, topAfter_eq_iff]
  constructor
  · exact fun h => htop.mp h.top
  · intro h
    refine ⟨fun i j => hafter.distinct, ?_, htop.mpr h, fun lid d howner => ?_⟩
    · rw [hafter.pgtLen, hafter.portGroupCap]
      exact length_firstDistinct_le
    · obtain ⟨g, hentry, hg, hmask⟩ := hafter.entries lid d howner
      refine ⟨g, hentry, (htop.mpr h).symm ▸ hg, ?_⟩
      rw [hmask]
      exact portGroupMask_spec (src.numbered d.swIdx)

end PgRun

/-- A switch with the default routing functions.  By `smRoutingFuncSelectPorts_load` the
selection stays the same while LIDs are routed. -/
def PgSource.default (topop : Topology) (path : Nat → Nat → Finset Nat) (doSpineCheck : Bool)
    (srcSw : Node) (enable : Bool) (hindex : ∀ i, (srcSw.port i).index = i) : PgSource where
  topop := topop
  enable := enable
  srcSw := srcSw
  selectPorts := fun j => smRoutingFuncSelectPorts topop path {} doSpineCheck srcSw j false
  numbered := smRoutingFuncSelectPorts_numbered topop path doSpineCheck srcSw hindex {}

/-! ### A switch with two links to one neighbour and one link to another -/

namespace PgRun

def middlePort (i : Nat) : Port :=
  match i with
  | 0 => { index := 0, state := .active, portData := some { lid := 1 } }
  | 1 => { index := 1, state := .active, nodeno := some 1, portno := some 1, portData := some {} }
  | 2 => { index := 2, state := .active, nodeno := some 1, portno := some 2, portData := some {} }
  | 3 => { index := 3, state := .active, nodeno := some 2, portno := some 1, portData := some {} }
  | i => { index := i }

def middleSwitch : Node := { index := 0, swIdx := 0, numPorts := 3, port := middlePort }

def neighbour (i : Nat) : Node :=
  { index := i, swIdx := i, numPorts := 2
    port := fun p =>
      if p = 0 then { index := 0, state := .active, portData := some { lid := i + 1 } }
      else { index := p } }

def middleTopology : Topology := { nodes := [middleSwitch, neighbour 1, neighbour 2], maxSws := 3 }

theorem middlePort_index (i : Nat) : (middleSwitch.port i).index = i := by
  show (middlePort i).index = i
  unfold middlePort
  split <;> rfl

def middleSource : PgSource :=
  .default middleTopology (fun _ j => if j = 1 then {1, 2} else {3}) false middleSwitch true
    middlePort_index

def middleAr : ArSwitch where
  arSupport := true
  arChange := false
  isAdaptiveRoutingSupported := true
  linearFDBTop := 3
  portGroupFDBCap := 0
  portGroupCap := 8
  portGroupTop := 0
  pgt := fun _ => 0
  pgtLen := 0
  pgft := none
  pgftSize := 0

/-- The neighbour with one link comes last: its call sets the top to zero, and the group
of the other one stays. -/
theorem run_single_last :
    ¬Correct middleSource (run middleSource middleAr [(neighbour 1, true), (neighbour 2, true)]) := by
  intro h
  have htop := h.top
  revert htop
  decide

end PgRun

end OpaFm.Routing
