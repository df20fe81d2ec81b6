import OpaFm.Sa.Proofs.InformInfo
import OpaFm.Lib.Run

/-!
# The subscriber table over whole runs

The table is compared with a map from the compared part of a key to the record and the LID range
of the latest subscription.  A run also keeps the replies to its subscriptions, each of which can
be sent back to end the subscription.
-/

namespace OpaFm.Sa

open OpaFm.Cs OpaFm.Lib

/-! ## Keys -/

structure SubscriberIdent where
  subscriberGid : BitVec 128
  lid : BitVec 16
  trapnum : BitVec 16
  qpn : BitVec 32
  producer : BitVec 8
  rtv : BitVec 8
  pkey : BitVec 16
  qkey : BitVec 32
  deriving DecidableEq

def SubscriberKey.ident (k : SubscriberKey) : SubscriberIdent :=
  ⟨k.subscriberGid, k.lid, k.trapnum, k.qpn, k.producer, k.rtv, k.pkey, k.qkey⟩

theorem subscriberFns_keyed : subscriberFns.Keyed SubscriberKey.ident where
  eqfn_iff k k' := by
    show decide _ = true ↔ _
    rw [decide_eq_true_eq]
    exact (SubscriberIdent.mk.injEq ..).symm ▸ Iff.rfl
  hashfn_eq k k' h := by
    have hident := SubscriberIdent.mk.inj h
    show saSubscriberHashFromKey k = saSubscriberHashFromKey k'
    unfold saSubscriberHashFromKey
    rw [hident.2.1, hident.2.2.1, hident.2.2.2.1, hident.2.2.2.2.1, hident.2.2.2.2.2.1]

/-! ## The map of the subscriptions -/

structure Subscription where
  record : InformInfoRecord
  first : BitVec 16
  last : BitVec 16

abbrev SubscriptionMap := SubscriberIdent → Option Subscription

inductive InformEvent where
  | subscribed (i : SubscriberIdent) (lid : BitVec 32) (info : StlInformInfo)
      (first last : BitVec 16)
  | unsubscribed (i : SubscriberIdent)
  | nothing

/-- The latest request and range count; the RID stays that of the first subscription. -/
def SubscriptionMap.after (count : BitVec 16) (m : SubscriptionMap) :
    InformEvent → SubscriptionMap
  | .subscribed i lid info first last =>
    let record := (m i).elim ⟨lid, count, info⟩ fun x => { x.record with informInfoData := info }
    Function.update m i (some ⟨record, first, last⟩)
  | .unsubscribed i => Function.update m i none
  | .nothing => m

def Succeeds (env : InformEnv) (s : Subscribers) (maip : InformMai) : Prop :=
  maip.method = saCmSet ∧
    (maip.cversion = stlSaClassVersion ∨ maip.cversion = ibSubnAdmClassVersion) ∧
      (handleInform env s maip (requestInfo maip)).result = .ok

instance (env : InformEnv) (s : Subscribers) (maip : InformMai) :
    Decidable (Succeeds env s maip) :=
  inferInstanceAs (Decidable (_ ∧ _))

def subscriptionInfo (maip : InformMai) : StlInformInfo :=
  subscribedInfo maip.addrInfo (requestInfo maip)

def informEvent (env : InformEnv) (s : Subscribers) (maip : InformMai) : InformEvent :=
  if ¬Succeeds env s maip then .nothing
  else if Subscribes env maip then
    match subscribeChecks env maip.addrInfo (subscriptionInfo maip) with
    | .error _ => .nothing
    | .ok (subsPort, range) =>
      .subscribed (subscriberKey maip.addrInfo subsPort (subscriptionInfo maip) 0 0 false).ident
        subsPort.lid (subscriptionInfo maip) (range.first.setWidth 16) (range.last.setWidth 16)
  else
    match env.findActivePortLid (maip.addrInfo.slid.setWidth 32) with
    | none => .nothing
    | some subsPort =>
      .unsubscribed (subscriberKey maip.addrInfo subsPort (requestInfo maip) 0 0 false).ident

/-! ## Runs -/

structure Receipt where
  key : SubscriberIdent
  cversion : Nat
  reply : InformReply

def InformReply.SentIn (maip : InformMai) : InformReply → Prop
  | .empty => False
  | .stl d => maip.stlData = { d with subscribe := 0 }
  | .ib d => maip.ibData = { d with subscribe := 0 }

structure Receipt.SentBack (r : Receipt) (env : InformEnv) (maip : InformMai) : Prop where
  method : maip.method = saCmSet
  cversion : maip.cversion = r.cversion
  data : r.reply.SentIn maip
  slid : maip.addrInfo.slid = r.key.lid
  pkey : maip.addrInfo.pkey = r.key.pkey
  qkey : maip.addrInfo.qkey = r.key.qkey
  port : ∃ p, env.findActivePortLid (r.key.lid.setWidth 32) = some p ∧
    p.gid = r.key.subscriberGid
  subsLock : env.subsLock = true

structure SubscriberRun where
  subs : Subscribers
  spec : SubscriptionMap
  receipts : List Receipt

namespace SubscriberRun

def start (s : Subscribers) : SubscriberRun := ⟨s, fun _ => none, []⟩

def receiptsAfter (maip : InformMai) (reply : InformReply) (receipts : List Receipt) :
    InformEvent → List Receipt
  | .subscribed i _ _ _ _ => ⟨i, maip.cversion, reply⟩ :: receipts
  | .unsubscribed _ => receipts
  | .nothing => receipts

def step (S : SubscriberRun) (q : InformEnv × InformMai) : SubscriberRun where
  subs := (saInformInfo q.1 S.subs q.2).subs
  spec := S.spec.after S.subs.saInformCount (informEvent q.1 S.subs q.2)
  receipts :=
    receiptsAfter q.2 (saInformInfo q.1 S.subs q.2).reply S.receipts (informEvent q.1 S.subs q.2)

def subscriptionOf (x : SubscriberKey × InformInfoRecord) : Subscription :=
  ⟨x.2, x.1.startLid, x.1.endLid⟩

/-- The table has the subscriptions, one entry for each, and every reply ends its own. -/
structure Correct (S : SubscriberRun) : Prop where
  nodup : (S.subs.subsMap.entries.map fun x => x.1.ident).Nodup
  represents : ∀ i, (S.subs.subsMap.entryAt SubscriberKey.ident i).map subscriptionOf = S.spec i
  ends : ∀ r ∈ S.receipts, ∀ env maip, r.SentBack env maip →
    ∀ i, (saInformInfo env S.subs maip).subs.subsMap.entryAt SubscriberKey.ident i =
      if i = r.key then none else S.subs.subsMap.entryAt SubscriberKey.ident i

/-- A subscription again is for the same range, and one in the format of the InfiniBand class has
a producer without low byte and a queue pair of 21 bits. -/
def Meets (S : SubscriberRun) (q : InformEnv × InformMai) : Prop :=
  ∀ i lid info first last, informEvent q.1 S.subs q.2 = .subscribed i lid info first last →
    (∀ x, S.spec i = some x → x.first = first ∧ x.last = last) ∧
    (q.2.cversion ≠ stlSaClassVersion →
      info.qpNumber.toNat < 2 ^ 21 ∧ info.producerType.setWidth 8 = 0)

end SubscriberRun

/-! ## What the calls do to the map -/

variable {env : InformEnv} {s : Subscribers} {maip : InformMai} {addr : AddrInfo} {status : Nat}
  {iip : StlInformInfo} {ibMode : Bool} {k : SubscriberKey} {i : SubscriberIdent}

abbrev Subscribers.entryAt (s : Subscribers) (i : SubscriberIdent) :
    Option (SubscriberKey × InformInfoRecord) :=
  s.subsMap.entryAt SubscriberKey.ident i

abbrev Subscribers.IsMap (s : Subscribers) : Prop :=
  s.subsMap.IsMap subscriberFns SubscriberKey.ident

def stored (s : Subscribers) (k : SubscriberKey) (lid : BitVec 32) (iip : StlInformInfo) :
    SubscriberKey × InformInfoRecord :=
  (s.entryAt k.ident).elim (k, ⟨lid, s.saInformCount, iip⟩) fun x =>
    (x.1, { x.2 with informInfoData := iip })

theorem storeSubscription_map (h : s.IsMap) (env : InformEnv) (k : SubscriberKey)
    (lid : BitVec 32) (iip : StlInformInfo) :
    (storeSubscription env s k lid iip).2.IsMap ∧
      ∀ j, (storeSubscription env s k lid iip).2.entryAt j =
        if (storeSubscription env s k lid iip).1 = .ok ∧ j = k.ident then
          some (stored s k lid iip)
        else s.entryAt j := by
  have hsearch := h.search subscriberFns_keyed k
  unfold storeSubscription stored
  cases hfound : s.entryAt k.ident with
  | none =>
    have hnone : s.subsMap.csHashtableSearch subscriberFns k = none := by
      rw [hsearch]
      exact congrArg (Option.map Prod.snd) hfound
    simp only [hnone]
    by_cases hmem : env.recordMem = true
    · have hinsert := h.insert subscriberFns_keyed hfound
        ⟨lid, s.saInformCount, iip⟩ env.tableMem env.entryMem
      rw [hmem]
      refine ⟨hinsert.1, fun j => (hinsert.2 j).trans ?_⟩
      cases (s.subsMap.csHashtableInsert subscriberFns k ⟨lid, s.saInformCount, iip⟩
        env.tableMem env.entryMem).2 <;> simp
    · refine ⟨by simpa [hmem] using h, fun j => ?_⟩
      simp [hmem]
  | some x =>
    have hsome : s.subsMap.csHashtableSearch subscriberFns k = some x.2 := by
      rw [hsearch]
      exact congrArg (Option.map Prod.snd) hfound
    have hchange := h.change subscriberFns_keyed k { x.2 with informInfoData := iip }
    simp only [hsome]
    refine ⟨hchange.1, fun j => (hchange.2 j).trans ?_⟩
    by_cases hj : j = k.ident
    · simp only [hj, true_and]
      rw [show s.subsMap.entryAt SubscriberKey.ident k.ident = some x from hfound]
      rfl
    · simp [hj]

theorem saInformInfo_subs (hmethod : maip.method = saCmSet)
    (hclass : maip.cversion = stlSaClassVersion ∨ maip.cversion = ibSubnAdmClassVersion) :
    (saInformInfo env s maip).subs = (handleInform env s maip (requestInfo maip)).subs := by
  unfold saInformInfo
  rw [if_neg (not_not.mpr hmethod), if_neg fun h => hclass.elim h.1 h.2]

theorem handleInform_of_subscribes (h : Subscribes env maip) :
    handleInform env s maip (requestInfo maip) =
      saInformInfoSubscribe env s maip.addrInfo maip.status (requestInfo maip)
        (maip.cversion ≠ stlSaClassVersion) := by
  unfold handleInform
  rw [if_pos h.1, if_neg (Bool.eq_false_iff.mp h.2)]

theorem handleInform_of_unsubscribes (hsub : ¬Subscribes env maip)
    (hok : (handleInform env s maip (requestInfo maip)).result = .ok) :
    handleInform env s maip (requestInfo maip) =
      saInformInfoUnsubscribe env s maip.addrInfo maip.status (requestInfo maip) := by
  unfold handleInform at hok ⊢
  by_cases hone : (requestInfo maip).subscribe = 1
  · rw [if_pos hone] at hok
    have htrust : notTrusted env maip (requestInfo maip) = true := by
      by_contra hnot
      exact hsub ⟨hone, Bool.eq_false_iff.mpr hnot⟩
    rw [if_pos htrust] at hok
    nomatch hok
  · rw [if_neg hone] at hok ⊢
    split at hok
    next hzero => rw [if_pos hzero]
    next => nomatch hok

structure SubscribedAs (env : InformEnv) (s : Subscribers) (maip : InformMai) (p : SaPort)
    (range : LidRange) : Prop where
  succeeds : Succeeds env s maip
  subscribes : Subscribes env maip
  checks : subscribeChecks env maip.addrInfo (subscriptionInfo maip) = .ok (p, range)

variable {lid : BitVec 32} {info : StlInformInfo} {first last : BitVec 16} {p : SaPort}
  {range : LidRange}

theorem exists_subscribedAs
    (hevent : informEvent env s maip = .subscribed i lid info first last) :
    ∃ p range, SubscribedAs env s maip p range ∧
      i = (subscriberKey maip.addrInfo p info 0 0 false).ident ∧ lid = p.lid ∧
        info = subscriptionInfo maip ∧ first = range.first.setWidth 16 ∧
          last = range.last.setWidth 16 := by
  unfold informEvent at hevent
  split at hevent
  next => nomatch hevent
  next hsucceeds =>
    split at hevent
    next hsub =>
      split at hevent
      next => nomatch hevent
      next p range hchecks =>
        cases hevent
        exact ⟨p, range, ⟨not_not.mp hsucceeds, hsub, hchecks⟩, rfl, rfl, rfl, rfl, rfl⟩
    next => split at hevent <;> nomatch hevent

def SubscribedAs.key (maip : InformMai) (p : SaPort) (range : LidRange) : SubscriberKey :=
  subscriberKey maip.addrInfo p (subscriptionInfo maip) (range.first.setWidth 16)
    (range.last.setWidth 16) (maip.cversion ≠ stlSaClassVersion)

theorem SubscribedAs.outcome (h : SubscribedAs env s maip p range) :
    (storeSubscription env s (key maip p range) p.lid (subscriptionInfo maip)).1 = .ok ∧
      (handleInform env s maip (requestInfo maip)).subs =
        (storeSubscription env s (key maip p range) p.lid (subscriptionInfo maip)).2 := by
  have hok := h.succeeds.2.2
  rw [handleInform_of_subscribes h.subscribes] at hok ⊢
  have hchecks := h.checks
  unfold saInformInfoSubscribe at hok ⊢
  rw [subscriptionInfo] at hchecks
  simp only [hchecks] at hok ⊢
  split at hok
  next => nomatch hok
  next hmem =>
    split at hok
    next => nomatch hok
    next hlock =>
      rw [if_neg hmem, if_neg hlock]
      exact ⟨hok, rfl⟩

theorem SubscribedAs.map (h : SubscribedAs env s maip p range) (hmap : s.IsMap) :
    (saInformInfo env s maip).subs.IsMap ∧
      ∀ j, (saInformInfo env s maip).subs.entryAt j =
        if j = (key maip p range).ident then
          some (stored s (key maip p range) p.lid (subscriptionInfo maip))
        else s.entryAt j := by
  have hstore := storeSubscription_map hmap env (key maip p range) p.lid (subscriptionInfo maip)
  obtain ⟨hok, hsubs⟩ := h.outcome
  rw [saInformInfo_subs h.succeeds.1 h.succeeds.2.1, hsubs]
  refine ⟨hstore.1, fun j => (hstore.2 j).trans ?_⟩
  simp only [hok, true_and]

theorem SubscribedAs.reply (h : SubscribedAs env s maip p range) :
    (saInformInfo env s maip).reply =
      if maip.cversion = stlSaClassVersion then .stl (subscriptionInfo maip).bswap
      else .ib (subscriptionInfo maip).toIb := by
  have hinfo : (handleInform env s maip (requestInfo maip)).replyInfo = subscriptionInfo maip := by
    unfold InformOutcome.replyInfo
    rw [if_pos h.succeeds.2.2, handleInform_iip, if_pos h.subscribes]
    rfl
  unfold saInformInfo
  rw [if_neg (not_not.mpr h.succeeds.1), if_neg fun hno => h.succeeds.2.1.elim hno.1 hno.2]
  simp only [hinfo]

structure UnsubscribedAs (env : InformEnv) (s : Subscribers) (maip : InformMai) (p : SaPort) :
    Prop where
  succeeds : Succeeds env s maip
  unsubscribes : ¬Subscribes env maip
  port : env.findActivePortLid (maip.addrInfo.slid.setWidth 32) = some p

def UnsubscribedAs.key (maip : InformMai) (p : SaPort) : SubscriberKey :=
  subscriberKey maip.addrInfo p (requestInfo maip) 0 0 false

theorem UnsubscribedAs.subs (h : UnsubscribedAs env s maip p) :
    (saInformInfo env s maip).subs =
      { s with subsMap := (s.subsMap.csHashtableRemove subscriberFns (key maip p)).1 } := by
  have hok := h.succeeds.2.2
  have hcall := handleInform_of_unsubscribes h.unsubscribes hok
  rw [saInformInfo_subs h.succeeds.1 h.succeeds.2.1]
  rw [hcall] at hok ⊢
  unfold saInformInfoUnsubscribe at hok ⊢
  simp only [h.port] at hok ⊢
  split at hok
  next => nomatch hok
  next hlock =>
    rw [if_neg hlock]
    rfl

theorem UnsubscribedAs.map (h : UnsubscribedAs env s maip p) (hmap : s.IsMap) :
    (saInformInfo env s maip).subs.IsMap ∧
      ∀ j, (saInformInfo env s maip).subs.entryAt j =
        if j = (key maip p).ident then none else s.entryAt j := by
  have hremove := hmap.remove subscriberFns_keyed (key maip p)
  rw [h.subs]
  exact ⟨hremove.1, hremove.2.2⟩

/-! A request that fails, or is not taken up, leaves the map as it is. -/

def SameMap (s s' : Subscribers) : Prop :=
  s'.IsMap ∧ ∀ j, s'.entryAt j = s.entryAt j

theorem subscribe_sameMap (hmap : s.IsMap)
    (hbad : (saInformInfoSubscribe env s addr status iip ibMode).result ≠ .ok) :
    SameMap s (saInformInfoSubscribe env s addr status iip ibMode).subs := by
  have hsame : SameMap s s := ⟨hmap, fun _ => rfl⟩
  unfold saInformInfoSubscribe at hbad ⊢
  dsimp only at hbad ⊢
  split
  next => exact hsame
  next p range hchecks =>
    rw [hchecks] at hbad
    dsimp only at hbad
    split
    next => exact hsame
    next hmem =>
      split
      next => exact hsame
      next hlock =>
        rw [if_neg hmem, if_neg hlock] at hbad
        have hstore := storeSubscription_map hmap env
          (subscriberKey addr p (subscribedInfo addr iip) (range.first.setWidth 16)
            (range.last.setWidth 16) ibMode) p.lid (subscribedInfo addr iip)
        exact ⟨hstore.1, fun j => (hstore.2 j).trans (if_neg fun hno => hbad hno.1)⟩

theorem unsubscribe_same
    (hbad : (saInformInfoUnsubscribe env s addr status iip).result ≠ .ok) :
    (saInformInfoUnsubscribe env s addr status iip).subs = s := by
  unfold saInformInfoUnsubscribe at hbad ⊢
  dsimp only at hbad ⊢
  split
  next => rfl
  next p hport =>
    rw [hport] at hbad
    dsimp only at hbad
    split
    next => rfl
    next hlock =>
      rw [if_neg hlock] at hbad
      exact absurd rfl hbad

theorem handleInform_sameMap (hmap : s.IsMap)
    (hbad : (handleInform env s maip (requestInfo maip)).result ≠ .ok) :
    SameMap s (handleInform env s maip (requestInfo maip)).subs := by
  have hsame : SameMap s s := ⟨hmap, fun _ => rfl⟩
  unfold handleInform at hbad ⊢
  split
  next hone =>
    rw [if_pos hone] at hbad
    split
    next => exact hsame
    next htrust =>
      rw [if_neg htrust] at hbad
      exact subscribe_sameMap hmap hbad
  next hone =>
    rw [if_neg hone] at hbad
    split
    next hzero =>
      rw [if_pos hzero] at hbad
      rw [unsubscribe_same hbad]
      exact hsame
    next => exact hsame

theorem saInformInfo_sameMap (hmap : s.IsMap) (h : ¬Succeeds env s maip) :
    SameMap s (saInformInfo env s maip).subs := by
  have hsame : SameMap s s := ⟨hmap, fun _ => rfl⟩
  by_cases hmethod : maip.method = saCmSet
  · by_cases hclass : maip.cversion = stlSaClassVersion ∨ maip.cversion = ibSubnAdmClassVersion
    · rw [saInformInfo_subs hmethod hclass]
      exact handleInform_sameMap hmap fun hok => h ⟨hmethod, hclass, hok⟩
    · unfold saInformInfo
      rw [if_neg (not_not.mpr hmethod), if_pos (not_or.mp hclass)]
      exact hsame
  · unfold saInformInfo
    rw [if_pos hmethod]
    exact hsame

/-! The events. -/

theorem exists_unsubscribedAs (hevent : informEvent env s maip = .unsubscribed i) :
    ∃ p, UnsubscribedAs env s maip p ∧ i = (UnsubscribedAs.key maip p).ident := by
  unfold informEvent at hevent
  split at hevent
  next => nomatch hevent
  next hsucceeds =>
    split at hevent
    next => split at hevent <;> nomatch hevent
    next hsub =>
      split at hevent
      next => nomatch hevent
      next p hport =>
        cases hevent
        exact ⟨p, ⟨not_not.mp hsucceeds, hsub, hport⟩, rfl⟩

theorem subscribeChecks_of_succeeds (hsucceeds : Succeeds env s maip)
    (hsub : Subscribes env maip) {r : Refusal} :
    subscribeChecks env maip.addrInfo (subscriptionInfo maip) ≠ .error r := by
  intro hchecks
  have hok := hsucceeds.2.2
  rw [handleInform_of_subscribes hsub] at hok
  unfold saInformInfoSubscribe at hok
  rw [subscriptionInfo] at hchecks
  simp only [hchecks] at hok
  nomatch hok

theorem port_of_succeeds (hsucceeds : Succeeds env s maip) (hsub : ¬Subscribes env maip) :
    env.findActivePortLid (maip.addrInfo.slid.setWidth 32) ≠ none := by
  intro hport
  have hok := hsucceeds.2.2
  rw [handleInform_of_unsubscribes hsub hok] at hok
  unfold saInformInfoUnsubscribe at hok
  simp only [hport] at hok
  nomatch hok

theorem sameMap_of_nothing (hmap : s.IsMap) (hevent : informEvent env s maip = .nothing) :
    SameMap s (saInformInfo env s maip).subs := by
  apply saInformInfo_sameMap hmap
  intro hsucceeds
  unfold informEvent at hevent
  rw [if_neg (not_not.mpr hsucceeds)] at hevent
  split at hevent
  next hsub =>
    split at hevent
    next r hchecks => exact subscribeChecks_of_succeeds hsucceeds hsub hchecks
    next => nomatch hevent
  next hsub =>
    split at hevent
    next hport => exact port_of_succeeds hsucceeds hsub hport
    next => nomatch hevent

/-! ## Sending a reply back -/

def issued (cversion : Nat) (i : SubscriberIdent) (info : StlInformInfo) : Receipt where
  key := i
  cversion := cversion
  reply := if cversion = stlSaClassVersion then .stl info.bswap else .ib info.toIb

def backInfo (cversion : Nat) (info : StlInformInfo) : StlInformInfo :=
  if cversion = stlSaClassVersion then { info with subscribe := 0 }
  else { info.toIb.toStl with subscribe := 0 }

def SubscriberIdent.fill (i : SubscriberIdent) (info : StlInformInfo) : SubscriberIdent :=
  { i with
    trapnum := info.trapNumber
    qpn := info.qpNumber.setWidth 32
    producer := info.producerType.setWidth 8
    rtv := info.respTimeValue.setWidth 8 }

theorem bswap_bswap (info : StlInformInfo) : info.bswap.bswap = info := by
  unfold StlInformInfo.bswap
  simp only [bswapIbGid_bswapIbGid, ntoh32_ntoh32, ntoh16_ntoh16]

variable {cversion : Nat}

theorem requestInfo_of_sentBack (h : (issued cversion i info).SentBack env maip) :
    requestInfo maip = backInfo cversion info := by
  have hdata := h.data
  unfold requestInfo backInfo
  rw [h.cversion]
  unfold issued at hdata ⊢
  by_cases hclass : cversion = stlSaClassVersion
  · simp only [if_pos hclass] at hdata ⊢
    calc
      maip.stlData.bswap = { info.bswap.bswap with subscribe := 0 } := congrArg _ hdata
      _ = { info with subscribe := 0 } := by rw [bswap_bswap]
  · simp only [if_neg hclass] at hdata ⊢
    exact congrArg _ hdata

theorem unsubscribedAs_of_sentBack (s : Subscribers)
    (hclass : cversion = stlSaClassVersion ∨ cversion = ibSubnAdmClassVersion)
    (h : (issued cversion i info).SentBack env maip) :
    ∃ p, UnsubscribedAs env s maip p ∧
      (UnsubscribedAs.key maip p).ident = i.fill (backInfo cversion info) := by
  have hinfo := requestInfo_of_sentBack h
  obtain ⟨p, hport, hgid⟩ := h.port
  have hport' : env.findActivePortLid (maip.addrInfo.slid.setWidth 32) = some p := by
    rw [h.slid]
    exact hport
  have hzero : (requestInfo maip).subscribe = 0 := by
    rw [hinfo]
    unfold backInfo
    split <;> rfl
  have hone : (requestInfo maip).subscribe ≠ 1 := by
    rw [hzero]
    decide
  have hsub : ¬Subscribes env maip := fun hno => hone hno.1
  have hok : (handleInform env s maip (requestInfo maip)).result = .ok := by
    unfold handleInform saInformInfoUnsubscribe
    rw [if_neg hone, if_pos hzero]
    simp [hport', h.subsLock]
  have hclass' : maip.cversion = stlSaClassVersion ∨ maip.cversion = ibSubnAdmClassVersion := by
    rw [h.cversion]
    exact hclass
  refine ⟨p, ⟨⟨h.method, hclass', hok⟩, hsub, hport'⟩, ?_⟩
  unfold UnsubscribedAs.key SubscriberKey.ident subscriberKey SubscriberIdent.fill
  rw [hinfo, hgid, h.slid, h.pkey, h.qkey]
  rfl

theorem exists_sentBack (cversion : Nat) (i : SubscriberIdent) (info : StlInformInfo) :
    ∃ env maip, (issued cversion i info).SentBack env maip := by
  let maip : InformMai := {
    method := saCmSet
    cversion := cversion
    addrInfo := ⟨i.lid, 0, i.pkey, i.qkey⟩
    smKey := 0
    stlData := { info.bswap with subscribe := 0 }
    ibData := { info.toIb with subscribe := 0 } }
  refine ⟨{ openEnv with findActivePortLid := fun _ => some ⟨0, i.subscriberGid⟩ }, maip, rfl, rfl,
    ?_, rfl, rfl, rfl, ⟨_, rfl, rfl⟩, rfl⟩
  unfold issued
  dsimp only
  split <;> rfl

theorem fill_eq_iff {info' : StlInformInfo} :
    i.fill info = i.fill info' ↔
      info.trapNumber = info'.trapNumber ∧
        info.qpNumber.setWidth 32 = info'.qpNumber.setWidth 32 ∧
          info.producerType.setWidth 8 = info'.producerType.setWidth 8 ∧
            (info.respTimeValue.setWidth 8 : BitVec 8) = info'.respTimeValue.setWidth 8 := by
  unfold SubscriberIdent.fill
  rw [SubscriberIdent.mk.injEq]
  exact ⟨fun h => ⟨h.2.2.1, h.2.2.2.1, h.2.2.2.2.1, h.2.2.2.2.2.1⟩,
    fun h => ⟨rfl, rfl, h.1, h.2.1, h.2.2.1, h.2.2.2, rfl, rfl⟩⟩

theorem fill_backInfo_iff (hkey : i.fill info = i) :
    i.fill (backInfo cversion info) = i ↔
      (cversion ≠ stlSaClassVersion →
        info.qpNumber.toNat < 2 ^ 21 ∧ info.producerType.setWidth 8 = 0) := by
  unfold backInfo
  by_cases hclass : cversion = stlSaClassVersion
  · rw [if_pos hclass]
    exact iff_of_true hkey fun hno => absurd hclass hno
  rw [if_neg hclass]
  have htrap : info.toIb.toStl.trapNumber = info.trapNumber := ntoh16_ntoh16 _
  have hqpn : info.toIb.toStl.qpNumber = info.qpNumber &&& 0x1FFFFF :=
    (qpNumberOf_clearQpReserved _).trans (qpNumberOf_swapped _)
  have hresp : info.toIb.toStl.respTimeValue = info.respTimeValue :=
    (respTimeValueOf_clearQpReserved _).trans (respTimeValueOf_swapped _)
  have hproducer : info.toIb.toStl.producerType = info.producerType &&& 0xFFFF00 :=
    (producerTypeOf_clearProducerReserved _).trans (producerTypeOf_swapped _)
  have hqpn_iff : (info.qpNumber &&& 0x1FFFFF).setWidth 32 = info.qpNumber.setWidth 32 ↔
      info.qpNumber.toNat < 2 ^ 21 := by
    rw [← and_qpMask_iff, ← BitVec.toNat_inj, ← BitVec.toNat_inj,
      BitVec.toNat_setWidth_of_le (by decide), BitVec.toNat_setWidth_of_le (by decide)]
  have hproducer_iff : (info.producerType &&& 0xFFFF00).setWidth 8 = info.producerType.setWidth 8 ↔
      info.producerType.setWidth 8 = 0 := by
    have hmask : (0xFFFF00 : BitVec 24).setWidth 8 = 0 := by decide
    rw [BitVec.setWidth_and, hmask, eq_comm]
    simp
  calc
    i.fill { info.toIb.toStl with subscribe := 0 } = i
        ↔ i.fill { info.toIb.toStl with subscribe := 0 } = i.fill info := by rw [hkey]
    _ ↔ (info.qpNumber &&& 0x1FFFFF).setWidth 32 = info.qpNumber.setWidth 32 ∧
          (info.producerType &&& 0xFFFF00).setWidth 8 = info.producerType.setWidth 8 := by
      rw [← hqpn, ← hproducer]
      refine fill_eq_iff.trans ⟨fun h => ⟨h.2.1, h.2.2.1⟩, fun h => ⟨htrap, h.1, h.2, ?_⟩⟩
      exact congrArg (BitVec.setWidth 8) hresp
    _ ↔ info.qpNumber.toNat < 2 ^ 21 ∧ info.producerType.setWidth 8 = 0 :=
      and_congr hqpn_iff hproducer_iff
    _ ↔ _ := ⟨fun h _ => h, fun h => h hclass⟩

/-! ## Every run -/

namespace SubscriberRun

variable {S : SubscriberRun} {q : InformEnv × InformMai}

structure Inv (S : SubscriberRun) : Prop where
  map : S.subs.IsMap
  represents : ∀ i, (S.subs.entryAt i).map subscriptionOf = S.spec i
  names : ∀ r ∈ S.receipts, ∃ cversion i info, r = issued cversion i info ∧
    (cversion = stlSaClassVersion ∨ cversion = ibSubnAdmClassVersion) ∧
      i.fill (backInfo cversion info) = i

theorem Inv.correct (h : S.Inv) : S.Correct where
  nodup := h.map.nodup
  represents := h.represents
  ends r hr env maip hback := by
    obtain ⟨cversion, i, info, rfl, hclass, hname⟩ := h.names r hr
    obtain ⟨p, hended, hkey⟩ := unsubscribedAs_of_sentBack S.subs hclass hback
    have hmap := (hended.map h.map).2
    rw [hkey, hname] at hmap
    exact hmap

theorem start_inv {mem : Bool} (hinit : saSubscriberInit mem = some s) : (start s).Inv := by
  obtain ⟨t, ht, rfl⟩ := Option.map_eq_some_iff.mp hinit
  have hmap := CsHashtable.IsMap.create subscriberFns_keyed ht
  refine ⟨hmap.1, fun i => ?_, fun r hr => nomatch hr⟩
  show (t.entryAt SubscriberKey.ident i).map subscriptionOf = none
  rw [hmap.2 i]
  rfl

theorem subscriptionOf_stored {m : SubscriptionMap}
    (hrep : (s.entryAt k.ident).map subscriptionOf = m k.ident) (lid : BitVec 32)
    (info : StlInformInfo) :
    subscriptionOf (stored s k lid info) =
      ⟨(m k.ident).elim ⟨lid, s.saInformCount, info⟩ fun x =>
          { x.record with informInfoData := info },
        (m k.ident).elim k.startLid Subscription.first,
        (m k.ident).elim k.endLid Subscription.last⟩ := by
  rw [← hrep]
  unfold stored
  cases s.entryAt k.ident <;> rfl

theorem step_subscribed (h : S.Inv)
    (hevent : informEvent q.1 S.subs q.2 = .subscribed i lid info first last) :
    (S.step q).subs.IsMap ∧
      (∀ j, (S.step q).subs.entryAt j =
        if j = i then (S.step q).subs.entryAt i else S.subs.entryAt j) ∧
      ((S.step q).subs.entryAt i).map subscriptionOf =
        some ⟨(S.spec i).elim ⟨lid, S.subs.saInformCount, info⟩ fun x =>
            { x.record with informInfoData := info },
          (S.spec i).elim first Subscription.first, (S.spec i).elim last Subscription.last⟩ ∧
      (S.step q).receipts = issued q.2.cversion i info :: S.receipts ∧
      (q.2.cversion = stlSaClassVersion ∨ q.2.cversion = ibSubnAdmClassVersion) ∧
      i.fill info = i := by
  obtain ⟨p, range, hsub, hi, rfl, rfl, rfl, rfl⟩ := exists_subscribedAs hevent
  have hi' : i = (SubscribedAs.key q.2 p range).ident := hi
  have hmap := hsub.map h.map
  have hentry : (S.step q).subs.entryAt i =
      some (stored S.subs (SubscribedAs.key q.2 p range) p.lid (subscriptionInfo q.2)) := by
    have hat := hmap.2 i
    rw [if_pos hi'] at hat
    exact hat
  refine ⟨hmap.1, fun j => ?_, ?_, ?_, hsub.succeeds.2.1, ?_⟩
  · rw [hentry, hi']
    exact hmap.2 j
  · rw [hentry, Option.map_some, subscriptionOf_stored (h.represents _), ← hi']
    rfl
  · show receiptsAfter q.2 _ S.receipts (informEvent q.1 S.subs q.2) = _
    rw [hevent, hsub.reply]
    rfl
  · rw [hi]
    rfl

theorem step_spec_subscribed
    (hevent : informEvent q.1 S.subs q.2 = .subscribed i lid info first last) :
    (S.step q).spec = Function.update S.spec i
      (some ⟨(S.spec i).elim ⟨lid, S.subs.saInformCount, info⟩ fun x =>
        { x.record with informInfoData := info }, first, last⟩) := by
  unfold step
  rw [hevent]
  rfl

theorem step_inv (h : S.Inv) (hok : S.Meets q) : (S.step q).Inv := by
  cases hevent : informEvent q.1 S.subs q.2 with
  | nothing =>
    have hsame := sameMap_of_nothing h.map hevent
    have hspec : (S.step q).spec = S.spec := by
      unfold step
      rw [hevent]
      rfl
    have hreceipts : (S.step q).receipts = S.receipts := by
      unfold step
      rw [hevent]
      rfl
    refine ⟨hsame.1, fun j => ?_, ?_⟩
    · rw [hspec, ← h.represents j]
      exact congrArg (Option.map subscriptionOf) (hsame.2 j)
    · rw [hreceipts]
      exact h.names
  | unsubscribed i =>
    obtain ⟨p, hended, hi⟩ := exists_unsubscribedAs hevent
    have hmap := hended.map h.map
    have hspec : (S.step q).spec = Function.update S.spec i none := by
      unfold step
      rw [hevent]
      rfl
    have hreceipts : (S.step q).receipts = S.receipts := by
      unfold step
      rw [hevent]
      rfl
    refine ⟨hmap.1, fun j => ?_, ?_⟩
    · have hentry : (S.step q).subs.entryAt j = if j = i then none else S.subs.entryAt j := by
        rw [hi]
        exact hmap.2 j
      rw [hspec, hentry, Function.update_apply]
      split
      next => rfl
      next => exact h.represents j
    · rw [hreceipts]
      exact h.names
  | subscribed i lid info first last =>
    obtain ⟨hmap, hothers, hentry, hreceipts, hclass, hfill⟩ := step_subscribed h hevent
    obtain ⟨hrange, hname⟩ := hok i lid info first last hevent
    have hspec := step_spec_subscribed hevent
    have hfirst : (S.spec i).elim first Subscription.first = first := by
      cases hat : S.spec i with
      | none => rfl
      | some x => exact (hrange x hat).1
    have hlast : (S.spec i).elim last Subscription.last = last := by
      cases hat : S.spec i with
      | none => rfl
      | some x => exact (hrange x hat).2
    refine ⟨hmap, fun j => ?_, ?_⟩
    · rw [hspec, hothers j]
      rw [Function.update_apply]
      split
      next => rw [hentry, hfirst, hlast]
      next => exact h.represents j
    · rw [hreceipts]
      intro r hr
      obtain rfl | hr := List.mem_cons.mp hr
      · exact ⟨_, _, _, rfl, hclass, (fill_backInfo_iff hfill).mpr hname⟩
      · exact h.names r hr

theorem not_correct_step (h : S.Inv) (hno : ¬S.Meets q) : ¬(S.step q).Correct := by
  intro hcorrect
  apply hno
  intro i lid info first last hevent
  obtain ⟨-, -, hentry, hreceipts, hclass, hfill⟩ := step_subscribed h hevent
  have hat := hcorrect.represents i
  rw [step_spec_subscribed hevent, Function.update_self] at hat
  have hsame := Subscription.mk.inj (Option.some.inj (hentry.symm.trans hat))
  constructor
  · intro x hx
    rw [hx] at hsame
    exact hsame.2
  · apply (fill_backInfo_iff hfill).mp
    by_contra hother
    obtain ⟨env, maip, hback⟩ := exists_sentBack q.2.cversion i info
    have hmem : issued q.2.cversion i info ∈ (S.step q).receipts := by
      rw [hreceipts]
      exact List.mem_cons_self
    have hgone := hcorrect.ends _ hmem env maip hback i
    rw [if_pos (show i = (issued q.2.cversion i info).key from rfl)] at hgone
    obtain ⟨p, hended, hkey⟩ := unsubscribedAs_of_sentBack (S.step q).subs hclass hback
    have hkept := (hended.map (step_subscribed h hevent).1).2 i
    rw [hkey, if_neg (Ne.symm hother)] at hkept
    have hnone : (S.step q).subs.entryAt i = none := hkept.symm.trans hgone
    rw [hnone] at hentry
    nomatch hentry

/-- The table has the subscriptions throughout a run just if every subscription again is for the
range it had, and those in the format of the InfiniBand class have a key that comes back whole. -/
theorem allStates_correct_iff {mem : Bool} {s : Subscribers}
    (hinit : saSubscriberInit mem = some s) (requests : List (InformEnv × InformMai)) :
    AllStates step Correct (start s) requests ↔ AllSteps step Meets (start s) requests :=
  allStates_iff (fun _ => Inv.correct) (fun _ _ => step_inv) (fun _ _ => not_correct_step) requests
    (start s) (start_inv hinit)

def rangeRequest (first last : BitVec 32) : InformEnv × InformMai :=
  (openEnv, {
    method := saCmSet
    cversion := stlSaClassVersion
    addrInfo := hostAddr
    smKey := 0
    stlData := (rangeInfo first last).bswap
    ibData := ibHostMai.ibData })

theorem allStates_correct_iff_range :
    ∃ s, saSubscriberInit true = some s ∧
      (AllStates step Correct (start s) [rangeRequest 1 10, rangeRequest 1 10] ↔
        AllSteps step Meets (start s) [rangeRequest 1 10, rangeRequest 1 10]) := by
  obtain ⟨s, hs⟩ : ∃ s, saSubscriberInit true = some s := ⟨_, rfl⟩
  exact ⟨s, hs, allStates_correct_iff hs _⟩

def rangeKey : SubscriberIdent :=
  ⟨0xfe80000000000000#64 ++ 5#64, 5, 0xFFFF, 1, 1, 18, 0x7FFF, 0x80010000⟩

/-- The second subscription is for the LIDs from 20, and the table has those from 1. -/
theorem not_allStates_correct :
    ∃ s, saSubscriberInit true = some s ∧
      ¬AllStates step Correct (start s) [rangeRequest 1 10, rangeRequest 20 30] := by
  refine ⟨_, rfl, fun h => ?_⟩
  have hat := congrArg (Option.map Subscription.first) (h.2.2.represents rangeKey)
  exact absurd hat (by decide)

end SubscriberRun

end OpaFm.Sa
