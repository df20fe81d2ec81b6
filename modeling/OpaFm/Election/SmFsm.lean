import OpaFm.Lib.Run
import Mathlib.Logic.Function.Basic

/-!
# Redundant subnet managers

A fabric may have several SMs.  The master hands the fabric over to a better one with
Set(SMInfo) control packets, HANDOVER and ACKNOWLEDGE, which `state_event_mad` passes to
the handler of the SM's state.
-/

namespace OpaFm.Election

/-- `SM_STATE_NOTACTIVE` to `SM_STATE_MASTER`. -/
inductive SmState where
  | notactive
  | discovering
  | standby
  | master
  deriving DecidableEq, Repr

def SmState.code : SmState → Nat
  | .notactive => 0
  | .discovering => 1
  | .standby => 2
  | .master => 3

inductive SmAmod where
  | handover
  | acknowledge
  | disable
  | standby
  | discover
  | invalid
  deriving DecidableEq, Repr

/-- A Set(SMInfo), with the state that its sender reports. -/
structure SmInfoMad where
  src : Nat
  dst : Nat
  amod : SmAmod
  smStateCurrent : SmState
  deriving DecidableEq, Repr

/-- `sm_transition`: moves that are not allowed leave the state. -/
def smTransition (smState newState : SmState) : SmState :=
  match smState, newState with
  | .notactive, .discovering => .discovering
  | .notactive, .standby => .standby
  | .discovering, .standby => .standby
  | .discovering, .master => .master
  | .discovering, .notactive => .notactive
  | .standby, .master => .master
  | .standby, .discovering => .discovering
  | .standby, .notactive => .notactive
  | .master, .standby => .standby
  | .master, .notactive => .notactive
  | s, _ => s

/-! ## Handlers

Each gives the new state, and the ACKNOWLEDGE that answers a HANDOVER.  With an ACKNOWLEDGE the
handler is not at its end: it waits for the response, and then makes the transition to MASTER. -/

def handoverAck (mad : SmInfoMad) (smState : SmState) : SmInfoMad where
  src := mad.dst
  dst := mad.src
  amod := .acknowledge
  smStateCurrent := smState

def smFsmStandby (mad : SmInfoMad) : SmState × Option SmInfoMad :=
  match mad.amod with
  | .discover => (smTransition .standby .discovering, none)
  | .disable => (smTransition .standby .notactive, none)
  | .handover => (.standby, some (handoverAck mad .standby))
  | .acknowledge | .standby | .invalid => (.standby, none)

def smFsmNotactive (mad : SmInfoMad) : SmState × Option SmInfoMad :=
  match mad.amod with
  | .standby => (smTransition .notactive .standby, none)
  | .disable => (smTransition .notactive .notactive, none)
  | .handover | .acknowledge | .discover | .invalid => (.notactive, none)

def smFsmMaster (mad : SmInfoMad) : SmState × Option SmInfoMad :=
  match mad.amod with
  | .handover => (.master, some (handoverAck mad .master))
  | .acknowledge =>
    if mad.smStateCurrent.code < SmState.standby.code then (.master, none)
    else (smTransition .master .standby, none)
  | .disable | .standby | .discover | .invalid => (.master, none)

def smFsmDiscovering (_mad : SmInfoMad) : SmState × Option SmInfoMad := (.discovering, none)

/-- The part of `state_event_mad` for a Set(SMInfo) with the right M_Key. -/
def stateEventMad (smState : SmState) (mad : SmInfoMad) : SmState × Option SmInfoMad :=
  if mad.amod ≠ .acknowledge ∧ mad.smStateCurrent ≠ .master then (smState, none)
  else
    match smState with
    | .standby => smFsmStandby mad
    | .notactive => smFsmNotactive mad
    | .master => smFsmMaster mad
    | .discovering => smFsmDiscovering mad

/-! ## The end of a sweep -/

/-- An entry of `smRecords`, with `sm_dbsync_isUpToDate` for it. -/
structure SmRecord where
  portGuid : Nat
  smStateCurrent : SmState
  priority : Nat
  smKey : Nat
  upToDate : Bool

def SmRecord.outranks (r r' : SmRecord) : Bool :=
  r.priority > r'.priority ∨ r.priority = r'.priority ∧ r.portGuid < r'.portGuid

/-- The loop over the records, with `topSm`. -/
def findTopSm (self : SmRecord) : List SmRecord → Option SmRecord → Option SmRecord
  | [], topSm => topSm
  | r :: rest, topSm =>
    if r.portGuid = self.portGuid ∨ r.smStateCurrent = .notactive ∨ r.smKey ≠ self.smKey then
      findTopSm self rest topSm
    else
      match topSm with
      | none => findTopSm self rest (some r)
      | some t => findTopSm self rest (some (if r.outranks t then r else t))

/-- `topology_transition`: the new state, and the SM that a HANDOVER goes to. -/
def topologyTransition (self : SmRecord) (records : List SmRecord) : SmState × Option Nat :=
  match if records.length > 1 then findTopSm self records none else none with
  | none => (smTransition self.smStateCurrent .master, none)
  | some topSm =>
    match self.smStateCurrent, topSm.smStateCurrent with
    | .discovering, .master => (smTransition .discovering .standby, none)
    | .discovering, .standby | .discovering, .discovering =>
      if self.outranks topSm then (smTransition .discovering .master, none)
      else (smTransition .discovering .standby, none)
    | .master, .master | .master, .standby =>
      if topSm.outranks self ∧ topSm.upToDate then (.master, some topSm.portGuid)
      else (.master, none)
    | smState, _ => (smState, none)

/-! ## The fabric -/

/-- The SMs by port GUID and all control packets sent so far.  `outstanding a b` says
that `a` has sent a HANDOVER to `b` and got no ACKNOWLEDGE from it since, `waiting b` that the
handler of `b` has sent an ACKNOWLEDGE and waits for the response. -/
structure SmWorld where
  state : Nat → SmState
  sent : List SmInfoMad
  outstanding : Nat → Nat → Bool
  waiting : Nat → Bool

inductive SmEvent where
  /-- A packet arrives: any that was sent, at any later time and any number of times. -/
  | deliver (mad : SmInfoMad)
  /-- The response to an ACKNOWLEDGE arrives, or the last retry for it ends. -/
  | takeOver (portGuid : Nat)
  /-- An SM ends a sweep. -/
  | sweep (portGuid priority smKey : Nat) (records : List SmRecord)
  /-- A transition from a timer or another thread. -/
  | transition (portGuid : Nat) (newState : SmState)
  /-- Another control packet is sent. -/
  | control (mad : SmInfoMad)

namespace SmWorld

def init (state : Nat → SmState) : SmWorld where
  state := state
  sent := []
  outstanding := fun _ _ => false
  waiting := fun _ => false

def deliver (w : SmWorld) (mad : SmInfoMad) : SmWorld :=
  let (smState, ack) := stateEventMad (w.state mad.dst) mad
  { state := Function.update w.state mad.dst smState
    sent := ack.toList ++ w.sent
    outstanding := fun a b =>
      if mad.amod = .acknowledge ∧ a = mad.dst ∧ b = mad.src then false else w.outstanding a b
    waiting := if ack.isSome then Function.update w.waiting mad.dst true else w.waiting }

def takeOver (w : SmWorld) (portGuid : Nat) : SmWorld :=
  { w with
    state := Function.update w.state portGuid (smTransition (w.state portGuid) .master)
    waiting := Function.update w.waiting portGuid false }

def sweep (w : SmWorld) (portGuid priority smKey : Nat) (records : List SmRecord) : SmWorld :=
  let self : SmRecord := ⟨portGuid, w.state portGuid, priority, smKey, true⟩
  let (smState, handover) := topologyTransition self records
  let mad (dst : Nat) : SmInfoMad := ⟨portGuid, dst, .handover, w.state portGuid⟩
  { state := Function.update w.state portGuid smState
    sent := (handover.map mad).toList ++ w.sent
    outstanding := fun a b =>
      if a = portGuid ∧ handover = some b then true else w.outstanding a b
    waiting := w.waiting }

def Enabled (w : SmWorld) : SmEvent → Prop
  | .deliver mad => mad ∈ w.sent ∧ w.waiting mad.dst = false
  | .takeOver portGuid => w.waiting portGuid = true
  | .sweep _ _ _ _ => True
  | .transition _ _ => True
  | .control mad => mad.amod ≠ .handover ∧ mad.amod ≠ .acknowledge

def step (w : SmWorld) : SmEvent → Except Empty (SmWorld × Unit)
  | .deliver mad => .ok (w.deliver mad, ())
  | .takeOver portGuid => .ok (w.takeOver portGuid, ())
  | .sweep portGuid priority smKey records => .ok (w.sweep portGuid priority smKey records, ())
  | .transition portGuid newState =>
    .ok ({ w with
      state := Function.update w.state portGuid (smTransition (w.state portGuid) newState) }, ())
  | .control mad => .ok ({ w with sent := mad :: w.sent }, ())

end SmWorld

end OpaFm.Election
