import RustyCore.Lib.Machine
import RustyCore.Store.Replay

/-! How committed events reach a subscriber. The runner of each agent commits an event, which gives it its number,
    and then publishes it to its own channel; the session's event bus polls the channels one after the other and
    forwards what it finds; a subscriber first gets the stored events it missed, and then what the bus forwards,
    filtered by number. All of these interleave. -/

namespace RustyCore

structure SessionEvent where
  index : Nat
  agentId : AgentId
  sequence : Nat
  event : AgentEvent

/-- One agent's way to the bus: the event its runner has committed and not yet published, and what the bus has not
    yet read of its channel. -/
structure AgentStream where
  held : Option SessionEvent := none
  channel : List SessionEvent := []

structure Subscriber where
  since : Option Nat
  joined : Nat
  replayed : Bool := false
  queue : List SessionEvent := []
  lastSent : Nat := 0
  delivered : List SessionEvent := []

structure Delivery where
  next : Nat
  log : List SessionEvent := []
  registered : List AgentId := []
  streams : AgentId → AgentStream := fun _ => {}
  cursor : Nat := 0
  subscriber : Option Subscriber := none

namespace Delivery

inductive Input where
  | register (agentId : AgentId)
  | commit (agentId : AgentId) (event : AgentEvent)
  | publish (agentId : AgentId)
  | poll
  | subscribe (since : Option Nat)
  | replay
  | forward

def setStream (d : Delivery) (agentId : AgentId) (stream : AgentStream) : Delivery :=
  { d with streams := fun k => if k = agentId then stream else d.streams k }

def commit (d : Delivery) (agentId : AgentId) (event : AgentEvent) : Delivery :=
  if agentId ∈ d.registered ∧ (d.streams agentId).held.isNone then
    let committed : SessionEvent := ⟨d.log.length, agentId, d.next, event⟩
    { d.setStream agentId { d.streams agentId with held := some committed } with
      next := saturatingAdd d.next 1
      log := d.log ++ [committed] }
  else d

def push (capacity : Nat) (channel : List SessionEvent) (event : SessionEvent) : List SessionEvent :=
  if channel.length ≥ capacity then channel.tail ++ [event] else channel ++ [event]

def publish (capacity : Nat) (d : Delivery) (agentId : AgentId) : Delivery :=
  match (d.streams agentId).held with
  | none => d
  | some event => d.setStream agentId ⟨none, push capacity (d.streams agentId).channel event⟩

def forwarded (d : Delivery) (event : SessionEvent) : Option Subscriber :=
  d.subscriber.map fun sub => { sub with queue := sub.queue ++ [event] }

/-- One `try_recv` of the poll: an event is forwarded, and an empty channel lets the poll go on to the next. -/
def poll (d : Delivery) : Delivery :=
  match d.registered[d.cursor]? with
  | none => { d with cursor := 0 }
  | some agentId =>
    match (d.streams agentId).channel with
    | [] => { d with cursor := d.cursor + 1 }
    | event :: rest =>
      { d.setStream agentId { d.streams agentId with channel := rest } with subscriber := d.forwarded event }

def eventsSince (d : Delivery) (since : Nat) : List SessionEvent :=
  d.log.filter fun e => isDurable e.event && decide (since < e.sequence)

def subscribe (d : Delivery) (since : Option Nat) : Delivery :=
  match d.subscriber with
  | some _ => d
  | none => { d with subscriber := some { since := since, joined := d.log.length } }

def backlog (d : Delivery) (sub : Subscriber) : List SessionEvent :=
  match sub.since with
  | some since => d.eventsSince since
  | none => []

def replayBacklog (d : Delivery) (sub : Subscriber) : Subscriber :=
  { sub with
    replayed := true
    lastSent := ((d.backlog sub).map (·.sequence)).foldl max (sub.since.getD 0)
    delivered := sub.delivered ++ d.backlog sub }

def freshSequence (sub : Subscriber) (event : SessionEvent) : Bool := decide (sub.lastSent < event.sequence)

def forwardLive (sub : Subscriber) : Subscriber :=
  match sub.queue with
  | [] => sub
  | event :: rest =>
    if freshSequence sub event then
      { sub with queue := rest, lastSent := event.sequence, delivered := sub.delivered ++ [event] }
    else { sub with queue := rest }

variable (capacity : Nat)

def step (d : Delivery) : Input → Delivery
  | .register agentId => if agentId ∈ d.registered then d else { d with registered := d.registered ++ [agentId] }
  | .commit agentId event => d.commit agentId event
  | .publish agentId => d.publish capacity agentId
  | .poll => d.poll
  | .subscribe since => d.subscribe since
  | .replay => { d with subscriber := d.subscriber.map fun sub => if sub.replayed then sub else d.replayBacklog sub }
  | .forward => { d with subscriber := d.subscriber.map fun sub => if sub.replayed then forwardLive sub else sub }

def machine : Machine Delivery Input Unit := ⟨fun d i => (step capacity d i, [])⟩

end Delivery

end RustyCore
