/- Module: Ccmux/Runtime/Boundaries
   source: src/runtime/events.ts, src/config/events.ts, src/agent/codex/owned/connection.ts,
     src/agent/codex/owned/projection.ts, src/agent/opencode/connection.ts, src/events/feed.ts
   digest: The turn boundaries of a native projection as the event feed gets them, over restarts of
     the connection that publishes them. -/

import Ccmux.Agent.Codex.Projection
import Ccmux.Lib.Machine
import Ccmux.Lib.Window

namespace Ccmux.Runtime.Boundaries

open Ccmux.Agent.Codex.Owned (EventKind TurnStatus keepLast maxEvents)
open Ccmux.Lib.Machine Ccmux.Lib.Window

structure BoundaryTurn where
  startedAt : Option Int
  status : TurnStatus
  deriving DecidableEq, Repr

structure Boundary where
  sequence : Nat
  kind : EventKind
  at_ : Int
  turn : Option BoundaryTurn
  deriving DecidableEq, Repr

structure EmitInput where
  event : EventKind
  durationMs : Option Int
  interrupted : Bool
  detail : Option String
  deriving DecidableEq, Repr

def eventsEnabledFor (eventsEnabled : Option Bool) (sessionEvents : Bool) : Bool :=
  eventsEnabled.getD sessionEvents

def isTurn : EventKind → Bool
  | .turnStart | .turnEnd => true
  | .state | .unavailable => false

def emitInput (e : Boundary) : EmitInput :=
  let status := e.turn.map (·.status)
  let cut := e.kind = .turnEnd ∧ status ≠ some .completed
  { event := e.kind
    durationMs :=
      if e.kind = .turnEnd then
        (e.turn.bind (·.startedAt)).map fun started => max 0 (e.at_ - started)
      else none
    interrupted := cut
    detail := if cut then some ("native turn " ++ (status.map (·.text)).getD "unknown") else none }

/-- The loop of `emitRuntimeBoundaries`: the new mark, and what it appends. An append that fails is
swallowed; `appended` says of an entry that its line is written. -/
@[grind =]
def emitLoop (enabled : Bool) (appended : Nat → Bool) (after : Nat) :
    List Boundary → Nat → Nat × List Boundary
  | [], mark => (mark, [])
  | e :: rest, mark =>
    if e.sequence ≤ after then emitLoop enabled appended after rest mark
    else
      let (final, later) := emitLoop enabled appended after rest (max mark e.sequence)
      if !enabled || !isTurn e.kind then (final, later)
      else (final, if appended e.sequence then e :: later else later)

def emitRuntimeBoundaries (enabled : Bool) (appended : Nat → Bool) (events : List Boundary)
    (after : Nat) : Nat × List Boundary :=
  emitLoop enabled appended after events after

/-- A line of the feed, with the connection and the entry it comes from. -/
structure Row where
  generation : Nat
  sequence : Nat
  line : EmitInput
  deriving DecidableEq, Repr

def rowOf (generation : Nat) (e : Boundary) : Row := ⟨generation, e.sequence, emitInput e⟩

/-- A connection and its projection's ring. `mark` is `emittedBoundary`, and `active` is whether
its events are activated. -/
structure Publisher where
  generation : Nat
  eventsEnabled : Option Bool
  sequence : Nat := 0
  events : List Boundary := []
  mark : Nat := 0
  active : Bool := false
  deriving DecidableEq, Repr

/-- The publisher and the feed, beside what is kept for the statement: the turn boundaries
`recorded` so far; those `due`, recorded since the last publish or activation; those `owed` by a
publish that appended with the session's events on; those `passed` over by an activation, a publish
with the events off or a failed append; and how many entries were recorded since the last mark. -/
structure World where
  publisher : Publisher
  feed : List Row := []
  recorded : List Row := []
  due : List Row := []
  owed : List Row := []
  passed : List Row := []
  unread : Nat := 0
  deriving DecidableEq, Repr

inductive Act where
  | record (kind : EventKind) (at_ : Int) (turn : Option BoundaryTurn)
  | activate
  | publish (appended : Nat → Bool)
  | restart (eventsEnabled : Option Bool)

/-- `append` of the projection. -/
def Publisher.record (p : Publisher) (kind : EventKind) (at_ : Int) (turn : Option BoundaryTurn) :
    Publisher × Boundary :=
  let e := { sequence := p.sequence + 1, kind, at_, turn }
  ({ p with sequence := p.sequence + 1, events := keepLast maxEvents (p.events ++ [e]) }, e)

/-- `activateEvents`: what has already happened is not announced. -/
def Publisher.activate (p : Publisher) : Publisher :=
  { p with mark := (p.events.getLast?.map (·.sequence)).getD 0, active := true }

variable (sessionEvents : Bool)

def Publisher.publish (p : Publisher) (appended : Nat → Bool) : Publisher × List Row :=
  let out := emitRuntimeBoundaries (eventsEnabledFor p.eventsEnabled sessionEvents) appended
    p.events p.mark
  ({ p with mark := out.1 }, out.2.map (rowOf p.generation))

def step (w : World) : Act → Option World
  | .record kind at_ turn =>
    let (publisher, e) := w.publisher.record kind at_ turn
    let rows := if isTurn kind then [rowOf w.publisher.generation e] else []
    some
      { w with
        publisher
        recorded := w.recorded ++ rows
        due := w.due ++ rows
        unread := w.unread + 1 }
  | .activate =>
    some
      { w with
        publisher := w.publisher.activate
        passed := w.passed ++ w.due
        due := []
        unread := 0 }
  | .publish appended =>
    if w.publisher.active then
      let (publisher, rows) := w.publisher.publish sessionEvents appended
      let enabled := eventsEnabledFor w.publisher.eventsEnabled sessionEvents
      some
        { w with
          publisher
          feed := w.feed ++ rows
          owed := w.owed ++ w.due.filter fun row => enabled && appended row.sequence
          passed := w.passed ++ w.due.filter fun row => !(enabled && appended row.sequence)
          due := []
          unread := 0 }
    else some w
  | .restart eventsEnabled =>
    some
      { w with
        publisher := { generation := w.publisher.generation + 1, eventsEnabled }
        due := []
        unread := 0 }

/-- At most as many entries as the ring holds are recorded between two publishes. -/
def fits (w : World) : Act → Bool
  | .publish _ => decide (w.unread ≤ maxEvents)
  | _ => true

end Ccmux.Runtime.Boundaries
