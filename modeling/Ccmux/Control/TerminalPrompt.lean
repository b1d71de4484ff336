/- Module: Ccmux/Control/TerminalPrompt
   source: src/control/terminalPrompt.ts, src/control/target.ts
   digest: Reading the menu a session's pane shows and answering it, await by await, with every call
     that was made of one `TerminalPrompts`. -/

import Ccmux.Agent.Claude.MenuStep
import Ccmux.Control.Create

namespace Ccmux.Control.TerminalPrompt

open Ccmux.Lib.Text
open Ccmux.Agent.Claude.MenuStep (Key navigationKey expectedSelection menuFingerprint)
open Ccmux.Agent.Claude.Prompts (TerminalMenu liveFrame terminalMenu)
open Ccmux.Chat.Identity (ManagedPeer)
open Ccmux.Control.Create (AppError controlTarget targetUnavailable)
open Ccmux.Registry (Session)

def unsupported : AppError :=
  ⟨"UNSUPPORTED", "Terminal menus require an interactive Claude session", 409⟩

def paneUnavailable : AppError := ⟨"UNAVAILABLE", "The recorded agent pane is unavailable", 409⟩

def operationFailed : AppError := ⟨"UNAVAILABLE", "The terminal operation failed", 409⟩

def changedDuringObservation : AppError :=
  ⟨"STALE_PROMPT", "The terminal changed during observation", 409⟩

def stale : AppError := ⟨"STALE_PROMPT", "Read the current terminal menu before responding", 409⟩

def capacityReached : AppError := ⟨"CAPACITY", "Terminal observation capacity reached", 429⟩

def invalidOption : AppError := ⟨"INVALID_OPTION", "The menu does not offer that option", 400⟩

def notAdvanced : AppError := ⟨"PROMPT_UNCONFIRMED", "Terminal selection did not advance", 409⟩

def budgetExhausted : AppError :=
  ⟨"PROMPT_UNCONFIRMED", "Terminal navigation budget exhausted", 409⟩

/-- What a call is rejected with: an error of its own, the caller's abort, the refused registry
lock, or what starting a process threw. -/
inductive Failure where
  | app (error : AppError)
  | aborted
  | lockRefused
  | thrown
  deriving DecidableEq, Repr

structure Observation where
  id : String
  pane : String
  generation : Chars
  fingerprint : String
  expires : Nat
  consumed : Bool
  deriving DecidableEq, Repr

structure RespondInput where
  target : ManagedPeer
  observationId : String
  optionId : String
  deriving DecidableEq, Repr

inductive Outcome where
  | observed (target : ManagedPeer) (menu : Option TerminalMenu) (observationId : Option String)
      (expiresAt : Option Nat)
  | submitted (input : RespondInput)
  | failed (failure : Failure)
  deriving DecidableEq, Repr

/-- What a call awaits. `press` opens the gate, sends the key and closes the gate in one command. -/
inductive Command where
  | liveness
  | generation (pane : String)
  | capture (pane : String)
  | closeGate (pane : String)
  | press (pane : String) (key : Key)
  | sleep
  | openGate (pane : String)
  deriving DecidableEq, Repr

inductive Answer where
  | panes (agentPanes : List (String × String)) (live : List String)
  | out (stdout : Chars)
  | failed
  | thrown
  | slept
  deriving DecidableEq, Repr

/-- What a command of the terminal returns or throws. -/
def Answer.stdout : Answer → Option (Except Failure Chars)
  | .out text => some (.ok text)
  | .failed => some (.error (.app operationFailed))
  | .thrown => some (.error .thrown)
  | _ => none

/-- What the code reads between two awaits; `later` is a second reading of the clock. -/
structure Moment where
  now : Nat
  later : Nat
  aborted : Bool
  sessions : List Session

def menuOf (text : Chars) : Option TerminalMenu := (liveFrame text).bind terminalMenu

section
variable (digest : Chars → String) (rcPrefix : String)

/-- The first half of `pane`: the exact session, which must show a terminal. -/
def interactive (sessions : List Session) (target : ManagedPeer) : Except AppError Session :=
  match controlTarget rcPrefix sessions target with
  | none => .error targetUnavailable
  | some session =>
    if session.agent ≠ .claude ∨ (session.runtime ≠ none ∧ session.runtime ≠ some .tui) then
      .error unsupported
    else .ok session

/-- The second half of `pane`. -/
def recordedPane (name : String) (agentPanes : List (String × String)) (live : List String) :
    Option String :=
  match agentPanes.find? fun entry => entry.1 == name with
  | some (_, pane) => if name ∈ live then some pane else none
  | none => none

/-! ### The observations -/

/-- `observations` maps a thread to one of the objects that were made; a call holds on to an object
also after the map has dropped it. -/
structure TerminalPrompts where
  observations : List (String × Nat)
  objects : List Observation

def TerminalPrompts.get (t : TerminalPrompts) (thread : String) : Option (Nat × Observation) :=
  (t.observations.find? fun entry => entry.1 == thread).bind fun entry =>
    (t.objects[entry.2]?).map fun observation => (entry.2, observation)

def TerminalPrompts.delete (t : TerminalPrompts) (thread : String) : TerminalPrompts :=
  { t with observations := t.observations.filter fun entry => entry.1 != thread }

/-- Observations that expired unused are forgotten. -/
def TerminalPrompts.expire (t : TerminalPrompts) (now : Nat) : TerminalPrompts :=
  { t with
    observations := t.observations.filter fun entry =>
      (t.objects[entry.2]?).all fun value => value.consumed || decide (now < value.expires) }

def TerminalPrompts.add (t : TerminalPrompts) (thread : String) (observation : Observation) :
    TerminalPrompts :=
  ⟨t.observations ++ [(thread, t.objects.length)], t.objects ++ [observation]⟩

/-- `observation.consumed = true`. -/
def TerminalPrompts.consume (t : TerminalPrompts) (i : Nat) : TerminalPrompts :=
  { t with objects := t.objects.modify i fun observation => { observation with consumed := true } }

/-- The end of `read`, where nothing is awaited: `uuid n` is the id of the object made after `n`
others. -/
def observe (uuid : Nat → String) (t : TerminalPrompts) (target : ManagedPeer) (pane : String)
    (generation text : Chars) (now : Nat) : TerminalPrompts × Outcome :=
  let menu := menuOf text
  let kept := t.expire now
  let seen := menuFingerprint digest text
  let fresh : TerminalPrompts × Outcome :=
    let rest := kept.delete target.threadId
    if (menu.map fun shown => shown.options).getD [] = [] then
      (rest, .observed target menu none none)
    else if 256 ≤ rest.observations.length then (rest, .failed (.app capacityReached))
    else
      let id := uuid rest.objects.length
      (rest.add target.threadId ⟨id, pane, generation, seen, now + 30000, false⟩,
        .observed target menu (some id) (some (now + 30000)))
  match kept.get target.threadId with
  | none => fresh
  | some (_, previous) =>
    if previous.pane = pane ∧ previous.generation = generation ∧ previous.fingerprint = seen then
      (kept, .observed target menu (if previous.consumed then none else some previous.id)
        (if previous.consumed then none else some previous.expires))
    else fresh

/-! ### One answer -/

/-- Where `respond` stands while it holds the registry lock; past `closing` it holds the pane's
input as well, and `opening` is the `finally` with what the call ends with. -/
inductive Point where
  | pane (name : String)
  | generation (pane : String)
  | closing (pane : String)
  | lifetime (pane : String) (step : Nat)
  | capturing (pane : String) (step : Nat)
  | pressing (pane : String) (step selected : Nat) (key : Key)
  | sleeping (pane : String) (step selected : Nat) (key : Key) (deadline : Nat)
  | looking (pane : String) (step selected : Nat) (key : Key) (deadline : Nat)
  | opening (pane : String) (outcome : Outcome)
  deriving DecidableEq, Repr

def Point.command : Point → Command
  | .pane _ => .liveness
  | .generation target => .generation target
  | .closing target => .closeGate target
  | .lifetime target _ => .generation target
  | .capturing target _ => .capture target
  | .pressing target _ _ key => .press target key
  | .sleeping _ _ _ _ _ => .sleep
  | .looking target _ _ _ _ => .capture target
  | .opening target _ => .openGate target

/-- The top of the loop, before anything is awaited. -/
def loopTop (input : RespondInput) (pane : String) (step : Nat) (m : Moment) : Point :=
  if 20 ≤ step then .opening pane (.failed (.app budgetExhausted))
  else if m.aborted then .opening pane (.failed .aborted)
  else
    match controlTarget rcPrefix m.sessions input.target with
    | none => .opening pane (.failed (.app targetUnavailable))
    | some _ => .lifetime pane step

/-- The captured screen decides the one key to press. -/
def inspect (o : Observation) (input : RespondInput) (pane : String) (step : Nat) (text : Chars) :
    Point :=
  match menuOf text with
  | none => .opening pane (.failed (.app stale))
  | some menu =>
    match menu.selected with
    | none => .opening pane (.failed (.app stale))
    | some selected =>
      if menuFingerprint digest text ≠ o.fingerprint then .opening pane (.failed (.app stale))
      else
        match menu.options.findIdx? fun option => toString option.id == input.optionId with
        | none => .opening pane (.failed (.app invalidOption))
        | some desired => .pressing pane step selected (navigationKey selected desired)

/-- The head of the loop that waits for the key to render. -/
def waitMove (pane : String) (step selected : Nat) (key : Key) (deadline now : Nat) (m : Moment) :
    Point :=
  if deadline ≤ now then .opening pane (.failed (.app notAdvanced))
  else if m.aborted then .opening pane (.failed .aborted)
  else .sleeping pane step selected key deadline

/-- What the next screen says of the key that was pressed. -/
def look (o : Observation) (input : RespondInput) (pane : String) (step selected : Nat) (key : Key)
    (deadline : Nat) (text : Chars) (m : Moment) : Point :=
  match menuOf text with
  | none => .opening pane (.failed (.app stale))
  | some next =>
    if menuFingerprint digest text ≠ o.fingerprint then .opening pane (.failed (.app stale))
    else if next.selected = some (expectedSelection selected key) then
      loopTop rcPrefix input pane (step + 1) m
    else if next.selected ≠ some selected then .opening pane (.failed (.app stale))
    else waitMove pane step selected key deadline m.now m

inductive Next where
  | wait (point : Point)
  | done (outcome : Outcome)
  deriving DecidableEq, Repr

/-- `respond` from one await to the next; it gets an answer of the kind it awaits. -/
@[grind =]
def resume (o : Observation) (input : RespondInput) (point : Point) (answer : Answer) (m : Moment) :
    Option Next :=
  match point with
  | .pane name =>
    match answer with
    | .panes agentPanes live =>
      match recordedPane name agentPanes live with
      | none => some (.done (.failed (.app paneUnavailable)))
      | some pane =>
        if pane ≠ o.pane then some (.done (.failed (.app stale)))
        else some (.wait (.generation pane))
    | .thrown => some (.done (.failed .thrown))
    | _ => none
  | .generation pane =>
    answer.stdout.map fun
      | .error failure => .done (.failed failure)
      | .ok generation =>
        if generation ≠ o.generation then .done (.failed (.app stale)) else .wait (.closing pane)
  | .closing pane =>
    answer.stdout.map fun
      | .error failure => .done (.failed failure)
      | .ok _ => .wait (loopTop rcPrefix input pane 0 m)
  | .lifetime pane step =>
    answer.stdout.map fun
      | .error failure => .wait (.opening pane (.failed failure))
      | .ok generation =>
        if generation ≠ o.generation then .wait (.opening pane (.failed (.app stale)))
        else .wait (.capturing pane step)
  | .capturing pane step =>
    answer.stdout.map fun
      | .error failure => .wait (.opening pane (.failed failure))
      | .ok text => .wait (inspect digest o input pane step text)
  | .pressing pane step selected key =>
    answer.stdout.map fun
      | .error failure => .wait (.opening pane (.failed failure))
      | .ok _ =>
        if key = .enter then .wait (.opening pane (.submitted input))
        else .wait (waitMove pane step selected key (m.now + 1000) m.later m)
  | .sleeping pane step selected key deadline =>
    match answer with
    | .slept => some (.wait (.looking pane step selected key deadline))
    | _ => none
  | .looking pane step selected key deadline =>
    answer.stdout.map fun
      | .error failure => .wait (.opening pane (.failed failure))
      | .ok text => .wait (look digest rcPrefix o input pane step selected key deadline text m)
  | .opening _ outcome =>
    answer.stdout.map fun
      | .error failure => .done (.failed failure)
      | .ok _ => .done outcome

/-! ### All calls -/

inductive Request where
  | read (target : ManagedPeer)
  | respond (input : RespondInput)
  deriving DecidableEq, Repr

inductive Stage where
  | readPane (name : String)
  | readGeneration (pane : String)
  | readCapture (pane : String) (generation : Chars)
  | readGenerationAgain (pane : String) (generation text : Chars)
  | locking
  | holding (i : Nat) (point : Point)
  | finished
  deriving DecidableEq, Repr

def Stage.command : Stage → Option Command
  | .readPane _ => some .liveness
  | .readGeneration pane => some (.generation pane)
  | .readCapture pane _ => some (.capture pane)
  | .readGenerationAgain pane _ _ => some (.generation pane)
  | .holding _ point => some point.command
  | _ => none

structure Call where
  request : Request
  stage : Stage
  deriving DecidableEq, Repr

inductive Heard where
  | started
  | lock
  | answered (command : Command) (answer : Answer)
  deriving DecidableEq, Repr

inductive Did where
  | issued (command : Command)
  | queued
  | finished (outcome : Outcome)
  deriving DecidableEq, Repr

structure Turn where
  call : Nat
  heard : Heard
  did : Did
  deriving DecidableEq, Repr

structure World where
  prompts : TerminalPrompts
  holder : Option Nat
  calls : List Call
  history : List Turn

def World.start : World := ⟨⟨[], []⟩, none, [], []⟩

inductive Event where
  | read (target : ManagedPeer) (m : Moment)
  | respond (input : RespondInput)
  | acquire (k : Nat) (m : Moment)
  | refuse (k : Nat)
  | answer (k : Nat) (answer : Answer) (m : Moment)

def World.setStage (w : World) (k : Nat) (stage : Stage) : World :=
  { w with calls := w.calls.modify k fun call => { call with stage := stage } }

def World.note (w : World) (k : Nat) (heard : Heard) (did : Did) : World :=
  { w with history := w.history ++ [⟨k, heard, did⟩] }

def World.begin (w : World) (request : Request) (stage : Stage) (did : Did) : World :=
  { w with
    calls := w.calls ++ [⟨request, stage⟩]
    history := w.history ++ [⟨w.calls.length, .started, did⟩] }

/-- `read` up to its last await. -/
def readNext (stage : Stage) (answer : Answer) : Option (Except Failure Stage) :=
  match stage with
  | .readPane name =>
    match answer with
    | .panes agentPanes live =>
      match recordedPane name agentPanes live with
      | none => some (.error (.app paneUnavailable))
      | some pane => some (.ok (.readGeneration pane))
    | .thrown => some (.error .thrown)
    | _ => none
  | .readGeneration pane =>
    answer.stdout.map fun
      | .error failure => .error failure
      | .ok generation => .ok (.readCapture pane generation)
  | .readCapture pane generation =>
    answer.stdout.map fun
      | .error failure => .error failure
      | .ok text => .ok (.readGenerationAgain pane generation text)
  | _ => none

def World.finish (w : World) (k : Nat) (heard : Heard) (outcome : Outcome) : World :=
  (w.setStage k .finished).note k heard (.finished outcome)

/-- `respond` under the lock, before its first await. -/
def admitted (t : TerminalPrompts) (input : RespondInput) (m : Moment) :
    Except Failure (Nat × String) :=
  match t.get input.target.threadId with
  | none => .error (.app stale)
  | some (i, observation) =>
    if observation.consumed = true ∨ observation.id ≠ input.observationId ∨
        observation.expires ≤ m.now then .error (.app stale)
    else
      match interactive rcPrefix m.sessions input.target with
      | .error error => .error (.app error)
      | .ok session => .ok (i, session.name)

/-- The holder of the lock goes on or ends; an observation is used up before its first key. -/
def World.goOn (w : World) (k i : Nat) (heard : Heard) : Next → World
  | .wait (.pressing pane n selected key) =>
    { (w.setStage k (.holding i (.pressing pane n selected key))).note k heard
        (.issued (.press pane key)) with prompts := w.prompts.consume i }
  | .wait point => (w.setStage k (.holding i point)).note k heard (.issued point.command)
  | .done outcome => { w.finish k heard outcome with holder := none }

/-- The end of `read`. -/
def World.observed (uuid : Nat → String) (w : World) (k : Nat) (heard : Heard)
    (target : ManagedPeer) (pane : String) (generation text again : Chars) (now : Nat) : World :=
  if generation ≠ again then w.finish k heard (.failed (.app changedDuringObservation))
  else
    let (prompts, outcome) := observe digest uuid w.prompts target pane generation text now
    { w.finish k heard outcome with prompts := prompts }

/-- One turn: a call is made, gets the lock or is refused it, or hears what it awaits. -/
def step (uuid : Nat → String) (w : World) : Event → Option World
  | .read target m =>
    match interactive rcPrefix m.sessions target with
    | .error error => some (w.begin (.read target) .finished (.finished (.failed (.app error))))
    | .ok session => some (w.begin (.read target) (.readPane session.name) (.issued .liveness))
  | .respond input => some (w.begin (.respond input) .locking .queued)
  | .refuse k =>
    match w.calls[k]? with
    | some ⟨.respond _, .locking⟩ => some (w.finish k .lock (.failed .lockRefused))
    | _ => none
  | .acquire k m =>
    match w.holder, w.calls[k]? with
    | none, some ⟨.respond input, .locking⟩ =>
      match admitted rcPrefix w.prompts input m with
      | .error failure => some (w.finish k .lock (.failed failure))
      | .ok (i, name) =>
        some { (w.setStage k (.holding i (.pane name))).note k .lock (.issued .liveness) with
          holder := some k }
    | _, _ => none
  | .answer k answer m =>
    match w.calls[k]? with
    | some ⟨.respond input, .holding i point⟩ =>
      (w.prompts.objects[i]?).bind fun o =>
        (resume digest rcPrefix o input point answer m).map
          (w.goOn k i (.answered point.command answer))
    | some ⟨.read target, .readGenerationAgain pane generation text⟩ =>
      answer.stdout.map fun
        | .error failure => w.finish k (.answered (.generation pane) answer) (.failed failure)
        | .ok again => w.observed digest uuid k (.answered (.generation pane) answer) target pane
            generation text again m.now
    | some ⟨.read _, stage⟩ =>
      match stage.command, readNext stage answer with
      | some command, some (.ok next) =>
        (next.command).map fun issued =>
          (w.setStage k next).note k (.answered command answer) (.issued issued)
      | some command, some (.error failure) =>
        some (w.finish k (.answered command answer) (.failed failure))
      | _, _ => none
    | _ => none

end

end Ccmux.Control.TerminalPrompt
