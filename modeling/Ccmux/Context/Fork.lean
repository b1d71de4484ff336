/- Module: Ccmux/Context/Fork
   source: src/context/fork.ts, src/agent/codex/owned/thread.ts (the fork adapter),
     src/control/lifecycle.ts (the request's lock around prepareNativeFork)
   digest: The journal of one native fork under its callers, its owners, errors and crashes. -/

import Ccmux.Lib.Machine
import Ccmux.Chat.Format
import Ccmux.Chat.Message

namespace Ccmux.Context.Fork

open Ccmux.Chat.Identity (ManagedPeer)
open Ccmux.Chat.Format (utf16Length)
open Ccmux.Chat.Message (NativeTurnOptions)

/-- A source as `NativeForkSourceSchema` parses it. The schema is strict and gives the keys its own
order, so two of them have one text exactly when they are equal. -/
structure NativeForkSource where
  target : ManagedPeer
  registration : String
  generation : String
  nativeId : String
  turnId : Option String
  selection : Option NativeTurnOptions
  deriving DecidableEq, Repr

inductive ForkState where
  | reserved | dispatching | accepted | uncertain
  deriving DecidableEq, Repr

structure NativeForkIntent where
  destination : String
  source : NativeForkSource
  state : ForkState
  nativeId : Option String
  deriving DecidableEq, Repr

/-- `z.string().min(1).max(256)` -/
def validId (nativeId : String) : Bool := decide (1 ≤ utf16Length nativeId ∧ utf16Length nativeId ≤ 256)

/-- How a write of the journal ends; one that fails may have replaced the file before. -/
inductive Write where
  | written
  | failed (landed : Bool)
  deriving DecidableEq, Repr

def Write.landed : Write → Bool
  | .written => true
  | .failed landed => landed

/-- Where an admission stands; from `dispatching` to `doubting` it is about to write, to call or to
hear from the native server. -/
inductive Point (T : Type) where
  | waiting
  | resuming (nativeId : String)
  | resumed (nativeId : String)
  | dispatching (intent : NativeForkIntent)
  | forking (intent : NativeForkIntent)
  | forked (intent : NativeForkIntent)
  | accepting (intent : NativeForkIntent) (response : T)
  | doubting (intent : NativeForkIntent)
  | ended
  deriving DecidableEq

@[grind =]
def Point.locked {T : Type} : Point T → Bool
  | .waiting => false
  | .ended => false
  | _ => true

@[grind =]
def Point.doubts {T : Type} : Point T → Bool
  | .doubting _ => true
  | _ => false

/-- A successful answer of an admission, with the id it asked to resume, if it did not fork. -/
structure Answer (T : Type) where
  asked : Option String
  response : T
  deriving DecidableEq

/-- What a caller of `prepareNativeFork` hears. -/
inductive Reply where
  | prepared | changed | unavailable | failed
  deriving DecidableEq, Repr

/-- The journal of one destination, the caller that prepares it, the admissions of its owners, and
the histories of the native calls and of the answers. Callers prepare one registration one at a
time, under the lock of its create request. -/
structure World (T : Type) where
  intent : Option NativeForkIntent
  preparing : Option NativeForkSource
  lock : Option Nat
  tasks : List (Point T)
  forked : List NativeForkSource
  resumed : List String
  answers : List (Answer T)
  replies : List Reply
  deriving DecidableEq

def startWorld (T : Type) : World T := ⟨none, none, none, [], [], [], [], []⟩

inductive Event (T : Type) where
  | prepares (source : NativeForkSource) (readable : Bool)
  | prepareWrites (write : Write)
  | admits
  | locks (i : Nat) (readable aborted : Bool)
  | writes (i : Nat) (write : Write)
  | calls (i : Nat)
  | returns (i : Nat) (answer : Option T)
  | stops (i : Nat) (landed : Bool)

section
variable {T : Type}

def World.reply (w : World T) (reply : Reply) : World T :=
  { w with replies := w.replies ++ [reply] }

def World.land (w : World T) (landed : Bool) (row : NativeForkIntent) : World T :=
  if landed then { w with intent := some row } else w

/-- The admission goes on at this point; where that is out of the lock, it releases it. -/
def World.goOn (w : World T) (i : Nat) (point : Point T) : World T :=
  { w with
    tasks := w.tasks.set i point
    lock := if w.lock = some i ∧ point.locked = false then none else w.lock }

/-- What an admission does first inside the lock. A file that cannot be read is no intent, and that
it exists is an error. -/
@[grind =]
def admitted (intent : Option NativeForkIntent) (readable aborted : Bool) : Point T :=
  match intent with
  | none => .ended
  | some intent =>
    if !readable then .ended
    else
      match intent.state, intent.nativeId with
      | .accepted, some nativeId => .resuming nativeId
      | .reserved, _ => if aborted then .ended else .dispatching intent
      | _, _ => .ended

def reserved (generation : String) (source : NativeForkSource) : NativeForkIntent :=
  { destination := generation, source, state := .reserved, nativeId := none }

@[grind =]
def Point.afterWrite : Point T → Write → Point T
  | .dispatching intent, .written => .forking intent
  | .accepting intent _, .failed _ => .doubting intent
  | _, _ => .ended

/-- The answer that a written journal lets an admission give. -/
def Point.answer : Point T → Write → List (Answer T)
  | .accepting _ response, .written => [⟨none, response⟩]
  | _, _ => []

variable (identity : T → String)

/-- The row that an admission persists at a point. -/
@[grind =]
def Point.row : Point T → Option NativeForkIntent
  | .dispatching intent => some { intent with state := .dispatching }
  | .accepting intent response =>
    some { intent with state := .accepted, nativeId := some (identity response) }
  | .doubting intent => some { intent with state := .uncertain }
  | _ => none

/-- What follows `adapter.fork`; none is a throw. -/
@[grind =]
def returned (intent : NativeForkIntent) : Option T → Point T
  | none => .doubting intent
  | some response =>
    if validId (identity response) = true ∧ identity response ≠ intent.source.nativeId then
      .accepting intent response
    else .doubting intent

variable (generation : String)

/-- One step. An admission that stops has crashed, or has given up waiting for the lock; a write it
was at may have landed. -/
@[grind =]
def step (w : World T) : Event T → Option (World T)
  | .prepares source readable =>
    match w.preparing, w.intent with
    | some _, _ => none
    | none, none => some { w with preparing := some source }
    | none, some prior =>
      if !readable then some (w.reply .unavailable)
      else if prior.source = source then some (w.reply .prepared)
      else some (w.reply .changed)
  | .prepareWrites write =>
    w.preparing.map fun source =>
      { w.land write.landed (reserved generation source) with
        preparing := none
        replies := w.replies ++ [if write = .written then .prepared else .failed] }
  | .admits => some { w with tasks := w.tasks ++ [.waiting] }
  | .locks i readable aborted =>
    match w.tasks[i]?, w.lock with
    | some .waiting, none =>
      some (World.goOn { w with lock := some i } i (admitted w.intent readable aborted))
    | _, _ => none
  | .writes i write =>
    match w.tasks[i]? with
    | some point =>
      (point.row identity).map fun row =>
        World.goOn { w.land write.landed row with answers := w.answers ++ point.answer write } i
          (point.afterWrite write)
    | none => none
  | .calls i =>
    match w.tasks[i]? with
    | some (.resuming nativeId) =>
      some (World.goOn { w with resumed := w.resumed ++ [nativeId] } i (.resumed nativeId))
    | some (.forking intent) =>
      some (World.goOn { w with forked := w.forked ++ [intent.source] } i (.forked intent))
    | _ => none
  | .returns i answer =>
    match w.tasks[i]? with
    | some (.resumed nativeId) =>
      let answers := (answer.map fun response => ⟨some nativeId, response⟩).toList
      some (World.goOn { w with answers := w.answers ++ answers } i .ended)
    | some (.forked intent) => some (w.goOn i (returned identity intent answer))
    | _ => none
  | .stops i landed =>
    match w.tasks[i]? with
    | some point =>
      let landing := (point.row identity).filter fun _ => landed
      some (World.goOn { w with intent := landing <|> w.intent } i .ended)
    | none => none

end

end Ccmux.Context.Fork
