/- Module: Ccmux/Fleet/Retry
   source: src/fleet/flush.ts (flushOutbox), src/commands/msg.ts (cmdMsg to another machine),
     src/commands/receiveChat.ts, src/chat/ledger.ts (appendMessageOnce), src/fleet/transport.ts (runPeer)
   digest: Sender, hops and receiver: any number of passes, and hops that lose what they carry. -/

import Ccmux.Chat.Admission
import Ccmux.Fleet.Flush
import Ccmux.Lib.Machine

namespace Ccmux.Fleet.Retry

open Ccmux.Chat.Admission
open Ccmux.Chat.Envelope (Envelope)
open Ccmux.Fleet.Address (MachineConfig peersOf)
open Ccmux.Fleet.Flush
open Ccmux.Fleet.Outbox
open Ccmux.Lib.Machine

/-- A request on its way, and then the process that receives it. -/
inductive Stage where
  | sent
  | waiting
  | locked (seen : List (Option Envelope))
  | exited (code : Int)
  deriving DecidableEq

structure Request where
  envelope : Envelope
  stage : Stage

/-- A pass: the candidates it has not taken yet, and the one it waits for with its request. -/
structure Draining where
  remaining : List Outbound
  waiting : Option (Outbound × Nat)

/-- A row of the ack file, and why it was written. -/
structure Settled where
  id : String
  outcome : Outcome
  deriving DecidableEq, Repr

/-- `composed` are the letters this machine has sent, `first` the ones whose first answer is
awaited. -/
structure World where
  config : MachineConfig
  composed : List Envelope
  first : Nat → Option Envelope
  outbox : List Outbound
  acked : List Settled
  passes : Nat → Option Draining
  requests : Nat → Option Request
  receiver : Receiver
  lock : Option Nat

def put {α : Type} (entries : Nat → Option α) (key : Nat) (value : Option α) : Nat → Option α :=
  fun other => if other = key then value else entries other

@[grind =]
def messageIds (ledger : List (Option Envelope)) : List String :=
  ledger.filterMap fun slot => slot.map fun msg => msg.id

def isFresh (w : World) (id : String) : Bool :=
  decide (id ∉ w.composed.map fun msg => msg.id) && decide (id ∉ messageIds w.receiver.ledger)

/-- A hop reports success only when the process of its request ended with it. -/
def possible (w : World) (token : Nat) (answer : RemoteResult) : Bool :=
  answer.transportFailed || answer.code != 0 ||
    (w.requests token).any fun request => decide (request.stage = .exited 0)

def World.setStage (w : World) (token : Nat) (request : Request) (stage : Stage) : World :=
  { w with requests := put w.requests token (some { request with stage := stage }) }

/-- An ack row, unless its write is lost. -/
def World.settle (w : World) (rec : Outbound) (outcome : Outcome) (written : Bool) : World :=
  if outcome.settles && written then
    { w with acked := w.acked ++ [⟨outboundId rec, outcome⟩] }
  else w

/-- On the sending side: a letter is sent and its first answer recorded, a pass starts, takes a
candidate, and hears of it. On the way and on the receiving side: a request arrives, its process
takes the lock, decides, or dies; other letters are stored, and the registry changes. -/
inductive Event where
  | send (msg : Envelope) (token : Nat)
  | record (token : Nat) (answer : RemoteResult) (detail : String)
  | start (pass : Nat) (now : Int)
  | take (pass token : Nat) (written : Bool)
  | hear (pass : Nat) (answer : RemoteResult) (written : Bool)
  | arrive (token : Nat) (caller : Caller)
  | acquire (token : Nat)
  | decide (token : Nat)
  | die (token : Nat)
  | store (slot : Option Envelope)
  | register (sessions : List Registration)
      (appThreads : String → Option Ccmux.Chat.Identity.CodexAppPeer)

section
variable (dateParse : String → Option Int)

def ackedIds (w : World) : List String := w.acked.map Settled.id

@[grind =]
def step (w : World) : Event → Option World
  | .send msg token =>
    if isFresh w msg.id && (w.requests token).isNone then
      some
        { w with
          composed := w.composed ++ [msg]
          first := put w.first token (some msg)
          requests := put w.requests token (some ⟨msg, .sent⟩) }
    else none
  | .record token answer detail =>
    match w.first token with
    | some msg =>
      if possible w token answer then
        let ok := !answer.transportFailed && answer.code == 0
        some
          { w with
            outbox := w.outbox ++ [⟨msg, ⟨ok, detail⟩⟩]
            first := put w.first token none }
      else none
    | none => none
  | .start pass now =>
    match w.passes pass with
    | some _ => none
    | none =>
      if peersOf w.config = [] then none
      else
        let candidates := retryCandidates dateParse w.outbox (ackedIds w) now
        some { w with passes := put w.passes pass (some ⟨candidates.take MAX_PER_TICK, none⟩) }
  | .take pass token written =>
    match w.passes pass with
    | some ⟨rec :: rest, none⟩ =>
      match dispatch w.config rec with
      | .skip => some { w with passes := put w.passes pass (some ⟨rest, none⟩) }
      | .settle =>
        let v := w.settle rec .unaddressable written
        some { v with passes := put w.passes pass (some ⟨rest, none⟩) }
      | .hop =>
        if (w.requests token).isNone then
          some
            { w with
              passes := put w.passes pass (some ⟨rest, some (rec, token)⟩)
              requests := put w.requests token (some ⟨rec.envelope, .sent⟩) }
        else none
    | _ => none
  | .hear pass answer written =>
    match w.passes pass with
    | some ⟨rest, some (rec, token)⟩ =>
      if possible w token answer then
        let v := w.settle rec (readAnswer answer) written
        some { v with passes := put w.passes pass (some ⟨rest, none⟩) }
      else none
    | _ => none
  | .arrive token caller =>
    match w.requests token with
    | some ⟨msg, .sent⟩ =>
      match receiveGate w.receiver caller (some msg) with
      | .ok _ => some (w.setStage token ⟨msg, .sent⟩ .waiting)
      | .error _ => some (w.setStage token ⟨msg, .sent⟩ (.exited 1))
    | _ => none
  | .acquire token =>
    match w.requests token, w.lock with
    | some ⟨msg, .waiting⟩, none =>
      let v := w.setStage token ⟨msg, .waiting⟩ (.locked w.receiver.ledger)
      some { v with lock := some token }
    | _, _ => none
  | .decide token =>
    match w.requests token with
    | some ⟨msg, .locked seen⟩ =>
      let verdict := admitOnce w.receiver seen msg
      let v := w.setStage token ⟨msg, .locked seen⟩ (.exited verdict.code)
      let ledger := verdict.store w.receiver.ledger
      some { v with receiver := { w.receiver with ledger := ledger }, lock := none }
    | _ => none
  | .die token =>
    match w.requests token with
    | some ⟨_, .exited _⟩ => none
    | some request =>
      let v := w.setStage token request (.exited 1)
      some { v with lock := if w.lock = some token then none else w.lock }
    | none => none
  | .store slot =>
    if slot.all fun msg => isFresh w msg.id then
      some { w with receiver := { w.receiver with ledger := w.receiver.ledger ++ [slot] } }
    else none
  | .register sessions appThreads =>
    some { w with receiver := { w.receiver with sessions := sessions, appThreads := appThreads } }

end

/-- Nothing has been sent yet; the receiver may hold letters already. -/
def World.start (config : MachineConfig) (receiver : Receiver) : World :=
  { config := config
    composed := []
    first := fun _ => none
    outbox := []
    acked := []
    passes := fun _ => none
    requests := fun _ => none
    receiver := receiver
    lock := none }

end Ccmux.Fleet.Retry
