/- Module: Ccmux/Chat/NativeRun
   source: src/chat/nativeRuntime.ts, src/agent/codex/owned/input.ts, src/chat/cursors.ts
   digest: Daemon passes, owner ticks and the provider, with a crash between any two writes. -/

import Ccmux.Lib.Machine
import Ccmux.Chat.Cursors
import Ccmux.Chat.NativeRuntime
import Ccmux.Agent.Codex.OwnedInput

namespace Ccmux.Chat.NativeRun

open Ccmux.Lib.Machine
open Ccmux.Chat.Message
open Ccmux.Chat.MessageOperation (MessageOperationJournal advanceMessageOperation)
open Ccmux.Chat.NativeRuntime
open Ccmux.Chat.Cursors (markRead)
open Ccmux.Runtime.Input
open Ccmux.Agent.Codex.OwnedInput

/-- What the daemon loaded for one round over its sessions; a session is visited once a round. -/
structure Memory where
  ledger : Ledger
  acked : Finset String
  cursors : ChatCursors
  visited : Bool

/-- How far the owner's tick has come under the admission lock. -/
inductive Owner where
  | settling (input : RuntimeInput)
  | marking (env : OwnerEnv) (input : RuntimeInput)
  | starting (input : RuntimeInput)
  | awaiting (input : RuntimeInput)
  | accepting (input : RuntimeInput) (turnId : String)

/-- Who holds the native admission lock, with what is left to do. -/
inductive Holder where
  | free
  | daemon (actions : List Action)
  | owner (phase : Owner)

/-- The four files, both processes and the provider; `calls` records every `turn/start` and
`queued` every letter the daemon wrote to the mailbox. -/
structure World where
  ledger : Ledger
  acks : AckLog
  file : ChatCursors
  mailbox : Option RuntimeInput
  journal : MessageOperationJournal
  memory : Option Memory
  holder : Holder
  inflight : List String
  turns : List ProviderTurn
  calls : List String
  queued : List String

inductive Event where
  | send (msg : ChatMessage)
  | ack (row : AckRow)
  | mark (recipientKey : String) (ledgerLen : Nat)
  | load
  | elsewhere (change : ChatCursors → ChatCursors)
  | flush
  | pass (env : PassEnv)
  | daemonStep
  | daemonFail
  | daemonCrash
  | tick (env : OwnerEnv)
  | ownerStep
  | response (turnId : String)
  | ownerStop
  | providerStart (request : Nat) (turnId : String)
  | foreignTurn (turnId : String)

/-- One action of a pass; `none` is a throw, which leaves the files as they were. -/
def perform (w : World) : Action → Option World
  | .remember cursors =>
      w.memory.map fun memory => { w with memory := some { memory with cursors } }
  | .journal messageId phase turnId now =>
      (advanceMessageOperation w.journal messageId phase turnId now).map
        fun journal => { w with journal }
  | .appendAck messageId => some { w with acks := w.acks ++ [⟨messageId, .daemon⟩] }
  | .saveCursors =>
      w.memory.map fun memory => { w with file := Cursors.saveCursors w.file memory.cursors }
  | .writeInput input =>
      if input.valid then
        some { w with mailbox := some input, queued := w.queued ++ [input.messageId] }
      else none
  | .hold _ _ => some w
  | .clearHold => some w
  | .refuse _ => none

/-- Every id is used by one letter of the ledger. -/
def UniqueIds (ledger : Ledger) : Prop :=
  ∀ i j a b, ledger.letter i = some a → ledger.letter j = some b → a.id = b.id → i = j

def ownerStep (w : World) (phase : Owner) : Option World :=
  match phase with
  | .settling input => some { w with mailbox := some input, holder := .free }
  | .marking env input =>
      some { w with mailbox := some (dispatching env input), holder := .owner (.starting input) }
  | .starting input =>
      some { w with
        calls := w.calls ++ [input.messageId]
        inflight := w.inflight ++ [input.messageId]
        holder := .owner (.awaiting input) }
  | .awaiting _ => none
  | .accepting input turnId =>
      some { w with mailbox := some (started input turnId), holder := .free }

section
variable (dateParse : String → Option Int) (recipientKey : String)

def step (w : World) : Event → Option World
  | .send msg =>
    if w.ledger.all fun slot => slot.all fun other => other.id != msg.id then
      some { w with ledger := w.ledger ++ [some msg] }
    else none
  | .ack row => some { w with acks := w.acks ++ [row] }
  | .mark key ledgerLen => some { w with file := markRead w.file key ledgerLen }
  | .load =>
    match w.holder with
    | .daemon _ => none
    | _ => some { w with memory := some ⟨w.ledger, loadAckedIds w.acks, w.file, false⟩ }
  | .elsewhere change =>
    match w.holder, w.memory with
    | .daemon _, _ => none
    | _, none => none
    | _, some memory =>
      if position (change memory.cursors).delivered recipientKey =
            position memory.cursors.delivered recipientKey ∧
          (change memory.cursors).pickups recipientKey = memory.cursors.pickups recipientKey then
        some { w with memory := some { memory with cursors := change memory.cursors } }
      else none
  | .flush =>
    match w.holder with
    | .daemon _ => none
    | _ => perform w .saveCursors
  | .pass env =>
    match w.holder, w.memory with
    | .free, some memory =>
      if memory.visited then none
      else
        let actions := (deliverLocked dateParse env recipientKey memory.ledger memory.cursors
          memory.acked w.mailbox).1
        some { w with
          memory := some { memory with visited := true }
          holder := .daemon actions }
    | _, _ => none
  | .daemonStep =>
    match w.holder with
    | .daemon [] => some { w with holder := .free }
    | .daemon (action :: rest) =>
      match perform w action with
      | some v => some { v with holder := .daemon rest }
      | none => some { w with holder := .free }
    | _ => none
  | .daemonFail =>
    match w.holder with
    | .daemon _ => some { w with holder := .free }
    | _ => none
  | .daemonCrash =>
    match w.holder with
    | .daemon _ => some { w with memory := none, holder := .free }
    | _ => some { w with memory := none }
  | .tick env =>
    match w.holder with
    | .free =>
      match applyLocked env w.turns w.mailbox with
      | .settle input => some { w with holder := .owner (.settling input) }
      | .submit input => some { w with holder := .owner (.marking env input) }
      | _ => some w
    | _ => none
  | .ownerStep =>
    match w.holder with
    | .owner phase => ownerStep w phase
    | _ => none
  | .response turnId =>
    match w.holder with
    | .owner (.awaiting input) =>
      if ⟨turnId, some input.messageId⟩ ∈ w.turns then
        some { w with holder := .owner (.accepting input turnId) }
      else none
    | _ => none
  | .ownerStop =>
    match w.holder with
    | .owner _ => some { w with holder := .free }
    | _ => none
  | .providerStart request turnId =>
    match w.inflight[request]? with
    | some messageId =>
      if w.turns.any fun turn => turn.id == turnId then none
      else some { w with
        turns := w.turns ++ [⟨turnId, some messageId⟩]
        inflight := w.inflight.eraseIdx request }
    | none => none
  | .foreignTurn turnId => some { w with turns := w.turns ++ [⟨turnId, none⟩] }

/-- A registration before its first letter: no pickup, an empty mailbox and idle processes. -/
structure Start (w : World) : Prop where
  unique : UniqueIds w.ledger
  noPickup : w.file.pickups recipientKey = none
  noInput : w.mailbox = none
  noMemory : w.memory = none
  unlocked : w.holder = .free
  noCalls : w.calls = []
  noInflight : w.inflight = []
  noneQueued : w.queued = []

end

variable {ledger : Ledger}

theorem UniqueIds.send {msg : ChatMessage} (h : UniqueIds ledger)
    (hnew : (ledger.all fun slot => slot.all fun other => other.id != msg.id) = true) :
    UniqueIds (ledger ++ [some msg]) := by
  have hold : ∀ i a, Ledger.letter (ledger ++ [some msg]) i = some a →
      (ledger.letter i = some a ∧ a.id ≠ msg.id) ∨ (i = ledger.length ∧ a = msg) := by
    intro i a ha
    rcases Nat.lt_trichotomy i ledger.length with hlt | rfl | hgt
    · rw [Ledger.letter_append_left _ hlt] at ha
      refine Or.inl ⟨ha, ?_⟩
      have hmem : some a ∈ ledger := List.mem_of_getElem? (Ledger.letter_eq_some.mp ha)
      simpa using List.all_eq_true.mp hnew (some a) hmem
    · refine Or.inr ⟨rfl, ?_⟩
      simpa [Ledger.letter] using ha.symm
    · have := Ledger.letter_lt ha
      simp only [List.length_append, List.length_singleton] at this
      omega
  intro i j a b hi hj hid
  rcases hold i a hi with ⟨ha, hne⟩ | ⟨rfl, rfl⟩
  · rcases hold j b hj with ⟨hb, _⟩ | ⟨rfl, rfl⟩
    · exact h i j a b ha hb hid
    · exact absurd hid hne
  · rcases hold j b hj with ⟨_, hne⟩ | ⟨rfl, rfl⟩
    · exact absurd hid.symm hne
    · rfl

theorem UniqueIds.hole (h : UniqueIds ledger) :
    UniqueIds (ledger ++ [none]) := by
  have hold : ∀ i a, Ledger.letter (ledger ++ [none]) i = some a → ledger.letter i = some a := by
    intro i a ha
    by_cases hlt : i < ledger.length
    · rwa [Ledger.letter_append_left _ hlt] at ha
    · have hmem : some a ∈ [(none : LedgerSlot)] := by
        have hslot := Ledger.letter_eq_some.mp ha
        rw [List.getElem?_append_right (by omega)] at hslot
        exact List.mem_of_getElem? hslot
      simp at hmem
  intro i j a b hi hj hid
  exact h i j a b (hold i a hi) (hold j b hj) hid

end Ccmux.Chat.NativeRun
