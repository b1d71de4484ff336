/- Module: Ccmux/Chat/Store
   source: src/chat/store.ts (pendingConditional), src/commands/msgCancel.ts
   digest: The undelivered conditional letters, which `msg cancel` and a replaced task tombstone. -/

import Ccmux.Chat.Settlement

namespace Ccmux.Chat.Store

open Ccmux.Chat.Identity (ChatPrincipal ChatTarget chatTargetKey sameSender sameTarget)
open Ccmux.Chat.Message
open Ccmux.Chat.Settlement (LetterState isConditional letterState)

/-- `live` holds the keys of the registered sessions, when the caller looked them up. -/
structure PendingFilter where
  sender : Option ChatPrincipal := none
  target : Option ChatTarget := none
  task : Option String := none
  live : Option (Finset String) := none

def undeliverable (msg : ChatMessage) (live : Option (Finset String)) : Bool :=
  match live, msg.target with
  | some keys, .managed _ => decide (chatTargetKey msg.target ∉ keys)
  | _, _ => false

/-- The test one letter has to pass; a conditional letter's state reads the ack log alone. -/
def isPendingConditional (acks : String → Option AckOutcome) (filter : PendingFilter)
    (index : Nat) (msg : ChatMessage) : Bool :=
  !undeliverable msg filter.live && isConditional msg &&
    decide (letterState msg index acks (fun _ => none) none = .pending) &&
    filter.sender.all (sameSender msg.sender) && filter.target.all (sameTarget msg.target) &&
    (filter.task.isNone || msg.task == filter.task)

/-- Undelivered conditional letters of the ledger, in its order. -/
def pendingConditional (ledger : Ledger) (acks : String → Option AckOutcome)
    (filter : PendingFilter) : List ChatMessage :=
  ledger.zipIdx.filterMap fun (slot, index) =>
    slot.filter (isPendingConditional acks filter index)

/-- The rows `msg cancel` appends: every pending letter of this sender for the task. -/
def msgCancel (ledger : Ledger) (log : AckLog) (sender : ChatPrincipal) (task : String) : AckLog :=
  (pendingConditional ledger (loadAcks log) { sender := some sender, task := some task }).map
    fun msg => ⟨msg.id, .cancel⟩

theorem letterState_conditional {msg : ChatMessage} {index : Nat}
    {acks : String → Option AckOutcome} {delivered : String → Option Nat} {telegram : Option Nat}
    (h : isConditional msg = true) :
    letterState msg index acks delivered telegram = .pending ↔ acks msg.id = none := by
  cases hack : acks msg.id with
  | none => simp [letterState, h, hack]
  | some outcome => cases outcome <;> simp [letterState, h, hack, LetterState.ofOutcome]

theorem mem_msgCancel {ledger : Ledger} {log : AckLog} {sender : ChatPrincipal} {task : String}
    {row : AckRow} (h : row ∈ msgCancel ledger log sender task) :
    row.by = .cancel ∧ row.id ∉ loadAckedIds log ∧
      ∃ msg, some msg ∈ ledger ∧ msg.id = row.id ∧ isConditional msg = true ∧
        msg.task = some task := by
  obtain ⟨msg, hmsg, rfl⟩ := List.mem_map.mp h
  obtain ⟨⟨slot, index⟩, hmem, hslot⟩ := List.mem_filterMap.mp hmsg
  obtain ⟨hsome, hpending⟩ := Option.filter_eq_some_iff.mp hslot
  have hledger : some msg ∈ ledger := hsome ▸ List.fst_mem_of_mem_zipIdx hmem
  simp only [isPendingConditional, Bool.and_eq_true, decide_eq_true_eq] at hpending
  obtain ⟨⟨⟨⟨⟨_, hcond⟩, hstate⟩, _⟩, _⟩, htask⟩ := hpending
  rw [letterState_conditional hcond] at hstate
  exact ⟨rfl, loadAcks_eq_none.mp hstate, msg, hledger, rfl, hcond, by simpa using htask⟩

end Ccmux.Chat.Store
