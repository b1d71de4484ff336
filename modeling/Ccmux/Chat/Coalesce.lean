/- Module: Ccmux/Chat/Coalesce
   source: src/chat/coalesce.ts
   digest: The batch that travels at one boundary: selected person-first, sent in written order. -/

import Mathlib
import Ccmux.Chat.Settlement

namespace Ccmux.Chat.Coalesce

open Ccmux.Chat.Identity (managedPeerKey)
open Ccmux.Chat.Message
open Ccmux.Chat.Settlement (isConditional isDue)

/-- How many waiting letters are handed over at once. -/
def maxBatch : Nat := 8

def maxBatchBytes : Nat := 16000

/-- A letter an application says a person wrote. -/
def fromPerson (msg : ChatMessage) : Bool := msg.origin.any fun origin => origin.actor == .human

section
variable (dateParse : String → Option Int)

def isWaiting (recipientKey : String) (acked : Finset String) (now : Int)
    (msg : ChatMessage) : Bool :=
  match msg.target with
  | .managed peer =>
      managedPeerKey peer == recipientKey && isConditional msg && !decide (msg.id ∈ acked) &&
        isDue dateParse msg now
  | _ => false

/-- Every letter waiting for the recipient's boundary, in the order they were written. -/
def waitingFor (ledger : Ledger) (recipientKey : String) (acked : Finset String) (now : Int) :
    List ChatMessage :=
  ledger.filterMap fun slot => slot.filter (isWaiting dateParse recipientKey acked now)

/-- The order of selection: the oldest letter first, whoever wrote it, then letters of persons. -/
def personFirst : List ChatMessage → List ChatMessage
  | [] => []
  | oldest :: rest => oldest :: (rest.filter fromPerson ++ rest.filter fun msg => !fromPerson msg)

/-- The ids that fit the bounds, `selected` and `bytes` being what was taken so far. -/
def select (selected : Finset String) (bytes : Nat) : List ChatMessage → Finset String
  | [] => selected
  | msg :: rest =>
    let bytes := bytes + msg.body.utf8ByteSize
    if maxBatch ≤ selected.card ∨ (0 < selected.card ∧ maxBatchBytes < bytes) then selected
    else select (insert msg.id selected) bytes rest

def coalesce (ledger : Ledger) (recipientKey : String) (acked : Finset String) (now : Int) :
    List ChatMessage :=
  let waiting := waitingFor dateParse ledger recipientKey acked now
  let selected := select ∅ 0 (personFirst waiting)
  waiting.filter fun msg => decide (msg.id ∈ selected)

def ids (letters : List ChatMessage) : Finset String := (letters.map ChatMessage.id).toFinset

def bodyBytes (letters : List ChatMessage) : Nat :=
  (letters.map fun msg => msg.body.utf8ByteSize).sum

/-- The bounds leave room for the id: before its letter fewer than eight others were selected, and
the letter is the first or still fits the text bound. -/
def Fits (order : List ChatMessage) (id : String) : Prop :=
  ∃ before msg after, order = before ++ msg :: after ∧ msg.id = id ∧
    (ids before).card < maxBatch ∧
    (before = [] ∨ bodyBytes (before ++ [msg]) ≤ maxBatchBytes)

variable {dateParse}

variable {recipientKey : String} {acked : Finset String} {now : Int} {msg : ChatMessage}

theorem isWaiting_iff :
    isWaiting dateParse recipientKey acked now msg = true ↔
      (∃ peer, msg.target = .managed peer ∧ managedPeerKey peer = recipientKey) ∧
        isConditional msg = true ∧ msg.id ∉ acked ∧ isDue dateParse msg now = true := by
  cases htarget : msg.target <;> simp [isWaiting, htarget, and_assoc]

variable {ledger : Ledger}

theorem mem_waitingFor :
    msg ∈ waitingFor dateParse ledger recipientKey acked now ↔
      some msg ∈ ledger ∧ isWaiting dateParse recipientKey acked now msg = true := by
  simp only [waitingFor, List.mem_filterMap, Option.filter_eq_some_iff]
  constructor
  · rintro ⟨slot, hmem, rfl, hwait⟩
    exact ⟨hmem, hwait⟩
  · rintro ⟨hmem, hwait⟩
    exact ⟨some msg, hmem, rfl, hwait⟩

@[simp] theorem ids_cons (msg : ChatMessage) (letters : List ChatMessage) :
    ids (msg :: letters) = insert msg.id (ids letters) := by
  simp [ids]

@[simp] theorem bodyBytes_cons (msg : ChatMessage) (letters : List ChatMessage) :
    bodyBytes (msg :: letters) = msg.body.utf8ByteSize + bodyBytes letters := by
  simp [bodyBytes]

private theorem mem_select {order : List ChatMessage} {selected : Finset String} {bytes : Nat}
    {id : String} :
    id ∈ select selected bytes order ↔ id ∈ selected ∨
      ∃ before msg after, order = before ++ msg :: after ∧ msg.id = id ∧
        (selected ∪ ids before).card < maxBatch ∧
        (selected ∪ ids before = ∅ ∨ bytes + bodyBytes (before ++ [msg]) ≤ maxBatchBytes) := by
  induction order generalizing selected bytes with
  | nil => simp [select]
  | cons first rest ih =>
    by_cases hstop : maxBatch ≤ selected.card ∨
        (0 < selected.card ∧ maxBatchBytes < bytes + first.body.utf8ByteSize)
    · simp only [select, hstop, if_true]
      refine ⟨Or.inl, ?_⟩
      rintro (hmem | ⟨before, msg, after, horder, rfl, hcard, hfit⟩)
      · exact hmem
      · have hgrow : selected.card ≤ (selected ∪ ids before).card :=
          Finset.card_le_card Finset.subset_union_left
        rcases hstop with hfull | ⟨hpos, hlong⟩
        · omega
        · have hnonempty : selected ∪ ids before ≠ ∅ := by
            intro hempty
            rw [hempty, Finset.card_empty] at hgrow
            omega
          -- every later letter comes after the one that no longer fits
          have hbytes : first.body.utf8ByteSize ≤ bodyBytes (before ++ [msg]) := by
            cases before with
            | nil =>
              obtain ⟨rfl, _⟩ := List.cons.inj horder
              simp [bodyBytes]
            | cons head before =>
              obtain ⟨rfl, _⟩ := List.cons.inj horder
              simp only [List.cons_append, bodyBytes_cons]
              omega
          rcases hfit with hempty | hfit
          · exact absurd hempty hnonempty
          · omega
    · simp only [select, hstop, if_false, ih]
      push_neg at hstop
      obtain ⟨hroom, htext⟩ := hstop
      constructor
      · rintro (hmem | ⟨before, msg, after, rfl, rfl, hcard, hfit⟩)
        · rcases Finset.mem_insert.mp hmem with rfl | hold
          · refine Or.inr ⟨[], first, rest, rfl, rfl, by simpa [ids] using hroom, ?_⟩
            rcases Nat.eq_zero_or_pos selected.card with hzero | hpos
            · exact Or.inl (by simpa [ids] using Finset.card_eq_zero.mp hzero)
            · exact Or.inr (by simpa [bodyBytes] using htext hpos)
          · exact Or.inl hold
        · have hids : selected ∪ ids (first :: before) = insert first.id selected ∪ ids before := by
            rw [ids_cons, Finset.union_insert, Finset.insert_union]
          refine Or.inr ⟨first :: before, msg, after, rfl, rfl, by rw [hids]; exact hcard, ?_⟩
          rcases hfit with hempty | hfit
          · exact absurd hempty (by simp)
          · refine Or.inr ?_
            simp only [List.cons_append, bodyBytes_cons]
            omega
      · rintro (hold | ⟨before, msg, after, horder, rfl, hcard, hfit⟩)
        · exact Or.inl (Finset.mem_insert_of_mem hold)
        · cases before with
          | nil =>
            obtain ⟨rfl, _⟩ := List.cons.inj horder
            exact Or.inl (Finset.mem_insert_self _ _)
          | cons head before =>
            obtain ⟨rfl, rfl⟩ := List.cons.inj horder
            have hids : selected ∪ ids (first :: before) =
                insert first.id selected ∪ ids before := by
              rw [ids_cons, Finset.union_insert, Finset.insert_union]
            rw [hids] at hcard hfit
            refine Or.inr ⟨before, msg, after, rfl, rfl, hcard, ?_⟩
            rcases hfit with hempty | hfit
            · exact absurd hempty (by simp)
            · refine Or.inr ?_
              simp only [List.cons_append, bodyBytes_cons] at hfit
              omega

theorem mem_coalesce :
    msg ∈ coalesce dateParse ledger recipientKey acked now ↔
      msg ∈ waitingFor dateParse ledger recipientKey acked now ∧
        Fits (personFirst (waitingFor dateParse ledger recipientKey acked now)) msg.id := by
  have hempty : ∀ before, ids before = ∅ ↔ before = [] := by
    intro before
    cases before <;> simp [ids]
  simp only [coalesce, List.mem_filter, decide_eq_true_eq, mem_select, Fits,
    Finset.notMem_empty, false_or, Finset.empty_union, Nat.zero_add, hempty]

end

end Ccmux.Chat.Coalesce
