/- Module: Ccmux/Chat/Settlement
   source: src/chat/settlement.ts
   digest: The two delivery tracks: a positional cursor for immediate mail, ids for conditional mail. -/

import Ccmux.Chat.Message

namespace Ccmux.Chat.Settlement

open Ccmux.Chat.Identity (chatTargetKey)
open Ccmux.Chat.Message

/-- Deferred or time-delayed mail is delivered off the in-order cursor. -/
def isConditional (msg : ChatMessage) : Bool := msg.defer || msg.notBefore.isSome

section
variable (dateParse : String → Option Int)

/-- `notBefore` satisfied or absent; a timestamp `Date.parse` cannot read counts as due. -/
def isDue (msg : ChatMessage) (now : Int) : Bool :=
  match msg.notBefore with
  | none => true
  | some text =>
    match dateParse text with
    | none => true
    | some at_ => decide (at_ ≤ now)

variable {msg : ChatMessage} {now : Int} {ledger : Ledger} {recipientKey : String}

theorem isDue_notBefore {at_ : Int} {text : String} (due : isDue dateParse msg now = true)
    (htext : msg.notBefore = some text)
    (hat : dateParse text = some at_) : at_ ≤ now := by
  simpa [isDue, htext, hat] using due

inductive LetterState where
  | pending | delivered | cancelled | undeliverable
  deriving DecidableEq, Repr

def LetterState.ofOutcome : AckOutcome → LetterState
  | .delivered => .delivered
  | .cancelled => .cancelled
  | .undeliverable => .undeliverable

/-- A conditional letter is settled by the ack log, an immediate one by its recipient's cursor. -/
def letterState (msg : ChatMessage) (index : Nat) (acks : String → Option AckOutcome)
    (delivered : String → Option Nat) (telegram : Option Nat) : LetterState :=
  if isConditional msg then
    ((acks msg.id).map LetterState.ofOutcome).getD .pending
  else
    let passed := match msg.target with
      | .owner => decide (index < telegram.getD 0)
      | target => decide (index < position delivered (chatTargetKey target))
    if passed then .delivered else .pending

/-- A letter to anybody but the owner has not been settled on the track that owns it. -/
def Pending (acks : AckLog) (delivered : String → Option Nat) (idx : Nat) (msg : ChatMessage) :
    Prop :=
  (isConditional msg = true ∧ loadAcks acks msg.id = none) ∨
    (isConditional msg = false ∧ position delivered (chatTargetKey msg.target) ≤ idx)

theorem letterState_pending (h : msg.target ≠ .owner) (idx : Nat)
    (acks : AckLog) (delivered : String → Option Nat) (telegram : Option Nat) :
    letterState msg idx (loadAcks acks) delivered telegram = .pending ↔
      Pending acks delivered idx msg := by
  by_cases hcond : isConditional msg = true
  · cases hack : loadAcks acks msg.id with
    | none => simp [letterState, Pending, hcond, hack]
    | some outcome => cases outcome <;> simp [letterState, Pending, hcond, hack, LetterState.ofOutcome]
  · have hpassed : (match msg.target with
        | .owner => decide (idx < telegram.getD 0)
        | target => decide (idx < position delivered (chatTargetKey target))) =
        decide (idx < position delivered (chatTargetKey msg.target)) := by
      cases htarget : msg.target with
      | owner => exact absurd htarget h
      | _ => rfl
    simp only [letterState, hcond, Bool.false_eq_true, if_false, hpassed, decide_eq_true_eq, Pending]
    by_cases hlt : idx < position delivered (chatTargetKey msg.target)
    · have hnot : ¬ position delivered (chatTargetKey msg.target) ≤ idx := by omega
      simp [hlt, hnot]
    · have hle : position delivered (chatTargetKey msg.target) ≤ idx := by omega
      simp [hlt, hle]

theorem Pending.back {acks more : AckLog} {delivered later : String → Option Nat} {idx : Nat}
    (hforward : ∀ key, position delivered key ≤ position later key)
    (h : Pending (acks ++ more) later idx msg) : Pending acks delivered idx msg := by
  rcases h with ⟨hcond, hack⟩ | ⟨hcond, hpos⟩
  · refine Or.inl ⟨hcond, ?_⟩
    rw [loadAcks_eq_none] at hack ⊢
    intro hmem
    exact hack (loadAckedIds_subset_append acks more hmem)
  · have hle := hforward (chatTargetKey msg.target)
    exact Or.inr ⟨hcond, by omega⟩

structure Pick where
  msg : ChatMessage
  idx : Nat
  deriving DecidableEq, Repr

/-- The first readable letter of the slots that satisfies the test; the slots start at `idx`. -/
def firstLetter (test : ChatMessage → Bool) : Nat → Ledger → Option Pick
  | _, [] => none
  | idx, none :: rest => firstLetter test (idx + 1) rest
  | idx, some msg :: rest => if test msg then some ⟨msg, idx⟩ else firstLetter test (idx + 1) rest

private theorem firstLetter_some_aux {test : ChatMessage → Bool} {idx : Nat} {slots : Ledger}
    {pick : Pick} (h : firstLetter test idx slots = some pick) :
    ∃ off, pick.idx = idx + off ∧ Ledger.letter slots off = some pick.msg ∧
      test pick.msg = true ∧
      ∀ j < off, ∀ msg, Ledger.letter slots j = some msg → test msg = false := by
  induction slots generalizing idx with
  | nil => simp [firstLetter] at h
  | cons slot rest ih =>
    have skip (hslot : ∀ msg, slot = some msg → test msg = false)
        (hrest : firstLetter test (idx + 1) rest = some pick) :
        ∃ off, pick.idx = idx + off ∧ Ledger.letter (slot :: rest) off = some pick.msg ∧
          test pick.msg = true ∧
          ∀ j < off, ∀ msg, Ledger.letter (slot :: rest) j = some msg → test msg = false := by
      obtain ⟨off, hidx, hletter, htest, hfirst⟩ := ih hrest
      refine ⟨off + 1, by omega, by simpa [Ledger.letter] using hletter, htest, ?_⟩
      intro j hj msg hmsg
      cases j with
      | zero => exact hslot msg (by simpa [Ledger.letter] using hmsg)
      | succ j => exact hfirst j (by omega) msg (by simpa [Ledger.letter] using hmsg)
    cases slot with
    | none => exact skip (by simp) h
    | some msg =>
      simp only [firstLetter] at h
      split at h
      · next htest =>
        obtain rfl := Option.some.inj h
        exact ⟨0, by simp, by simp [Ledger.letter], htest, by simp⟩
      · next htest => exact skip (by simpa using htest) h

private theorem firstLetter_none_aux {test : ChatMessage → Bool} {idx : Nat} {slots : Ledger}
    (h : firstLetter test idx slots = none) (j : Nat) (msg : ChatMessage)
    (hmsg : Ledger.letter slots j = some msg) : test msg = false := by
  induction slots generalizing idx j with
  | nil => simp [Ledger.letter] at hmsg
  | cons slot rest ih =>
    cases slot with
    | none =>
      cases j with
      | zero => simp [Ledger.letter] at hmsg
      | succ j => exact ih h j (by simpa [Ledger.letter] using hmsg)
    | some first =>
      simp only [firstLetter] at h
      split at h
      · cases h
      · next htest =>
        cases j with
        | zero =>
          obtain rfl : first = msg := by simpa [Ledger.letter] using hmsg
          simpa using htest
        | succ j => exact ih h j (by simpa [Ledger.letter] using hmsg)

/-- The scan `for (let idx = from; idx < ledger.length; idx++)`. -/
def scanFrom (test : ChatMessage → Bool) (start : Nat) (ledger : Ledger) : Option Pick :=
  firstLetter test start (ledger.drop start)

theorem letter_drop (ledger : Ledger) (start off : Nat) :
    Ledger.letter (ledger.drop start) off = ledger.letter (start + off) := by
  simp [Ledger.letter, List.getElem?_drop]

variable {test : ChatMessage → Bool} {start delivered : Nat} {pick : Pick} {acked : Finset String}

theorem scanFrom_some (h : scanFrom test start ledger = some pick) :
    start ≤ pick.idx ∧ ledger.letter pick.idx = some pick.msg ∧ test pick.msg = true ∧
      ∀ j, start ≤ j → j < pick.idx → ∀ msg, ledger.letter j = some msg → test msg = false := by
  obtain ⟨off, hidx, hletter, htest, hfirst⟩ := firstLetter_some_aux h
  rw [letter_drop] at hletter
  refine ⟨by omega, by rw [hidx]; exact hletter, htest, ?_⟩
  intro j hj hlt msg hmsg
  refine hfirst (j - start) (by omega) msg ?_
  rw [letter_drop, Nat.add_sub_cancel' hj]
  exact hmsg

theorem scanFrom_none (h : scanFrom test start ledger = none) (j : Nat) (hj : start ≤ j)
    (msg : ChatMessage)
    (hmsg : ledger.letter j = some msg) : test msg = false := by
  refine firstLetter_none_aux h (j - start) msg ?_
  rw [letter_drop, Nat.add_sub_cancel' hj]
  exact hmsg

/-- An immediate letter of the recipient. -/
def immediateTo (recipientKey : String) (msg : ChatMessage) : Bool :=
  chatTargetKey msg.target == recipientKey && !isConditional msg

/-- A conditional letter of the recipient that is unresolved and due. -/
def conditionalTo (recipientKey : String) (acked : Finset String) (now : Int)
    (msg : ChatMessage) : Bool :=
  chatTargetKey msg.target == recipientKey && isConditional msg && !decide (msg.id ∈ acked) &&
    isDue dateParse msg now

/-- Immediate mail retains order; conditional mail cannot head-of-line block a reply. -/
def pickPendingDelivery (ledger : Ledger) (recipientKey : String) (delivered : Nat)
    (acked : Finset String) (now : Int) : Option Pick × Nat :=
  match scanFrom (immediateTo recipientKey) delivered ledger with
  | some pick => (some pick, pick.idx)
  | none => (scanFrom (conditionalTo dateParse recipientKey acked now) 0 ledger, ledger.length)

/-- The next letter for a recipient, with its delivered cursor caught up; the flag says the
cursor changed and has to be saved. -/
def nextDelivery (ledger : Ledger) (recipientKey : String) (cursors : ChatCursors)
    (acked : Finset String) (now : Int) : Option Pick × ChatCursors × Bool :=
  let next := pickPendingDelivery dateParse ledger recipientKey
    (position cursors.delivered recipientKey) acked now
  let moved := decide (cursors.delivered recipientKey ≠ some next.2)
  (next.1, { cursors with delivered := assign cursors.delivered recipientKey (some next.2) }, moved)

/-- Which letter a native pass is about: an unresolved pickup, else the next one in line. -/
def pendingMessageId (ledger : Ledger) (recipientKey : String) (cursors : ChatCursors)
    (acked : Finset String) (now : Int) : Option String :=
  match cursors.pickups recipientKey with
  | some pickup => some pickup.messageId
  | none =>
    (pickPendingDelivery dateParse ledger recipientKey (position cursors.delivered recipientKey)
      acked now).1.map fun pick => pick.msg.id

theorem immediateTo_iff :
    immediateTo recipientKey msg = true ↔
      chatTargetKey msg.target = recipientKey ∧ isConditional msg = false := by
  simp [immediateTo]

theorem conditionalTo_iff :
    conditionalTo dateParse recipientKey acked now msg = true ↔
      chatTargetKey msg.target = recipientKey ∧ isConditional msg = true ∧ msg.id ∉ acked ∧
        isDue dateParse msg now = true := by
  simp [conditionalTo, and_assoc]

/-- The two outcomes of a pick: the first immediate letter at or after the cursor with the cursor
on it, or, when there is none, the cursor at the end and at most a due unresolved conditional
letter. -/
theorem pickPendingDelivery_cases (ledger : Ledger) (recipientKey : String) (delivered : Nat)
    (acked : Finset String) (now : Int) :
    (∃ pick, pickPendingDelivery dateParse ledger recipientKey delivered acked now =
        (some pick, pick.idx) ∧
      delivered ≤ pick.idx ∧ ledger.letter pick.idx = some pick.msg ∧
      immediateTo recipientKey pick.msg = true ∧
      ∀ j, delivered ≤ j → j < pick.idx → ∀ msg, ledger.letter j = some msg →
        immediateTo recipientKey msg = false) ∨
    ((pickPendingDelivery dateParse ledger recipientKey delivered acked now).2 = ledger.length ∧
      (∀ j, delivered ≤ j → ∀ msg, ledger.letter j = some msg →
        immediateTo recipientKey msg = false) ∧
      ∀ pick, (pickPendingDelivery dateParse ledger recipientKey delivered acked now).1 =
          some pick →
        ledger.letter pick.idx = some pick.msg ∧
          conditionalTo dateParse recipientKey acked now pick.msg = true) := by
  cases hscan : scanFrom (immediateTo recipientKey) delivered ledger with
  | some pick =>
    obtain ⟨hle, hletter, htest, hfirst⟩ := scanFrom_some hscan
    exact Or.inl ⟨pick, by simp [pickPendingDelivery, hscan], hle, hletter, htest, hfirst⟩
  | none =>
    refine Or.inr ⟨by simp [pickPendingDelivery, hscan], scanFrom_none hscan, ?_⟩
    intro pick hpick
    simp only [pickPendingDelivery, hscan] at hpick
    obtain ⟨_, hletter, htest, _⟩ := scanFrom_some hpick
    exact ⟨hletter, htest⟩

theorem pickPendingDelivery_letter
    (h : (pickPendingDelivery dateParse ledger recipientKey delivered acked now).1 = some pick) :
    ledger.letter pick.idx = some pick.msg ∧ chatTargetKey pick.msg.target = recipientKey := by
  rcases pickPendingDelivery_cases dateParse ledger recipientKey delivered acked now with
    ⟨found, heq, _, hletter, htest, _⟩ | ⟨_, _, hcond⟩
  · rw [heq] at h
    obtain rfl := Option.some.inj h
    exact ⟨hletter, (immediateTo_iff.mp htest).1⟩
  · obtain ⟨hletter, htest⟩ := hcond pick h
    exact ⟨hletter, ((conditionalTo_iff dateParse).mp htest).1⟩

theorem pickPendingDelivery_immediate
    (h : (pickPendingDelivery dateParse ledger recipientKey delivered acked now).1 = some pick)
    (himm : isConditional pick.msg = false) : delivered ≤ pick.idx := by
  rcases pickPendingDelivery_cases dateParse ledger recipientKey delivered acked now with
    ⟨found, heq, hle, _, _, _⟩ | ⟨_, _, hcond⟩
  · rw [heq] at h
    obtain rfl := Option.some.inj h
    exact hle
  · have htest := (hcond pick h).2
    simp [conditionalTo_iff, himm] at htest

theorem pickPendingDelivery_conditional
    (h : (pickPendingDelivery dateParse ledger recipientKey delivered acked now).1 = some pick)
    (hcond : isConditional pick.msg = true) :
    pick.msg.id ∉ acked ∧ isDue dateParse pick.msg now = true := by
  rcases pickPendingDelivery_cases dateParse ledger recipientKey delivered acked now with
    ⟨found, heq, _, _, htest, _⟩ | ⟨_, _, hall⟩
  · rw [heq] at h
    obtain rfl := Option.some.inj h
    simp [immediateTo_iff, hcond] at htest
  · obtain ⟨_, _, hid, hdue⟩ := (conditionalTo_iff dateParse).mp (hall pick h).2
    exact ⟨hid, hdue⟩

end

end Ccmux.Chat.Settlement
