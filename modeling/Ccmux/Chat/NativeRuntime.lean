/- Module: Ccmux/Chat/NativeRuntime
   source: src/chat/nativeRuntime.ts (deliverLocked)
   digest: One delivery pass of a native recipient, as the writes it makes in order. -/

import Ccmux.Chat.TurnProgress
import Ccmux.Chat.MessageOperation
import Ccmux.Runtime.Input

namespace Ccmux.Chat.NativeRuntime

open Ccmux.Chat.Identity (AgentKind ChatPrincipal)
open Ccmux.Chat.Message
open Ccmux.Chat.Settlement
open Ccmux.Chat.Format (ReplyRoute formatChatInjection)
open Ccmux.Chat.MessageOperation (OperationPhase)
open Ccmux.Chat.TurnProgress (armPickup)
open Ccmux.Runtime.Input

/-- How long a queued letter may sit untaken beside an idle runtime before the owner is named. -/
def ownerSilentMs : Int := 30000

/-- What a pass reads besides the snapshots it was given and the mailbox. -/
structure PassEnv where
  sessionName : String
  agent : AgentKind
  snapshot : Option NativeSnapshot
  sameIdentity : Bool
  contextPending : Bool
  rateHeld : Bool
  heldMessage : Option String
  cli : String
  reply : ChatPrincipal → Option ReplyRoute
  openCodeMessageId : String → Int → String
  now : Int

/-- A write of the pass, or what it keeps in memory; `refuse` throws. -/
inductive Action where
  | remember (cursors : ChatCursors)
  | journal (messageId : String) (phase : OperationPhase) (turnId : Option String) (now : Int)
  | appendAck (messageId : String)
  | saveCursors
  | writeInput (input : RuntimeInput)
  | hold (messageId reason : String)
  | clearHold
  | refuse (error : String)

def PassEnv.formatted (env : PassEnv) (msg : ChatMessage) : String :=
  formatChatInjection msg env.cli (env.reply msg.sender)

/-- The queued input of a letter; `timestamp` is the instant its pickup was armed. -/
def queuedInput (env : PassEnv) (msg : ChatMessage) (timestamp : Int) : RuntimeInput :=
  { messageId := msg.id
    nativeId := runtimeInputId env.openCodeMessageId env.agent msg.id timestamp
    text := env.formatted msg
    phase := .queued
    images := msg.images
    turnOptions := msg.turnOptions }

/-- The snapshot's turn is over and is the named one. -/
def turnOver (snapshot : NativeSnapshot) (turnId : String) : Bool :=
  snapshot.turn.any fun turn => turn.id == turnId && turn.status != .inProgress

/-- Nothing is left to expect from the letter the mailbox holds. -/
def previousComplete (env : PassEnv) (snapshot : NativeSnapshot) :
    Option RuntimeInput → Bool
  | none => true
  | some input =>
    decide (input.phase = .accepted) &&
      if env.agent = .custom then input.terminal.isSome
      else turnOver snapshot (inputTurnId input)

/-- The mailbox holds another letter than the pickup: repair an intent, or hold. -/
def repair (env : PassEnv) (snapshot : NativeSnapshot) (ledger : Ledger) (pickup : Pickup)
    (input : Option RuntimeInput) : List Action × Nat :=
  let slot := pickup.ledgerIndex.bind ledger.letter
  match slot with
  | some msg =>
    if pickup.native.any (fun native => native.phase == .intent) &&
        previousComplete env snapshot input && snapshot.state == .idle &&
        msg.id == pickup.messageId then
      if env.contextPending then
        ([.hold pickup.messageId "native context operation is unresolved"], 0)
      else ([.writeInput (queuedInput env msg pickup.injectedAt)], 1)
    else ([.hold pickup.messageId "native dispatch receipt is unavailable"], 0)
  | none => ([.hold pickup.messageId "native dispatch receipt is unavailable"], 0)

/-- The mailbox holds the pickup's letter and the runtime has not accepted it yet. -/
def awaitOwner (env : PassEnv) (snapshot : NativeSnapshot) (pickup : Pickup)
    (input : RuntimeInput) : List Action × Nat :=
  if input.phase = .uncertain then
    ([.hold pickup.messageId
      "native acceptance is indeterminate; automatic resubmission is blocked"], 0)
  else if input.phase = .queued ∧ snapshot.state = .idle ∧
      ownerSilentMs < env.now - pickup.injectedAt ∧
      env.heldMessage ≠ some pickup.messageId then
    ([.hold pickup.messageId ("the session's owner has not taken this letter; an owner started by " ++
      "an earlier ccmux takes none — ccmux restart " ++ env.sessionName)], 0)
  else ([], 0)

def Terminal.operation : Terminal → OperationPhase
  | .completed => .completed
  | .interrupted => .interrupted
  | .failed => .failed

/-- `input.terminal ?? turn.status`, for a turn that is over. -/
def endPhase (input : RuntimeInput) (turn : NativeTurn) : OperationPhase :=
  match input.terminal, turn.status with
  | some terminal, _ => Terminal.operation terminal
  | none, .completed => .completed
  | none, .interrupted => .interrupted
  | none, _ => .failed

/-- `pickup.native = { phase: 'accepted', turnId }`. -/
def bindPickup (cursors : ChatCursors) (recipientKey : String) (pickup : Pickup)
    (turnId : String) : ChatCursors :=
  let bound := { pickup with native := some ⟨.accepted, some turnId⟩ }
  { cursors with pickups := assign cursors.pickups recipientKey (some bound) }

/-- `delete cursors.pickups[key]`. -/
def dropPickup (cursors : ChatCursors) (recipientKey : String) : ChatCursors :=
  { cursors with pickups := assign cursors.pickups recipientKey none }

/-- The letter's last turn is over, and with it the pickup. -/
def pickupEnded (env : PassEnv) (snapshot : NativeSnapshot) (input : RuntimeInput) : Bool :=
  let currentTurnId := input.continuations.getLast?.getD (inputTurnId input)
  let terminal := if env.agent = .custom then input.terminal.isSome
    else turnOver snapshot currentTurnId
  terminal && snapshot.state == .idle

/-- How the turn ended, for the public receipt. -/
def endReceipt (env : PassEnv) (snapshot : NativeSnapshot) (pickup : Pickup)
    (input : RuntimeInput) : List Action :=
  match snapshot.turn with
  | some turn =>
    if turn.status = .inProgress then []
    else [.journal pickup.messageId (endPhase input turn) (some (inputTurnId input)) env.now]
  | none => []

/-- The accepted letter: its binding is recorded and, once its last turn is over, its pickup ends. -/
def settleAccepted (env : PassEnv) (snapshot : NativeSnapshot) (recipientKey : String)
    (cursors : ChatCursors) (pickup : Pickup) (input : RuntimeInput) : List Action × Nat :=
  let turnId := inputTurnId input
  let bound := bindPickup cursors recipientKey pickup turnId
  let rows : List Action := if pickup.conditional then [.appendAck pickup.messageId] else []
  let ending : List Action :=
    if pickupEnded env snapshot input then
      endReceipt env snapshot pickup input ++ rows ++
        [.remember (dropPickup bound recipientKey), .clearHold]
    else []
  ([.remember bound, .journal pickup.messageId .admitted (some turnId) env.now] ++ ending ++
    [.saveCursors], 0)

/-- A fresh letter: the barrier is durable before the mailbox is written. -/
def dispatch (env : PassEnv) (recipientKey : String) (cursors : ChatCursors) (pick : Pick) :
    List Action × Nat :=
  ([.journal pick.msg.id .uncertain none env.now,
    .remember (armPickup cursors recipientKey pick env.now none (some ⟨.intent, none⟩)),
    .saveCursors,
    .writeInput (queuedInput env pick.msg env.now),
    .clearHold], 1)

section
variable (dateParse : String → Option Int)

def deliverLocked (env : PassEnv) (recipientKey : String) (ledger : Ledger) (cursors : ChatCursors)
    (acked : Finset String) (mailbox : Option RuntimeInput) : List Action × Nat :=
  let pick := (pickPendingDelivery dateParse ledger recipientKey
    (position cursors.delivered recipientKey) acked env.now).1
  match pendingMessageId dateParse ledger recipientKey cursors acked env.now with
  | none => ([], 0)
  | some messageId =>
    match env.snapshot with
    | none => ([.hold messageId "native runtime is unavailable"], 0)
    | some snapshot =>
      if !env.sameIdentity then
        ([.refuse "Managed identity changed before native dispatch"], 0)
      else
        match cursors.pickups recipientKey with
        | some pickup =>
          match mailbox with
          | none => repair env snapshot ledger pickup none
          | some input =>
            if input.messageId ≠ pickup.messageId then
              repair env snapshot ledger pickup (some input)
            else if input.phase ≠ .accepted then awaitOwner env snapshot pickup input
            else settleAccepted env snapshot recipientKey cursors pickup input
        | none =>
          match pick with
          | none => ([], 0)
          | some pick =>
            if env.contextPending then
              ([.hold messageId "native context operation is unresolved"], 0)
            else if env.rateHeld then
              ([.hold messageId "native chat inbound rate limit"], 0)
            else if snapshot.state ≠ .idle ∨
                snapshot.turn.any fun turn => turn.status == .inProgress then
              ([.hold messageId ("native runtime is " ++ snapshot.state.text)], 0)
            else dispatch env recipientKey cursors pick

end

variable {env : PassEnv} {snapshot : NativeSnapshot} {key : String} {cursors : ChatCursors}
  {pickup : Pickup} {input : RuntimeInput} {ledger : Ledger} {mailbox : Option RuntimeInput}

theorem settleAccepted_open (h : pickupEnded env snapshot input = false) :
    (settleAccepted env snapshot key cursors pickup input).1 =
      [.remember (bindPickup cursors key pickup (inputTurnId input)),
        .journal pickup.messageId .admitted (some (inputTurnId input)) env.now, .saveCursors] := by
  simp [settleAccepted, h]

theorem settleAccepted_ended (h : pickupEnded env snapshot input = true) :
    (settleAccepted env snapshot key cursors pickup input).1 =
      .remember (bindPickup cursors key pickup (inputTurnId input)) ::
      .journal pickup.messageId .admitted (some (inputTurnId input)) env.now ::
      (endReceipt env snapshot pickup input ++
        ((if pickup.conditional then [.appendAck pickup.messageId] else []) ++
          [.remember (dropPickup (bindPickup cursors key pickup (inputTurnId input)) key),
            .clearHold, .saveCursors])) := by
  simp [settleAccepted, h]

@[simp] theorem queuedInput_messageId (env : PassEnv) (msg : ChatMessage) (at_ : Int) :
    (queuedInput env msg at_).messageId = msg.id := rfl

@[simp] theorem queuedInput_phase (env : PassEnv) (msg : ChatMessage) (at_ : Int) :
    (queuedInput env msg at_).phase = .queued := rfl

theorem repair_cases (env : PassEnv) (snapshot : NativeSnapshot) (ledger : Ledger)
    (pickup : Pickup) (input : Option RuntimeInput) :
    (∃ reason, (repair env snapshot ledger pickup input).1 = [.hold pickup.messageId reason]) ∨
    ∃ msg, pickup.ledgerIndex.bind ledger.letter = some msg ∧ msg.id = pickup.messageId ∧
      previousComplete env snapshot input = true ∧ env.contextPending = false ∧
      (repair env snapshot ledger pickup input).1 =
        [.writeInput (queuedInput env msg pickup.injectedAt)] := by
  unfold repair
  cases hslot : pickup.ledgerIndex.bind ledger.letter with
  | none => exact Or.inl ⟨_, rfl⟩
  | some msg =>
    simp only
    split
    · next hguard =>
      split
      · exact Or.inl ⟨_, rfl⟩
      · next hcontext =>
        simp only [Bool.and_eq_true, beq_iff_eq] at hguard
        exact Or.inr ⟨msg, rfl, hguard.2, hguard.1.1.2, by simpa using hcontext, rfl⟩
    · exact Or.inl ⟨_, rfl⟩

theorem settleAccepted_remembers {remembered : ChatCursors}
    (h : .remember remembered ∈ (settleAccepted env snapshot key cursors pickup input).1) :
    remembered = bindPickup cursors key pickup (inputTurnId input) ∨
      remembered = dropPickup (bindPickup cursors key pickup (inputTurnId input)) key := by
  have hreceipt : .remember remembered ∉ endReceipt env snapshot pickup input := by
    unfold endReceipt
    split
    · split <;> simp
    · simp
  cases hended : pickupEnded env snapshot input with
  | false =>
    rw [settleAccepted_open hended] at h
    exact Or.inl (by simpa using h)
  | true =>
    rw [settleAccepted_ended hended] at h
    cases hcond : pickup.conditional <;> simpa [hcond, hreceipt] using h

theorem repair_writes (h : .writeInput input ∈ (repair env snapshot ledger pickup mailbox).1) :
    ∃ msg, pickup.ledgerIndex.bind ledger.letter = some msg ∧ msg.id = pickup.messageId ∧
      (pickup.native.any fun native => native.phase == .intent) = true ∧
      previousComplete env snapshot mailbox = true ∧ snapshot.state = .idle ∧
      env.contextPending = false ∧ input = queuedInput env msg pickup.injectedAt := by
  unfold repair at h
  cases hslot : pickup.ledgerIndex.bind ledger.letter with
  | none => simp [hslot] at h
  | some msg =>
    simp only [hslot] at h
    split at h
    · next hguard =>
      simp only [Bool.and_eq_true, beq_iff_eq] at hguard
      obtain ⟨⟨⟨hintent, hcomplete⟩, hidle⟩, hid⟩ := hguard
      split at h
      · simp at h
      · next hcontext =>
        exact ⟨msg, rfl, hid, hintent, hcomplete, hidle, by simpa using hcontext, by simpa using h⟩
    · simp at h

theorem repair_intent {msg : ChatMessage} (hslot : pickup.ledgerIndex.bind ledger.letter = some msg)
    (hid : msg.id = pickup.messageId)
    (hintent : (pickup.native.any fun native => native.phase == .intent) = true)
    (hcomplete : previousComplete env snapshot mailbox = true) (hidle : snapshot.state = .idle)
    (hcontext : env.contextPending = false) :
    (repair env snapshot ledger pickup mailbox).1 =
      [.writeInput (queuedInput env msg pickup.injectedAt)] := by
  simp [repair, hslot, hintent, hcomplete, hidle, hid, hcontext]

variable {held : RuntimeInput}

theorem endReceipt_writes :
    .writeInput input ∉ endReceipt env snapshot pickup held := by
  unfold endReceipt
  split
  · split <;> simp
  · simp

theorem settleAccepted_writes :
    .writeInput input ∉ (settleAccepted env snapshot key cursors pickup held).1 := by
  by_cases hended : pickupEnded env snapshot held = true
  · have hreceipt : .writeInput input ∉ endReceipt env snapshot pickup held := endReceipt_writes
    rw [settleAccepted_ended hended]
    by_cases hcond : pickup.conditional = true <;> simp [hreceipt, hcond]
  · rw [settleAccepted_open (by simpa using hended)]
    simp

/-- With a pickup a native pass writes the mailbox only as the repair of another letter's place. -/
theorem deliverLocked_pickup {dateParse : String → Option Int} {acked : Finset String}
    (hpickup : cursors.pickups key = some pickup)
    (h : .writeInput input ∈ (deliverLocked dateParse env key ledger cursors acked mailbox).1) :
    ∃ snapshot, env.snapshot = some snapshot ∧ env.sameIdentity = true ∧
      (∀ held, mailbox = some held → held.messageId ≠ pickup.messageId) ∧
      .writeInput input ∈ (repair env snapshot ledger pickup mailbox).1 := by
  have hpending : pendingMessageId dateParse ledger key cursors acked env.now =
      some pickup.messageId := by
    simp [pendingMessageId, hpickup]
  simp only [deliverLocked, hpending, hpickup] at h
  split at h
  · simp at h
  · next snapshot hlive =>
    split at h
    · simp at h
    · next hsame =>
      split at h
      · exact ⟨snapshot, hlive, by simpa using hsame, by simp, h⟩
      · next held =>
        split at h
        · next hother =>
          refine ⟨snapshot, hlive, by simpa using hsame, ?_, h⟩
          intro other hheld
          obtain rfl := Option.some.inj hheld
          exact hother
        · split at h
          · unfold awaitOwner at h
            split at h
            · simp at h
            · split at h <;> simp at h
          · exact absurd h settleAccepted_writes

/-- What a pass can do: only holds or nothing, a throw, a repair, the settling of an accepted
letter, or the dispatch of the picked one. -/
theorem deliverLocked_cases (dateParse : String → Option Int) (env : PassEnv)
    (recipientKey : String) (ledger : Ledger) (cursors : ChatCursors) (acked : Finset String)
    (mailbox : Option RuntimeInput) :
    let actions := (deliverLocked dateParse env recipientKey ledger cursors acked mailbox).1
    (actions = [] ∨ (∃ messageId reason, actions = [.hold messageId reason]) ∨
      ∃ error, actions = [.refuse error]) ∨
    (∃ snapshot pickup, cursors.pickups recipientKey = some pickup ∧
      (∀ input, mailbox = some input → input.messageId ≠ pickup.messageId) ∧
      actions = (repair env snapshot ledger pickup mailbox).1) ∨
    (∃ snapshot pickup input, cursors.pickups recipientKey = some pickup ∧
      mailbox = some input ∧ input.messageId = pickup.messageId ∧ input.phase = .accepted ∧
      actions = (settleAccepted env snapshot recipientKey cursors pickup input).1) ∨
    (∃ pick, cursors.pickups recipientKey = none ∧
      (pickPendingDelivery dateParse ledger recipientKey
        (position cursors.delivered recipientKey) acked env.now).1 = some pick ∧
      actions = (dispatch env recipientKey cursors pick).1) := by
  intro actions
  simp only [actions]
  unfold deliverLocked
  simp only
  split
  · exact Or.inl (Or.inl rfl)
  split
  · exact Or.inl (Or.inr (Or.inl ⟨_, _, rfl⟩))
  split
  · exact Or.inl (Or.inr (Or.inr ⟨_, rfl⟩))
  next snapshot _ _ =>
  split
  · next pickup hpickup =>
    split
    · exact Or.inr (Or.inl ⟨snapshot, pickup, hpickup, by simp, rfl⟩)
    · next input =>
      split
      · next hother =>
        refine Or.inr (Or.inl ⟨snapshot, pickup, hpickup, ?_, rfl⟩)
        rintro other ⟨⟩
        exact hother
      · next hsame =>
        split
        · unfold awaitOwner
          split
          · exact Or.inl (Or.inr (Or.inl ⟨_, _, rfl⟩))
          · split
            · exact Or.inl (Or.inr (Or.inl ⟨_, _, rfl⟩))
            · exact Or.inl (Or.inl rfl)
        · next hphase =>
          exact Or.inr (Or.inr (Or.inl ⟨snapshot, pickup, input, hpickup, rfl,
            not_not.mp hsame, not_not.mp hphase, rfl⟩))
  · next hpickup =>
    split
    · exact Or.inl (Or.inl rfl)
    · next pick hpick =>
      split
      · exact Or.inl (Or.inr (Or.inl ⟨_, _, rfl⟩))
      · split
        · exact Or.inl (Or.inr (Or.inl ⟨_, _, rfl⟩))
        · split
          · exact Or.inl (Or.inr (Or.inl ⟨_, _, rfl⟩))
          · exact Or.inr (Or.inr (Or.inr ⟨pick, hpickup, hpick, rfl⟩))

end Ccmux.Chat.NativeRuntime
