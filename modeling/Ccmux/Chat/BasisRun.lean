/- Module: Ccmux/Chat/BasisRun
   source: src/chat/communicationBasis.ts, src/chat/localMessages.ts, src/commands/msg.ts,
     src/commands/relay.ts, src/control/message.ts, src/commands/receiveChat.ts, src/fleet/flush.ts
   digest: What the letters of one machine stand on, over its sends, receipts and passes. -/

import Ccmux.Chat.CommunicationBasis
import Ccmux.Fleet.FlushRun
import Mathlib

namespace Ccmux.Chat.BasisRun

open Ccmux.Chat.Admission
open Ccmux.Chat.CommunicationBasis
open Ccmux.Chat.Envelope
open Ccmux.Chat.Identity
open Ccmux.Chat.Message
open Ccmux.Fleet.Flush (RemoteResult Pass slots flushOne flushOutbox flushOutbox_outbox mem_acked
  mem_slots readAnswer_delivered)
open Ccmux.Fleet.Outbox
open Ccmux.Lib.Machine

/-- A letter before its basis is resolved; the id is drawn, or given by the control request. -/
structure Letter where
  id : String
  ts : String
  sender : ChatPrincipal
  target : ChatTarget
  body : String
  task : Option String
  defer : Bool
  onBehalfOf : Option String
  notBefore : Option String
  evidence : Option CommunicationAuthorization

/-- What a control request adds to the envelope. -/
structure ControlFields where
  origin : MessageOrigin
  notification : NotificationAudience
  registrationGeneration : Option String
  controlFingerprint : String
  turnOptions : Option AcceptedTurnOptions
  images : Option (List AttachmentReference)

/-- The machine: its registry and ledger, its outbox and acks. `composed` are the letters accepted
from its own senders, `received` those of the transport, and `landed` the letters that the ledger of
another machine holds. -/
structure World where
  receiver : Receiver
  flush : Ccmux.Fleet.Flush.World
  composed : List Envelope
  received : List Envelope
  landed : List Envelope

def principalMachine : ChatPrincipal → String
  | .managed peer => peer.machine
  | .codexApp peer => peer.machine
  | .cli machine => machine
  | .service machine _ => machine

/-- The recipient's ledger is the one of this machine. -/
def isHere (rcPrefix : String) : ChatTarget → Bool
  | .managed peer => peer.machine == rcPrefix
  | .codexApp peer => peer.machine == rcPrefix
  | _ => true

/-- A fresh id is one of no earlier letter. -/
def isFresh (w : World) (id : String) : Bool := decide (id ∉ w.composed.map fun msg => msg.id)

def accepted (answer : RemoteResult) : Bool := !answer.transportFailed && answer.code == 0

/-- The records of this machine as a send reads them. -/
def World.records (w : World) : String → Option LocalMessageRecord :=
  localMessageLookup w.receiver.ledger w.flush.outbox w.flush.acked

inductive Event where
  | msg (letter : Letter)
  | note (letter : Letter)
  | remote (letter : Letter) (answer : RemoteResult) (detail : String) (stored written : Bool)
  | control (letter : Letter) (fields : ControlFields)
  | receive (caller : Caller) (raw : Option Envelope)
  | pass (p : Pass) (stored : Outbound → Bool)
  | register (sessions : List Registration) (appThreads : String → Option CodexAppPeer)

section
variable (b : Builtins) (dateParse : String → Option Int)

/-- The envelope of a letter, when its basis is resolved. -/
def compose (letter : Letter) (lookup : Option (String → Option LocalMessageRecord)) :
    Except String Envelope :=
  (requireOriginatingBasis b letter.sender letter.target letter.evidence lookup letter.task).map
    fun draft =>
      buildEnvelope letter.id letter.ts letter.sender letter.target letter.body
        { task := letter.task
          defer := letter.defer
          onBehalfOf := letter.onBehalfOf
          notBefore := letter.notBefore
          communicationAuthorization := letter.evidence
          communicationReceipt := draft }

/-- The envelope of a control request: the same receipt, under the fields of the request. -/
def controlEnvelope (fields : ControlFields) (envelope : Envelope) : Envelope :=
  { envelope with
    origin := some fields.origin
    notification := some fields.notification
    registrationGeneration := fields.registrationGeneration
    controlFingerprint := some fields.controlFingerprint
    turnOptions := fields.turnOptions
    images := fields.images }

/-- A letter of this machine is appended to its own ledger. -/
def World.keep (w : World) (row : Envelope) : World :=
  { w with
    receiver := { w.receiver with ledger := w.receiver.ledger ++ [some row] }
    composed := w.composed ++ [row] }

/-- A letter for another machine leaves its row in the outbox, unless the write fails. -/
def World.post (w : World) (envelope : Envelope) (row : Option Outbound) (stored : Bool) : World :=
  { w with
    flush := { w.flush with outbox := w.flush.outbox ++ row.toList }
    composed := w.composed ++ [envelope]
    landed := if stored then w.landed ++ [envelope] else w.landed }

/-- The letters of a pass that their recipient stores. -/
def landing (w : World) (p : Pass) (stored : Outbound → Bool) : List Envelope :=
  ((slots dateParse w.flush p).filter fun rec =>
    (flushOne p.config (p.answer rec) rec).attempts && stored rec).map Outbound.envelope

/-- The commands `msg` and `relay`, the notes that need no evidence, the control server, the
transport-only receiver, and a drain pass. A hop that answers with success has stored the letter. -/
@[grind =]
def step (w : World) : Event → Option World
  | .msg letter =>
    if isFresh w letter.id && principalMachine letter.sender == w.receiver.rcPrefix &&
        isHere w.receiver.rcPrefix letter.target &&
        requireCommunicationAuthorization letter.sender (principalOrigin letter.sender)
          letter.evidence then
      match compose b letter (some w.records) with
      | .error _ => some w
      | .ok envelope =>
        match appendMessage w.receiver envelope with
        | none => some w
        | some row => some (w.keep row)
    else none
  | .note letter =>
    if isFresh w letter.id && principalMachine letter.sender == w.receiver.rcPrefix &&
        isHere w.receiver.rcPrefix letter.target && letter.evidence.isNone then
      match compose b letter none with
      | .error _ => some w
      | .ok envelope =>
        match appendMessage w.receiver envelope with
        | none => some w
        | some row => some (w.keep row)
    else none
  | .remote letter answer detail stored written =>
    if isFresh w letter.id && principalMachine letter.sender == w.receiver.rcPrefix &&
        !isHere w.receiver.rcPrefix letter.target && (!accepted answer || stored) &&
        requireCommunicationAuthorization letter.sender (principalOrigin letter.sender)
          letter.evidence then
      match compose b letter (some w.records) with
      | .error _ => some w
      | .ok envelope =>
        let row : Outbound := ⟨envelope, ⟨accepted answer, detail⟩⟩
        some (w.post envelope (if written then some row else none) stored)
    else none
  | .control letter fields =>
    if isHere w.receiver.rcPrefix letter.target &&
        requireCommunicationAuthorization letter.sender fields.origin letter.evidence then
      let lookup :=
        if principalMachine letter.sender = w.receiver.rcPrefix then some w.records else none
      match compose b letter lookup with
      | .error _ => some w
      | .ok envelope =>
        match admitOnce w.receiver w.receiver.ledger (controlEnvelope fields envelope) with
        | .append row => some (w.keep row)
        | _ => some w
    else none
  | .receive caller raw =>
    match receiveGate w.receiver caller raw with
    | .error _ => some w
    | .ok msg =>
      match admitOnce w.receiver w.receiver.ledger msg with
      | .append row =>
        some
          { w with
            receiver := { w.receiver with ledger := w.receiver.ledger ++ [some row] }
            received := w.received ++ [row] }
      | _ => some w
  | .pass p stored =>
    if w.flush.now ≤ p.now ∧
        ∀ rec ∈ slots dateParse w.flush p, accepted (p.answer rec) = true → stored rec = true then
      some
        { w with
          flush := flushOutbox dateParse w.flush p
          landed := w.landed ++ landing dateParse w p stored }
    else none
  | .register sessions appThreads =>
    some { w with receiver := { w.receiver with sessions := sessions, appThreads := appThreads } }

end

def World.start (rcPrefix : String) (sessions : List Registration)
    (appThreads : String → Option CodexAppPeer) : World :=
  { receiver := ⟨rcPrefix, sessions, appThreads, []⟩
    flush := ⟨[], [], 0, []⟩
    composed := []
    received := []
    landed := [] }

@[grind =]
def basisOf (msg : Envelope) : Option CommunicationBasis :=
  msg.communicationAuthorization.bind CommunicationAuthorization.basis

/-- The machine holds a record of the letter. -/
def Held (w : World) (msg : Envelope) : Prop :=
  some msg ∈ w.receiver.ledger ∨ ∃ sent ∈ w.flush.outbox, sent.envelope = msg

/-- The ledger of the letter's recipient holds it. -/
def StoredByRecipient (w : World) (msg : Envelope) : Prop :=
  (some msg ∈ w.receiver.ledger ∧ isHere w.receiver.rcPrefix msg.target = true) ∨ msg ∈ w.landed

/-- The evidence of the letter names a record this machine holds. -/
def References (b : Builtins) (w : World) (msg other : Envelope) : Prop :=
  Held w other ∧ ∃ auth ref, msg.communicationAuthorization = some auth ∧
    parseLedgerMessageRef b auth.sourceMessageRef = some ref ∧ ref.messageId = other.id

def SameCorrespondence (msg other : Envelope) : Prop :=
  chatPrincipalKey other.sender = chatPrincipalKey msg.sender ∧
    chatTargetKey other.target = chatTargetKey msg.target ∧ other.task = msg.task

def Opening (msg : Envelope) : Prop :=
  basisOf msg = some .userInstruction ∨ basisOf msg = some .peerLetter

/-- The opening letter a continuation goes back to, with the receipt both carry. -/
def Rooted (b : Builtins) (w : World) (msg root : Envelope) : Prop :=
  Relation.ReflTransGen (References b w) msg root ∧ Opening root ∧ SameCorrespondence msg root ∧
    ∃ receipt, msg.communicationReceipt = some receipt ∧ root.communicationReceipt = some receipt

/-- A continuation stands on a letter its recipient holds, and carries the receipt of the letter
that opened the correspondence. -/
def Continues (b : Builtins) (w : World) (msg : Envelope) : Prop :=
  (∃ other, References b w msg other ∧ SameCorrespondence msg other ∧ StoredByRecipient w other) ∧
    ∃ root, Rooted b w msg root

/-- A letter of this very peer to the sender holds the quoted words. -/
def Quotes (b : Builtins) (w : World) (msg : Envelope) : Prop :=
  ∃ letter, References b w msg letter ∧
    chatPrincipalKey letter.sender = chatTargetKey msg.target ∧
    chatTargetKey letter.target = chatPrincipalKey msg.sender ∧ letter.task = msg.task ∧
    ∃ auth quote, msg.communicationAuthorization = some auth ∧
      auth.userAuthorizationQuote = some quote ∧ includes letter.body quote = true

/-- Every letter accepted here stands on what its basis says. -/
def Permitted (b : Builtins) (w : World) : Prop :=
  ∀ msg ∈ w.composed,
    (basisOf msg = some .threadContinuation → Continues b w msg) ∧
      (basisOf msg = some .peerLetter → Quotes b w msg)

/-- Nothing of the transport that a continuation names is itself a continuation in the name of the
letter's sender. -/
def Unforged (b : Builtins) (w : World) (letter : Letter) : Prop :=
  ∀ auth ref, letter.evidence = some auth → auth.basis = some .threadContinuation →
    parseLedgerMessageRef b auth.sourceMessageRef = some ref → ∀ other ∈ w.received,
      other.id = ref.messageId → basisOf other = some .threadContinuation →
        chatPrincipalKey other.sender ≠ chatPrincipalKey letter.sender

/-- What a pass settles without success, its recipient holds. -/
def SettlesStored (dateParse : String → Option Int) (w : World) (p : Pass)
    (stored : Outbound → Bool) : Prop :=
  ∀ rec ∈ slots dateParse w.flush p, p.written (outboundId rec) = true →
    flushOne p.config (p.answer rec) rec = .unaddressable ∨
      flushOne p.config (p.answer rec) rec = .refused →
    rec.envelope ∈ w.landed ++ landing dateParse w p stored

def Allowed (b : Builtins) (dateParse : String → Option Int) (w : World) : Event → Prop
  | .msg letter => Unforged b w letter
  | .remote letter _ _ _ _ => Unforged b w letter
  | .control letter _ => Unforged b w letter
  | .pass p stored => SettlesStored dateParse w p stored
  | _ => True

section
variable {b : Builtins} {dateParse : String → Option Int} {w v : World}

/-- What a machine holds, it goes on holding. -/
structure Onward (w v : World) : Prop where
  ledger : ∀ msg, some msg ∈ w.receiver.ledger → some msg ∈ v.receiver.ledger
  outbox : ∀ sent ∈ w.flush.outbox, sent ∈ v.flush.outbox
  landed : ∀ msg ∈ w.landed, msg ∈ v.landed
  machine : v.receiver.rcPrefix = w.receiver.rcPrefix

variable {msg row : Envelope} {letter : Letter}
  {lookup : Option (String → Option LocalMessageRecord)}

theorem Held.onward (hon : Onward w v) (h : Held w msg) : Held v msg := by
  rcases h with hledger | ⟨sent, hsent, hmsg⟩
  · exact Or.inl (hon.ledger msg hledger)
  · exact Or.inr ⟨sent, hon.outbox sent hsent, hmsg⟩

theorem StoredByRecipient.onward (hon : Onward w v)
    (h : StoredByRecipient w msg) : StoredByRecipient v msg := by
  rcases h with ⟨hledger, hhere⟩ | hlanded
  · refine Or.inl ⟨hon.ledger msg hledger, ?_⟩
    rw [hon.machine]
    exact hhere
  · exact Or.inr (hon.landed msg hlanded)

theorem References.onward {other : Envelope} (hon : Onward w v)
    (h : References b w msg other) : References b v msg other :=
  ⟨h.1.onward hon, h.2⟩

theorem Continues.onward (hon : Onward w v) (h : Continues b w msg) :
    Continues b v msg := by
  obtain ⟨⟨other, href, hsame, hstored⟩, root, hchain, hrest⟩ := h
  refine ⟨⟨other, href.onward hon, hsame, hstored.onward hon⟩, root, ?_, hrest⟩
  have hmono : ∀ first second, References b w first second → References b v first second :=
    fun _ _ href => href.onward hon
  exact Relation.ReflTransGen.mono hmono _ _ hchain

theorem Quotes.onward (hon : Onward w v) (h : Quotes b w msg) :
    Quotes b v msg := by
  obtain ⟨letter, href, hrest⟩ := h
  exact ⟨letter, href.onward hon, hrest⟩

/-- The fields an accepted letter has from its sender, and the receipt its basis gives it. -/
structure Stands (b : Builtins) (lookup : Option (String → Option LocalMessageRecord))
    (letter : Letter) (msg : Envelope) : Prop where
  id : msg.id = letter.id
  sender : msg.sender = letter.sender
  target : msg.target = letter.target
  task : msg.task = letter.task
  evidence : msg.communicationAuthorization = letter.evidence
  receipt : ∃ draft, Resolved b letter.sender letter.target letter.task lookup letter.evidence draft ∧
    msg.communicationReceipt = draft.map fun found => found.rooted letter.id

theorem compose_ok (h : compose b letter lookup = .ok msg) : Stands b lookup letter msg := by
  unfold compose at h
  cases hbasis : requireOriginatingBasis b letter.sender letter.target letter.evidence lookup
      letter.task with
  | error text =>
    rw [hbasis] at h
    cases h
  | ok draft =>
    rw [hbasis] at h
    obtain rfl := Except.ok.inj h
    exact ⟨rfl, rfl, rfl, rfl, rfl, draft, requireOriginatingBasis_ok hbasis, rfl⟩

theorem Stands.control (fields : ControlFields) (h : Stands b lookup letter msg) :
    Stands b lookup letter (controlEnvelope fields msg) :=
  ⟨h.id, h.sender, h.target, h.task, h.evidence, h.receipt⟩

theorem same_fields (h : sameRequest row msg = true) :
    row.id = msg.id ∧ row.sender = msg.sender ∧ row.target = msg.target ∧ row.task = msg.task ∧
      row.communicationAuthorization = msg.communicationAuthorization ∧
      row.communicationReceipt = msg.communicationReceipt := by
  have heq : ({ row with turnOptions := none } : Envelope) = { msg with turnOptions := none } := by
    simp only [sameRequest, Bool.and_eq_true, decide_eq_true_eq] at h
    exact h.1
  refine ⟨?_, ?_, ?_, ?_, ?_, ?_⟩
  · simpa using congrArg (fun msg : Envelope => msg.id) heq
  · simpa using congrArg (fun msg : Envelope => msg.sender) heq
  · simpa using congrArg (fun msg : Envelope => msg.target) heq
  · simpa using congrArg (fun msg : Envelope => msg.task) heq
  · simpa using congrArg Envelope.communicationAuthorization heq
  · simpa using congrArg Envelope.communicationReceipt heq

theorem Stands.stored (h : Stands b lookup letter msg) (hsame : sameRequest row msg = true) :
    Stands b lookup letter row := by
  obtain ⟨hid, hsender, htarget, htask, hauth, hreceipt⟩ := same_fields hsame
  obtain ⟨draft, hresolved, hdraft⟩ := h.receipt
  refine ⟨hid.trans h.id, hsender.trans h.sender, htarget.trans h.target, htask.trans h.task,
    hauth.trans h.evidence, draft, hresolved, ?_⟩
  rw [hreceipt, hdraft]

theorem admitOnce_append {r : Receiver} (h : admitOnce r r.ledger msg = .append row) :
    sameRequest row msg = true := by
  unfold admitOnce at h
  split at h
  · split at h <;> cases h
  · split at h
    · rename_i found happend
      obtain rfl := Verdict.append.inj h
      exact appendMessage_same happend
    · cases h

theorem basis_of_required {sender : ChatPrincipal} {evidence : Option CommunicationAuthorization}
    (h : requireCommunicationAuthorization sender (principalOrigin sender) evidence = true) :
    ∃ auth, evidence = some auth ∧ auth.basis.isSome = true := by
  cases evidence with
  | some auth => exact ⟨auth, rfl, h⟩
  | none =>
    cases sender with
    | service machine transport => cases transport <;> cases h
    | _ => cases h

/-- The transport brings letters for this machine, with a stated basis. -/
theorem receiveGate_ok {r : Receiver} {caller : Caller} {raw : Option Envelope}
    (h : receiveGate r caller raw = .ok msg) :
    isHere r.rcPrefix msg.target = true ∧ (basisOf msg).isSome = true := by
  cases raw with
  | none =>
    unfold receiveGate at h
    split at h
    · cases h
    · split at h <;> cases h
  | some passed =>
    obtain rfl := receiveGate_passed h
    simp only [receiveGate] at h
    have hunproved : ∀ {unreceipted : Bool},
        (!requireCommunicationAuthorization msg.sender (principalOrigin msg.sender)
          msg.communicationAuthorization || unreceipted) ≠ true →
        (basisOf msg).isSome = true := by
      intro unreceipted hproved
      have hrequired : requireCommunicationAuthorization msg.sender (principalOrigin msg.sender)
          msg.communicationAuthorization = true := by
        by_contra hnot
        exact hproved (by simp [hnot])
      obtain ⟨auth, hauth, hbasis⟩ := basis_of_required hrequired
      simpa [basisOf, hauth] using hbasis
    split at h
    · cases h
    · split at h
      · cases h
      · split at h
        · rename_i target htarget
          split at h
          · cases h
          · rename_i hproved
            split at h
            · cases h
            · rename_i hmachine
              refine ⟨?_, hunproved hproved⟩
              simpa [isHere, htarget] using hmachine
        · rename_i target htarget
          split at h
          · cases h
          · rename_i hproved
            split at h
            · cases h
            · rename_i hmachine
              refine ⟨?_, hunproved hproved⟩
              simpa [isHere, htarget] using hmachine
        · cases h

/-- What is true of the machine's records, as long as its passes settle what is stored. -/
structure Kept (b : Builtins) (w : World) : Prop where
  held : ∀ msg, Held w msg → msg ∈ w.composed ∨ msg ∈ w.received
  targets : ∀ msg, some msg ∈ w.receiver.ledger → isHere w.receiver.rcPrefix msg.target = true
  sent : ∀ sent ∈ w.flush.outbox, sent.envelope ∈ w.composed
  ids : (w.flush.outbox.map outboundId).Nodup
  acked : ∀ id ∈ w.flush.acked, id ∈ w.flush.outbox.map outboundId
  landed : ∀ sent ∈ w.flush.outbox, sent.result.ok = true ∨ outboundId sent ∈ w.flush.acked →
    sent.envelope ∈ w.landed
  stated : ∀ msg, msg ∈ w.composed ∨ msg ∈ w.received →
    msg.communicationAuthorization.isSome = true → (basisOf msg).isSome = true
  permitted : Permitted b w

theorem Kept.record {task : Option String} {auth : CommunicationAuthorization}
    {ref : LedgerMessageRef} {record : Envelope} (hw : Kept b w)
    (h : resolveReference b w.records task auth = .ok (ref, record)) :
    Held w record ∧ StoredByRecipient w record ∧ ref.messageId = record.id := by
  obtain ⟨_, hlookup, _⟩ := resolveReference_ok h
  obtain ⟨hid, hledger | ⟨sent, hsent, henvelope, hreached⟩⟩ := localMessageLookup_cases hlookup
  · exact ⟨Or.inl hledger, Or.inl ⟨hledger, hw.targets record hledger⟩, hid.symm⟩
  · refine ⟨Or.inr ⟨sent, hsent, henvelope⟩, Or.inr ?_, hid.symm⟩
    have hlanded := hw.landed sent hsent (by
      rcases hreached rfl with hok | hacked
      · exact Or.inl hok
      · have hsame : outboundId sent = ref.messageId := by
          rw [outboundId, henvelope]
          exact hid
        exact Or.inr (hsame ▸ hacked))
    have hrecord : sent.envelope = record := henvelope
    rw [← hrecord]
    exact hlanded

/-- A new continuation goes back to the letter its record goes back to, or to the record itself. -/
theorem Kept.continues {auth : CommunicationAuthorization} {ref : LedgerMessageRef}
    {record : Envelope} {draft : DraftReceipt} (hw : Kept b w)
    (hunforged : Unforged b w letter) (hstands : Stands b (some w.records) letter msg)
    (hauth : letter.evidence = some auth) (hbasis : auth.basis = some .threadContinuation)
    (hreceipt : msg.communicationReceipt = some (draft.rooted letter.id))
    (hreference : resolveReference b w.records letter.task auth = .ok (ref, record))
    (hresolved : resolveContinuation letter.sender letter.target ref record = .ok draft) :
    Continues b w msg := by
  obtain ⟨hheld, hstored, hid⟩ := hw.record hreference
  obtain ⟨hparse, _, htask⟩ := resolveReference_ok hreference
  obtain ⟨hsender, htarget, _, hsome, receipt, hrecord, rfl⟩ := resolveContinuation_ok hresolved
  rw [rooted_ofReceipt] at hreceipt
  have href : References b w msg record :=
    ⟨hheld, auth, ref, hstands.evidence.trans hauth, hparse, hid⟩
  have hsame : SameCorrespondence msg record := by
    refine ⟨?_, ?_, ?_⟩
    · rw [hstands.sender]
      exact hsender
    · rw [hstands.target]
      exact htarget
    · rw [hstands.task]
      exact htask
  refine ⟨⟨record, href, hsame, hstored⟩, ?_⟩
  have hopening : Opening record → ∃ root, Rooted b w msg root := fun hopen =>
    ⟨record, Relation.ReflTransGen.single href, hopen, hsame, receipt, hreceipt, hrecord⟩
  have hstated := hw.stated record (hw.held record hheld) hsome
  obtain ⟨basis, hof⟩ := Option.isSome_iff_exists.mp hstated
  cases basis with
  | userInstruction => exact hopening (Or.inl hof)
  | peerLetter => exact hopening (Or.inr hof)
  | threadContinuation =>
    rcases hw.held record hheld with hcomposed | hreceived
    · obtain ⟨_, root, hchain, hopen, hroot, carried, hcarried, hopened⟩ :=
        (hw.permitted record hcomposed).1 hof
      refine ⟨root, Relation.ReflTransGen.head href hchain, hopen, ?_, carried, ?_, hopened⟩
      · exact ⟨hroot.1.trans hsame.1, hroot.2.1.trans hsame.2.1, hroot.2.2.trans hsame.2.2⟩
      · rw [hreceipt, ← hrecord, hcarried]
    · exact absurd hsender (hunforged auth ref hauth hbasis hparse record hreceived hid.symm hof)

/-- What is accepted from a sender stands on what its basis says. -/
theorem Kept.accepts (hw : Kept b w)
    (hlookup : ∀ records, lookup = some records → records = w.records)
    (hunforged : Unforged b w letter) (hstands : Stands b lookup letter msg) :
    (basisOf msg = some .threadContinuation → Continues b w msg) ∧
      (basisOf msg = some .peerLetter → Quotes b w msg) ∧
      (msg.communicationAuthorization.isSome = true → (basisOf msg).isSome = true) := by
  obtain ⟨draft, hresolved, hreceipt⟩ := hstands.receipt
  have hof : basisOf msg = letter.evidence.bind CommunicationAuthorization.basis := by
    rw [basisOf, hstands.evidence]
  rw [hof, hstands.evidence]
  generalize hevidence : letter.evidence = evidence at hresolved
  cases hresolved with
  | unstated =>
    refine ⟨?_, ?_, ?_⟩ <;> intro h <;> cases h
  | instruction hbasis =>
    simp only [Option.bind_some, hbasis, Option.isSome_some]
    refine ⟨?_, ?_, fun _ => trivial⟩
    · intro h
      cases h
    · intro h
      cases h
  | letter hbasis hrecords hreference hquoted =>
    obtain rfl := hlookup _ hrecords
    simp only [Option.bind_some, hbasis, Option.isSome_some]
    refine ⟨?_, fun _ => ?_, fun _ => trivial⟩
    · intro h
      cases h
    · obtain ⟨hheld, _, hid⟩ := hw.record hreference
      obtain ⟨hparse, _, htask⟩ := resolveReference_ok hreference
      obtain ⟨htarget, hsender, quote, hquote, hverbatim⟩ := resolvePeerLetter_ok hquoted
      have hauth := hstands.evidence.trans hevidence
      refine ⟨_, ⟨hheld, _, _, hauth, hparse, hid⟩, ?_, ?_, ?_, _, quote, hauth, hquote, hverbatim⟩
      · rw [hstands.target]
        exact hsender
      · rw [hstands.sender]
        exact htarget
      · rw [hstands.task]
        exact htask
  | continuation hbasis hrecords hreference hcontinued =>
    obtain rfl := hlookup _ hrecords
    subst hrecords
    simp only [Option.bind_some, hbasis, Option.isSome_some]
    refine ⟨fun _ => ?_, ?_, fun _ => trivial⟩
    · exact hw.continues hunforged hstands hevidence hbasis hreceipt hreference hcontinued
    · intro h
      cases h

theorem Permitted.onward (hon : Onward w v) (hw : Permitted b w)
    (hcomposed : ∀ msg ∈ v.composed, msg ∈ w.composed ∨
      ((basisOf msg = some .threadContinuation → Continues b w msg) ∧
        (basisOf msg = some .peerLetter → Quotes b w msg))) : Permitted b v := by
  intro msg hmsg
  have hstands : (basisOf msg = some .threadContinuation → Continues b w msg) ∧
      (basisOf msg = some .peerLetter → Quotes b w msg) := by
    rcases hcomposed msg hmsg with hold | hnew
    · exact hw msg hold
    · exact hnew
  exact ⟨fun h => (hstands.1 h).onward hon, fun h => (hstands.2 h).onward hon⟩

theorem Kept.keep (hw : Kept b w)
    (hhere : isHere w.receiver.rcPrefix row.target = true)
    (hnew : (basisOf row = some .threadContinuation → Continues b w row) ∧
      (basisOf row = some .peerLetter → Quotes b w row) ∧
      (row.communicationAuthorization.isSome = true → (basisOf row).isSome = true)) :
    Kept b (w.keep row) := by
  have hon : Onward w (w.keep row) :=
    ⟨fun _ h => List.mem_append_left _ h, fun _ h => h, fun _ h => h, rfl⟩
  have hcomposed : ∀ msg, msg ∈ (w.keep row).composed → msg ∈ w.composed ∨ msg = row := by
    intro msg hmsg
    simpa [World.keep] using hmsg
  refine ⟨?_, ?_, ?_, hw.ids, hw.acked, hw.landed, ?_, ?_⟩
  · intro msg hheld
    show msg ∈ w.composed ++ [row] ∨ msg ∈ w.received
    have hcases : Held w msg ∨ msg = row := by
      rcases hheld with hledger | hsent
      · rcases List.mem_append.mp hledger with hold | hlast
        · exact Or.inl (Or.inl hold)
        · exact Or.inr (Option.some.inj (List.mem_singleton.mp hlast))
      · exact Or.inl (Or.inr hsent)
    rcases hcases with hold | rfl
    · exact (hw.held msg hold).imp (List.mem_append_left _) fun h => h
    · exact Or.inl (by simp)
  · intro msg hledger
    rcases List.mem_append.mp hledger with hold | hlast
    · exact hw.targets msg hold
    · obtain rfl := Option.some.inj (List.mem_singleton.mp hlast)
      exact hhere
  · intro sent hsent
    exact List.mem_append_left _ (hw.sent sent hsent)
  · intro msg hmsg hsome
    rcases hmsg with hmsg | hreceived
    · rcases hcomposed msg hmsg with hold | rfl
      · exact hw.stated msg (Or.inl hold) hsome
      · exact hnew.2.2 hsome
    · exact hw.stated msg (Or.inr hreceived) hsome
  · refine hw.permitted.onward hon fun msg hmsg => ?_
    rcases hcomposed msg hmsg with hold | rfl
    · exact Or.inl hold
    · exact Or.inr ⟨hnew.1, hnew.2.1⟩

theorem Kept.post {envelope : Envelope} {row : Option Outbound} {stored : Bool} (hw : Kept b w)
    (hfresh : isFresh w envelope.id = true)
    (hrow : ∀ sent, row = some sent → sent.envelope = envelope ∧
      (sent.result.ok = true → stored = true))
    (hunforged : Unforged b w letter) (hstands : Stands b (some w.records) letter envelope) :
    Kept b (w.post envelope row stored) := by
  have hnew := hw.accepts (fun _ h => (Option.some.inj h).symm) hunforged hstands
  have hlanded : ∀ msg ∈ w.landed, msg ∈ (w.post envelope row stored).landed := by
    intro msg hmsg
    show msg ∈ if stored then w.landed ++ [envelope] else w.landed
    split
    · exact List.mem_append_left _ hmsg
    · exact hmsg
  have hon : Onward w (w.post envelope row stored) :=
    ⟨fun _ h => h, fun _ h => List.mem_append_left _ h, hlanded, rfl⟩
  have hcomposed : ∀ msg, msg ∈ (w.post envelope row stored).composed →
      msg ∈ w.composed ∨ msg = envelope := by
    intro msg hmsg
    simpa [World.post] using hmsg
  have hlast : envelope ∈ (w.post envelope row stored).composed := by
    simp [World.post]
  have hsent : ∀ sent, sent ∈ (w.post envelope row stored).flush.outbox →
      sent ∈ w.flush.outbox ∨ row = some sent := by
    intro sent hmem
    rcases List.mem_append.mp hmem with hold | hnew
    · exact Or.inl hold
    · exact Or.inr (by simpa using hnew)
  have habsent : envelope.id ∉ w.flush.outbox.map outboundId := by
    intro hin
    obtain ⟨sent, hold, hid⟩ := List.mem_map.mp hin
    have hnot : envelope.id ∉ w.composed.map fun msg => msg.id := by simpa [isFresh] using hfresh
    exact hnot (List.mem_map.mpr ⟨sent.envelope, hw.sent sent hold, hid⟩)
  refine ⟨?_, hw.targets, ?_, ?_, ?_, ?_, ?_, ?_⟩
  · intro msg hheld
    rcases hheld with hledger | ⟨sent, hmem, rfl⟩
    · exact (hw.held msg (Or.inl hledger)).imp (List.mem_append_left _) fun h => h
    · rcases hsent sent hmem with hold | hrow'
      · exact (hw.held _ (Or.inr ⟨sent, hold, rfl⟩)).imp (List.mem_append_left _) fun h => h
      · rw [(hrow sent hrow').1]
        exact Or.inl hlast
  · intro sent hmem
    rcases hsent sent hmem with hold | hrow'
    · exact List.mem_append_left _ (hw.sent sent hold)
    · rw [(hrow sent hrow').1]
      exact hlast
  · show ((w.flush.outbox ++ row.toList).map outboundId).Nodup
    cases row with
    | none => simpa using hw.ids
    | some sent =>
      have hid : outboundId sent = envelope.id := by rw [outboundId, (hrow sent rfl).1]
      rw [List.map_append]
      refine hw.ids.append (by simp) ?_
      intro id hold hnew
      have heq : id = outboundId sent := by simpa using hnew
      rw [heq, hid] at hold
      exact habsent hold
  · intro id hid
    show id ∈ (w.flush.outbox ++ row.toList).map outboundId
    rw [List.map_append]
    exact List.mem_append_left _ (hw.acked id hid)
  · intro sent hmem hreached
    rcases hsent sent hmem with hold | hrow'
    · exact hlanded _ (hw.landed sent hold hreached)
    · obtain ⟨henvelope, hok⟩ := hrow sent hrow'
      rcases hreached with hanswer | hacked
      · rw [henvelope]
        show envelope ∈ if stored then w.landed ++ [envelope] else w.landed
        rw [hok hanswer]
        simp
      · have hin := hw.acked _ hacked
        rw [outboundId, henvelope] at hin
        exact absurd hin habsent
  · intro msg hmsg hsome
    rcases hmsg with hmsg | hreceived
    · rcases hcomposed msg hmsg with hold | rfl
      · exact hw.stated msg (Or.inl hold) hsome
      · exact hnew.2.2 hsome
    · exact hw.stated msg (Or.inr hreceived) hsome
  · refine hw.permitted.onward hon fun msg hmsg => ?_
    rcases hcomposed msg hmsg with hold | rfl
    · exact Or.inl hold
    · exact Or.inr ⟨hnew.1, hnew.2.1⟩

theorem Kept.receive (hw : Kept b w)
    (hhere : isHere w.receiver.rcPrefix row.target = true) (hbasis : (basisOf row).isSome = true) :
    Kept b
      { w with
        receiver := { w.receiver with ledger := w.receiver.ledger ++ [some row] }
        received := w.received ++ [row] } := by
  refine ⟨?_, ?_, hw.sent, hw.ids, hw.acked, hw.landed, ?_, ?_⟩
  · intro msg hheld
    have hcases : Held w msg ∨ msg = row := by
      rcases hheld with hledger | hsent
      · rcases List.mem_append.mp hledger with hold | hlast
        · exact Or.inl (Or.inl hold)
        · exact Or.inr (Option.some.inj (List.mem_singleton.mp hlast))
      · exact Or.inl (Or.inr hsent)
    rcases hcases with hold | rfl
    · exact (hw.held msg hold).imp (fun h => h) (List.mem_append_left _)
    · exact Or.inr (List.mem_append_right _ (List.mem_singleton.mpr rfl))
  · intro msg hledger
    rcases List.mem_append.mp hledger with hold | hlast
    · exact hw.targets msg hold
    · obtain rfl := Option.some.inj (List.mem_singleton.mp hlast)
      exact hhere
  · intro msg hmsg hsome
    rcases hmsg with hcomposed | hreceived
    · exact hw.stated msg (Or.inl hcomposed) hsome
    · rcases List.mem_append.mp hreceived with hold | hlast
      · exact hw.stated msg (Or.inr hold) hsome
      · obtain rfl := List.mem_singleton.mp hlast
        exact hbasis
  · refine hw.permitted.onward ?_ fun msg hmsg => Or.inl hmsg
    exact ⟨fun _ h => List.mem_append_left _ h, fun _ h => h, fun _ h => h, rfl⟩

theorem settled_landed {p : Pass} {stored : Outbound → Bool} {rec : Outbound}
    (hanswers : ∀ rec ∈ slots dateParse w.flush p, accepted (p.answer rec) = true →
      stored rec = true)
    (hsettles : SettlesStored dateParse w p stored) (hslot : rec ∈ slots dateParse w.flush p)
    (houtcome : (flushOne p.config (p.answer rec) rec).settles = true)
    (hwritten : p.written (outboundId rec) = true) :
    rec.envelope ∈ w.landed ++ landing dateParse w p stored := by
  cases hone : flushOne p.config (p.answer rec) rec with
  | skipped => simp [hone, Ccmux.Fleet.Flush.Outcome.settles] at houtcome
  | queued => simp [hone, Ccmux.Fleet.Flush.Outcome.settles] at houtcome
  | unaddressable => exact hsettles rec hslot hwritten (Or.inl hone)
  | refused => exact hsettles rec hslot hwritten (Or.inr hone)
  | delivered =>
    have hanswer : Ccmux.Fleet.Flush.readAnswer (p.answer rec) = .delivered := by
      unfold flushOne at hone
      split at hone
      · cases hone
      · cases hone
      · exact hone
    obtain ⟨htransport, hcode⟩ := readAnswer_delivered hanswer
    have hstored := hanswers rec hslot (by simp [accepted, htransport, hcode])
    refine List.mem_append_right _ (List.mem_map.mpr ⟨rec, List.mem_filter.mpr ⟨hslot, ?_⟩, rfl⟩)
    simp [hone, Ccmux.Fleet.Flush.Outcome.attempts, hstored]

theorem Kept.pass {p : Pass} {stored : Outbound → Bool} (hw : Kept b w)
    (hanswers : ∀ rec ∈ slots dateParse w.flush p, accepted (p.answer rec) = true →
      stored rec = true)
    (hsettles : SettlesStored dateParse w p stored) :
    Kept b
      { w with
        flush := flushOutbox dateParse w.flush p
        landed := w.landed ++ landing dateParse w p stored } := by
  have houtbox : (flushOutbox dateParse w.flush p).outbox = w.flush.outbox :=
    flushOutbox_outbox w.flush p
  have hon : Onward w
      { w with
        flush := flushOutbox dateParse w.flush p
        landed := w.landed ++ landing dateParse w p stored } := by
    refine ⟨fun _ h => h, fun sent h => ?_, fun _ h => List.mem_append_left _ h, rfl⟩
    rw [houtbox]
    exact h
  refine ⟨?_, hw.targets, ?_, ?_, ?_, ?_, hw.stated, ?_⟩
  · intro msg hheld
    refine hw.held msg ?_
    rcases hheld with hledger | ⟨sent, hsent, hmsg⟩
    · exact Or.inl hledger
    · rw [houtbox] at hsent
      exact Or.inr ⟨sent, hsent, hmsg⟩
  · intro sent hsent
    rw [houtbox] at hsent
    exact hw.sent sent hsent
  · show ((flushOutbox dateParse w.flush p).outbox.map outboundId).Nodup
    rw [houtbox]
    exact hw.ids
  · intro id hid
    show id ∈ (flushOutbox dateParse w.flush p).outbox.map outboundId
    rw [houtbox]
    rcases mem_acked.mp hid with hold | ⟨rec, hslot, _, _, rfl⟩
    · exact hw.acked id hold
    · exact List.mem_map_of_mem (mem_slots hslot)
  · intro sent hsent hreached
    rw [houtbox] at hsent
    rcases hreached with hok | hacked
    · exact List.mem_append_left _ (hw.landed sent hsent (Or.inl hok))
    · rcases mem_acked.mp hacked with hold | ⟨rec, hslot, houtcome, hwritten, hid⟩
      · exact List.mem_append_left _ (hw.landed sent hsent (Or.inr hold))
      · have heq : rec = sent := List.inj_on_of_nodup_map hw.ids (mem_slots hslot) hsent hid
        rw [← heq]
        exact settled_landed hanswers hsettles hslot houtcome hwritten
  · exact hw.permitted.onward hon fun msg hmsg => Or.inl hmsg

/-- What the machine's own senders add to its ledger. -/
def Keeps (b : Builtins) (w v : World) (letter : Letter) : Prop :=
  v = w ∨ ∃ row lookup, (∀ records, lookup = some records → records = w.records) ∧
    isHere w.receiver.rcPrefix letter.target = true ∧ Stands b lookup letter row ∧ v = w.keep row

theorem step_msg (h : step b dateParse w (.msg letter) = some v) :
    Keeps b w v letter := by
  simp only [step] at h
  split at h
  · rename_i hguard
    simp only [Bool.and_eq_true] at hguard
    split at h
    · exact Or.inl (Option.some.inj h).symm
    · rename_i envelope hcompose
      split at h
      · exact Or.inl (Option.some.inj h).symm
      · rename_i row happend
        refine Or.inr ⟨row, some w.records, fun _ heq => (Option.some.inj heq).symm, hguard.1.2,
          ?_, (Option.some.inj h).symm⟩
        exact (compose_ok hcompose).stored (appendMessage_same happend)
  · cases h

theorem step_note (h : step b dateParse w (.note letter) = some v) :
    Keeps b w v letter ∧ letter.evidence = none := by
  simp only [step] at h
  split at h
  · rename_i hguard
    simp only [Bool.and_eq_true, Option.isNone_iff_eq_none] at hguard
    refine ⟨?_, hguard.2⟩
    split at h
    · exact Or.inl (Option.some.inj h).symm
    · rename_i envelope hcompose
      split at h
      · exact Or.inl (Option.some.inj h).symm
      · rename_i row happend
        refine Or.inr ⟨row, none, fun _ heq => (nomatch heq), hguard.1.2, ?_,
          (Option.some.inj h).symm⟩
        exact (compose_ok hcompose).stored (appendMessage_same happend)
  · cases h

theorem step_control {fields : ControlFields}
    (h : step b dateParse w (.control letter fields) = some v) : Keeps b w v letter := by
  simp only [step] at h
  split at h
  · rename_i hguard
    simp only [Bool.and_eq_true] at hguard
    split at h
    · exact Or.inl (Option.some.inj h).symm
    · rename_i envelope hcompose
      split at h
      · rename_i row happend
        have hstands := ((compose_ok hcompose).control fields).stored (admitOnce_append happend)
        refine Or.inr ⟨row, _, ?_, hguard.1, hstands, (Option.some.inj h).symm⟩
        intro records heq
        split at heq
        · exact (Option.some.inj heq).symm
        · cases heq
      · exact Or.inl (Option.some.inj h).symm
  · cases h

theorem step_remote {answer : RemoteResult} {detail : String} {stored written : Bool}
    (h : step b dateParse w (.remote letter answer detail stored written) = some v) :
    v = w ∨ ∃ envelope row, isFresh w envelope.id = true ∧
      (∀ sent, row = some sent → sent.envelope = envelope ∧
        (sent.result.ok = true → stored = true)) ∧
      Stands b (some w.records) letter envelope ∧ v = w.post envelope row stored := by
  simp only [step] at h
  split at h
  · rename_i hguard
    simp only [Bool.and_eq_true] at hguard
    split at h
    · exact Or.inl (Option.some.inj h).symm
    · rename_i envelope hcompose
      have hstands := compose_ok hcompose
      refine Or.inr ⟨envelope, _, ?_, ?_, hstands, (Option.some.inj h).symm⟩
      · rw [hstands.id]
        exact hguard.1.1.1.1
      · intro sent hrow
        split at hrow
        · obtain rfl := Option.some.inj hrow
          refine ⟨rfl, fun hok => ?_⟩
          have hanswer := hguard.1.2
          rw [show accepted answer = true from hok] at hanswer
          simpa using hanswer
        · cases hrow
  · cases h

theorem step_receive {caller : Caller} {raw : Option Envelope}
    (h : step b dateParse w (.receive caller raw) = some v) :
    v = w ∨ ∃ row, isHere w.receiver.rcPrefix row.target = true ∧ (basisOf row).isSome = true ∧
      v =
        { w with
          receiver := { w.receiver with ledger := w.receiver.ledger ++ [some row] }
          received := w.received ++ [row] } := by
  simp only [step] at h
  split at h
  · exact Or.inl (Option.some.inj h).symm
  · rename_i msg hgate
    split at h
    · rename_i row happend
      obtain ⟨_, _, htarget, _, hauth, _⟩ := same_fields (admitOnce_append happend)
      obtain ⟨hhere, hbasis⟩ := receiveGate_ok hgate
      refine Or.inr ⟨row, ?_, ?_, (Option.some.inj h).symm⟩
      · rw [htarget]
        exact hhere
      · rw [basisOf, hauth]
        exact hbasis
    · exact Or.inl (Option.some.inj h).symm

theorem Kept.keeps (hw : Kept b w) (hunforged : Unforged b w letter)
    (h : Keeps b w v letter) : Kept b v := by
  obtain rfl | ⟨row, lookup, hlookup, hhere, hstands, rfl⟩ := h
  · exact hw
  · refine hw.keep ?_ (hw.accepts hlookup hunforged hstands)
    rw [hstands.target]
    exact hhere

theorem kept_step {e : Event} (hw : Kept b w) (hallowed : Allowed b dateParse w e)
    (h : step b dateParse w e = some v) : Kept b v := by
  cases e with
  | msg letter => exact hw.keeps hallowed (step_msg h)
  | note letter =>
    obtain ⟨hkeeps, hnone⟩ := step_note h
    refine hw.keeps ?_ hkeeps
    intro auth ref hsome
    rw [hnone] at hsome
    cases hsome
  | remote letter answer detail stored written =>
    obtain rfl | ⟨envelope, row, hfresh, hrow, hstands, rfl⟩ := step_remote h
    · exact hw
    · exact hw.post hfresh hrow hallowed hstands
  | control letter fields => exact hw.keeps hallowed (step_control h)
  | receive caller raw =>
    obtain rfl | ⟨row, hhere, hbasis, rfl⟩ := step_receive h
    · exact hw
    · exact hw.receive hhere hbasis
  | pass p stored =>
    simp only [step] at h
    split at h
    · rename_i hguard
      obtain rfl := Option.some.inj h
      exact hw.pass hguard.2 hallowed
    · cases h
  | register sessions appThreads =>
    obtain rfl := Option.some.inj h
    refine ⟨hw.held, hw.targets, hw.sent, hw.ids, hw.acked, hw.landed, hw.stated, ?_⟩
    refine hw.permitted.onward ?_ fun msg hmsg => Or.inl hmsg
    exact ⟨fun _ h => h, fun _ h => h, fun _ h => h, rfl⟩

theorem kept_start (rcPrefix : String) (sessions : List Registration)
    (appThreads : String → Option CodexAppPeer) :
    Kept b (World.start rcPrefix sessions appThreads) := by
  refine ⟨?_, fun _ h => (nomatch h), fun _ h => (nomatch h), List.nodup_nil,
    fun _ h => (nomatch h), fun _ h => (nomatch h), ?_, fun _ h => (nomatch h)⟩
  · intro msg hheld
    rcases hheld with hledger | ⟨sent, hsent, _⟩
    · cases hledger
    · cases hsent
  · intro msg hmsg
    rcases hmsg with hmsg | hmsg <;> cases hmsg

end

/-- No blanks to trim, and ids of the length of a uuid. -/
def uuids : Builtins := ⟨fun text => text, fun text => decide (text.toList.length = 36)⟩

def peerThread : String := "5e1f0000-0000-4000-8000-000000000001"

def openingId : String := "a1000000-0000-4000-8000-000000000001"

def instruction : CommunicationAuthorization :=
  { basis := some .userInstruction
    whyThisCommunicationIsNecessaryAndWithinTheUserAuthorizedScope :=
      some "the user asked for a report to this peer"
    userAuthorizationQuote := some "tell api when it is done"
    sourceMessageRef := "here:worker, user message" }

def continuation : CommunicationAuthorization :=
  { basis := some .threadContinuation
    whyThisCommunicationIsNecessaryAndWithinTheUserAuthorizedScope := none
    userAuthorizationQuote := none
    sourceMessageRef := peerThread ++ "#" ++ openingId }

/-- From a session of this machine to a session of another. -/
def toPeer (id : String) (evidence : CommunicationAuthorization) : Letter :=
  { id := id
    ts := "2026-01-01T00:00:00.000Z"
    sender := .managed ⟨"here", .codex, "worker", "71aa0000-0000-4000-8000-000000000001"⟩
    target := .managed ⟨"dev", .claude, "api", peerThread⟩
    body := "done"
    task := none
    defer := true
    onBehalfOf := none
    notBefore := none
    evidence := some evidence }

def drain (answer : RemoteResult) : Pass :=
  { now := 0
    config := ⟨"here", [], ["dev"]⟩
    readable := true
    answer := fun _ => answer
    written := fun _ => true }

/-- The opening letter fails, a pass sends it again, and a continuation follows. -/
def correspondence (answer : RemoteResult) (stored : Bool) : List Event :=
  [.remote (toPeer openingId instruction) ⟨true, 255, false⟩ "transport failed" false true,
    .pass (drain answer) fun _ => stored,
    .remote (toPeer "a2000000-0000-4000-8000-000000000002" continuation) ⟨false, 0, false⟩ "" true
      true]

def home : World := World.start "here" [] fun _ => none

theorem unforged_of_nothing {b : Builtins} {w : World} (letter : Letter) (h : w.received = []) :
    Unforged b w letter := by
  intro auth ref _ _ _ other hother
  rw [h] at hother
  cases hother

theorem dispatch_toPeer {rec : Outbound} {id : String} {evidence : CommunicationAuthorization}
    (answer : RemoteResult) (h : rec.envelope.target = (toPeer id evidence).target) :
    Ccmux.Fleet.Flush.dispatch (drain answer).config rec = .hop := by
  have hroute : Ccmux.Fleet.Address.routeFor ("dev" ++ ":" ++ "api") ⟨"here", [], ["dev"]⟩ =
      .remote none "dev" "api" := by decide
  simp only [Ccmux.Fleet.Flush.dispatch, h, toPeer, drain, hroute]

theorem correspondence_allowed : Along (step uuids fun _ => some 0) (Allowed uuids fun _ => some 0)
    home (correspondence ⟨false, 0, false⟩ true) := by
  refine ⟨unforged_of_nothing _ rfl, fun first hfirst => ⟨?_, fun second hsecond => ⟨?_, ?_⟩⟩⟩
  · intro rec hslot _ hsettled
    have hhop : flushOne (drain ⟨false, 0, false⟩).config ⟨false, 0, false⟩ rec = .delivered := by
      have houtbox := mem_slots hslot
      have htarget : rec.envelope.target = (toPeer openingId instruction).target := by
        obtain rfl | ⟨envelope, row, _, hrow, hstands, rfl⟩ := step_remote hfirst
        · cases houtbox
        · have hrec : row = some rec := by simpa [World.post, home, World.start] using houtbox
          rw [(hrow rec hrec).1]
          exact hstands.target
      rw [flushOne, dispatch_toPeer ⟨false, 0, false⟩ htarget]
      rfl
    have hone : flushOne (drain ⟨false, 0, false⟩).config ((drain ⟨false, 0, false⟩).answer rec)
        rec = .delivered := hhop
    rw [hone] at hsettled
    rcases hsettled with h | h <;> cases h
  · have hreceived : first.received = [] := by
      obtain rfl | ⟨_, _, _, _, _, rfl⟩ := step_remote hfirst <;> rfl
    refine unforged_of_nothing _ ?_
    simp only [step] at hsecond
    split at hsecond
    · rw [← Option.some.inj hsecond]
      exact hreceived
    · cases hsecond
  · exact fun _ _ => trivial

theorem parse_continuation :
    parseLedgerMessageRef uuids continuation.sourceMessageRef = some ⟨peerThread, openingId⟩ := by
  decide

end Ccmux.Chat.BasisRun
