/- Module: Ccmux/Chat/CommunicationBasis
   source: src/chat/communicationBasis.ts, src/chat/localMessages.ts, src/chat/compose.ts
     (buildEnvelope), src/chat/communicationAuthorization.ts (requireOriginatingBasis),
     src/chat/communicationAuthorizationSchema.ts (parseLedgerMessageRef)
   digest: What a sender's basis is resolved to from the records of its own machine. -/

import Mathlib
import Ccmux.Chat.Admission
import Ccmux.Fleet.Outbox

namespace Ccmux.Chat.CommunicationBasis

open Ccmux.Chat.Admission (principalOrigin)
open Ccmux.Chat.Envelope
open Ccmux.Chat.Identity
open Ccmux.Chat.Message
open Ccmux.Fleet.Outbox

/-- `trim` of the language and the uuid check of the schema library. -/
structure Builtins where
  trim : String → String
  isUuid : String → Bool

structure LedgerMessageRef where
  threadId : String
  messageId : String
  deriving DecidableEq, Repr

/-- `<peer thread uuid>#<message uuid>` -/
def parseLedgerMessageRef (b : Builtins) (ref : String) : Option LedgerMessageRef :=
  match (b.trim ref).toList.splitOn '#' with
  | [thread, message] =>
    let found : LedgerMessageRef := ⟨String.ofList thread, String.ofList message⟩
    if b.isUuid found.threadId && b.isUuid found.messageId then some found else none
  | _ => none

/-- A receipt whose root may still be the letter it is made for. -/
structure DraftReceipt where
  rootMessageId : Option String
  authorization : CommunicationAuthorization
  sourceLetter : Option SourceLetter
  deriving DecidableEq, Repr

def DraftReceipt.ofReceipt (receipt : CommunicationReceipt) : DraftReceipt :=
  ⟨some receipt.rootMessageId, receipt.authorization, receipt.sourceLetter⟩

def DraftReceipt.rooted (draft : DraftReceipt) (id : String) : CommunicationReceipt :=
  ⟨draft.rootMessageId.getD id, draft.authorization, draft.sourceLetter⟩

/-- One record this machine holds, with the fact that decides whether it can be built on. -/
structure LocalMessageRecord where
  message : Envelope
  reachedRecipient : Bool
  deriving DecidableEq, Repr

def threadOfPrincipal : ChatPrincipal → Option String
  | .managed peer => some peer.threadId
  | .codexApp peer => some peer.threadId
  | _ => none

def threadOfTarget : ChatTarget → Option String
  | .managed peer => some peer.threadId
  | .codexApp peer => some peer.threadId
  | _ => none

/-- `length` of a string: code points past the first plane are two units. -/
def utf16Length (text : String) : Nat :=
  (text.toList.map fun c => if c.val < 0x10000 then 1 else 2).sum

/-- `body.includes(quote)` -/
def includes (body quote : String) : Bool := decide (quote.toList <:+: body.toList)

def resolvePeerLetter (sender : ChatPrincipal) (target : ChatTarget) (ref : LedgerMessageRef)
    (evidence : CommunicationAuthorization) (record : Envelope) : Except String DraftReceipt :=
  if chatTargetKey record.target ≠ chatPrincipalKey sender then
    .error "Referenced message was addressed to a different recipient"
  else if threadOfPrincipal record.sender ≠ some ref.threadId then
    .error "Referenced message was written in a different thread"
  else if chatPrincipalKey record.sender ≠ chatTargetKey target then
    .error "A peer-letter can only authorize a reply to that exact peer"
  else if !evidence.userAuthorizationQuote.any (includes record.body) then
    .error "The authorization quote is not present verbatim in the referenced peer letter"
  else if 16384 < utf16Length record.body then
    .error "The source letter exceeds the 16384-character receipt budget; use a bounded authorization letter"
  else
    let letter : SourceLetter :=
      ⟨record.id, record.ts, record.sender, record.target, record.task, record.body⟩
    .ok ⟨none, evidence, some letter⟩

def resolveContinuation (sender : ChatPrincipal) (target : ChatTarget) (ref : LedgerMessageRef)
    (record : Envelope) : Except String DraftReceipt :=
  if chatPrincipalKey record.sender ≠ chatPrincipalKey sender then
    .error "A continuation references your own earlier message"
  else if chatTargetKey record.target ≠ chatTargetKey target then
    .error "Referenced message went to a different recipient"
  else if threadOfTarget target ≠ some ref.threadId then
    .error "The reference names a different recipient thread"
  else if record.communicationAuthorization.isNone then
    .error "Referenced message carries no authorization"
  else
    match record.communicationReceipt with
    | none => .error "Referenced message has no resolved opening receipt; establish a basis first"
    | some receipt => .ok (DraftReceipt.ofReceipt receipt)

/-- The record a reference names, if it can be built on. -/
def resolveReference (b : Builtins) (lookup : String → Option LocalMessageRecord)
    (task : Option String) (evidence : CommunicationAuthorization) :
    Except String (LedgerMessageRef × Envelope) :=
  match parseLedgerMessageRef b evidence.sourceMessageRef with
  | none => .error "Invalid sourceMessageRef: expected <peer thread uuid>#<message uuid>"
  | some ref =>
    match lookup ref.messageId with
    | none =>
      .error ("sourceMessageRef names message " ++ ref.messageId ++
        ", of which this machine has no record")
    | some found =>
      if !found.reachedRecipient then
        .error ("Referenced message " ++ ref.messageId ++
          " never reached its recipient — it is still held for delivery, so no correspondence was opened by it")
      else if found.message.task ≠ task then
        .error "Referenced message belongs to a different task; retain its --task or establish a new basis"
      else .ok (ref, found.message)

/-- Resolve only against the originating host's records. -/
def resolveCommunicationBasis (b : Builtins) (sender : ChatPrincipal) (target : ChatTarget)
    (task : Option String) (evidence : Option CommunicationAuthorization)
    (lookup : String → Option LocalMessageRecord) : Except String (Option DraftReceipt) :=
  match evidence with
  | none => .ok none
  | some auth =>
    match auth.basis with
    | none => .error "communicationAuthorization must name its basis"
    | some .userInstruction => .ok (some ⟨none, auth, none⟩)
    | some .peerLetter =>
      (resolveReference b lookup task auth).bind fun found =>
        (resolvePeerLetter sender target found.1 auth found.2).map some
    | some .threadContinuation =>
      (resolveReference b lookup task auth).bind fun found =>
        (resolveContinuation sender target found.1 found.2).map some

/-- Without records of the caller's machine a reference cannot be resolved. -/
def requireOriginatingBasis (b : Builtins) (sender : ChatPrincipal) (target : ChatTarget)
    (evidence : Option CommunicationAuthorization)
    (lookup : Option (String → Option LocalMessageRecord)) (task : Option String) :
    Except String (Option DraftReceipt) :=
  match evidence with
  | none => .ok none
  | some auth =>
    if auth.basis.isNone then .error "communicationAuthorization must name its basis."
    else
      match lookup with
      | some records => resolveCommunicationBasis b sender target task (some auth) records
      | none =>
        if auth.basis ≠ some .userInstruction then
          .error "Referenced authorization must be resolved on the originating host before transport"
        else .ok (some ⟨none, auth, none⟩)

/-- The index over both files: acceptance wins over any earlier failure. -/
def localMessageLookup (ledger : List (Option Envelope)) (outbox : List Outbound)
    (acked : List String) : String → Option LocalMessageRecord :=
  let stored := ledger.foldl
    (fun index slot =>
      match slot with
      | some msg => assign index msg.id (some ⟨msg, true⟩)
      | none => index)
    fun _ => none
  outbox.foldl
    (fun index sent =>
      let id := sent.envelope.id
      if (index id).any LocalMessageRecord.reachedRecipient then index
      else assign index id (some ⟨sent.envelope, sent.result.ok || decide (id ∈ acked)⟩))
    stored

structure LetterOptions where
  task : Option String := none
  defer : Bool := true
  onBehalfOf : Option String := none
  notBefore : Option String := none
  communicationAuthorization : Option CommunicationAuthorization := none
  communicationReceipt : Option DraftReceipt := none

/-- Build one immutable envelope, with the id and the time it is given. -/
def buildEnvelope (id ts : String) (sender : ChatPrincipal) (target : ChatTarget) (body : String)
    (opts : LetterOptions) : Envelope :=
  { id := id
    ts := ts
    sender := sender
    target := target
    origin := some (principalOrigin sender)
    notification := some (match target with
      | .owner => .owner
      | .external _ => .owner
      | _ => .conversation)
    body := body
    communicationAuthorization := opts.communicationAuthorization
    communicationReceipt := opts.communicationReceipt.map fun draft => draft.rooted id
    task := opts.task
    defer := opts.defer
    onBehalfOf := opts.onBehalfOf
    notBefore := opts.notBefore }

/-- A record of a ledger reached its recipient; one of the outbox when a row or an ack says so. -/
theorem localMessageLookup_cases {ledger : List (Option Envelope)} {outbox : List Outbound}
    {acked : List String} {id : String} {found : LocalMessageRecord}
    (h : localMessageLookup ledger outbox acked id = some found) :
    found.message.id = id ∧
      (some found.message ∈ ledger ∨ ∃ sent ∈ outbox, sent.envelope = found.message ∧
        (found.reachedRecipient = true → sent.result.ok = true ∨ id ∈ acked)) := by
  have hstored : ∀ (rest : List (Option Envelope)) (index : String → Option LocalMessageRecord),
      (∀ key record, index key = some record → record.message.id = key ∧ some record.message ∈ ledger) →
      (∀ slot ∈ rest, slot ∈ ledger) → ∀ key record,
        (rest.foldl (fun index slot =>
          match slot with
          | some msg => assign index msg.id (some ⟨msg, true⟩)
          | none => index) index) key = some record →
        record.message.id = key ∧ some record.message ∈ ledger := by
    intro rest
    induction rest with
    | nil => exact fun _ hindex _ => hindex
    | cons slot rest ih =>
      intro index hindex hrest
      refine ih _ ?_ fun other hother => hrest other (List.mem_cons_of_mem _ hother)
      intro key record hkey
      cases slot with
      | none => exact hindex key record hkey
      | some msg =>
        by_cases heq : key = msg.id
        · rw [heq] at hkey
          dsimp only at hkey
          rw [assign_self] at hkey
          obtain rfl := Option.some.inj hkey
          exact ⟨heq.symm, hrest _ List.mem_cons_self⟩
        · dsimp only at hkey
          rw [assign_of_ne _ _ heq] at hkey
          exact hindex key record hkey
  have houtbox : ∀ (rest : List Outbound) (index : String → Option LocalMessageRecord),
      (∀ key record, index key = some record → record.message.id = key ∧
        (some record.message ∈ ledger ∨ ∃ sent ∈ outbox, sent.envelope = record.message ∧
          (record.reachedRecipient = true → sent.result.ok = true ∨ key ∈ acked))) →
      (∀ sent ∈ rest, sent ∈ outbox) → ∀ key record,
        (rest.foldl (fun index sent =>
          if (index sent.envelope.id).any LocalMessageRecord.reachedRecipient then index
          else assign index sent.envelope.id
            (some ⟨sent.envelope, sent.result.ok || decide (sent.envelope.id ∈ acked)⟩)) index) key =
            some record →
        record.message.id = key ∧
          (some record.message ∈ ledger ∨ ∃ sent ∈ outbox, sent.envelope = record.message ∧
            (record.reachedRecipient = true → sent.result.ok = true ∨ key ∈ acked)) := by
    intro rest
    induction rest with
    | nil => exact fun _ hindex _ => hindex
    | cons sent rest ih =>
      intro index hindex hrest
      refine ih _ ?_ fun other hother => hrest other (List.mem_cons_of_mem _ hother)
      intro key record hkey
      dsimp only at hkey
      split at hkey
      · exact hindex key record hkey
      · by_cases heq : key = sent.envelope.id
        · rw [heq, assign_self] at hkey
          obtain rfl := Option.some.inj hkey
          refine ⟨heq.symm, Or.inr ⟨sent, hrest _ List.mem_cons_self, rfl, ?_⟩⟩
          intro hreached
          rw [heq]
          simpa using hreached
        · rw [assign_of_ne _ _ heq] at hkey
          exact hindex key record hkey
  refine houtbox outbox _ ?_ (fun _ hmem => hmem) id found h
  intro key record hkey
  have hempty : ∀ (key : String) (record : LocalMessageRecord),
      (fun _ => none : String → Option LocalMessageRecord) key = some record →
      record.message.id = key ∧ some record.message ∈ ledger := by
    intro key record hnone
    cases hnone
  obtain ⟨hid, hmem⟩ := hstored ledger _ hempty (fun _ hmem => hmem) key record hkey
  exact ⟨hid, Or.inl hmem⟩

theorem rooted_ofReceipt (receipt : CommunicationReceipt) (id : String) :
    (DraftReceipt.ofReceipt receipt).rooted id = receipt := rfl

variable {ref : LedgerMessageRef} {record : Envelope} {sender : ChatPrincipal} {target : ChatTarget}

variable {b : Builtins} {task : Option String} {draft : DraftReceipt}

theorem resolveReference_ok {lookup : String → Option LocalMessageRecord}
    {auth : CommunicationAuthorization}
    (h : resolveReference b lookup task auth = .ok (ref, record)) :
    parseLedgerMessageRef b auth.sourceMessageRef = some ref ∧
      lookup ref.messageId = some ⟨record, true⟩ ∧ record.task = task := by
  unfold resolveReference at h
  cases hparse : parseLedgerMessageRef b auth.sourceMessageRef with
  | none => simp [hparse] at h
  | some parsed =>
    rw [hparse] at h
    dsimp only at h
    cases hlookup : lookup parsed.messageId with
    | none => simp [hlookup] at h
    | some found =>
      rw [hlookup] at h
      dsimp only at h
      by_cases hreached : found.reachedRecipient = true
      · by_cases htask : found.message.task = task
        · simp only [hreached, htask, Bool.not_true, Bool.false_eq_true, if_false, not_true, ne_eq,
            Except.ok.injEq, Prod.mk.injEq] at h
          obtain ⟨rfl, rfl⟩ := h
          refine ⟨rfl, ?_, htask⟩
          rw [hlookup, ← hreached]
        · simp [hreached, htask] at h
      · simp [hreached] at h

theorem resolveContinuation_ok (h : resolveContinuation sender target ref record = .ok draft) :
    chatPrincipalKey record.sender = chatPrincipalKey sender ∧
      chatTargetKey record.target = chatTargetKey target ∧ threadOfTarget target = some ref.threadId ∧
      record.communicationAuthorization.isSome ∧
      ∃ receipt, record.communicationReceipt = some receipt ∧ draft = DraftReceipt.ofReceipt receipt := by
  unfold resolveContinuation at h
  by_cases hsender : chatPrincipalKey record.sender = chatPrincipalKey sender
  · by_cases htarget : chatTargetKey record.target = chatTargetKey target
    · by_cases hthread : threadOfTarget target = some ref.threadId
      · by_cases hauth : record.communicationAuthorization.isNone = true
        · simp [hsender, htarget, hthread, hauth] at h
        · cases hreceipt : record.communicationReceipt with
          | none => simp [hsender, htarget, hthread, hauth, hreceipt] at h
          | some receipt =>
            simp only [hsender, htarget, hthread, hauth, hreceipt, ne_eq, not_true, if_false,
              Bool.false_eq_true, Except.ok.injEq] at h
            refine ⟨hsender, htarget, hthread, ?_, receipt, rfl, h.symm⟩
            simpa [Option.isSome_iff_ne_none] using hauth
      · simp [hsender, htarget, hthread] at h
    · simp [hsender, htarget] at h
  · simp [hsender] at h

theorem resolvePeerLetter_ok {evidence : CommunicationAuthorization}
    (h : resolvePeerLetter sender target ref evidence record = .ok draft) :
    chatTargetKey record.target = chatPrincipalKey sender ∧
      chatPrincipalKey record.sender = chatTargetKey target ∧
      ∃ quote, evidence.userAuthorizationQuote = some quote ∧ includes record.body quote = true := by
  unfold resolvePeerLetter at h
  by_cases htarget : chatTargetKey record.target = chatPrincipalKey sender
  · by_cases hthread : threadOfPrincipal record.sender = some ref.threadId
    · by_cases hsender : chatPrincipalKey record.sender = chatTargetKey target
      · cases hquote : evidence.userAuthorizationQuote with
        | none => simp [htarget, hthread, hsender, hquote] at h
        | some quote =>
          by_cases hverbatim : includes record.body quote = true
          · exact ⟨htarget, hsender, quote, rfl, hverbatim⟩
          · simp [htarget, hthread, hsender, hquote, hverbatim] at h
      · simp [htarget, hthread, hsender] at h
    · simp [htarget, hthread] at h
  · simp [htarget] at h

/-- What an accepted send stands on, case by case. -/
inductive Resolved (b : Builtins) (sender : ChatPrincipal) (target : ChatTarget)
    (task : Option String) (lookup : Option (String → Option LocalMessageRecord)) :
    Option CommunicationAuthorization → Option DraftReceipt → Prop
  | unstated : Resolved b sender target task lookup none none
  | instruction {auth : CommunicationAuthorization} (hbasis : auth.basis = some .userInstruction) :
      Resolved b sender target task lookup (some auth) (some ⟨none, auth, none⟩)
  | letter {auth : CommunicationAuthorization} {records : String → Option LocalMessageRecord}
      {ref : LedgerMessageRef} {record : Envelope} {draft : DraftReceipt}
      (hbasis : auth.basis = some .peerLetter) (hrecords : lookup = some records)
      (hreference : resolveReference b records task auth = .ok (ref, record))
      (hresolved : resolvePeerLetter sender target ref auth record = .ok draft) :
      Resolved b sender target task lookup (some auth) (some draft)
  | continuation {auth : CommunicationAuthorization}
      {records : String → Option LocalMessageRecord} {ref : LedgerMessageRef} {record : Envelope}
      {draft : DraftReceipt} (hbasis : auth.basis = some .threadContinuation)
      (hrecords : lookup = some records)
      (hreference : resolveReference b records task auth = .ok (ref, record))
      (hresolved : resolveContinuation sender target ref record = .ok draft) :
      Resolved b sender target task lookup (some auth) (some draft)

theorem bind_map_ok {α β : Type} {found : Except String α} {f : α → Except String β}
    {draft : Option β} (h : (found.bind fun a => (f a).map some) = .ok draft) :
    ∃ a value, found = .ok a ∧ f a = .ok value ∧ draft = some value := by
  cases found with
  | error _ => cases h
  | ok a =>
    cases hvalue : f a with
    | error text =>
      rw [Except.bind, hvalue] at h
      cases h
    | ok value =>
      rw [Except.bind, hvalue] at h
      exact ⟨a, value, rfl, hvalue, (Except.ok.inj h).symm⟩

theorem requireOriginatingBasis_ok {evidence : Option CommunicationAuthorization}
    {lookup : Option (String → Option LocalMessageRecord)} {draft : Option DraftReceipt}
    (h : requireOriginatingBasis b sender target evidence lookup task = .ok draft) :
    Resolved b sender target task lookup evidence draft := by
  cases evidence with
  | none =>
    obtain rfl := Except.ok.inj h
    exact .unstated
  | some auth =>
    simp only [requireOriginatingBasis] at h
    split at h
    · cases h
    · cases lookup with
      | none =>
        dsimp only at h
        split at h
        · cases h
        · rename_i hbasis
          obtain rfl := Except.ok.inj h
          exact .instruction (not_not.mp hbasis)
      | some records =>
        dsimp only at h
        simp only [resolveCommunicationBasis] at h
        cases hbasis : auth.basis with
        | none => simp [hbasis] at h
        | some basis =>
          rw [hbasis] at h
          cases basis with
          | userInstruction =>
            obtain rfl := Except.ok.inj h
            exact .instruction hbasis
          | peerLetter =>
            obtain ⟨⟨ref, record⟩, value, hreference, hresolved, rfl⟩ := bind_map_ok h
            exact .letter hbasis rfl hreference hresolved
          | threadContinuation =>
            obtain ⟨⟨ref, record⟩, value, hreference, hresolved, rfl⟩ := bind_map_ok h
            exact .continuation hbasis rfl hreference hresolved

end Ccmux.Chat.CommunicationBasis
