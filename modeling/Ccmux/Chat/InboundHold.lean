/- Module: Ccmux/Chat/InboundHold
   source: src/chat/inboundHold.ts (mailBlocksSettle, blockingInbound), src/chat/store.ts (unreadFor)
   digest: The mail a wait waits for, and where it differs from the mail that is undelivered. -/

import Ccmux.Chat.Tracks

namespace Ccmux.Chat.InboundHold

open Ccmux.Chat.Identity
open Ccmux.Chat.Message
open Ccmux.Chat.Settlement
open Ccmux.Chat.Tracks (findLetter)

/-- What is asked of a session: `native` is `hasNativeRuntime`, `chatPane` that its provider can
inspect a chat pane. -/
structure Session where
  peer : ManagedPeer
  native : Bool
  chatEnabled : Option Bool
  chatPane : Bool

/-- A session override, else the machine default. -/
def chatEnabledFor (s : Session) (machine : Bool) : Bool := s.chatEnabled.getD machine

structure Files where
  ledger : Ledger
  cursors : ChatCursors
  acks : AckLog

/-- The loop body of `unreadFor`, without an id that is being picked up. -/
def isUnread (key : String) (since : Nat) (activePickupId : Option String)
    (acked : Option (Finset String)) (idx : Nat) (msg : ChatMessage) : Bool :=
  match msg.target with
  | .managed peer =>
    managedPeerKey peer == key && activePickupId != some msg.id &&
      !acked.any (fun ids => decide (msg.id ∈ ids)) && (isConditional msg || decide (since ≤ idx))
  | _ => false

/-- Unread inbox for a recipient: messages addressed to it at or after its read cursor. -/
def unreadFor (recipient : ManagedPeer) (ledger : Ledger) (cursors : ChatCursors)
    (acked : Option (Finset String)) : List Pick :=
  let key := managedPeerKey recipient
  let since := position cursors.read key
  let activePickupId := (cursors.pickups key).map Pickup.messageId
  ledger.zipIdx.filterMap fun (slot, idx) =>
    (slot.filter (isUnread key since activePickupId acked idx)).map fun msg => ⟨msg, idx⟩

section
variable (dateParse : String → Option Int)

def mailBlocksSettle (unread : List ChatMessage) (chatEnabled canReceiveChat : Bool) (now : Int) :
    List ChatMessage :=
  if !chatEnabled || !canReceiveChat then [] else unread.filter fun msg => isDue dateParse msg now

/-- The letter `pendingMessageId` names. -/
def pendingMessage (ledger : Ledger) (recipientKey : String) (cursors : ChatCursors)
    (acked : Finset String) (now : Int) : Option ChatMessage :=
  (pendingMessageId dateParse ledger recipientKey cursors acked now).bind (findLetter ledger)

/-- A read that throws leaves nothing to wait for. -/
def blockingInbound (machine : Bool) (s : Session) (files : Option Files) (now : Int) :
    List ChatMessage :=
  match files with
  | none => []
  | some f =>
    if s.native then
      if !chatEnabledFor s machine then []
      else
        (pendingMessage dateParse f.ledger (managedPeerKey s.peer) f.cursors (loadAckedIds f.acks)
          now).toList
    else
      let unread := unreadFor s.peer f.ledger f.cursors (some (loadAckedIds f.acks))
      mailBlocksSettle dateParse (unread.map Pick.msg) (chatEnabledFor s machine) s.chatPane now

/-- Chat is on, and a pane can be typed into. -/
def canReceiveChat (machine : Bool) (s : Session) : Bool :=
  chatEnabledFor s machine && (s.native || s.chatPane)

/-- A due letter addressed to the session is undelivered. -/
def Waiting (s : Session) (f : Files) (now : Int) (idx : Nat) (msg : ChatMessage) : Prop :=
  f.ledger.letter idx = some msg ∧ chatTargetKey msg.target = managedPeerKey s.peer ∧
    isDue dateParse msg now = true ∧
    letterState msg idx (loadAcks f.acks) f.cursors.delivered f.cursors.telegram = .pending

/-- The answer `wait` needs: something when a due letter is undelivered, nothing when none is and
no pickup is active. -/
def Answers (machine : Bool) (s : Session) (f : Files) (now : Int) : Prop :=
  ((∃ idx msg, Waiting dateParse s f now idx msg) → canReceiveChat machine s = true →
      blockingInbound dateParse machine s (some f) now ≠ []) ∧
    ((¬ ∃ idx msg, Waiting dateParse s f now idx msg) →
      f.cursors.pickups (managedPeerKey s.peer) = none →
        blockingInbound dateParse machine s (some f) now = [])

/-- An immediate letter to the session stands at or after a position. -/
def Immediate (s : Session) (f : Files) (since : Nat) (idx : Nat) (msg : ChatMessage) : Prop :=
  f.ledger.letter idx = some msg ∧ immediateTo (managedPeerKey s.peer) msg = true ∧ since ≤ idx

/-- A deferred or timed letter to the session is due and not in the ack log. -/
def Conditional (s : Session) (f : Files) (now : Int) (idx : Nat) (msg : ChatMessage) : Prop :=
  f.ledger.letter idx = some msg ∧
    conditionalTo dateParse (managedPeerKey s.peer) (loadAckedIds f.acks) now msg = true

/-- A letter a pane session's listing counts: not the one being picked up, and not acked. -/
def Counted (s : Session) (f : Files) (msg : ChatMessage) : Prop :=
  (f.cursors.pickups (managedPeerKey s.peer)).map Pickup.messageId ≠ some msg.id ∧
    msg.id ∉ loadAckedIds f.acks

/-- When the listing answers as delivery would. A native session's pickup is found in the ledger; a
pane session has conditional mail waiting, or its read and its delivered cursor agree on whether
there is immediate mail, and while a letter is picked up some other letter waits or none does. -/
def Agrees (machine : Bool) (s : Session) (f : Files) (now : Int) : Prop :=
  canReceiveChat machine s = true →
    match s.native, f.cursors.pickups (managedPeerKey s.peer) with
    | true, none => True
    | true, some pickup =>
      (∃ idx msg, f.ledger.letter idx = some msg ∧ msg.id = pickup.messageId) ∨
        ¬ ∃ idx msg, Waiting dateParse s f now idx msg
    | false, none =>
      (∃ idx msg, Conditional dateParse s f now idx msg) ∨
        ((∃ idx msg, Immediate s f (position f.cursors.read (managedPeerKey s.peer)) idx msg ∧
            Counted s f msg) ↔
          ∃ idx msg, Immediate s f (position f.cursors.delivered (managedPeerKey s.peer)) idx msg)
    | false, some _ =>
      (∃ idx msg, Conditional dateParse s f now idx msg ∧ Counted s f msg) ∨
        (∃ idx msg, Immediate s f (position f.cursors.read (managedPeerKey s.peer)) idx msg ∧
          Counted s f msg) ∨
        ¬ ∃ idx msg, Waiting dateParse s f now idx msg

variable {dateParse}

variable {msg : ChatMessage} {s : Session} {f : Files} {now : Int} {idx : Nat} {machine : Bool}

theorem managed_of_key {peer : ManagedPeer} (h : chatTargetKey msg.target = managedPeerKey peer) :
    ∃ found, msg.target = .managed found ∧ managedPeerKey found = managedPeerKey peer := by
  cases htarget : msg.target with
  | managed found => exact ⟨found, rfl, by rw [htarget] at h; exact h⟩
  | codexApp app =>
    rw [htarget] at h
    exact absurd h.symm (managedPeerKey_ne_codexAppKey peer app)
  | owner =>
    rw [htarget] at h
    exact absurd h.symm (managedPeerKey_ne_owner peer)
  | external name =>
    rw [htarget] at h
    exact absurd h.symm (managedPeerKey_ne_external peer name)

theorem isDue_immediate (h : isConditional msg = false) (now : Int) :
    isDue dateParse msg now = true := by
  have hnone : msg.notBefore = none := by
    simp only [isConditional, Bool.or_eq_false_iff] at h
    simpa using h.2
  simp [isDue, hnone]

theorem waiting_iff :
    Waiting dateParse s f now idx msg ↔
      Immediate s f (position f.cursors.delivered (managedPeerKey s.peer)) idx msg ∨
        Conditional dateParse s f now idx msg := by
  by_cases hkey : chatTargetKey msg.target = managedPeerKey s.peer
  · have howner : msg.target ≠ .owner := by
      obtain ⟨found, htarget, _⟩ := managed_of_key hkey
      rw [htarget]
      exact fun h => nomatch h
    simp only [Waiting, Immediate, Conditional, letterState_pending howner, Pending, hkey,
      immediateTo_iff, conditionalTo_iff, loadAcks_eq_none, true_and]
    constructor
    · rintro ⟨hletter, hdue, ⟨hcond, hack⟩ | ⟨himm, hpos⟩⟩
      · exact Or.inr ⟨hletter, hcond, hack, hdue⟩
      · exact Or.inl ⟨hletter, himm, hpos⟩
    · rintro (⟨hletter, himm, hpos⟩ | ⟨hletter, hcond, hack, hdue⟩)
      · exact ⟨hletter, isDue_immediate himm now, Or.inr ⟨himm, hpos⟩⟩
      · exact ⟨hletter, hdue, Or.inl ⟨hcond, hack⟩⟩
  · simp [Waiting, Immediate, Conditional, immediateTo_iff, conditionalTo_iff, hkey]

variable {recipient : ManagedPeer} {acked : Finset String} {ledger : Ledger}

theorem isUnread_iff {since : Nat} {activePickupId : Option String} :
    isUnread (managedPeerKey recipient) since activePickupId (some acked) idx msg = true ↔
      chatTargetKey msg.target = managedPeerKey recipient ∧ activePickupId ≠ some msg.id ∧
        msg.id ∉ acked ∧ (isConditional msg = true ∨ since ≤ idx) := by
  by_cases hkey : chatTargetKey msg.target = managedPeerKey recipient
  · obtain ⟨found, htarget, hfound⟩ := managed_of_key hkey
    simp [isUnread, htarget, hfound, and_assoc]
  · have hnot : isUnread (managedPeerKey recipient) since activePickupId (some acked) idx msg =
        false := by
      cases htarget : msg.target with
      | managed found =>
        have hne : managedPeerKey found ≠ managedPeerKey recipient := by
          rw [htarget] at hkey
          exact hkey
        simp [isUnread, htarget, hne]
      | _ => simp [isUnread, htarget]
    simp [hnot, hkey]

theorem mem_unreadFor {cursors : ChatCursors} :
    ⟨msg, idx⟩ ∈ unreadFor recipient ledger cursors (some acked) ↔
      ledger.letter idx = some msg ∧
        isUnread (managedPeerKey recipient) (position cursors.read (managedPeerKey recipient))
          ((cursors.pickups (managedPeerKey recipient)).map Pickup.messageId) (some acked) idx msg =
            true := by
  rw [Ledger.letter_eq_some]
  simp only [unreadFor, List.mem_filterMap, Prod.exists, Option.map_eq_some_iff,
    Option.filter_eq_some_iff, Pick.mk.injEq]
  constructor
  · rintro ⟨slot, index, hmem, found, ⟨hslot, htest⟩, hfound, hindex⟩
    obtain rfl := hindex
    obtain rfl := hfound
    rw [List.mem_zipIdx_iff_getElem?] at hmem
    exact ⟨by rw [← hslot]; exact hmem, htest⟩
  · intro h
    exact ⟨some msg, idx, List.mem_zipIdx_iff_getElem?.mpr h.1, msg, ⟨rfl, h.2⟩, rfl, rfl⟩

/-- A pane session's listing is about the read cursor. -/
theorem pane_blocks_iff (hpane : s.native = false) (hreceive : canReceiveChat machine s = true) :
    blockingInbound dateParse machine s (some f) now ≠ [] ↔
      (∃ idx msg, Conditional dateParse s f now idx msg ∧ Counted s f msg) ∨
        ∃ idx msg, Immediate s f (position f.cursors.read (managedPeerKey s.peer)) idx msg ∧
          Counted s f msg := by
  have hgates : chatEnabledFor s machine = true ∧ s.chatPane = true := by
    simpa [canReceiveChat, hpane] using hreceive
  simp only [blockingInbound, hpane, Bool.false_eq_true, if_false, mailBlocksSettle, hgates,
    Bool.not_true, Bool.or_self]
  constructor
  · intro h
    obtain ⟨msg, hmem⟩ := List.exists_mem_of_ne_nil _ h
    obtain ⟨hlisted, hdue⟩ := List.mem_filter.mp hmem
    obtain ⟨⟨found, idx⟩, hpick, hfound⟩ := List.mem_map.mp hlisted
    obtain rfl : found = msg := hfound
    obtain ⟨hletter, hunread⟩ := mem_unreadFor.mp hpick
    obtain ⟨hkey, hactive, hacked, htrack⟩ := isUnread_iff.mp hunread
    by_cases hcond : isConditional found = true
    · refine Or.inl ⟨idx, found, ⟨hletter, ?_⟩, hactive, hacked⟩
      exact (conditionalTo_iff dateParse).mpr ⟨hkey, hcond, hacked, hdue⟩
    · have himm : isConditional found = false := by simpa using hcond
      have hsince := htrack.resolve_left hcond
      exact Or.inr ⟨idx, found, ⟨hletter, immediateTo_iff.mpr ⟨hkey, himm⟩, hsince⟩, hactive, hacked⟩
  · have hlist : ∀ idx msg, f.ledger.letter idx = some msg →
        chatTargetKey msg.target = managedPeerKey s.peer → Counted s f msg →
        (isConditional msg = true ∨ position f.cursors.read (managedPeerKey s.peer) ≤ idx) →
        isDue dateParse msg now = true →
        List.filter (fun msg => isDue dateParse msg now)
          ((unreadFor s.peer f.ledger f.cursors (some (loadAckedIds f.acks))).map Pick.msg) ≠ [] := by
      intro idx msg hletter hkey hcounted htrack hdue
      apply List.ne_nil_of_mem
      refine List.mem_filter.mpr ⟨List.mem_map.mpr ⟨⟨msg, idx⟩, ?_, rfl⟩, hdue⟩
      exact mem_unreadFor.mpr ⟨hletter, isUnread_iff.mpr ⟨hkey, hcounted.1, hcounted.2, htrack⟩⟩
    rintro (⟨idx, msg, ⟨hletter, htest⟩, hcounted⟩ | ⟨idx, msg, ⟨hletter, htest, hsince⟩, hcounted⟩)
    · obtain ⟨hkey, hcond, _, hdue⟩ := (conditionalTo_iff dateParse).mp htest
      exact hlist idx msg hletter hkey hcounted (Or.inl hcond) hdue
    · obtain ⟨hkey, himm⟩ := immediateTo_iff.mp htest
      exact hlist idx msg hletter hkey hcounted (Or.inr hsince) (isDue_immediate himm now)

theorem findLetter_isSome {id : String} :
    (findLetter ledger id).isSome = true ↔
      ∃ idx msg, ledger.letter idx = some msg ∧ msg.id = id := by
  constructor
  · intro h
    obtain ⟨msg, hmsg⟩ := Option.isSome_iff_exists.mp h
    obtain ⟨hid, idx, hletter⟩ := Tracks.findLetter_some hmsg
    exact ⟨idx, msg, hletter, hid⟩
  · rintro ⟨idx, msg, hletter, hid⟩
    by_contra hnone
    have hscan : scanFrom (fun other => other.id == id) 0 ledger = none := by
      simpa [findLetter] using hnone
    have hne := scanFrom_none hscan idx (Nat.zero_le idx) msg hletter
    simp [hid] at hne

/-- With no pickup a native pass has a letter exactly when one is undelivered. -/
theorem pick_isSome :
    (pickPendingDelivery dateParse f.ledger (managedPeerKey s.peer)
      (position f.cursors.delivered (managedPeerKey s.peer)) (loadAckedIds f.acks) now).1.isSome =
        true ↔ ∃ idx msg, Waiting dateParse s f now idx msg := by
  simp only [waiting_iff]
  cases hscan : scanFrom (immediateTo (managedPeerKey s.peer))
      (position f.cursors.delivered (managedPeerKey s.peer)) f.ledger with
  | some pick =>
    obtain ⟨hle, hletter, htest, _⟩ := scanFrom_some hscan
    simp only [pickPendingDelivery, hscan, Option.isSome_some, true_iff]
    exact ⟨pick.idx, pick.msg, Or.inl ⟨hletter, htest, hle⟩⟩
  | none =>
    simp only [pickPendingDelivery, hscan]
    constructor
    · intro h
      obtain ⟨pick, hpick⟩ := Option.isSome_iff_exists.mp h
      obtain ⟨_, hletter, htest, _⟩ := scanFrom_some hpick
      exact ⟨pick.idx, pick.msg, Or.inr ⟨hletter, htest⟩⟩
    · rintro ⟨idx, msg, ⟨hletter, htest, hle⟩ | ⟨hletter, htest⟩⟩
      · have hno := scanFrom_none hscan idx hle msg hletter
        rw [htest] at hno
        cases hno
      · by_contra hnone
        have hempty : scanFrom (conditionalTo dateParse (managedPeerKey s.peer)
            (loadAckedIds f.acks) now) 0 f.ledger = none := by
          simpa using hnone
        have hno := scanFrom_none hempty idx (Nat.zero_le idx) msg hletter
        rw [htest] at hno
        cases hno

theorem native_blocks_iff (hnative : s.native = true) (hreceive : canReceiveChat machine s = true) :
    blockingInbound dateParse machine s (some f) now ≠ [] ↔
      match f.cursors.pickups (managedPeerKey s.peer) with
      | some pickup => ∃ idx msg, f.ledger.letter idx = some msg ∧ msg.id = pickup.messageId
      | none => ∃ idx msg, Waiting dateParse s f now idx msg := by
  have henabled : chatEnabledFor s machine = true := by
    simpa [canReceiveChat, hnative] using hreceive
  have hblocks : blockingInbound dateParse machine s (some f) now ≠ [] ↔
      (pendingMessage dateParse f.ledger (managedPeerKey s.peer) f.cursors (loadAckedIds f.acks)
        now).isSome = true := by
    simp only [blockingInbound, hnative, henabled, if_true, Bool.not_true, Bool.false_eq_true,
      if_false]
    cases pendingMessage dateParse f.ledger (managedPeerKey s.peer) f.cursors
      (loadAckedIds f.acks) now <;> simp
  rw [hblocks]
  cases hpickup : f.cursors.pickups (managedPeerKey s.peer) with
  | some pickup =>
    simp only [pendingMessage, pendingMessageId, hpickup, Option.bind_some]
    exact findLetter_isSome
  | none =>
    simp only [pendingMessage, pendingMessageId, hpickup]
    rw [← pick_isSome]
    -- the letter picked is in the ledger under its own id
    cases hpick : (pickPendingDelivery dateParse f.ledger (managedPeerKey s.peer)
        (position f.cursors.delivered (managedPeerKey s.peer)) (loadAckedIds f.acks) now).1 with
    | none => simp
    | some pick =>
      have hletter := (pickPendingDelivery_letter dateParse hpick).1
      have hfound := findLetter_isSome.mpr ⟨pick.idx, pick.msg, hletter, rfl⟩
      simpa using hfound

theorem not_blocked (h : canReceiveChat machine s = false) :
    blockingInbound dateParse machine s (some f) now = [] := by
  by_cases hnative : s.native = true
  · have hoff : chatEnabledFor s machine = false := by
      simpa [canReceiveChat, hnative] using h
    simp [blockingInbound, hnative, hoff]
  · have hpane : s.native = false := by simpa using hnative
    simp only [canReceiveChat, hpane, Bool.false_or, Bool.and_eq_false_iff] at h
    rcases h with hoff | hoff <;> simp [blockingInbound, mailBlocksSettle, hpane, hoff]

/-- The listing a wait asks answers as delivery would exactly when the cursors agree. -/
theorem blockingInbound_answers (machine : Bool) (s : Session) (f : Files) (now : Int) :
    Answers dateParse machine s f now ↔ Agrees dateParse machine s f now := by
  by_cases hreceive : canReceiveChat machine s = true
  · have hempty : ∀ P : Prop, (blockingInbound dateParse machine s (some f) now ≠ [] ↔ P) →
        (blockingInbound dateParse machine s (some f) now = [] ↔ ¬ P) := by
      intro P h
      rw [← h, not_not]
    by_cases hnative : s.native = true
    · have hblocks : blockingInbound dateParse machine s (some f) now ≠ [] ↔ _ :=
        native_blocks_iff hnative hreceive
      cases hpickup : f.cursors.pickups (managedPeerKey s.peer) with
      | none =>
        rw [hpickup] at hblocks
        simp only [Answers, Agrees, hreceive, hnative, hpickup, hblocks, hempty _ hblocks]
        simp
      | some pickup =>
        rw [hpickup] at hblocks
        simp only [Answers, Agrees, hreceive, hnative, hpickup, hblocks]
        by_cases hwaits : ∃ idx msg, Waiting dateParse s f now idx msg
        · simp [hwaits]
        · simp [hwaits]
    · have hpane : s.native = false := by simpa using hnative
      have hblocks : blockingInbound dateParse machine s (some f) now ≠ [] ↔ _ :=
        pane_blocks_iff hpane hreceive
      cases hpickup : f.cursors.pickups (managedPeerKey s.peer) with
      | none =>
        have hcounted : (∃ idx msg, Conditional dateParse s f now idx msg ∧ Counted s f msg) ↔
            ∃ idx msg, Conditional dateParse s f now idx msg := by
          refine exists_congr fun idx => exists_congr fun msg => and_iff_left_of_imp fun h => ?_
          exact ⟨by simp [hpickup], ((conditionalTo_iff dateParse).mp h.2).2.2.1⟩
        simp only [Answers, Agrees, hreceive, hpane, hpickup, hblocks, hempty _ hblocks, waiting_iff,
          exists_or, hcounted]
        by_cases hdelivered : ∃ idx msg,
            Immediate s f (position f.cursors.delivered (managedPeerKey s.peer)) idx msg
        · simp [hdelivered]
        · by_cases hconditional : ∃ idx msg, Conditional dateParse s f now idx msg
          · simp [hdelivered, hconditional]
          · simp [hdelivered, hconditional]
      | some pickup =>
        simp only [Answers, Agrees, hreceive, hpane, hpickup, hblocks]
        by_cases hwaits : ∃ idx msg, Waiting dateParse s f now idx msg
        · simp [hwaits]
        · simp [hwaits]
  · have hoff : canReceiveChat machine s = false := by simpa using hreceive
    simp [Answers, Agrees, hoff, not_blocked hoff]

end

def reader : Session :=
  { peer := ⟨"here", .claude, "reader", "5e1f"⟩
    native := false
    chatEnabled := some true
    chatPane := true }

def readerLetter : ChatMessage :=
  { id := "m1"
    ts := "2026-01-01T00:00:00.000Z"
    sender := .cli "here"
    target := .managed reader.peer
    body := "hello"
    defer := false }

def nothingSent : Tracks.World := ⟨[], [], ChatCursors.empty, fun _ => none, none, [], []⟩

/-- The session reads its inbox before the letter is delivered. -/
def inboxFirst : List Tracks.Event :=
  [.send (some readerLetter), .mark (managedPeerKey reader.peer) 1]

def afterInbox : Files :=
  ⟨[some readerLetter], Cursors.markRead ChatCursors.empty (managedPeerKey reader.peer) 1, []⟩

theorem inbox_hides_undelivered :
    ¬ ∀ events w,
      Lib.Machine.run (Tracks.step (fun _ => none) "here" fun _ => false) nothingSent events = some w →
        Answers (fun _ => none) true reader ⟨w.ledger, w.file, w.acks⟩ 0 := by
  intro h
  have hanswers : Answers (fun _ => none) true reader afterInbox 0 := h inboxFirst _ rfl
  have hwaits : Waiting (fun _ => none) reader afterInbox 0 0 readerLetter := by
    refine waiting_iff.mpr (Or.inl ⟨rfl, ?_, Nat.zero_le 0⟩)
    exact immediateTo_iff.mpr ⟨rfl, rfl⟩
  have hblocks := hanswers.1 ⟨0, readerLetter, hwaits⟩ rfl
  apply hblocks
  decide

end Ccmux.Chat.InboundHold
