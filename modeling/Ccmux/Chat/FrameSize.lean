/- Module: Ccmux/Chat/FrameSize
   source: src/chat/logFeed.ts (boundFrame, rowFrame), src/chat/fleetLog.ts, src/chat/feedSchema.ts
   digest: How many bytes a row frame takes as JSON, and which rows fit the bound of the feed. -/

import Mathlib
import Ccmux.Lib.JsonText
import Ccmux.Chat.LogFeed

namespace Ccmux.Chat.FrameSize

open Ccmux.Lib.JsonText
open Ccmux.Chat.Envelope
open Ccmux.Chat.Identity (ChatPrincipal ChatTarget)
open Ccmux.Chat.Message (MessageOrigin NotificationAudience)
open Ccmux.Chat.FleetLog
open Ccmux.Chat.LogFeed

/-- `JSON.stringify` of the values that are objects themselves. -/
structure NestedJson where
  sender : Option ChatPrincipal → String
  target : Option ChatTarget → String
  origin : MessageOrigin → String
  authorization : CommunicationAuthorization → String
  receipt : CommunicationReceipt → String

def nullable : Option String → String
  | none => "null"
  | some text => quote text

def audienceText : NotificationAudience → String
  | .conversation => "conversation"
  | .owner => "owner"

def kindText : RowKind → String
  | .chat => "chat"
  | .sent => "sent"

section
variable (n : NestedJson)

/-- The fields a row has only when its letter gave evidence. -/
def evidenceFields (row : LogRow) : List String :=
  (row.communicationAuthorization.map fun claim =>
      field "communicationAuthorization" (n.authorization claim)).toList ++
    (row.communicationReceipt.map fun receipt =>
      field "communicationReceipt" (n.receipt receipt)).toList

/-- The other fields but body and note; their order, another one for a hole, changes no size. -/
def headFields (row : LogRow) : List String :=
  [field "machine" (quote row.machine), field "ts" (quote row.ts),
    field "messageId" (nullable row.messageId), field "sender" (n.sender row.sender),
    field "target" (n.target row.target), field "origin" (n.origin row.origin),
    field "notification" (quote (audienceText row.notification)),
    field "registrationGeneration" (nullable row.registrationGeneration),
    field "kind" (quote (kindText row.kind)), field "from" (quote row.senderLabel),
    field "to" (quote row.targetLabel), field "task" (nullable row.task)]

def rowText (row : LogRow) : String :=
  object (headFields n row ++ evidenceFields n row ++
    [field "body" (quote row.body), field "note" (quote row.note)])

/-- `JSON.stringify(frame)`. -/
def frameText (frame : LogFrame) : String :=
  object [field "kind" (quote "row"), field "cursor" (quote frame.cursor),
    field "row" (rowText n frame.row)]

def frameBytes (frame : LogFrame) : Nat := byteLength (frameText n frame)

/-- The feed with the sizes of real texts. -/
def measured {J : Type} (b : Builtins J) : Builtins J :=
  { b with textBytes := byteLength, frameBytes := frameBytes n }

/-- The row without body, note and evidence. -/
def stripped (frame : LogFrame) : LogFrame :=
  let row : LogRow :=
    { frame.row with
      communicationAuthorization := none
      communicationReceipt := none
      body := ""
      note := "" }
  { frame with row := row }

def evidenceBytes (row : LogRow) : Nat :=
  ((evidenceFields n row).map byteLength).sum + (evidenceFields n row).length

/-- What stands in the place of an oversized body. -/
def bodyNotice (bytes : Nat) : String :=
  "(body omitted: " ++ toString bytes ++ " bytes exceeds this feed's " ++
    toString MAX_FRAME_BYTES ++
    "-byte record limit — read it with: ccmux chat log -n 1 --json)"

def oversizedNote (note : String) : String :=
  if note = "" then "oversized" else note ++ "; oversized"

def omissionNote : String :=
  "; communication authorization omitted from feed — read the source ledger by messageId"

/-- What the feed never takes out of a frame, with the texts it puts in. -/
def leftBytes (frame : LogFrame) : Nat :=
  frameBytes n (stripped frame) + escapedBytes (bodyNotice (byteLength frame.row.body)) +
    escapedBytes (oversizedNote frame.row.note)

/-- The frame fits, or it fits with its body replaced, or also with its evidence left out. -/
def LeavesRoom (frame : LogFrame) : Prop :=
  frameBytes n frame ≤ 32 * 1024 ∨
    leftBytes n frame + min (evidenceBytes n frame.row) (escapedBytes omissionNote) ≤ 32 * 1024

/-- The emitted frame fits the bound, and one that fits already is emitted as it is. -/
def Bounded {J : Type} (b : Builtins J) (row : LogRow) (cursor : LogCursor) : Prop :=
  frameBytes n (rowFrame (measured n b) row cursor) ≤ 32 * 1024 ∧
    (frameBytes n ⟨formatCursor cursor, row⟩ ≤ 32 * 1024 →
      rowFrame (measured n b) row cursor = ⟨formatCursor cursor, row⟩)

end

/-! ### The parts of a frame -/

section
variable {n : NestedJson}

theorem byteLength_rowText (row : LogRow) : byteLength (rowText n row) =
    ((headFields n row).map byteLength).sum + evidenceBytes n row + escapedBytes row.body +
      escapedBytes row.note + (escapedBytes "body" + escapedBytes "note" + 25) := by
  have hhead : (headFields n row).length = 12 := rfl
  rw [rowText, byteLength_object]
  simp only [List.map_append, List.sum_append, List.length_append, List.map_cons, List.map_nil,
    List.sum_cons, List.sum_nil, List.length_cons, List.length_nil, byteLength_field,
    byteLength_quote, evidenceBytes, hhead]
  omega

theorem frameBytes_rowText (frame : LogFrame) : frameBytes n frame =
    byteLength (object [field "kind" (quote "row"), field "cursor" (quote frame.cursor),
      field "row" ""]) + byteLength (rowText n frame.row) := by
  rw [frameBytes, frameText, byteLength_object, byteLength_object]
  simp only [List.map_cons, List.map_nil, List.sum_cons, List.sum_nil, byteLength_field,
    byteLength_empty, List.length_cons]
  omega

theorem frameBytes_eq (frame : LogFrame) : frameBytes n frame =
    frameBytes n (stripped frame) + evidenceBytes n frame.row + escapedBytes frame.row.body +
      escapedBytes frame.row.note := by
  have hhead : headFields n (stripped frame).row = headFields n frame.row := rfl
  have hcursor : (stripped frame).cursor = frame.cursor := rfl
  have hbody : escapedBytes (stripped frame).row.body = 0 := escapedBytes_empty
  have hnote : escapedBytes (stripped frame).row.note = 0 := escapedBytes_empty
  have hevidence : evidenceBytes n (stripped frame).row = 0 := rfl
  rw [frameBytes_rowText, frameBytes_rowText, byteLength_rowText, byteLength_rowText, hhead,
    hcursor, hbody, hnote, hevidence]
  omega

variable {J : Type} (b : Builtins J)

theorem frameBytes_omitBody (frame : LogFrame) :
    frameBytes n (omitBody (measured n b) frame) =
      leftBytes n frame + evidenceBytes n frame.row := by
  have hbody : (omitBody (measured n b) frame).row.body =
      bodyNotice (byteLength frame.row.body) := rfl
  have hnote : (omitBody (measured n b) frame).row.note = oversizedNote frame.row.note := rfl
  have hrest : stripped (omitBody (measured n b) frame) = stripped frame := rfl
  have hevidence : evidenceBytes n (omitBody (measured n b) frame).row =
      evidenceBytes n frame.row := rfl
  rw [frameBytes_eq, hbody, hnote, hrest, hevidence, leftBytes]
  omega

theorem frameBytes_omitEvidence (frame : LogFrame) :
    frameBytes n (omitEvidence frame) =
      frameBytes n frame - evidenceBytes n frame.row + escapedBytes omissionNote := by
  have hrest : stripped (omitEvidence frame) = stripped frame := rfl
  have hbody : (omitEvidence frame).row.body = frame.row.body := rfl
  have hnote : (omitEvidence frame).row.note = frame.row.note ++ omissionNote := rfl
  have hevidence : evidenceBytes n (omitEvidence frame).row = 0 := rfl
  rw [frameBytes_eq, hrest, hbody, hnote, hevidence, escapedBytes_append, frameBytes_eq frame]
  omega

theorem boundFrame_iff (frame : LogFrame) :
    (frameBytes n (boundFrame (measured n b) frame) ≤ 32 * 1024 ∧
      (frameBytes n frame ≤ 32 * 1024 → boundFrame (measured n b) frame = frame)) ↔
      LeavesRoom n frame := by
  have hmax : MAX_FRAME_BYTES = 32 * 1024 := rfl
  have hsize : ∀ frame, (measured n b).frameBytes frame = frameBytes n frame := fun _ => rfl
  have homit := @frameBytes_omitBody n J b frame
  have hevidence : evidenceBytes n (omitBody (measured n b) frame).row =
      evidenceBytes n frame.row := rfl
  unfold LeavesRoom boundFrame
  rw [hsize, hsize, hmax]
  by_cases hfits : frameBytes n frame ≤ 32 * 1024
  · rw [if_pos hfits]
    exact iff_of_true ⟨hfits, fun _ => rfl⟩ (.inl hfits)
  · rw [if_neg hfits]
    by_cases hbody : frameBytes n (omitBody (measured n b) frame) ≤ 32 * 1024
    · rw [if_pos hbody]
      refine iff_of_true ⟨hbody, fun h => absurd h hfits⟩ (.inr ?_)
      rw [homit] at hbody
      omega
    · rw [if_neg hbody, frameBytes_omitEvidence, hevidence]
      rw [homit] at hbody ⊢
      constructor
      · rintro ⟨hleft, -⟩
        right
        omega
      · rintro (hleft | hleft)
        · exact absurd hleft hfits
        · exact ⟨by omega, fun h => absurd h hfits⟩

theorem escapedBytes_task_le {frame : LogFrame} {task : String} (h : frame.row.task = some task) :
    escapedBytes task ≤ frameBytes n frame := by
  have hhead : escapedBytes task ≤ ((headFields n frame.row).map byteLength).sum := by
    simp only [headFields, List.map_cons, List.map_nil, List.sum_cons, List.sum_nil, h, nullable,
      byteLength_field, byteLength_quote]
    omega
  rw [frameBytes_rowText, byteLength_rowText]
  omega

theorem boundFrame_task (frame : LogFrame) :
    (boundFrame b frame).row.task = frame.row.task := by
  unfold boundFrame
  split
  · rfl
  · split <;> rfl

end

/-- The frame of a ledger record or of an attempt to send fits the bound exactly when what the feed
never takes out of it leaves room. -/
theorem feed_frames_bounded_iff {J : Type} (b : Builtins J) (n : NestedJson) (machine : String)
    (cursor : LogCursor) :
    (∀ record, Bounded n b (rowFromLedgerRecord machine record) cursor ↔
      LeavesRoom n ⟨formatCursor cursor, rowFromLedgerRecord machine record⟩) ∧
    ∀ o settled, Bounded n b (rowFromOutbound machine o settled) cursor ↔
      LeavesRoom n ⟨formatCursor cursor, rowFromOutbound machine o settled⟩ :=
  ⟨fun _ => boundFrame_iff b _, fun _ _ => boundFrame_iff b _⟩

/-- A letter under a task of so many characters. -/
def longTaskLetter (length : Nat) : Envelope :=
  { id := "a", ts := "2026-01-01T00:00:00Z", sender := .cli "host", target := .owner
    body := "note", task := some (repeated "a" length), defer := false }

theorem length_le_frameBytes {J : Type} (b : Builtins J) (n : NestedJson) (machine : String)
    (cursor : LogCursor) (length : Nat) : length ≤ frameBytes n (rowFrame (measured n b)
      (rowFromLedgerRecord machine (some (longTaskLetter length))) cursor) := by
  have hchar : escapedBytes "a" = 1 := by
    unfold escapedBytes byteLength escape
    decide
  have hlong := @escapedBytes_task_le n (rowFrame (measured n b)
    (rowFromLedgerRecord machine (some (longTaskLetter length))) cursor) _ (boundFrame_task _ _)
  rwa [escapedBytes_repeated, hchar, Nat.mul_one] at hlong

/-- The values that are objects, each as `null`. -/
def nullJson : NestedJson :=
  { sender := fun _ => "null", target := fun _ => "null", origin := fun _ => "null"
    authorization := fun _ => "null", receipt := fun _ => "null" }

def noBuiltins : Builtins Unit :=
  { textBytes := fun _ => 0, frameBytes := fun _ => 0, generation := fun _ => .number 2
    message := fun _ => none, isCore := fun _ => false, outbound := fun _ => none }

/-- A task of 40000 characters passes the bound, however little the other values take. -/
theorem long_task_passes_bound :
    ¬ ∀ record, Bounded nullJson noBuiltins (rowFromLedgerRecord "host" record) ZERO_CURSOR := by
  intro hall
  have hlong := length_le_frameBytes noBuiltins nullJson "host" ZERO_CURSOR 40000
  exact absurd (hlong.trans (hall (some (longTaskLetter 40000))).1) (by decide)

end Ccmux.Chat.FrameSize
