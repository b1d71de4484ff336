/- Module: Ccmux/Chat/TurnProgress
   source: src/chat/turnProgress.ts (armPickup, finishPickup)
   digest: The persisted pickup barrier, armed together with the cursor and closed with the ack. -/

import Ccmux.Chat.Settlement

namespace Ccmux.Chat.TurnProgress

open Ccmux.Chat.Message
open Ccmux.Chat.Settlement (isConditional Pick)

/-- `delivered[key] = idx + 1`, and the read cursor never behind it. -/
def advancePast (cursors : ChatCursors) (recipientKey : String) (idx : Nat) : ChatCursors :=
  { cursors with
    delivered := assign cursors.delivered recipientKey (some (idx + 1))
    read := assign cursors.read recipientKey
      (some (max (position cursors.read recipientKey) (idx + 1))) }

/-- Pre-submit transition: the pickup and an immediate letter's cursor move together. -/
def armPickup (cursors : ChatCursors) (recipientKey : String) (pick : Pick) (injectedAt : Int)
    (transcriptLine : Option Nat) (native : Option NativePickup) : ChatCursors :=
  let conditional := isConditional pick.msg
  let pickup : Pickup :=
    { messageId := pick.msg.id, injectedAt, ledgerIndex := some pick.idx, conditional,
      transcriptLine, native }
  let armed := { cursors with pickups := assign cursors.pickups recipientKey (some pickup) }
  if conditional then armed else advancePast armed recipientKey pick.idx

/-- What `finishPickup` writes: the ack row of a conditional letter, and the cursors without the
pickup, an immediate letter's cursors standing past it. -/
def finishPickup (cursors : ChatCursors) (recipientKey : String) :
    Option (AckLog × ChatCursors) :=
  (cursors.pickups recipientKey).map fun pickup =>
    let rows : AckLog := if pickup.conditional then [⟨pickup.messageId, .daemon⟩] else []
    let passed :=
      match pickup.conditional, pickup.ledgerIndex with
      | false, some idx =>
        { cursors with
          delivered := assign cursors.delivered recipientKey
            (some (max (position cursors.delivered recipientKey) (idx + 1)))
          read := assign cursors.read recipientKey
            (some (max (position cursors.read recipientKey) (idx + 1))) }
      | _, _ => cursors
    (rows, { passed with pickups := assign passed.pickups recipientKey none })

@[simp] theorem advancePast_delivered (cursors : ChatCursors) (key : String) (idx : Nat) :
    (advancePast cursors key idx).delivered = assign cursors.delivered key (some (idx + 1)) := rfl

@[simp] theorem advancePast_pickups (cursors : ChatCursors) (key : String) (idx : Nat) :
    (advancePast cursors key idx).pickups = cursors.pickups := rfl

@[simp] theorem advancePast_telegram (cursors : ChatCursors) (key : String) (idx : Nat) :
    (advancePast cursors key idx).telegram = cursors.telegram := rfl

@[simp] theorem armPickup_pickups (cursors : ChatCursors) (key : String) (pick : Pick) (at_ : Int)
    (line : Option Nat) (native : Option NativePickup) :
    (armPickup cursors key pick at_ line native).pickups =
      assign cursors.pickups key (some
        { messageId := pick.msg.id, injectedAt := at_, ledgerIndex := some pick.idx,
          conditional := isConditional pick.msg, transcriptLine := line, native }) := by
  cases h : isConditional pick.msg <;> simp [armPickup, h]

variable {cursors : ChatCursors} {key : String} {pick : Pick} {at_ : Int} {line : Option Nat}
  {native : Option NativePickup}

theorem armPickup_delivered_conditional (h : isConditional pick.msg = true) :
    (armPickup cursors key pick at_ line native).delivered = cursors.delivered := by
  simp [armPickup, h]

theorem armPickup_delivered_immediate (h : isConditional pick.msg = false) :
    (armPickup cursors key pick at_ line native).delivered =
      assign cursors.delivered key (some (pick.idx + 1)) := by
  simp [armPickup, h]

end Ccmux.Chat.TurnProgress
