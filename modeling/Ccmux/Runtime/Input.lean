/- Module: Ccmux/Runtime/Input
   source: src/runtime/input.ts, src/runtime/projectionSchema.ts (the fields a dispatch reads)
   digest: The single input slot of a native runtime, and the schema every write of it passes. -/

import Ccmux.Chat.Format

namespace Ccmux.Runtime.Input

open Ccmux.Chat.Identity (AgentKind)
open Ccmux.Chat.Message (AcceptedTurnOptions AttachmentReference)
open Ccmux.Chat.Format (utf16Length)

inductive InputPhase where
  | queued | dispatching | accepted | uncertain
  deriving DecidableEq, Repr

inductive Terminal where
  | completed | interrupted | failed
  deriving DecidableEq, Repr

inductive InputKind where
  | message | command
  deriving DecidableEq, Repr

/-- The input slot; of a continuation only the turn it started is read here. -/
structure RuntimeInput where
  messageId : String
  nativeId : String
  text : String
  phase : InputPhase
  turnId : Option String := none
  dispatchedAt : Option String := none
  kind : InputKind := .message
  images : Option (List AttachmentReference) := none
  turnOptions : Option AcceptedTurnOptions := none
  continuations : List String := []
  terminal : Option Terminal := none
  deriving DecidableEq, Repr

/-- A native id or turn id, `z.string().min(1).max(256)`. -/
def isNativeId (id : String) : Bool := decide (1 ≤ utf16Length id ∧ utf16Length id ≤ 256)

def maxInputText : Nat := 32768

/-- `RuntimeInputSchema.parse` accepts the value; its other fields are typed. -/
def RuntimeInput.valid (input : RuntimeInput) : Bool :=
  isNativeId input.nativeId &&
    decide (1 ≤ utf16Length input.text ∧ utf16Length input.text ≤ maxInputText) &&
    input.turnId.all isNativeId &&
    decide (input.continuations.length ≤ 32)

/-- The native turn an accepted input started. -/
def inputTurnId (input : RuntimeInput) : String := input.turnId.getD input.nativeId

/-- The id a queued input is submitted under; the others need an id shaped by their runtime. -/
def runtimeInputId (openCodeMessageId : String → Int → String) (agent : AgentKind)
    (messageId : String) (timestamp : Int) : String :=
  match agent with
  | .custom | .codex => messageId
  | _ => openCodeMessageId messageId timestamp

inductive TurnStatus where
  | inProgress | completed | interrupted | failed
  deriving DecidableEq, Repr

structure NativeTurn where
  id : String
  status : TurnStatus
  deriving DecidableEq, Repr

inductive RuntimeState where
  | working | idle | waitingApproval | waitingInput | unknown
  deriving DecidableEq, Repr

def RuntimeState.text : RuntimeState → String
  | .working => "working"
  | .idle => "idle"
  | .waitingApproval => "waiting-approval"
  | .waitingInput => "waiting-input"
  | .unknown => "unknown"

/-- The part of a live runtime snapshot that delivery reads. -/
structure NativeSnapshot where
  state : RuntimeState
  turn : Option NativeTurn
  connected : Bool := true
  deriving DecidableEq, Repr

end Ccmux.Runtime.Input
