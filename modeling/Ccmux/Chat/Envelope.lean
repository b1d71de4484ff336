/- Module: Ccmux/Chat/Envelope
   source: src/chat/messageSchema.ts (ChatMessageSchema), src/chat/communicationAuthorizationSchema.ts,
     src/chat/communicationReceiptSchema.ts
   digest: The whole letter: the message and the evidence its sender gave for writing. -/

import Ccmux.Chat.Message

namespace Ccmux.Chat.Envelope

open Ccmux.Chat.Identity (ChatPrincipal ChatTarget)
open Ccmux.Chat.Message

/-- Which fact the sender is standing on. -/
inductive CommunicationBasis where
  | userInstruction | peerLetter | threadContinuation
  deriving DecidableEq, Repr

/-- Caller-supplied evidence, never a credential or a verified grant. -/
structure CommunicationAuthorization where
  basis : Option CommunicationBasis
  whyThisCommunicationIsNecessaryAndWithinTheUserAuthorizedScope : Option String
  userAuthorizationQuote : Option String
  sourceMessageRef : String
  deriving DecidableEq, Repr

/-- The letter a peer's permission was read from. -/
structure SourceLetter where
  id : String
  ts : String
  sender : ChatPrincipal
  target : ChatTarget
  task : Option String
  body : String
  deriving DecidableEq, Repr

/-- A local record snapshot is evidence of a claim, not proof of human consent. -/
structure CommunicationReceipt where
  rootMessageId : String
  authorization : CommunicationAuthorization
  sourceLetter : Option SourceLetter
  deriving DecidableEq, Repr

/-- One immutable letter with all its fields. -/
structure Envelope extends ChatMessage where
  communicationAuthorization : Option CommunicationAuthorization := none
  communicationReceipt : Option CommunicationReceipt := none
  registrationGeneration : Option String := none
  controlFingerprint : Option String := none
  deriving DecidableEq, Repr

end Ccmux.Chat.Envelope
