/- Module: Ccmux/Fleet/Outbox
   source: src/fleet/outbox.ts
   digest: The record of attempts to send a letter to another machine. -/

import Ccmux.Chat.Envelope

namespace Ccmux.Fleet.Outbox

open Ccmux.Chat.Envelope (Envelope)

/-- Did the remote accept it, and the error when it did not. -/
structure OutboundResult where
  ok : Bool
  detail : String
  deriving DecidableEq, Repr

/-- One attempt; the exact wire envelope is kept for retries. -/
structure Outbound where
  envelope : Envelope
  result : OutboundResult
  deriving DecidableEq, Repr

def outboundId (record : Outbound) : String := record.envelope.id

def outboundTimestamp (record : Outbound) : String := record.envelope.ts

end Ccmux.Fleet.Outbox
