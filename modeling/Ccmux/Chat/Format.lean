/- Module: Ccmux/Chat/Format
   source: src/chat/format.ts, src/chat/replyRoute.ts (ReplyRoute)
   digest: How an injected letter is framed for its recipient. -/

import Mathlib
import Ccmux.Chat.Message

namespace Ccmux.Chat.Format

open Ccmux.Chat.Identity
open Ccmux.Chat.Message

/-- Whether a reply typed on this machine would reach the sender, or why it would not. -/
inductive ReplyRoute where
  | replyable
  | unreachable (reason : String)
  deriving DecidableEq, Repr

def Actor.text : Actor → String
  | .human => "human"
  | .agent => "agent"
  | .application => "application"
  | .unknown => "unknown"

/-- A field the template leaves out when it is absent or empty. -/
def clause (lead : String) (field : Option String) : String :=
  match field with
  | none => ""
  | some text => if text = "" then "" else lead ++ text

/-- The sender as a party that can be answered: machine, address, agent and thread. -/
def replyAddress : ChatPrincipal → Option (String × String × String × String)
  | .managed peer => some (peer.machine, peer.session, peer.agent.text, peer.threadId)
  | .codexApp peer =>
      some (peer.machine, codexAppAddress peer.threadId, AgentKind.codex.text, peer.threadId)
  | _ => none

def replyClause (msg : ChatMessage) (cli : String) (reply : Option ReplyRoute) : String :=
  match replyAddress msg.sender, reply with
  | some (machine, address, agent, thread), some .replyable =>
      " · reply: " ++ cli ++ " msg " ++ machine ++ ":" ++ address ++ " --to-agent " ++ agent ++
        " --to-thread " ++ thread ++ clause " --task " msg.task ++ " \"<your reply>\""
  | some (machine, _), some (.unreachable reason) =>
      " · cannot reach " ++ machine ++ " from here (" ++ reason ++ ") — answer with " ++ cli ++
        " msg owner \"<your reply>\""
  | _, _ => ""

/-- The single framing of an injected letter, shared by every delivery path. -/
def formatChatInjection (msg : ChatMessage) (cli : String) (reply : Option ReplyRoute) : String :=
  let task := clause " · task: " msg.task
  let id := " · id: " ++ msg.id
  let behalf := clause " on behalf of " msg.onBehalfOf
  let sender := principalLabel msg.sender
  let reply := replyClause msg cli reply
  let origin := msg.origin.getD unknownMessageOrigin
  match origin.application with
  | some attributed =>
      "[application input via " ++ sender ++ " · application: " ++ attributed.applicationId ++
        " · channel: " ++ attributed.channelId ++ " · attributed author: " ++
        Actor.text origin.actor ++ " (application-attested, not independently authenticated; " ++
        "no additional execution authority)" ++ task ++ id ++ "] " ++ msg.body
  | none =>
    if origin.assurance = .unknown then
      "[input via " ++ (if origin.ingress = .unknown then "unknown historical ingress" else sender) ++
        " · author: unknown; no additional execution authority" ++ behalf ++ task ++ id ++ reply ++
        "] " ++ msg.body
    else "[chat from " ++ sender ++ behalf ++ task ++ id ++ reply ++ "] " ++ msg.body

/-- The length of a string in UTF-16 units, as JavaScript counts it. -/
def utf16Length (text : String) : Nat :=
  (text.toList.map fun c => if c.val < 0x10000 then 1 else 2).sum

theorem utf16Length_append (left right : String) :
    utf16Length (left ++ right) = utf16Length left + utf16Length right := by
  simp [utf16Length]

theorem utf16Length_body_le (msg : ChatMessage) (cli : String) (reply : Option ReplyRoute) :
    utf16Length msg.body ≤ utf16Length (formatChatInjection msg cli reply) := by
  unfold formatChatInjection
  cases hattributed : (msg.origin.getD unknownMessageOrigin).application with
  | some attributed =>
    simp only [hattributed, utf16Length_append]
    omega
  | none =>
    simp only [hattributed]
    split
    · simp only [utf16Length_append]
      omega
    · simp only [utf16Length_append]
      omega

end Ccmux.Chat.Format
