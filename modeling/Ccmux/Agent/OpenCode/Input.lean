/- Module: Ccmux/Agent/OpenCode/Input
   source: src/agent/opencode/input.ts
   digest: One tick of an OpenCode owner over its input slot, from one await to the next. -/

import Ccmux.Chat.NativeRun

namespace Ccmux.Agent.OpenCode.Input

open Ccmux.Chat.Message (AttachmentReference NativeModelSelection NativeTurnOptions)
open Ccmux.Runtime.Input

/-- The registration a tick runs for; `policied` says whether it carries an application policy. -/
structure Session where
  sessionID : Option String
  policied : Bool
  deriving DecidableEq, Repr

/-- What a tick reads besides the mailbox. `applied` is the policy evidence of the projection,
`verified` whether `verifyApplicationPolicy` returns, and `selection` the session's own options. -/
structure TickEnv where
  snapshot : NativeSnapshot
  applied : Bool
  verified : Bool
  contextPending : Bool
  selection : Option NativeTurnOptions
  deriving DecidableEq, Repr

inductive MessageRole where
  | user | assistant
  deriving DecidableEq, Repr

/-- The `info` of a message the provider answers with. -/
structure MessageInfo where
  id : String
  sessionID : String
  role : MessageRole
  agent : Option String
  deriving DecidableEq, Repr

structure ResolvedImage where
  reference : AttachmentReference
  path : String
  deriving DecidableEq, Repr

structure FilePart where
  mime : String
  filename : String
  path : String
  deriving DecidableEq, Repr

/-- The payload of `promptAsync`; its first part is the text. -/
structure PromptRequest where
  sessionID : String
  messageID : String
  model : NativeModelSelection
  agent : Option String
  variant : Option String
  text : String
  files : List FilePart
  deriving DecidableEq, Repr

/-- The turn selection of an input, once it is known to be one of this runtime. -/
structure Options where
  model : NativeModelSelection
  agent : Option String
  variant : Option String
  deriving DecidableEq, Repr

/-- Where a tick waits, under the admission lock. -/
inductive Point where
  | agents (env : TickEnv) (input : RuntimeInput)
  | message (input : RuntimeInput) (agent : Option String)
  | confirming (input : RuntimeInput)
  | doubting (input : RuntimeInput)
  | images (input : RuntimeInput) (agent : Option String) (options : Options)
  | marking (input : RuntimeInput) (request : PromptRequest)
  | prompting (input : RuntimeInput) (request : PromptRequest)
  | awaiting (input : RuntimeInput)
  | accepting (input : RuntimeInput)
  deriving DecidableEq, Repr

def Point.input : Point → RuntimeInput
  | .agents _ input | .message input _ | .confirming input | .doubting input
  | .images input _ _ | .marking input _ | .prompting input _ | .awaiting input
  | .accepting input => input

/-- `input.turnOptions?.options ?? readSelection(m, session)?.options`, of this runtime. -/
def optionsOf (env : TickEnv) (input : RuntimeInput) : Option Options :=
  match (input.turnOptions.map (·.options)).or env.selection with
  | some (.opencode model agent variant) => some { model, agent, variant }
  | _ => none

def ready (snapshot : NativeSnapshot) : Bool :=
  snapshot.connected && snapshot.state == .idle &&
    !(snapshot.turn.any fun turn => turn.status == .inProgress)

/-- The tick once the policy's agent is known: a lookup, a submission, or its end. -/
def proceed (env : TickEnv) (input : RuntimeInput) (agent : Option String) : Option Point :=
  if input.phase ≠ .queued then some (.message input agent)
  else if env.contextPending then none
  else if !ready env.snapshot then none
  else
    match optionsOf env input with
    | none => none
    | some options =>
      if agent.isSome ∧ options.agent.isSome ∧ options.agent ≠ agent then none
      else some (.images input agent options)

/-- The tick up to its first await; `none` returns or throws with nothing written. -/
def applyLocked (session : Session) (env : TickEnv) (mailbox : Option RuntimeInput) :
    Option Point :=
  match mailbox, session.sessionID with
  | some input, some _ =>
    if input.phase = .accepted ∧ (!session.policied ∨ env.applied) then none
    else if session.policied then
      if env.verified then some (.agents env input) else none
    else proceed env input none
  | _, _ => none

/-- The message is the native record of the input. -/
def correlates (sessionID : String) (input : RuntimeInput) (info : MessageInfo) : Bool :=
  info.id == input.nativeId && info.sessionID == sessionID && info.role == .user

/-- The lookup's answer, or its error (`none`): accepted, or uncertain where it was not yet. -/
def reconcile (session : Session) (sessionID : String) (input : RuntimeInput)
    (agent : Option String) (answer : Option MessageInfo) : Option Point :=
  let proven := answer.any fun info =>
    correlates sessionID input info && (!session.policied || info.agent == agent)
  if proven then some (.confirming input)
  else if input.phase = .dispatching then some (.doubting input)
  else none

def filePart (image : ResolvedImage) : FilePart :=
  { mime := image.reference.mediaType
    filename := image.reference.id ++
      (if image.reference.mediaType = "image/png" then ".png" else ".jpg")
    path := image.path }

def promptRequest (sessionID : String) (input : RuntimeInput) (agent : Option String)
    (options : Options) (images : List ResolvedImage) : PromptRequest :=
  { sessionID
    messageID := input.nativeId
    model := options.model
    agent := agent.or options.agent
    variant := options.variant
    text := input.text
    files := images.map filePart }

/-- What an await of the tick ends with; `false` and `none` are errors, and a `write` that fails
has left the file as it was. -/
inductive Event where
  | daemon (event : Chat.NativeRun.Event)
  | tick (env : TickEnv)
  | agents (answer : Option String)
  | message (answer : Option MessageInfo)
  | images (answer : Option (List ResolvedImage))
  | write (landed : Bool)
  | prompt
  | answer (ok : Bool)
  | stop

/-- A call of `promptAsync`, and the letter it was made for. -/
structure Prompt where
  letter : String
  request : PromptRequest
  deriving DecidableEq, Repr

/-- The recipient's files and daemon beside the tick of its owner. `answered` are the native ids
that `promptAsync` answered for, `shown` the messages that lookups were answered with. -/
structure World where
  base : Chat.NativeRun.World
  point : Option Point := none
  prompts : List Prompt := []
  answered : List String := []
  shown : List MessageInfo := []

def World.at (w : World) (point : Option Point) : World := { w with point }

def World.store (w : World) (input : RuntimeInput) (point : Option Point) : World :=
  { w with base := { w.base with mailbox := some input }, point }

/-- Evidence for the input: a turn with its native id. -/
def World.proven (w : World) (input : RuntimeInput) : World :=
  { w with
    base := { w.base with turns := w.base.turns ++ [⟨input.nativeId, some input.messageId⟩] } }

/-- The write under way lands, or fails and leaves the file. -/
def write (w : World) (landed : Bool) : Point → Option World
  | .confirming input =>
    some <|
      if landed then w.store { input with phase := .accepted } none
      -- The `catch` of the lookup covers its own write.
      else w.at (if input.phase = .dispatching then some (.doubting input) else none)
  | .doubting input =>
    some (if landed then w.store { input with phase := .uncertain } none else w.at none)
  | .marking input request =>
    some <|
      if landed then w.store { input with phase := .dispatching } (some (.prompting input request))
      else w.at none
  | .accepting input =>
    some (if landed then w.store { input with phase := .accepted } none else w.at none)
  | _ => none

/-- What the daemon, senders and readers do; the passes run for this session. -/
def daemonEvent (openCodeMessageId : String → Int → String) :
    Chat.NativeRun.Event → Option Chat.NativeRun.Event
  | .pass env => some (.pass { env with agent := .opencode, openCodeMessageId })
  | .tick _ | .ownerStep | .response _ | .ownerStop | .providerStart _ _ | .foreignTurn _ => none
  | event => some event

/-- Only a pass asks for the admission lock. -/
def takesLock : Chat.NativeRun.Event → Bool
  | .pass _ => true
  | _ => false

section
variable (dateParse : String → Option Int) (recipientKey : String)
  (openCodeMessageId : String → Int → String) (session : Session)

def step (w : World) : Event → Option World
  | .daemon event =>
    match daemonEvent openCodeMessageId event with
    | none => none
    | some event =>
      if takesLock event ∧ w.point.isSome then none
      else (Chat.NativeRun.step dateParse recipientKey w.base event).map fun base =>
        { w with base }
  | .tick env =>
    match w.base.holder, w.point with
    | .free, none => some (w.at (applyLocked session env w.base.mailbox))
    | _, _ => none
  | .agents answer =>
    match w.point with
    | some (.agents env input) =>
      some (w.at (answer.bind fun agent => proceed env input (some agent)))
    | _ => none
  | .message answer =>
    match w.point, session.sessionID with
    | some (.message input agent), some sessionID =>
      let w := { w with shown := w.shown ++ answer.toList }
      let point := reconcile session sessionID input agent answer
      some ((if point = some (.confirming input) then w.proven input else w).at point)
    | _, _ => none
  | .images answer =>
    match w.point, session.sessionID with
    | some (.images input agent options), some sessionID =>
      some (w.at (answer.map fun images =>
        .marking input (promptRequest sessionID input agent options images)))
    | _, _ => none
  | .write landed => w.point.bind (write w landed)
  | .prompt =>
    match w.point with
    | some (.prompting input request) =>
      some { w with
        base := { w.base with calls := w.base.calls ++ [input.messageId] }
        prompts := w.prompts ++ [{ letter := input.messageId, request }]
        point := some (.awaiting input) }
    | _ => none
  | .answer ok =>
    match w.point with
    | some (.awaiting input) =>
      some <|
        if ok then
          { w with answered := w.answered ++ [input.nativeId] }.proven input |>.at
            (some (.accepting input))
        else w.at none
    | _ => none
  | .stop => w.point.map fun _ => w.at none

end

end Ccmux.Agent.OpenCode.Input
