/- Module: Ccmux/Chat/Tracks
   source: src/chat/deliver.ts, src/chat/deliverApp.ts, src/chat/nativeRuntime.ts,
   src/chat/telegram.ts (mirrorPending)
   digest: The delivery passes of one machine over their three tracks, and the Telegram mirror. -/

import Ccmux.Chat.Coalesce
import Ccmux.Chat.NativeRun

namespace Ccmux.Chat.Tracks

open Ccmux.Lib.Machine
open Ccmux.Chat.Identity
open Ccmux.Chat.Message
open Ccmux.Chat.Settlement
open Ccmux.Chat.Coalesce (coalesce)
open Ccmux.Chat.TurnProgress
open Ccmux.Chat.NativeRuntime
open Ccmux.Runtime.Input (RuntimeInput)

/-- A letter handed to its recipient, with the ack log at the start of the pass that did it. -/
structure Handed where
  msg : ChatMessage
  startAcks : AckLog
  deriving DecidableEq, Repr

/-- What a pass holds once it has loaded everything. -/
structure Running where
  ledger : Ledger
  startAcks : AckLog
  cursors : ChatCursors
  acked : Finset String
  now : Int
  changed : Bool

/-- One `deliverPending` run: the ledger is read first, cursors and ack set after an await. -/
inductive Pass where
  | starting (ledger : Ledger) (startAcks : AckLog)
  | running (run : Running)

/-- `handed` are the submissions of the passes, `mirrored` the letters sent to Telegram. -/
structure World where
  ledger : Ledger
  acks : AckLog
  file : ChatCursors
  mailboxes : String → Option RuntimeInput
  pass : Option Pass
  handed : List Handed
  mirrored : List ChatMessage

/-- What a visit of one recipient does, in order. -/
inductive Effect where
  | remember (cursors : ChatCursors)
  | changed (flag : Bool)
  | save
  | ack (id : String)
  | hand (letters : List ChatMessage)
  | queue (recipientKey : String) (msg : ChatMessage) (input : RuntimeInput)

def World.hand (w : World) (run : Running) (letters : List ChatMessage) : World :=
  { w with handed := w.handed ++ letters.map fun msg => ⟨msg, run.startAcks⟩ }

def perform (w : World) (run : Running) : Effect → World × Running
  | .remember cursors => (w, { run with cursors })
  | .changed flag => (w, { run with changed := flag })
  | .save => ({ w with file := Cursors.saveCursors w.file run.cursors }, run)
  | .ack id => ({ w with acks := w.acks ++ [⟨id, .daemon⟩] }, run)
  | .hand letters => (w.hand run letters, run)
  | .queue recipientKey msg input =>
      ({ w.hand run [msg] with mailboxes := assign w.mailboxes recipientKey (some input) }, run)

def performAll (w : World) (run : Running) : List Effect → World × Running
  | [] => (w, run)
  | effect :: rest => performAll (perform w run effect).1 (perform w run effect).2 rest

/-- The letter `ledger.find((slot) => slot?.id === id)` finds. -/
def findLetter (ledger : Ledger) (id : String) : Option ChatMessage :=
  (scanFrom (fun msg => msg.id == id) 0 ledger).map Pick.msg

inductive ChatTurnProgress where
  | awaitingPickup | running | answered | interrupted
  deriving DecidableEq, Repr

/-- How `deliverToPane` ended: before the barrier, between barrier and Enter, or with Enter. -/
inductive Typing where
  | held | lost | typed
  deriving DecidableEq, Repr

/-- What a visit of a pane finds; `deliverable` says that every gate before the typing let the
letter through. -/
structure PaneEnv where
  transcriptPickup : Bool
  progress : ChatTurnProgress
  submittedId : Option String
  retried : Bool
  settled : Bool
  deliverable : ChatMessage → Bool
  typing : Typing
  transcriptLine : Option Nat

/-- How `deliverCodexAppMessage` ended once nothing held it: a failure may come after the provider
has started the turn. -/
inductive AppOutcome where
  | held
  | failed (submitted : Bool)
  | started
  deriving DecidableEq, Repr

def AppOutcome.submitted : AppOutcome → Bool
  | .held => false
  | .failed submitted => submitted
  | .started => true

structure AppEnv where
  persisted : Bool
  rateHeld : Bool
  outcome : AppOutcome

inductive SendResult where
  | ok | permanent | transient
  deriving DecidableEq, Repr

/-- How long a submitted letter is given to appear in the transcript. -/
def pickupGraceMs : Int := 15000

/-- The retry of a letter whose Enter may never have happened. -/
def retryPane (run : Running) (pickup : Pickup) (env : PaneEnv) : List Effect :=
  if env.progress = .running ∨ env.submittedId = some pickup.messageId ∨
      run.now - pickup.injectedAt < pickupGraceMs then []
  else
    match findLetter run.ledger pickup.messageId with
    | none => []
    | some msg => if env.retried then [.hand [msg]] else []

/-- `finishPickup` as writes, and the cursors it leaves in memory. -/
def finishing (cursors : ChatCursors) (recipientKey : String) : List Effect × ChatCursors :=
  match finishPickup cursors recipientKey with
  | none => ([], cursors)
  | some (rows, closed) =>
      (rows.map (fun row => .ack row.id) ++ [.remember closed, .save], closed)

section
variable (dateParse : String → Option Int)

/-- The letter is typed: a transcript proves its pickup, else its track is settled at once. -/
def typePane (run : Running) (recipientKey : String) (env : PaneEnv) (caught : ChatCursors)
    (pick : Pick) : List Effect :=
  if env.transcriptPickup then
    let armed := armPickup caught recipientKey pick run.now env.transcriptLine none
    match env.typing with
    | .held => []
    | .lost => [.remember armed, .save]
    | .typed => [.remember armed, .save, .hand [pick.msg], .changed true]
  else
    match env.typing with
    | .typed =>
      if isConditional pick.msg then
        let batch := coalesce dateParse run.ledger recipientKey run.acked run.now
        .hand batch :: (batch.map (fun msg => .ack msg.id) ++ [.changed true])
      else
        [.hand [pick.msg], .remember (advancePast caught recipientKey pick.idx), .changed true]
    | _ => []

/-- `nextDelivery`, kept in memory. -/
def catching (next : Option Pick × ChatCursors × Bool) : List Effect :=
  .remember next.2.1 :: if next.2.2 then [.changed true] else []

/-- The next letter for a pane, once no pickup is in its way. -/
def freshPane (run : Running) (acks : AckLog) (cursors : ChatCursors) (recipientKey : String)
    (env : PaneEnv) : List Effect :=
  let next := nextDelivery dateParse run.ledger recipientKey cursors run.acked run.now
  catching next ++
    match next.1 with
    | none => []
    | some pick =>
      if !env.deliverable pick.msg ||
          (isConditional pick.msg && decide (pick.msg.id ∈ loadAckedIds acks)) then []
      else typePane dateParse run recipientKey env next.2.1 pick

def visitPane (run : Running) (acks : AckLog) (recipientKey : String) (env : PaneEnv) :
    List Effect :=
  match env.transcriptPickup, run.cursors.pickups recipientKey with
  | true, some pickup =>
    if env.progress ≠ .answered ∧ env.progress ≠ .interrupted then retryPane run pickup env
    else if !env.settled then []
    else
      let (ending, closed) := finishing run.cursors recipientKey
      ending ++ .changed false :: freshPane dateParse run acks closed recipientKey env
  | _, _ => freshPane dateParse run acks run.cursors recipientKey env

/-- The letter a native pass writes to the mailbox: the one its pickup points at, else the pick. -/
def nativeLetter (run : Running) (recipientKey : String) : Option ChatMessage :=
  match run.cursors.pickups recipientKey with
  | some pickup => pickup.ledgerIndex.bind run.ledger.letter
  | none =>
    (pickPendingDelivery dateParse run.ledger recipientKey
      (position run.cursors.delivered recipientKey) run.acked run.now).1.map Pick.msg

/-- The actions of a native pass as effects, up to the first that throws. -/
def nativeEffects (recipientKey : String) (letter : Option ChatMessage) :
    List Action → List Effect
  | [] => []
  | .remember cursors :: rest => .remember cursors :: nativeEffects recipientKey letter rest
  | .appendAck id :: rest => .ack id :: nativeEffects recipientKey letter rest
  | .saveCursors :: rest => .save :: nativeEffects recipientKey letter rest
  | .writeInput input :: rest =>
    match letter with
    | some msg =>
      if input.valid then .queue recipientKey msg input :: nativeEffects recipientKey letter rest
      else []
    | none => []
  | .journal _ _ _ _ :: rest => nativeEffects recipientKey letter rest
  | .hold _ _ :: rest => nativeEffects recipientKey letter rest
  | .clearHold :: rest => nativeEffects recipientKey letter rest
  | .refuse _ :: _ => []

def visitNative (run : Running) (recipientKey : String) (env : PassEnv)
    (mailbox : Option RuntimeInput) : List Effect :=
  let actions := (deliverLocked dateParse { env with now := run.now } recipientKey run.ledger
    run.cursors run.acked mailbox).1
  nativeEffects recipientKey (nativeLetter dateParse run recipientKey) actions

variable (machine : String)

/-- `deliverCodexAppMessage` refuses every letter but those of a thread on this machine. -/
def addressedHere (msg : ChatMessage) : Bool :=
  match msg.target with
  | .codexApp peer => decide (peer.machine = machine)
  | _ => false

/-- The retry of an App letter: the client-id proof first, then another submission. -/
def retryApp (run : Running) (recipientKey : String) (pickup : Pickup) (env : AppEnv) :
    List Effect :=
  match findLetter run.ledger pickup.messageId with
  | none => []
  | some msg =>
    if !addressedHere machine msg then []
    else if env.persisted then (finishing run.cursors recipientKey).1
    else
      match env.outcome with
      | .held => []
      | .failed submitted => if submitted then [.hand [msg]] else []
      | .started => .hand [msg] :: (finishing run.cursors recipientKey).1

/-- The submission of a freshly armed letter, without a client-id proof. -/
def submitApp (recipientKey : String) (env : AppEnv) (armed : ChatCursors) (msg : ChatMessage) :
    List Effect :=
  if !addressedHere machine msg then []
  else
    match env.outcome with
    | .held => []
    | .failed submitted => if submitted then [.hand [msg]] else []
    | .started =>
      .hand [msg] :: ((if isConditional msg then [.ack msg.id] else []) ++
        [.remember (dropPickup armed recipientKey), .changed true])

def freshApp (run : Running) (acks : AckLog) (recipientKey : String) (env : AppEnv) :
    List Effect :=
  let next := nextDelivery dateParse run.ledger recipientKey run.cursors run.acked run.now
  catching next ++
    match next.1 with
    | none => []
    | some pick =>
      if env.rateHeld ||
          (isConditional pick.msg && decide (pick.msg.id ∈ loadAckedIds acks)) then []
      else
        let armed := armPickup next.2.1 recipientKey pick run.now none none
        [.remember armed, .save] ++ submitApp machine recipientKey env armed pick.msg

def visitApp (run : Running) (acks : AckLog) (recipientKey : String) (env : AppEnv) :
    List Effect :=
  match run.cursors.pickups recipientKey with
  | some pickup => retryApp machine run recipientKey pickup env
  | none => freshApp dateParse machine run acks recipientKey env

/-- The App threads a pass serves: those its ledger snapshot addresses on this machine. -/
def isAppRecipient (ledger : Ledger) (recipientKey : String) : Bool :=
  ledger.any fun slot => slot.any fun msg =>
    addressedHere machine msg && chatTargetKey msg.target == recipientKey

/-- What `mirrorPending` sends from a position on, and where its cursor ends. -/
def mirrorFrom (results : Nat → SendResult) : Nat → Ledger → List ChatMessage × Nat
  | cur, [] => ([], cur)
  | cur, none :: rest => mirrorFrom results (cur + 1) rest
  | cur, some msg :: rest =>
    if msg.origin = none ∨ msg.notification ≠ some .owner then mirrorFrom results (cur + 1) rest
    else
      match results cur with
      | .transient => ([], cur)
      | .permanent => mirrorFrom results (cur + 1) rest
      | .ok =>
        let (sent, stop) := mirrorFrom results (cur + 1) rest
        (msg :: sent, stop)

def World.saveTelegram (w : World) (telegram : Nat) (saves : Bool) : World :=
  if saves then
    { w with file := Cursors.saveCursors w.file { w.file with telegram := some telegram } }
  else w

/-- One mirror pass, which may die before it saves; its first run adopts the present and sends
nothing. -/
def mirror (w : World) (results : Nat → SendResult) (saves : Bool) : World :=
  match w.file.telegram with
  | none => w.saveTelegram w.ledger.length saves
  | some start =>
    let (sent, stop) := mirrorFrom results start (w.ledger.drop start)
    ({ w with mirrored := w.mirrored ++ sent } : World).saveTelegram stop saves

/-- `stopAfter` is how many effects a visit comes to before it throws, or all of them. -/
inductive Event where
  | send (slot : LedgerSlot)
  | ack (row : AckRow)
  | mark (recipientKey : String) (ledgerLen : Nat)
  | mailbox (recipientKey : String) (input : Option RuntimeInput)
  | start
  | load (now : Int)
  | visitPane (peer : ManagedPeer) (env : PaneEnv) (stopAfter : Nat)
  | visitNative (peer : ManagedPeer) (env : PassEnv) (stopAfter : Nat)
  | visitApp (recipientKey : String) (env : AppEnv) (stopAfter : Nat)
  | finish
  | crash
  | mirror (results : Nat → SendResult) (saves : Bool)

/-- The first effects of a visit. A throw out of a pane's visit ends the pass, the other two
tracks catch it. -/
def carryOut (w : World) (run : Running) (effects : List Effect) (stopAfter : Nat)
    (caught : Bool) : World :=
  let after := performAll w run (effects.take stopAfter)
  { after.1 with
    pass := if caught || decide (effects.length ≤ stopAfter) then some (.running after.2)
      else none }

/-- No letter of the ledger has the id of the slot. -/
def isNew (ledger : Ledger) (slot : LedgerSlot) : Bool :=
  slot.all fun msg => ledger.all fun other => other.all fun old => old.id != msg.id

variable (native : ManagedPeer → Bool)

def step (w : World) : Event → Option World
  | .send slot =>
    if isNew w.ledger slot then some { w with ledger := w.ledger ++ [slot] } else none
  | .ack row => some { w with acks := w.acks ++ [row] }
  | .mark recipientKey ledgerLen =>
      some { w with file := Cursors.markRead w.file recipientKey ledgerLen }
  | .mailbox recipientKey input =>
      some { w with mailboxes := assign w.mailboxes recipientKey input }
  | .start =>
    match w.pass, w.ledger with
    | none, _ :: _ => some { w with pass := some (.starting w.ledger w.acks) }
    | _, _ => none
  | .load now =>
    match w.pass with
    | some (.starting ledger startAcks) =>
        let run := Running.mk ledger startAcks w.file (loadAckedIds w.acks) now false
        some { w with pass := some (.running run) }
    | _ => none
  | .visitPane peer env stopAfter =>
    match w.pass with
    | some (.running run) =>
      if peer.machine = machine ∧ native peer = false then
        let effects := Tracks.visitPane dateParse run w.acks (managedPeerKey peer) env
        some (carryOut w run effects stopAfter false)
      else none
    | _ => none
  | .visitNative peer env stopAfter =>
    match w.pass with
    | some (.running run) =>
      if peer.machine = machine ∧ native peer = true then
        let effects := Tracks.visitNative dateParse run (managedPeerKey peer) env
          (w.mailboxes (managedPeerKey peer))
        some (carryOut w run effects stopAfter true)
      else none
    | _ => none
  | .visitApp recipientKey env stopAfter =>
    match w.pass with
    | some (.running run) =>
      if isAppRecipient machine run.ledger recipientKey then
        let effects := Tracks.visitApp dateParse machine run w.acks recipientKey env
        some (carryOut w run effects stopAfter true)
      else none
    | _ => none
  | .finish =>
    match w.pass with
    | some (.running run) =>
        let file := if run.changed then Cursors.saveCursors w.file run.cursors else w.file
        some { w with file, pass := none }
    | _ => none
  | .crash => some { w with pass := none }
  | .mirror results saves =>
    match w.pass with
    | none => some (Tracks.mirror w results saves)
    | some _ => none

end

/-- The letters a list of effects hands over. -/
def handedBy : List Effect → List ChatMessage
  | [] => []
  | .hand letters :: rest => letters ++ handedBy rest
  | .queue _ msg _ :: rest => msg :: handedBy rest
  | _ :: rest => handedBy rest

@[simp] theorem handedBy_nil : handedBy [] = [] := rfl

@[simp] theorem handedBy_hand (letters : List ChatMessage) (rest : List Effect) :
    handedBy (.hand letters :: rest) = letters ++ handedBy rest := rfl

@[simp] theorem handedBy_queue (key : String) (msg : ChatMessage) (input : RuntimeInput)
    (rest : List Effect) : handedBy (.queue key msg input :: rest) = msg :: handedBy rest := rfl

@[simp] theorem handedBy_remember (cursors : ChatCursors) (rest : List Effect) :
    handedBy (.remember cursors :: rest) = handedBy rest := rfl

@[simp] theorem handedBy_changed (flag : Bool) (rest : List Effect) :
    handedBy (.changed flag :: rest) = handedBy rest := rfl

@[simp] theorem handedBy_save (rest : List Effect) :
    handedBy (.save :: rest) = handedBy rest := rfl

@[simp] theorem handedBy_ack (id : String) (rest : List Effect) :
    handedBy (.ack id :: rest) = handedBy rest := rfl

@[simp] theorem handedBy_append (left right : List Effect) :
    handedBy (left ++ right) = handedBy left ++ handedBy right := by
  induction left with
  | nil => rfl
  | cons effect rest ih => cases effect <;> simp [ih]

@[simp] theorem handedBy_acks {α : Type} (id : α → String) (rows : List α) :
    handedBy (rows.map fun row => Effect.ack (id row)) = [] := by
  induction rows with
  | nil => rfl
  | cons row rows ih => simpa using ih

@[simp] theorem handedBy_finishing (cursors : ChatCursors) (key : String) :
    handedBy (finishing cursors key).1 = [] := by
  unfold finishing
  split
  · rfl
  · simp

@[simp] theorem handedBy_catching (next : Option Pick × ChatCursors × Bool) :
    handedBy (catching next) = [] := by
  unfold catching
  split <;> rfl

variable {msg : ChatMessage}

theorem mem_handedBy_take {effects : List Effect} {stopAfter : Nat}
    (h : msg ∈ handedBy (effects.take stopAfter)) : msg ∈ handedBy effects := by
  have hsplit : handedBy effects =
      handedBy (effects.take stopAfter) ++ handedBy (effects.drop stopAfter) := by
    rw [← handedBy_append, List.take_append_drop]
  rw [hsplit]
  exact List.mem_append_left _ h

theorem findLetter_some {ledger : Ledger} {id : String} (h : findLetter ledger id = some msg) :
    msg.id = id ∧ ∃ idx, ledger.letter idx = some msg := by
  obtain ⟨pick, hpick, rfl⟩ := Option.map_eq_some_iff.mp h
  obtain ⟨_, hletter, hid, _⟩ := scanFrom_some hpick
  exact ⟨by simpa using hid, pick.idx, hletter⟩

theorem mirror_frame (w : World) (results : Nat → SendResult) (saves : Bool) :
    (mirror w results saves).pass = w.pass ∧ (mirror w results saves).handed = w.handed ∧
    (mirror w results saves).ledger = w.ledger ∧ (mirror w results saves).acks = w.acks := by
  unfold mirror World.saveTelegram
  split <;> cases saves <;> simp

theorem perform_snapshots (w : World) (run : Running) (effect : Effect) :
    (perform w run effect).2.ledger = run.ledger ∧
    (perform w run effect).2.startAcks = run.startAcks ∧
    (perform w run effect).2.acked = run.acked ∧
    (perform w run effect).1.ledger = w.ledger ∧
    w.acks <+: (perform w run effect).1.acks := by
  cases effect <;> simp [perform, World.hand]

theorem performAll_snapshots (w : World) (run : Running) (effects : List Effect) :
    (performAll w run effects).2.ledger = run.ledger ∧
    (performAll w run effects).2.startAcks = run.startAcks ∧
    (performAll w run effects).2.acked = run.acked ∧
    (performAll w run effects).1.ledger = w.ledger ∧
    w.acks <+: (performAll w run effects).1.acks := by
  induction effects generalizing w run with
  | nil => simp [performAll]
  | cons effect rest ih =>
    obtain ⟨hledger, hstart, hacked, hsame, hacks⟩ := perform_snapshots w run effect
    obtain ⟨iledger, istart, iacked, isame, iacks⟩ :=
      ih (perform w run effect).1 (perform w run effect).2
    exact ⟨iledger.trans hledger, istart.trans hstart, iacked.trans hacked, isame.trans hsame,
      hacks.trans iacks⟩

theorem perform_handed (w : World) (run : Running) (effect : Effect) :
    (perform w run effect).1.handed =
      w.handed ++ (handedBy [effect]).map fun msg => ⟨msg, run.startAcks⟩ := by
  cases effect <;> simp [perform, World.hand]

theorem performAll_handed (w : World) (run : Running) (effects : List Effect) :
    (performAll w run effects).1.handed =
      w.handed ++ (handedBy effects).map fun msg => ⟨msg, run.startAcks⟩ := by
  induction effects generalizing w run with
  | nil => simp [performAll]
  | cons effect rest ih =>
    have hsplit : handedBy (effect :: rest) = handedBy [effect] ++ handedBy rest :=
      handedBy_append [effect] rest
    rw [performAll, ih, perform_handed, (perform_snapshots w run effect).2.1, hsplit,
      List.map_append, List.append_assoc]

@[simp] theorem carryOut_handed (w : World) (run : Running) (effects : List Effect)
    (stopAfter : Nat) (caught : Bool) :
    (carryOut w run effects stopAfter caught).handed = w.handed ++
      (handedBy (effects.take stopAfter)).map fun msg => ⟨msg, run.startAcks⟩ :=
  performAll_handed w run (effects.take stopAfter)

end Ccmux.Chat.Tracks
