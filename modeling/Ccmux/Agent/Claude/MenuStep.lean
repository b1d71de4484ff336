/- Module: Ccmux/Agent/Claude/MenuStep
   source: src/agent/claude/menuStep.ts, src/agent/menuSettle.ts,
     src/commands/run.ts (settlePrompts)
   digest: Answering a blocking menu one key at a time, and the loop that watches a new pane. -/

import Ccmux.Agent.Claude.Prompts

namespace Ccmux.Agent.Claude.MenuStep

open Ccmux.Lib.Text
open Ccmux.Agent.Claude.Prompts

/-- What the last key sent is waiting to be confirmed by. -/
inductive MenuPending where
  | move (fingerprint : String) (expect : Nat)
  | number (menu : PromptKind) (number : Chars)
  deriving DecidableEq, Repr

structure MenuSettleState where
  armed : Bool
  answered : Option PromptKind
  pending : Option MenuPending
  deriving DecidableEq, Repr

def initialMenuSettle : MenuSettleState := ⟨true, none, none⟩

inductive Key where
  | enter | down | up
  | number (digits : Chars)
  deriving DecidableEq, Repr

inductive MenuSettleAction where
  | wait
  | press (key : Key)
  | stop (reason : String)
  deriving DecidableEq, Repr

structure MenuSettleStep where
  state : MenuSettleState
  action : MenuSettleAction
  deriving DecidableEq, Repr

/-- The one key that moves a cursor at `selected` toward `desired`. -/
def navigationKey (selected desired : Nat) : Key :=
  if desired = selected then .enter else if selected < desired then .down else .up

/-- The cursor position a navigation key must produce. -/
def expectedSelection (selected : Nat) (key : Key) : Nat :=
  if key = .down then selected + 1 else selected - 1

/-- The option number under the cursor in a numbered menu. -/
def cursorNumber (paneText : Chars) : Option Chars := firstMatch menuCursor (paneTail paneText 40)

/-- `(\d+)\.\s*label`, capturing the number. -/
def numberedLabel (label text : Chars) : Option Chars :=
  match numberDot text with
  | some (number, rest) => if label.isPrefixOf (rest.dropWhile isSpace) then some number else none
  | none => none

def optionNumber (tail label : Chars) : Option Chars := firstMatch (numberedLabel label) tail

/-- The label of the picker that the policy allows. -/
def pickerLabel (m : MachineConfig) : Chars :=
  if m.resumePicker = .summary then pickerSummary else pickerFull

/-- The frame at the bottom of the screen with the menu it shows. -/
def shownMenu (paneText : Chars) : Option (Chars × TerminalMenu) :=
  (liveFrame paneText).bind fun frame => (terminalMenu frame).map fun menu => (frame, menu)

def wait (armed : Bool) (state : MenuSettleState) : MenuSettleStep :=
  ⟨⟨armed, state.answered, none⟩, .wait⟩

def stop (state : MenuSettleState) (reason : String) : MenuSettleStep :=
  ⟨⟨false, state.answered, state.pending⟩, .stop reason⟩

section
variable (digest : Chars → String)

/-- The identity of a menu's contents without the cursor. -/
def menuFingerprint (paneText : Chars) : String :=
  let plain := (paneTail paneText 40).map fun c => if c = '❯' then ' ' else c
  digest (joinLines ((lines plain).map trim))

/-- The end of `settleMenu`: the last key is confirmed, and a new one may be chosen. -/
@[grind =]
def choose (state : MenuSettleState) (armed : Bool) (shown : Chars) (menu : TerminalMenu)
    (m : MachineConfig) : MenuSettleStep :=
  if !armed then stop state "the menu answered a moment ago is still up"
  else if !policyAnswers menu.kind m then wait armed state
  else if menu.kind = .folderTrust ∨ menu.kind = .declaredPermissions then
    match menu.options.findIdx? fun option => option.label == trustYes, menu.selected with
    | some target, some selected =>
      let key := navigationKey selected target
      if key = .enter then ⟨⟨false, some menu.kind, none⟩, .press key⟩
      else
        ⟨⟨armed, state.answered,
          some (.move (menuFingerprint digest shown) (expectedSelection selected key))⟩, .press key⟩
    | _, _ => wait armed state
  else if menu.kind = .resumePicker then
    match optionNumber (paneTail shown 40) (pickerLabel m) with
    | none => wait armed state
    | some number =>
      ⟨⟨armed, state.answered, some (.number menu.kind number)⟩, .press (.number number)⟩
  else wait armed state

/-- The next step for the menu the pane shows now, given what was pressed before. -/
@[grind =]
def settleMenu (state : MenuSettleState) (paneText : Chars) (m : MachineConfig) : MenuSettleStep :=
  match shownMenu paneText with
  | none =>
    match state.pending with
    | some (.move _ _) => stop state "the menu disappeared after a navigation key"
    | _ => ⟨initialMenuSettle, .wait⟩
  | some (shown, menu) =>
    -- a different kind of menu than the one answered with Enter is the next question
    let armed := state.armed || (state.answered.isSome && decide (state.answered ≠ some menu.kind))
    match state.pending with
    | some (.move fingerprint expect) =>
      if menu.selected = some expect ∧ menuFingerprint digest shown = fingerprint then
        choose digest state armed shown menu m
      else
        stop state ("a navigation key did not move the cursor one option toward the target, " ++
          "or the menu changed")
    | some (.number asked number) =>
      if menu.kind ≠ asked then choose digest state true shown menu m
      else if cursorNumber shown = some number then ⟨⟨false, some menu.kind, none⟩, .press .enter⟩
      else stop state "a number key did not put the cursor on the chosen option"
    | none => choose digest state armed shown menu m

/-- What one turn of the loop finds: the visible screen, a pane that cannot be captured yet, or
that the agent has exited, also while the screen was being read. -/
inductive Look where
  | screen (paneText : Chars)
  | uncapturable
  | gone

/-- One screen the loop decided on, with the state before and the step it made. -/
structure Glance where
  before : MenuSettleState
  pane : Chars
  step : MenuSettleStep

def Glance.sent (g : Glance) : Option Key :=
  match g.step.action with
  | .press key => some key
  | _ => none

/-- `settlePrompts`: every screen the loop decides on, until it stops or the agent is gone. -/
@[grind =]
def settlePrompts (m : MachineConfig) : MenuSettleState → List Look → List Glance
  | _, [] => []
  | _, .gone :: _ => []
  | state, .uncapturable :: rest => settlePrompts m state rest
  | state, .screen paneText :: rest =>
    let step := settleMenu digest state paneText m
    match step.action with
    | .stop _ => [⟨state, paneText, step⟩]
    | _ => ⟨state, paneText, step⟩ :: settlePrompts m step.state rest

end

end Ccmux.Agent.Claude.MenuStep
