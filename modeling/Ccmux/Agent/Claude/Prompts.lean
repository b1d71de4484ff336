/- Module: Ccmux/Agent/Claude/Prompts
   source: src/agent/claude/prompts.ts
   digest: Which blocking menu a pane shows, where its cursor is, and what the policy answers. -/

import Mathlib
import Ccmux.Lib.Text

namespace Ccmux.Agent.Claude.Prompts

open Ccmux.Lib.Text

inductive PromptKind where
  | resumePicker | folderTrust | declaredPermissions | externalImports | unrecognised
  deriving DecidableEq, Repr

structure PanePrompt where
  kind : PromptKind
  title : String
  deriving DecidableEq, Repr

inductive ResumePicker where
  | full | summary | off
  deriving DecidableEq, Repr

inductive TrustPrompt where
  | off | folder | declared
  deriving DecidableEq, Repr

/-- The machine's policy for the menus of a session that starts unattended. -/
structure MachineConfig where
  resumePicker : ResumePicker
  trustPrompt : TrustPrompt

def pickerSummary : Chars := "Resume from summary".toList

def pickerFull : Chars := "Resume full session as-is".toList

def trustYes : Chars := "Yes, I trust this folder".toList

def trustLine : Chars := "trust this folder".toList

def declaredLine : Chars := "pre-approves".toList

def noExit : Chars := "No, exit".toList

def importsNo : Chars := "No, disable external imports".toList

def importsYes : Chars := "Yes, allow".toList

/-- `\d+\.`: the digits and what follows the point. -/
def numberDot (text : Chars) : Option (Chars × Chars) :=
  match text.takeWhile Char.isDigit, text.dropWhile Char.isDigit with
  | [], _ => none
  | digits, '.' :: rest => some (digits, rest)
  | _, _ => none

/-- `❯\s*(\d+)\.`: a cursor on a numbered option, with its number and the option's own text. -/
def cursorOption : Chars → Option (Chars × Chars)
  | '❯' :: rest => numberDot (rest.dropWhile isSpace)
  | _ => none

/-- `❯\s*(\d+)\.\s`, capturing the number. -/
def menuCursor (text : Chars) : Option Chars :=
  match cursorOption text with
  | some (number, c :: _) => if isSpace c then some number else none
  | _ => none

/-- `Enter to confirm\s*·\s*Esc to cancel`. -/
def menuFooter (text : Chars) : Option Unit :=
  match stripPrefix "Enter to confirm".toList text with
  | none => none
  | some rest =>
    match rest.dropWhile isSpace with
    | '·' :: more => (stripPrefix "Esc to cancel".toList (more.dropWhile isSpace)).map fun _ => ()
    | _ => none

def hasFooter (text : Chars) : Bool := (firstMatch menuFooter text).isSome

/-- The menu the pane shows now, as its own text; `none` when something was drawn below it. -/
def liveFrame (paneText : Chars) : Option Chars :=
  let shown := lines (trimEnd paneText)
  let footers := shown.zipIdx.filterMap fun (line, i) => if hasFooter line then some i else none
  match footers.getLast? with
  | none => some paneText
  | some last =>
    if last ≠ shown.length - 1 then none
    else
      let start := match footers.dropLast.getLast? with
        | none => 0
        | some before => before + 1
      some (joinLines (shown.drop start))

def paneTail (paneText : Chars) (count : Nat) : Chars := tailLines count paneText

def atInteractiveMenu (paneText : Chars) : Bool :=
  let tail := paneTail paneText 20
  (firstMatch menuCursor tail).isSome || hasFooter tail

/-- Which menu is up, if any; an unknown menu is still an answer. -/
def detectPrompt (paneText : Chars) : Option PanePrompt :=
  if !atInteractiveMenu paneText then none
  else
    let tail := paneTail paneText 40
    if includes tail pickerSummary && includes tail pickerFull then
      some ⟨.resumePicker, "resume: summary or full"⟩
    else if includes tail trustLine then
      if includes tail declaredLine then
        some ⟨.declaredPermissions, "trust folder + permissions it declares"⟩
      else some ⟨.folderTrust, "trust this folder"⟩
    else if includes tail importsNo && includes tail importsYes then
      some ⟨.externalImports, "allow external imports"⟩
    else some ⟨.unrecognised, "a choice we don't recognise"⟩

def optionLabels : PromptKind → List Chars
  | .resumePicker => [pickerSummary, pickerFull]
  | .externalImports => [importsNo, importsYes]
  | .folderTrust => [noExit, trustYes]
  | .declaredPermissions => [noExit, trustYes]
  | .unrecognised => []

/-- The id of an option is the place of its label among the labels of its kind. -/
structure MenuOption where
  id : Nat
  label : Chars
  deriving DecidableEq, Repr

structure TerminalMenu where
  kind : PromptKind
  title : String
  options : List MenuOption
  selected : Option Nat
  deriving DecidableEq, Repr

/-- `^(❯\s*)?(?:\d+\.\s*)?(.+?)\s*$` on a trimmed line: whether the cursor stands on it, and what
is left of it after its number. -/
def readOption (line : Chars) : Bool × Chars :=
  let (cursor, rest) := match trim line with
    | '❯' :: rest => (true, rest.dropWhile isSpace)
    | text => (false, text)
  match numberDot rest with
  | some (_, label) => (cursor, label.dropWhile isSpace)
  | none => (cursor, rest)

def readOptions (labels : List Chars) :
    List Chars → List MenuOption → Option Nat → List MenuOption × Option Nat
  | [], options, selected => (options, selected)
  | line :: rest, options, selected =>
    let (cursor, label) := readOption line
    if label ∉ labels then readOptions labels rest options selected
    else readOptions labels rest (options ++ [⟨labels.idxOf label, label⟩])
      (if cursor then some options.length else selected)

/-- Only complete known option sets are actionable. -/
def terminalMenu (paneText : Chars) : Option TerminalMenu :=
  (detectPrompt paneText).map fun prompt =>
    let labels := optionLabels prompt.kind
    let (options, selected) := readOptions labels (lines (paneTail paneText 40)) [] none
    let actionable := decide (0 < labels.length ∧ options.length = labels.length ∧
      (options.map MenuOption.id).dedup.length = labels.length) && selected.isSome
    ⟨prompt.kind, prompt.title, if actionable then options else [],
      if actionable then selected else none⟩

/-- Whether the machine's policy covers this prompt; the levels escalate. -/
def policyAnswers (kind : PromptKind) (m : MachineConfig) : Bool :=
  match kind with
  | .resumePicker => decide (m.resumePicker ≠ .off)
  | .folderTrust => decide (m.trustPrompt ≠ .off)
  | .declaredPermissions => decide (m.trustPrompt = .declared)
  | _ => false

end Ccmux.Agent.Claude.Prompts
