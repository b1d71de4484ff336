/- Module: Ccmux/Control/TerminalPromptRun
   source: src/control/terminalPrompt.ts
   digest: Which keys the answers to terminal menus send, over every interleaving of calls and every
     sequence of screens, generations and failures. -/

import Mathlib
import Ccmux.Control.TerminalPrompt

namespace Ccmux.Control.TerminalPromptRun

open Ccmux.Lib.Text
open Ccmux.Lib.Machine
open Ccmux.Agent.Claude.MenuStep (Key navigationKey expectedSelection menuFingerprint)
open Ccmux.Agent.Claude.Prompts (TerminalMenu)
open Ccmux.Chat.Identity (ManagedPeer)
open Ccmux.Control.TerminalPrompt

variable {digest : Chars → String} {rcPrefix : String}

/-! ### What a turn saw and did -/

def keyOf (t : Turn) : Option Key :=
  match t.did with
  | .issued (.press _ key) => some key
  | _ => none

def screenOf (t : Turn) : Option Chars :=
  match t.heard with
  | .answered (.capture _) (.out text) => some text
  | _ => none

/-- The pane generation the turn was woken by. -/
def generationOf (t : Turn) : Option Chars :=
  match t.heard with
  | .answered (.generation _) (.out generation) => some generation
  | _ => none

/-- The turn was woken by the success of holding the pane's input back. -/
def Closed (pane : String) (t : Turn) : Prop :=
  ∃ text, t.heard = .answered (.closeGate pane) (.out text)

/-- The screen shows a menu, and it is the observed one. -/
def Shows (digest : Chars → String) (o : Observation) (text : Chars) (menu : TerminalMenu) : Prop :=
  menuOf text = some menu ∧ menuFingerprint digest text = o.fingerprint

/-- Nothing the turn was woken by differs from what was observed. -/
def Same (digest : Chars → String) (o : Observation) (t : Turn) : Prop :=
  (∀ text, screenOf t = some text → ∃ menu, Shows digest o text menu) ∧
    ∀ generation, generationOf t = some generation → generation = o.generation

/-- The option the caller named stands at this place of the menu. -/
def Names (input : RespondInput) (menu : TerminalMenu) (place : Nat) : Prop :=
  ∃ option, menu.options[place]? = some option ∧ toString option.id = input.optionId

/-- The cursor went from one place to the next one toward the target. -/
def Nearer (selected next desired : Nat) : Prop :=
  (selected < desired ∧ next = selected + 1) ∨ (desired < selected ∧ next + 1 = selected)

def SelectedAt (t : Turn) (selected : Nat) : Prop :=
  ∃ text menu, screenOf t = some text ∧ menuOf text = some menu ∧ menu.selected = some selected

/-- The key leads from the cursor on the screen just captured to the named option. -/
def Pressed (digest : Chars → String) (o : Observation) (input : RespondInput) (t : Turn)
    (key : Key) : Prop :=
  ∃ text menu selected desired, screenOf t = some text ∧ Shows digest o text menu ∧
    menu.selected = some selected ∧ Names input menu desired ∧
    key = navigationKey selected desired

/-- The later turn saw the same menu with the cursor where the key had to put it. -/
def Confirms (digest : Chars → String) (o : Observation) (t : Turn) (key : Key) (u : Turn) : Prop :=
  ∃ selected text menu, SelectedAt t selected ∧ screenOf u = some text ∧ Shows digest o text menu ∧
    menu.selected = some (expectedSelection selected key)

def own (k : Nat) (history : List Turn) : List Turn := history.filter fun t => t.call == k

/-- The call was made with this input, and this is the observation it names. -/
def Answers (w : World) (k : Nat) (input : RespondInput) (o : Observation) : Prop :=
  (∃ stage, w.calls[k]? = some ⟨.respond input, stage⟩) ∧ o ∈ w.prompts.objects ∧
    o.id = input.observationId

/-! ### The laws of one call -/

/-- What holds of the turns of a call that answers `input` on the observation `o`. -/
structure Lawful (digest : Chars → String) (o : Observation) (input : RespondInput)
    (turns : List Turn) : Prop where
  pressed : ∀ t ∈ turns, ∀ key, keyOf t = some key → Pressed digest o input t key
  same : ∀ before t after, turns = before ++ t :: after → (keyOf t).isSome →
    ∀ u ∈ before ++ [t], Same digest o u
  confirmed : ∀ before t between next after, turns = before ++ t :: (between ++ next :: after) →
    ∀ key, keyOf t = some key → (keyOf next).isSome →
    key ≠ .enter ∧ ∃ u ∈ between, Confirms digest o t key u
  reopened : ∀ t ∈ turns, ∀ outcome, t.did = .finished outcome → ∀ u ∈ turns, ∀ pane,
    Closed pane u → ∃ answer, t.heard = .answered (.openGate pane) answer

def gateOf : Point → Option String
  | .lifetime pane _ => some pane
  | .capturing pane _ => some pane
  | .pressing pane _ _ _ => some pane
  | .sleeping pane _ _ _ _ => some pane
  | .looking pane _ _ _ _ => some pane
  | .opening pane _ => some pane
  | _ => none

/-- The cursor before the key that has not been seen to render, with that key. -/
def pendingOf : Point → Option (Nat × Key)
  | .pressing _ _ selected key => some (selected, key)
  | .sleeping _ _ selected key _ => some (selected, key)
  | .looking _ _ selected key _ => some (selected, key)
  | _ => none

/-- The call has given up or is done, and gives the input back. -/
def isOpening : Point → Bool
  | .opening _ _ => true
  | _ => false

/-- What one answer does to the call that holds the lock. -/
inductive Went (digest : Chars → String) (o : Observation) (input : RespondInput) :
    Point → Answer → Next → Prop where
  | found (name : String) (agentPanes : List (String × String)) (live : List String)
    (pane : String) :
    Went digest o input (.pane name) (.panes agentPanes live) (.wait (.generation pane))
  | alive (pane : String) :
    Went digest o input (.generation pane) (.out o.generation) (.wait (.closing pane))
  | entered (pane : String) (text : Chars) :
    Went digest o input (.closing pane) (.out text) (.wait (.lifetime pane 0))
  | lasts (pane : String) (n : Nat) :
    Went digest o input (.lifetime pane n) (.out o.generation) (.wait (.capturing pane n))
  | presses (pane : String) (n : Nat) (text : Chars) (menu : TerminalMenu) (selected desired : Nat)
    (hshows : Shows digest o text menu) (hselected : menu.selected = some selected)
    (hnames : Names input menu desired) :
    Went digest o input (.capturing pane n) (.out text)
      (.wait (.pressing pane n selected (navigationKey selected desired)))
  | sent (pane : String) (n selected : Nat) (key : Key) (text : Chars) (deadline : Nat)
    (hkey : key ≠ .enter) :
    Went digest o input (.pressing pane n selected key) (.out text)
      (.wait (.sleeping pane n selected key deadline))
  | slept (pane : String) (n selected : Nat) (key : Key) (deadline : Nat) :
    Went digest o input (.sleeping pane n selected key deadline) .slept
      (.wait (.looking pane n selected key deadline))
  | moved (pane : String) (n selected : Nat) (key : Key) (deadline : Nat) (text : Chars)
    (menu : TerminalMenu) (hshows : Shows digest o text menu)
    (hselected : menu.selected = some (expectedSelection selected key)) :
    Went digest o input (.looking pane n selected key deadline) (.out text)
      (.wait (.lifetime pane (n + 1)))
  | still (pane : String) (n selected : Nat) (key : Key) (deadline : Nat) (text : Chars)
    (menu : TerminalMenu) (hshows : Shows digest o text menu) :
    Went digest o input (.looking pane n selected key deadline) (.out text)
      (.wait (.sleeping pane n selected key deadline))
  | closes (pane : String) (text : Chars) (outcome : Outcome) :
    Went digest o input (.closing pane) (.out text) (.wait (.opening pane outcome))
  | leaves (point : Point) (answer : Answer) (pane : String) (outcome : Outcome)
    (hgate : gateOf point = some pane) :
    Went digest o input point answer (.wait (.opening pane outcome))
  | refused (point : Point) (answer : Answer) (outcome : Outcome) (hgate : gateOf point = none)
    (hclosing : ∀ pane text, point = .closing pane → answer ≠ .out text) :
    Went digest o input point answer (.done outcome)
  | ended (pane : String) (left outcome : Outcome) (answer : Answer) :
    Went digest o input (.opening pane left) answer (.done outcome)

variable {answer : Answer} {input : RespondInput} {desired selected k : Nat} {o : Observation}
  {point : Point} {m : Moment} {turns : List Turn} {t : Turn} {call : Call} {stage : Stage}

theorem stdout_some {result : Except Failure Chars} (h : answer.stdout = some result) :
    (∃ text, answer = .out text ∧ result = .ok text) ∨
      (∃ failure, result = .error failure ∧ ∀ text, answer ≠ .out text) := by
  cases answer with
  | out text => exact .inl ⟨text, rfl, (Option.some.inj h).symm⟩
  | failed => exact .inr ⟨_, (Option.some.inj h).symm, nofun⟩
  | thrown => exact .inr ⟨_, (Option.some.inj h).symm, nofun⟩
  | panes agentPanes live => cases h
  | slept => cases h

variable {menu : TerminalMenu} {pane name : String} {n : Nat} {before after history : List Turn}
  {did : Did} {heard : Heard} {outcome : Outcome}

theorem names_of_findIdx
    (h : (menu.options.findIdx? fun option => toString option.id == input.optionId) =
      some desired) : Names input menu desired := by
  obtain ⟨hlt, hid, _⟩ := List.findIdx?_eq_some_iff_getElem.mp h
  exact ⟨menu.options[desired], List.getElem?_eq_getElem hlt, by simpa using hid⟩

theorem went_loopTop (hlast : Went digest o input point answer (.wait (.lifetime pane n)))
    (hleave : ∀ outcome, Went digest o input point answer (.wait (.opening pane outcome))) :
    Went digest o input point answer (.wait (loopTop rcPrefix input pane n m)) := by
  unfold loopTop
  split
  · exact hleave _
  split
  · exact hleave _
  split
  · exact hleave _
  · exact hlast

theorem went_inspect (o : Observation) (input : RespondInput) (pane : String) (n : Nat)
    (text : Chars) :
    Went digest o input (.capturing pane n) (.out text)
      (.wait (inspect digest o input pane n text)) := by
  unfold inspect
  split
  · exact .leaves _ _ _ _ rfl
  · next menu hmenu =>
    split
    · exact .leaves _ _ _ _ rfl
    · next selected hselected =>
      split
      · exact .leaves _ _ _ _ rfl
      · next hfingerprint =>
        split
        · exact .leaves _ _ _ _ rfl
        · next desired hdesired =>
          exact .presses pane n text menu selected desired ⟨hmenu, not_not.mp hfingerprint⟩
            hselected (names_of_findIdx hdesired)

theorem went_waitMove {key : Key} {deadline now : Nat} (hgate : gateOf point = some pane)
    (hsleep : Went digest o input point answer (.wait (.sleeping pane n selected key deadline))) :
    Went digest o input point answer (.wait (waitMove pane n selected key deadline now m)) := by
  unfold waitMove
  split
  · exact .leaves _ _ _ _ hgate
  split
  · exact .leaves _ _ _ _ hgate
  · exact hsleep

theorem went_look (o : Observation) (input : RespondInput) (pane : String) (n selected : Nat)
    (key : Key) (deadline : Nat) (text : Chars) (m : Moment) :
    Went digest o input (.looking pane n selected key deadline) (.out text)
      (.wait (look digest rcPrefix o input pane n selected key deadline text m)) := by
  unfold look
  split
  · exact .leaves _ _ _ _ rfl
  · next menu hmenu =>
    split
    · exact .leaves _ _ _ _ rfl
    · next hfingerprint =>
      have hshows : Shows digest o text menu := ⟨hmenu, not_not.mp hfingerprint⟩
      split
      · next hselected =>
        exact went_loopTop (.moved pane n selected key deadline text menu hshows hselected)
          fun _ => .leaves _ _ _ _ rfl
      split
      · exact .leaves _ _ _ _ rfl
      · exact went_waitMove rfl (.still pane n selected key deadline text menu hshows)

/-- Every answer does one of these things. -/
theorem resume_went {next : Next} (h : resume digest rcPrefix o input point answer m = some next) :
    Went digest o input point answer next := by
  cases point with
  | pane name =>
    cases answer with
    | panes agentPanes live =>
      simp only [resume] at h
      split at h
      · exact Option.some.inj h ▸ .refused _ _ _ rfl nofun
      · next pane _ =>
        split at h
        · exact Option.some.inj h ▸ .refused _ _ _ rfl nofun
        · exact Option.some.inj h ▸ .found name agentPanes live pane
    | thrown => exact Option.some.inj h ▸ .refused _ _ _ rfl nofun
    | _ => cases h
  | generation pane =>
    obtain ⟨result, hresult, rfl⟩ := Option.map_eq_some_iff.mp h
    obtain ⟨text, rfl, rfl⟩ | ⟨failure, rfl, _⟩ := stdout_some hresult
    · by_cases hsame : text = o.generation
      · subst hsame
        have halive : Went digest o input (.generation pane) (.out o.generation)
            (.wait (.closing pane)) := .alive pane
        simpa using halive
      · simp only [ne_eq, hsame, not_false_eq_true, if_true]
        exact .refused _ _ _ rfl nofun
    · exact .refused _ _ _ rfl nofun
  | closing pane =>
    obtain ⟨result, hresult, rfl⟩ := Option.map_eq_some_iff.mp h
    obtain ⟨text, rfl, rfl⟩ | ⟨failure, rfl, hother⟩ := stdout_some hresult
    · exact went_loopTop (.entered pane text) (.closes pane text)
    · exact .refused _ _ _ rfl fun _ text _ => hother text
  | lifetime pane n =>
    obtain ⟨result, hresult, rfl⟩ := Option.map_eq_some_iff.mp h
    obtain ⟨text, rfl, rfl⟩ | ⟨failure, rfl, _⟩ := stdout_some hresult
    · by_cases hsame : text = o.generation
      · subst hsame
        have hlasts : Went digest o input (.lifetime pane n) (.out o.generation)
            (.wait (.capturing pane n)) := .lasts pane n
        simpa using hlasts
      · simp only [ne_eq, hsame, not_false_eq_true, if_true]
        exact .leaves _ _ _ _ rfl
    · exact .leaves _ _ _ _ rfl
  | capturing pane n =>
    obtain ⟨result, hresult, rfl⟩ := Option.map_eq_some_iff.mp h
    obtain ⟨text, rfl, rfl⟩ | ⟨failure, rfl, _⟩ := stdout_some hresult
    · exact went_inspect o input pane n text
    · exact .leaves _ _ _ _ rfl
  | pressing pane n selected key =>
    obtain ⟨result, hresult, rfl⟩ := Option.map_eq_some_iff.mp h
    obtain ⟨text, rfl, rfl⟩ | ⟨failure, rfl, _⟩ := stdout_some hresult
    · by_cases hkey : key = .enter
      · simp only [hkey, if_true]
        exact .leaves _ _ _ _ rfl
      · simp only [hkey, if_false]
        exact went_waitMove rfl (.sent pane n selected key text _ hkey)
    · exact .leaves _ _ _ _ rfl
  | sleeping pane n selected key deadline =>
    cases answer with
    | slept => exact Option.some.inj h ▸ .slept pane n selected key deadline
    | _ => cases h
  | looking pane n selected key deadline =>
    obtain ⟨result, hresult, rfl⟩ := Option.map_eq_some_iff.mp h
    obtain ⟨text, rfl, rfl⟩ | ⟨failure, rfl, _⟩ := stdout_some hresult
    · exact went_look o input pane n selected key deadline text m
    · exact .leaves _ _ _ _ rfl
  | opening pane outcome =>
    obtain ⟨result, _, rfl⟩ := Option.map_eq_some_iff.mp h
    cases result with
    | ok text => exact .ended pane outcome outcome answer
    | error failure => exact .ended pane outcome _ answer

/-! ### What a call keeps while it holds the lock -/

/-- The turns of a call that stands at `point`. -/
structure Held (digest : Chars → String) (o : Observation) (input : RespondInput)
    (turns : List Turn) (point : Point) : Prop extends Lawful digest o input turns where
  running : ∀ t ∈ turns, ∀ outcome, t.did ≠ .finished outcome
  gated : ∀ u ∈ turns, ∀ pane, Closed pane u → gateOf point = some pane
  seen : isOpening point = false → ∀ u ∈ turns, Same digest o u
  moving : ∀ pane n selected deadline, point ≠ .sleeping pane n selected .enter deadline ∧
    point ≠ .looking pane n selected .enter deadline
  rendered : ∀ before t after, turns = before ++ t :: after → ∀ key, keyOf t = some key →
    (key ≠ .enter ∧ ∃ u ∈ after, Confirms digest o t key u) ∨ isOpening point = true ∨
      ∃ selected, SelectedAt t selected ∧ pendingOf point = some (selected, key)

def didOf : Next → Did
  | .wait point => .issued point.command
  | .done outcome => .finished outcome

theorem split_snoc {u : Turn} (h : turns ++ [t] = before ++ u :: after) :
    (after = [] ∧ before = turns ∧ u = t) ∨
      ∃ rest, after = rest ++ [t] ∧ turns = before ++ u :: rest := by
  obtain rfl | ⟨rest, last, rfl⟩ := List.eq_nil_or_concat' after
  · obtain ⟨hturns, hlast⟩ := List.append_inj' h rfl
    exact .inl ⟨rfl, hturns.symm, (List.singleton_inj.mp hlast).symm⟩
  · rw [← List.cons_append, ← List.append_assoc] at h
    obtain ⟨hturns, hlast⟩ := List.append_inj' h rfl
    obtain rfl := List.singleton_inj.mp hlast
    exact .inr ⟨rest, rfl, hturns⟩

section
variable {o : Observation} {input : RespondInput} {point : Point} {answer : Answer} {next : Next}
  {t : Turn}

theorem went_key (hwent : Went digest o input point answer next)
    (hheard : t.heard = .answered point.command answer) (hdid : t.did = didOf next) {key : Key}
    (hkey : keyOf t = some key) :
    Pressed digest o input t key ∧ Same digest o t ∧ isOpening point = false ∧
      pendingOf point = none ∧ ∃ selected, SelectedAt t selected ∧
        ∃ pane n, next = .wait (.pressing pane n selected key) := by
  cases hwent with
  | presses pane n text menu selected desired hshows hselected hnames =>
    have hscreen : screenOf t = some text := by simp [screenOf, hheard, Point.command]
    have hpress : navigationKey selected desired = key := by
      simpa [keyOf, hdid, didOf, Point.command] using hkey
    refine ⟨⟨text, menu, selected, desired, hscreen, hshows, hselected, hnames, hpress.symm⟩,
      ⟨?_, ?_⟩, ?_, rfl, selected, ⟨text, menu, hscreen, hshows.1, hselected⟩, pane, n, ?_⟩
    · intro other hother
      obtain rfl := Option.some.inj (hscreen.symm.trans hother)
      exact ⟨menu, hshows⟩
    · intro generation hgeneration
      simp [generationOf, hheard, Point.command] at hgeneration
    · rfl
    · rw [hpress]
  | _ => simp [keyOf, hdid, didOf, Point.command] at hkey

theorem went_gate (hwent : Went digest o input point answer next) {pane : String}
    (hgate : gateOf point = some pane) :
    (∃ q, next = .wait q ∧ gateOf q = some pane) ∨ ∃ left, point = .opening pane left := by
  cases hwent with
  | found => cases hgate
  | alive => cases hgate
  | entered => cases hgate
  | closes => cases hgate
  | refused _ _ _ hnone => exact absurd (hnone.symm.trans hgate) nofun
  | ended => exact .inr ⟨_, by rw [Option.some.inj hgate]⟩
  | leaves _ _ _ _ hsome => exact .inl ⟨_, rfl, hsome.symm.trans hgate⟩
  | _ => exact .inl ⟨_, rfl, hgate⟩

theorem went_closed (hwent : Went digest o input point answer next)
    (hheard : t.heard = .answered point.command answer) {pane : String} (hclosed : Closed pane t) :
    ∃ q, next = .wait q ∧ gateOf q = some pane := by
  obtain ⟨text, htext⟩ := hclosed
  obtain ⟨hcommand, rfl⟩ := Heard.answered.inj (hheard.symm.trans htext)
  have hpoint : point = .closing pane := by
    cases point with
    | closing other => rw [Command.closeGate.inj hcommand]
    | _ => cases hcommand
  subst hpoint
  cases hwent with
  | entered => exact ⟨_, rfl, rfl⟩
  | closes => exact ⟨_, rfl, rfl⟩
  | leaves _ _ _ _ hgate => cases hgate
  | refused _ _ _ _ hclosing => exact absurd rfl (hclosing pane text rfl)

variable {pane : String}

theorem same_of_screen {text : Chars} {menu : TerminalMenu}
    (hheard : t.heard = .answered (.capture pane) (.out text)) (hshows : Shows digest o text menu) :
    Same digest o t := by
  refine ⟨?_, ?_⟩
  · intro other hother
    obtain rfl : text = other := by simpa [screenOf, hheard] using hother
    exact ⟨menu, hshows⟩
  · intro generation hgeneration
    simp [generationOf, hheard] at hgeneration

theorem same_of_generation (hheard : t.heard = .answered (.generation pane) (.out o.generation)) :
    Same digest o t := by
  refine ⟨?_, ?_⟩
  · intro text htext
    simp [screenOf, hheard] at htext
  · intro generation hgeneration
    simpa [generationOf, hheard] using hgeneration.symm

theorem same_of_other (hscreen : screenOf t = none) (hgeneration : generationOf t = none) :
    Same digest o t := by
  refine ⟨?_, ?_⟩
  · intro text htext
    exact absurd (hscreen.symm.trans htext) nofun
  · intro generation h
    exact absurd (hgeneration.symm.trans h) nofun

variable {q : Point}

theorem went_same (hwent : Went digest o input point answer (.wait q))
    (hheard : t.heard = .answered point.command answer) (hopen : isOpening q = false) :
    isOpening point = false ∧ Same digest o t := by
  cases hwent with
  | alive pane => exact ⟨rfl, same_of_generation hheard⟩
  | lasts pane n => exact ⟨rfl, same_of_generation hheard⟩
  | presses pane n text menu selected desired hshows =>
    exact ⟨rfl, same_of_screen hheard hshows⟩
  | moved pane n selected key deadline text menu hshows =>
    exact ⟨rfl, same_of_screen hheard hshows⟩
  | still pane n selected key deadline text menu hshows =>
    exact ⟨rfl, same_of_screen hheard hshows⟩
  | closes => exact absurd hopen nofun
  | leaves => exact absurd hopen nofun
  | _ =>
    exact ⟨rfl, same_of_other (by simp [screenOf, hheard, Point.command])
      (by simp [generationOf, hheard, Point.command])⟩

theorem went_pending (hwent : Went digest o input point answer (.wait q))
    (hheard : t.heard = .answered point.command answer)
    (hmoving : ∀ pane n selected deadline, point ≠ .sleeping pane n selected .enter deadline ∧
      point ≠ .looking pane n selected .enter deadline)
    {selected : Nat} {key : Key} (hpending : pendingOf point = some (selected, key)) :
    isOpening q = true ∨ pendingOf q = some (selected, key) ∨
      (key ≠ .enter ∧ ∃ text menu, screenOf t = some text ∧ Shows digest o text menu ∧
        menu.selected = some (expectedSelection selected key)) := by
  cases hwent with
  | closes => exact .inl rfl
  | leaves => exact .inl rfl
  | sent => exact .inr (.inl hpending)
  | slept => exact .inr (.inl hpending)
  | still => exact .inr (.inl hpending)
  | moved pane n before moved deadline text menu hshows hselected =>
    obtain ⟨rfl, rfl⟩ := Prod.mk.inj (Option.some.inj hpending)
    refine .inr (.inr ⟨?_, text, menu, by simp [screenOf, hheard, Point.command], hshows,
      hselected⟩)
    rintro rfl
    exact (hmoving pane n before deadline).2 rfl
  | _ => cases hpending

theorem went_moving (hwent : Went digest o input point answer (.wait q))
    (hmoving : ∀ pane n selected deadline, point ≠ .sleeping pane n selected .enter deadline ∧
      point ≠ .looking pane n selected .enter deadline)
    (pane : String) (n selected deadline : Nat) :
    q ≠ .sleeping pane n selected .enter deadline ∧
      q ≠ .looking pane n selected .enter deadline := by
  cases hwent with
  | sent at_ n' selected' key text deadline' hkey =>
    exact ⟨fun h => hkey (Point.sleeping.inj h).2.2.2.1, nofun⟩
  | slept at_ n' selected' key deadline' =>
    refine ⟨nofun, ?_⟩
    intro h
    obtain ⟨rfl, rfl, rfl, rfl, rfl⟩ := Point.looking.inj h
    exact (hmoving at_ n' selected' deadline').1 rfl
  | still at_ n' selected' key deadline' =>
    refine ⟨?_, nofun⟩
    intro h
    obtain ⟨rfl, rfl, rfl, rfl, rfl⟩ := Point.sleeping.inj h
    exact (hmoving at_ n' selected' deadline').2 rfl
  | _ => exact ⟨nofun, nofun⟩

variable {turns : List Turn}

/-- One more turn keeps the laws of the call. -/
theorem Held.lawful (h : Held digest o input turns point)
    (hwent : Went digest o input point answer next)
    (hheard : t.heard = .answered point.command answer) (hdid : t.did = didOf next) :
    Lawful digest o input (turns ++ [t]) := by
  refine ⟨?_, ?_, ?_, ?_⟩
  · intro u hu key hkey
    obtain hu | rfl := List.mem_append.mp hu |>.imp_right List.mem_singleton.mp
    · exact h.pressed u hu key hkey
    · exact (went_key hwent hheard hdid hkey).1
  · intro before u after hsplit hkey
    obtain ⟨rfl, rfl, rfl⟩ | ⟨rest, rfl, hturns⟩ := split_snoc hsplit
    · obtain ⟨key, hkey⟩ := Option.isSome_iff_exists.mp hkey
      obtain ⟨_, hsame, hopen, _⟩ := went_key hwent hheard hdid hkey
      intro v hv
      obtain hv | rfl := List.mem_append.mp hv |>.imp_right List.mem_singleton.mp
      · exact h.seen hopen v hv
      · exact hsame
    · exact h.same before u rest hturns hkey
  · intro before u between later after hsplit key hkey hlater
    rw [← List.cons_append, ← List.append_assoc] at hsplit
    obtain ⟨rfl, hbefore, rfl⟩ | ⟨rest, rfl, hturns⟩ := split_snoc hsplit
    · obtain ⟨other, hother⟩ := Option.isSome_iff_exists.mp hlater
      obtain ⟨_, _, hopen, hnone, _⟩ := went_key hwent hheard hdid hother
      obtain hconfirmed | hopening | ⟨_, _, hpending⟩ :=
        h.rendered before u between hbefore.symm key hkey
      · exact hconfirmed
      · exact absurd (hopen.symm.trans hopening) nofun
      · exact absurd (hnone.symm.trans hpending) nofun
    · refine h.confirmed before u between later rest ?_ key hkey hlater
      rw [hturns, List.append_assoc, List.cons_append]
  · intro u hu outcome hfinished v hv pane hclosed
    obtain hu | rfl := List.mem_append.mp hu |>.imp_right List.mem_singleton.mp
    · exact absurd hfinished (h.running u hu outcome)
    · have hdone : next = .done outcome := by
        cases next with
        | wait q => exact absurd (hdid.symm.trans hfinished) nofun
        | done other => rw [Did.finished.inj (hdid.symm.trans hfinished)]
      obtain hv | rfl := List.mem_append.mp hv |>.imp_right List.mem_singleton.mp
      · obtain ⟨q, hq, _⟩ | ⟨left, rfl⟩ := went_gate hwent (h.gated v hv pane hclosed)
        · exact absurd (hdone.symm.trans hq) nofun
        · exact ⟨answer, hheard⟩
      · obtain ⟨q, hq, _⟩ := went_closed hwent hheard hclosed
        exact absurd (hdone.symm.trans hq) nofun

/-- A turn that awaits again leaves the call where it may go on. -/
theorem Held.goes (h : Held digest o input turns point)
    (hwent : Went digest o input point answer (.wait q))
    (hheard : t.heard = .answered point.command answer) (hdid : t.did = .issued q.command) :
    Held digest o input (turns ++ [t]) q := by
  refine ⟨h.lawful hwent hheard hdid, ?_, ?_, ?_, went_moving hwent h.moving, ?_⟩
  · intro u hu outcome
    obtain hu | rfl := List.mem_append.mp hu |>.imp_right List.mem_singleton.mp
    · exact h.running u hu outcome
    · rw [hdid]
      exact nofun
  · intro u hu pane hclosed
    obtain hu | rfl := List.mem_append.mp hu |>.imp_right List.mem_singleton.mp
    · obtain ⟨r, hr, hgate⟩ | ⟨left, rfl⟩ := went_gate hwent (h.gated u hu pane hclosed)
      · exact Next.wait.inj hr ▸ hgate
      · cases hwent with
        | leaves _ _ _ _ hgate => exact hgate.symm.trans rfl
    · obtain ⟨r, hr, hgate⟩ := went_closed hwent hheard hclosed
      exact Next.wait.inj hr ▸ hgate
  · intro hopen u hu
    obtain ⟨hbefore, hsame⟩ := went_same hwent hheard hopen
    obtain hu | rfl := List.mem_append.mp hu |>.imp_right List.mem_singleton.mp
    · exact h.seen hbefore u hu
    · exact hsame
  · intro before u after hsplit key hkey
    obtain ⟨rfl, rfl, rfl⟩ | ⟨rest, rfl, hturns⟩ := split_snoc hsplit
    · obtain ⟨_, _, _, _, selected, hselected, pane, n, hnext⟩ := went_key hwent hheard hdid hkey
      refine .inr (.inr ⟨selected, hselected, ?_⟩)
      rw [Next.wait.inj hnext]
      rfl
    · obtain ⟨hnot, v, hv, hconfirms⟩ | hopening | ⟨selected, hselected, hpending⟩ :=
        h.rendered before u rest hturns key hkey
      · exact .inl ⟨hnot, v, List.mem_append_left _ hv, hconfirms⟩
      · cases hopen : isOpening q with
        | true => exact .inr (.inl rfl)
        | false =>
          have hbefore := (went_same hwent hheard hopen).1
          exact absurd (hbefore.symm.trans hopening) nofun
      · obtain hopen | hstill | ⟨hnot, text, menu, hscreen, hshows, hmoved⟩ :=
          went_pending hwent hheard h.moving hpending
        · exact .inr (.inl hopen)
        · exact .inr (.inr ⟨selected, hselected, hstill⟩)
        · exact .inl ⟨hnot, t, List.mem_append_right _ (List.mem_singleton_self t),
            selected, text, menu, hselected, hscreen, hshows, hmoved⟩

end

/-! ### What every interleaving keeps -/

/-- The objects after some turns: new ones were made, and old ones may have been used up. -/
def Grown (objects later : List Observation) : Prop :=
  ∀ (i : Nat) (o : Observation), objects[i]? = some o →
    later[i]? = some o ∨ later[i]? = some { o with consumed := true }

/-- The turns of a call that never held the lock. -/
def Plain (turns : List Turn) : Prop := ∀ t ∈ turns, keyOf t = none ∧ ∀ pane, ¬ Closed pane t

/-- A turn of a call that has not got the lock yet. -/
def Fresh (t : Turn) : Prop :=
  keyOf t = none ∧ screenOf t = none ∧ generationOf t = none ∧ (∀ pane, ¬ Closed pane t) ∧
    ∀ outcome, t.did ≠ .finished outcome

def isHolding : Stage → Bool
  | .holding _ _ => true
  | _ => false

inductive Kept (digest : Chars → String) (objects : List Observation) (turns : List Turn) :
    Call → Prop where
  | plain {request : Request} {stage : Stage} (hplain : Plain turns)
    (hstage : isHolding stage = false)
    (hfresh : stage = .locking → ∀ t ∈ turns, Fresh t) : Kept digest objects turns ⟨request, stage⟩
  | held {input : RespondInput} {i : Nat} {point : Point} {o : Observation}
    (hobject : objects[i]? = some o) (hid : o.id = input.observationId)
    (hheld : Held digest o input turns point) :
    Kept digest objects turns ⟨.respond input, .holding i point⟩
  | ended {input : RespondInput} {i : Nat} {o : Observation}
    (hobject : objects[i]? = some o) (hid : o.id = input.observationId)
    (hlawful : Lawful digest o input turns) :
    Kept digest objects turns ⟨.respond input, .finished⟩

theorem Lawful.used (h : Lawful digest o input turns) :
    Lawful digest { o with consumed := true } input turns :=
  ⟨h.pressed, h.same, h.confirmed, h.reopened⟩

theorem Held.used (h : Held digest o input turns point) :
    Held digest { o with consumed := true } input turns point :=
  ⟨h.toLawful.used, h.running, h.gated, h.seen, h.moving, h.rendered⟩

theorem Kept.grown {objects later : List Observation} (h : Kept digest objects turns call)
    (hgrown : Grown objects later) :
    Kept digest later turns call := by
  cases h with
  | plain hplain hstage hfresh => exact .plain hplain hstage hfresh
  | held hobject hid hheld =>
    obtain hsame | hused := hgrown _ _ hobject
    · exact .held hsame hid hheld
    · exact .held hused hid hheld.used
  | ended hobject hid hlawful =>
    obtain hsame | hused := hgrown _ _ hobject
    · exact .ended hsame hid hlawful
    · exact .ended hused hid hlawful.used

theorem Grown.refl (objects : List Observation) : Grown objects objects := fun _ _ h => .inl h

theorem grown_append (objects : List Observation) (o : Observation) :
    Grown objects (objects ++ [o]) := by
  intro i other h
  obtain ⟨hlt, _⟩ := List.getElem?_eq_some_iff.mp h
  exact .inl (by rw [List.getElem?_append_left hlt, h])

theorem grown_consume (t : TerminalPrompts) (i : Nat) : Grown t.objects (t.consume i).objects := by
  intro j o h
  by_cases hij : i = j
  · subst hij
    exact .inr (by simp [TerminalPrompts.consume, h])
  · exact .inl (by simp [TerminalPrompts.consume, hij, h])

/-- What holds whenever every call awaits. -/
structure Inv (digest : Chars → String) (uuid : Nat → String) (w : World) : Prop where
  ids : ∀ i o, w.prompts.objects[i]? = some o → o.id = uuid i
  holder : ∀ k request i point, w.calls[k]? = some ⟨request, .holding i point⟩ →
    w.holder = some k
  known : ∀ t ∈ w.history, t.call < w.calls.length
  kept : ∀ k call, w.calls[k]? = some call →
    Kept digest w.prompts.objects (own k w.history) call
  used : ∀ t ∈ w.history, (keyOf t).isSome → ∀ input stage,
    w.calls[t.call]? = some ⟨.respond input, stage⟩ →
    ∃ o ∈ w.prompts.objects, o.id = input.observationId ∧ o.consumed = true
  mine : ∀ k input i point, w.calls[k]? = some ⟨.respond input, .holding i point⟩ →
    ∀ t ∈ w.history, (keyOf t).isSome → ∀ other stage,
    w.calls[t.call]? = some ⟨.respond other, stage⟩ →
    other.observationId = input.observationId → t.call = k
  once : ∀ t ∈ w.history, ∀ u ∈ w.history, (keyOf t).isSome → (keyOf u).isSome →
    ∀ input other stage later, w.calls[t.call]? = some ⟨.respond input, stage⟩ →
    w.calls[u.call]? = some ⟨.respond other, later⟩ →
    input.observationId = other.observationId → t.call = u.call

theorem own_append (k : Nat) (history turns : List Turn) :
    own k (history ++ turns) = own k history ++ own k turns := List.filter_append ..

theorem own_other (h : t.call ≠ k) : own k [t] = [] := by
  simp [own, h]

theorem own_self (h : t.call = k) : own k [t] = [t] := by simp [own, h]

theorem own_eq_nil (h : ∀ t ∈ history, t.call ≠ k) :
    own k history = [] := by
  refine List.filter_eq_nil_iff.mpr ?_
  intro t ht
  simpa using h t ht

variable {uuid : Nat → String} {w v : World}

structure Turned (w v : World) (k : Nat) (call : Call) (stage : Stage) (t : Turn) : Prop where
  before : w.calls[k]? = some call
  turn : t.call = k
  calls : v.calls = w.calls.modify k fun c => { c with stage := stage }
  history : v.history = w.history ++ [t]
  grown : Grown w.prompts.objects v.prompts.objects

section
variable {k : Nat} {call : Call} {stage : Stage} {t : Turn}

theorem Turned.self (h : Turned w v k call stage t) : v.calls[k]? = some ⟨call.request, stage⟩ := by
  simp [h.calls, h.before]

theorem Turned.other (h : Turned w v k call stage t) {j : Nat} (hj : j ≠ k) :
    v.calls[j]? = w.calls[j]? := by
  simp [h.calls, hj.symm]

theorem Turned.asked (h : Turned w v k call stage t) {j : Nat} {request : Request} {now : Stage}
    (hj : v.calls[j]? = some ⟨request, now⟩) : ∃ then_, w.calls[j]? = some ⟨request, then_⟩ := by
  by_cases hjk : j = k
  · subst hjk
    obtain rfl := (Call.mk.inj (Option.some.inj (h.self.symm.trans hj))).1
    exact ⟨call.stage, h.before⟩
  · exact ⟨now, (h.other hjk).symm.trans hj⟩

theorem mem_grown {objects later : List Observation} (h : Grown objects later) {o : Observation}
    (ho : o ∈ objects) (hused : o.consumed = true) :
    ∃ u ∈ later, u.id = o.id ∧ u.consumed = true := by
  obtain ⟨i, hi⟩ := List.mem_iff_getElem?.mp ho
  obtain hsame | hlater := h i o hi
  · exact ⟨o, List.mem_of_getElem? hsame, rfl, hused⟩
  · exact ⟨_, List.mem_of_getElem? hlater, rfl, rfl⟩

/-- A turn keeps the invariant where its call keeps its laws, and where a key is sent by the holder
of the lock for an observation that is used up. -/
theorem Inv.turned (h : Inv digest uuid w) (hturn : Turned w v k call stage t)
    (hids : ∀ i o, v.prompts.objects[i]? = some o → o.id = uuid i)
    (hkept : Kept digest v.prompts.objects (own k w.history ++ [t]) ⟨call.request, stage⟩)
    (hholds : isHolding stage = true → v.holder = some k)
    (hothers : ∀ j, j ≠ k → w.holder = some j → v.holder = some j)
    (hmine : isHolding stage = true → ∀ input, call.request = .respond input →
      ∀ u ∈ w.history, (keyOf u).isSome → ∀ other then_,
      w.calls[u.call]? = some ⟨.respond other, then_⟩ →
      other.observationId = input.observationId → u.call = k)
    (hkey : (keyOf t).isSome → ∃ input i point, call = ⟨.respond input, .holding i point⟩ ∧
      ∃ o ∈ v.prompts.objects, o.id = input.observationId ∧ o.consumed = true) :
    Inv digest uuid v := by
  have hsplit : ∀ u ∈ v.history, u ∈ w.history ∨ u = t := by
    intro u hu
    rw [hturn.history] at hu
    exact List.mem_append.mp hu |>.imp_right List.mem_singleton.mp
  refine ⟨hids, ?_, ?_, ?_, ?_, ?_, ?_⟩
  · intro j request i point hj
    by_cases hjk : j = k
    · subst hjk
      exact hholds (by rw [(Call.mk.inj (Option.some.inj (hturn.self.symm.trans hj))).2]; rfl)
    · exact hothers j hjk (h.holder j request i point ((hturn.other hjk).symm.trans hj))
  · intro u hu
    rw [hturn.calls, List.length_modify]
    obtain hu | rfl := hsplit u hu
    · exact h.known u hu
    · rw [hturn.turn]
      exact (List.getElem?_eq_some_iff.mp hturn.before).1
  · intro j c hj
    rw [hturn.history, own_append]
    by_cases hjk : j = k
    · subst hjk
      rw [own_self hturn.turn, ← Option.some.inj (hturn.self.symm.trans hj)]
      exact hkept
    · rw [own_other (by rw [hturn.turn]; exact fun hk => hjk hk.symm), List.append_nil]
      exact (h.kept j c ((hturn.other hjk).symm.trans hj)).grown hturn.grown
  · intro u hu hsome input now hcall
    obtain ⟨then_, hthen⟩ := hturn.asked hcall
    obtain hu | rfl := hsplit u hu
    · obtain ⟨o, ho, hid, hused⟩ := h.used u hu hsome input then_ hthen
      obtain ⟨o', ho', hid', hused'⟩ := mem_grown hturn.grown ho hused
      exact ⟨o', ho', hid'.trans hid, hused'⟩
    · obtain ⟨input', i, point, rfl, o, ho, hid, hused⟩ := hkey hsome
      rw [hturn.turn, hturn.before] at hthen
      obtain rfl := Request.respond.inj (Call.mk.inj (Option.some.inj hthen)).1
      exact ⟨o, ho, hid, hused⟩
  · intro j input i point hj u hu hsome other now hcall hid
    obtain ⟨then_, hthen⟩ := hturn.asked hcall
    by_cases hjk : j = k
    · subst hjk
      obtain ⟨hrequest, hstage⟩ := Call.mk.inj (Option.some.inj (hturn.self.symm.trans hj))
      obtain hu | rfl := hsplit u hu
      · exact hmine (by rw [hstage]; rfl) input hrequest u hu hsome other then_ hthen hid
      · exact hturn.turn
    · have hbefore := (hturn.other hjk).symm.trans hj
      obtain hu | rfl := hsplit u hu
      · exact h.mine j input i point hbefore u hu hsome other then_ hthen hid
      · obtain ⟨input', i', point', rfl, _⟩ := hkey hsome
        have hk := h.holder k _ i' point' hturn.before
        have hj' := h.holder j _ i point hbefore
        exact absurd (Option.some.inj (hj'.symm.trans hk)) hjk
  · intro u hu x hx husome hxsome input other now later hucall hxcall hid
    obtain ⟨uthen, huthen⟩ := hturn.asked hucall
    obtain ⟨xthen, hxthen⟩ := hturn.asked hxcall
    have hholder : ∀ y ∈ w.history, (keyOf y).isSome → ∀ asked then_,
        w.calls[y.call]? = some ⟨.respond asked, then_⟩ → (keyOf t).isSome → ∀ named then',
        w.calls[t.call]? = some ⟨.respond named, then'⟩ →
        asked.observationId = named.observationId → y.call = t.call := by
      intro y hy hysome asked then_ hycall htsome named then' htcall hsame
      obtain ⟨input', i', point', rfl, _⟩ := hkey htsome
      rw [hturn.turn, hturn.before] at htcall
      obtain rfl := Request.respond.inj (Call.mk.inj (Option.some.inj htcall)).1
      rw [hturn.turn]
      exact h.mine k _ i' point' hturn.before y hy hysome asked then_ hycall hsame
    obtain hu | rfl := hsplit u hu
    · obtain hx | rfl := hsplit x hx
      · exact h.once u hu x hx husome hxsome input other uthen xthen huthen hxthen hid
      · exact hholder u hu husome input uthen huthen hxsome other xthen hxthen hid
    · obtain hx | rfl := hsplit x hx
      · exact (hholder x hx hxsome other xthen hxthen husome input uthen huthen hid.symm).symm
      · rfl

end

theorem begun_call {request : Request} {j : Nat} {c : Call}
    (h : (w.begin request stage did).calls[j]? = some c) :
    w.calls[j]? = some c ∨ (j = w.calls.length ∧ c = ⟨request, stage⟩) := by
  have hlt : j < w.calls.length + 1 := by
    simpa [World.begin] using (List.getElem?_eq_some_iff.mp h).1
  by_cases hj : j = w.calls.length
  · subst hj
    exact .inr ⟨rfl, by simpa [World.begin] using h.symm⟩
  · refine .inl ?_
    rw [← h]
    exact (List.getElem?_append_left (by omega)).symm

/-- A new call keeps the invariant. -/
theorem Inv.begun (h : Inv digest uuid w) {request : Request} {stage : Stage} {did : Did}
    (hstage : isHolding stage = false) (hkey : keyOf ⟨w.calls.length, .started, did⟩ = none)
    (hqueued : stage = .locking → did = .queued) :
    Inv digest uuid (w.begin request stage did) := by
  have hsplit : ∀ u ∈ (w.begin request stage did).history, (keyOf u).isSome → u ∈ w.history := by
    intro u hu hsome
    obtain hu | rfl := List.mem_append.mp hu |>.imp_right List.mem_singleton.mp
    · exact hu
    · rw [hkey] at hsome
      cases hsome
  have hold : ∀ u ∈ w.history, ∀ c, (w.begin request stage did).calls[u.call]? = some c →
      w.calls[u.call]? = some c := by
    intro u hu c hc
    obtain hc | ⟨heq, _⟩ := begun_call hc
    · exact hc
    · exact absurd (h.known u hu) (by omega)
  refine ⟨h.ids, ?_, ?_, ?_, ?_, ?_, ?_⟩
  · intro j other i point hj
    obtain hj | ⟨_, hc⟩ := begun_call hj
    · exact h.holder j other i point hj
    · rw [← (Call.mk.inj hc).2] at hstage
      cases hstage
  · intro u hu
    have hlength : (w.begin request stage did).calls.length = w.calls.length + 1 := by
      simp [World.begin]
    obtain hu | rfl := List.mem_append.mp hu |>.imp_right List.mem_singleton.mp
    · have := h.known u hu
      omega
    · show w.calls.length < _
      omega
  · intro j c hj
    show Kept digest w.prompts.objects (own j (w.history ++ [_])) c
    rw [own_append]
    obtain hj | ⟨rfl, rfl⟩ := begun_call hj
    · have hne : w.calls.length ≠ j := ((List.getElem?_eq_some_iff.mp hj).1).ne'
      rw [own_other hne, List.append_nil]
      exact h.kept j c hj
    · rw [own_eq_nil fun u hu => (h.known u hu).ne, List.nil_append]
      rw [own_self (t := ⟨w.calls.length, .started, did⟩) rfl]
      refine .plain ?_ hstage ?_
      · rintro u hu
        obtain rfl := List.mem_singleton.mp hu
        exact ⟨hkey, fun pane hclosed => by obtain ⟨text, htext⟩ := hclosed; cases htext⟩
      · intro hlocking u hu
        obtain rfl := List.mem_singleton.mp hu
        refine ⟨hkey, rfl, rfl, ?_, ?_⟩
        · rintro pane ⟨text, htext⟩
          cases htext
        · rw [hqueued hlocking]
          exact nofun
  · intro u hu hsome input now hcall
    have hu := hsplit u hu hsome
    exact h.used u hu hsome input now (hold u hu _ hcall)
  · intro j input i point hj u hu hsome other now hcall hid
    have hu := hsplit u hu hsome
    obtain hj | ⟨_, hc⟩ := begun_call hj
    · exact h.mine j input i point hj u hu hsome other now (hold u hu _ hcall) hid
    · rw [← (Call.mk.inj hc).2] at hstage
      cases hstage
  · intro u hu x hx husome hxsome input other now later hucall hxcall hid
    have hu := hsplit u hu husome
    have hx := hsplit x hx hxsome
    exact h.once u hu x hx husome hxsome input other now later (hold u hu _ hucall)
      (hold x hx _ hxcall) hid

theorem held_fresh (h : ∀ t ∈ turns, Fresh t) :
    Held digest o input turns (.pane name) := by
  have hkey : ∀ before t after, turns = before ++ t :: after → keyOf t = none := by
    rintro before t after rfl
    exact (h t (by simp)).1
  refine ⟨⟨?_, ?_, ?_, ?_⟩, ?_, ?_, ?_, fun _ _ _ _ => ⟨nofun, nofun⟩, ?_⟩
  · intro t ht key hsome
    exact absurd ((h t ht).1.symm.trans hsome) nofun
  · intro before t after hsplit hsome
    rw [hkey before t after hsplit] at hsome
    cases hsome
  · intro before t between next after hsplit key hsome
    exact absurd ((hkey before t _ hsplit).symm.trans hsome) nofun
  · intro t ht outcome hfinished
    exact absurd hfinished ((h t ht).2.2.2.2 outcome)
  · intro t ht outcome
    exact (h t ht).2.2.2.2 outcome
  · intro t ht pane hclosed
    exact absurd hclosed ((h t ht).2.2.2.1 pane)
  · intro _ t ht
    exact same_of_other (h t ht).2.1 (h t ht).2.2.1
  · intro before t after hsplit key hsome
    exact absurd ((hkey before t after hsplit).symm.trans hsome) nofun

/-! ### Each event -/

theorem admit_ok {t : TerminalPrompts} {i : Nat} (h : admitted rcPrefix t input m = .ok (i, name)) :
    ∃ o, t.objects[i]? = some o ∧ o.id = input.observationId ∧ o.consumed = false := by
  unfold admitted at h
  split at h
  · cases h
  · next j o hget =>
    split at h
    · cases h
    · next hvalid =>
      split at h
      · cases h
      · obtain ⟨rfl, _⟩ := Prod.mk.inj (Except.ok.inj h)
        obtain ⟨entry, _, hentry⟩ := Option.bind_eq_some_iff.mp hget
        obtain ⟨other, hother, hpair⟩ := Option.map_eq_some_iff.mp hentry
        obtain ⟨rfl, rfl⟩ := Prod.mk.inj hpair
        simp only [not_or, Bool.not_eq_true, ne_eq, not_not] at hvalid
        exact ⟨other, hother, hvalid.2.1, hvalid.1⟩

theorem observe_objects (uuid : Nat → String) (t : TerminalPrompts) (target : ManagedPeer)
    (pane : String) (generation text : Chars) (now : Nat) :
    (observe digest uuid t target pane generation text now).1.objects = t.objects ∨
      ∃ o, (observe digest uuid t target pane generation text now).1.objects = t.objects ++ [o] ∧
        o.id = uuid t.objects.length := by
  unfold observe
  dsimp only
  split
  · split
    · exact .inl rfl
    split
    · exact .inl rfl
    · exact .inr ⟨_, rfl, rfl⟩
  · split
    · exact .inl rfl
    split
    · exact .inl rfl
    split
    · exact .inl rfl
    · exact .inr ⟨_, rfl, rfl⟩

theorem plain_snoc (h : Plain turns) (hkey : keyOf t = none)
    (hclosed : ∀ pane, ¬ Closed pane t) : Plain (turns ++ [t]) := by
  intro u hu
  obtain hu | rfl := List.mem_append.mp hu |>.imp_right List.mem_singleton.mp
  · exact h u hu
  · exact ⟨hkey, hclosed⟩

theorem Inv.locking (h : Inv digest uuid w) {k : Nat} {input : RespondInput}
    (hcall : w.calls[k]? = some ⟨.respond input, .locking⟩) : ∀ t ∈ own k w.history, Fresh t := by
  cases h.kept k _ hcall with
  | plain _ _ hfresh => exact hfresh rfl

theorem Inv.reading (h : Inv digest uuid w) {k : Nat} {target : ManagedPeer} {stage : Stage}
    (hcall : w.calls[k]? = some ⟨.read target, stage⟩) : Plain (own k w.history) := by
  cases h.kept k _ hcall with
  | plain hplain => exact hplain

theorem Inv.plainTurn (h : Inv digest uuid w) {k : Nat} {call : Call} {stage : Stage} {t : Turn}
    (hturn : Turned w v k call stage t)
    (hids : ∀ i o, v.prompts.objects[i]? = some o → o.id = uuid i)
    (hplain : Plain (own k w.history)) (hkey : keyOf t = none) (hclosed : ∀ pane, ¬ Closed pane t)
    (hstage : isHolding stage = false) (hlocking : stage ≠ .locking)
    (hholder : v.holder = w.holder) : Inv digest uuid v := by
  refine h.turned hturn hids
    (.plain (plain_snoc hplain hkey hclosed) hstage fun hlock => absurd hlock hlocking) ?_ ?_ ?_ ?_
  · intro hholding
    exact absurd (hstage.symm.trans hholding) nofun
  · intro j _ hj
    exact hholder.trans hj
  · intro hholding
    exact absurd (hstage.symm.trans hholding) nofun
  · intro hsome
    rw [hkey] at hsome
    cases hsome

theorem turned_finish (hcall : w.calls[k]? = some call) :
    Turned w (w.finish k heard outcome) k call .finished ⟨k, heard, .finished outcome⟩ :=
  ⟨hcall, rfl, rfl, rfl, Grown.refl _⟩

theorem not_closed_of_lock (pane : String) :
    ¬ Closed pane ⟨k, .lock, did⟩ := by
  rintro ⟨text, htext⟩
  cases htext

theorem step_acquire (hinjective : Function.Injective uuid) (h : Inv digest uuid w) {k : Nat}
    {m : Moment} (hstep : step digest rcPrefix uuid w (.acquire k m) = some v) :
    Inv digest uuid v := by
  simp only [step] at hstep
  split at hstep
  · next input hholder hcall =>
    have hfresh := h.locking hcall
    have hplain : Plain (own k w.history) := fun t ht => ⟨(hfresh t ht).1, (hfresh t ht).2.2.2.1⟩
    split at hstep
    · next failure hadmit =>
      obtain rfl := Option.some.inj hstep
      exact h.plainTurn (turned_finish hcall) h.ids hplain rfl not_closed_of_lock rfl nofun rfl
    · next i name hadmit =>
      obtain rfl := Option.some.inj hstep
      obtain ⟨o, hobject, hid, hunused⟩ := admit_ok hadmit
      have hturn : Turned w
          { (w.setStage k (.holding i (.pane name))).note k .lock (.issued .liveness) with
            holder := some k }
          k ⟨.respond input, .locking⟩ (.holding i (.pane name)) ⟨k, .lock, .issued .liveness⟩ :=
        ⟨hcall, rfl, rfl, rfl, Grown.refl _⟩
      refine h.turned hturn h.ids (.held hobject hid (held_fresh ?_)) (fun _ => rfl) ?_ ?_ nofun
      · intro t ht
        obtain ht | rfl := List.mem_append.mp ht |>.imp_right List.mem_singleton.mp
        · exact hfresh t ht
        · exact ⟨rfl, rfl, rfl, not_closed_of_lock, nofun⟩
      · intro j _ hj
        exact absurd (hholder.symm.trans hj) nofun
      · intro _ named hrequest u hu hsome other then_ hother hsame
        -- an observation that keys were sent for is used up, and this one is not
        obtain ⟨seen, hseen, hseenId, hused⟩ := h.used u hu hsome other then_ hother
        obtain ⟨l, hl⟩ := List.mem_iff_getElem?.mp hseen
        have hlabel : uuid l = uuid i := by
          rw [← h.ids l seen hl, ← h.ids i o hobject, hseenId, hid, hsame,
            Request.respond.inj hrequest]
        obtain rfl := hinjective hlabel
        obtain rfl := Option.some.inj (hl.symm.trans hobject)
        rw [hunused] at hused
        cases hused
  · cases hstep

theorem goOn_wait (w : World) (k i : Nat) (heard : Heard) (q : Point) :
    (w.goOn k i heard (.wait q)).calls =
        w.calls.modify k (fun c => { c with stage := .holding i q }) ∧
      (w.goOn k i heard (.wait q)).history = w.history ++ [⟨k, heard, .issued q.command⟩] ∧
      (w.goOn k i heard (.wait q)).holder = w.holder ∧
      (((w.goOn k i heard (.wait q)).prompts = w.prompts ∧
          ∀ pane n selected key, q ≠ .pressing pane n selected key) ∨
        (w.goOn k i heard (.wait q)).prompts = w.prompts.consume i) := by
  cases q with
  | pressing => exact ⟨rfl, rfl, rfl, .inr rfl⟩
  | _ => exact ⟨rfl, rfl, rfl, .inl ⟨rfl, nofun⟩⟩

theorem ids_consume {t : TerminalPrompts} (h : ∀ i o, t.objects[i]? = some o → o.id = uuid i)
    (j : Nat) : ∀ i o, (t.consume j).objects[i]? = some o → o.id = uuid i := by
  intro i o hi
  simp only [TerminalPrompts.consume, List.getElem?_modify] at hi
  obtain ⟨before, hbefore, rfl⟩ := Option.map_eq_some_iff.mp hi
  rw [← h i before hbefore]
  split <;> rfl

theorem Inv.holding (h : Inv digest uuid w) {k i : Nat} {input : RespondInput} {point : Point}
    (hcall : w.calls[k]? = some ⟨.respond input, .holding i point⟩) :
    ∃ o, w.prompts.objects[i]? = some o ∧ o.id = input.observationId ∧
      Held digest o input (own k w.history) point := by
  cases h.kept k _ hcall with
  | plain _ hstage => cases hstage
  | held hobject hid hheld => exact ⟨_, hobject, hid, hheld⟩

theorem step_holding (h : Inv digest uuid w) {k i : Nat} {input : RespondInput} {point : Point}
    {answer : Answer} {m : Moment} {o : Observation} {next : Next}
    (hcall : w.calls[k]? = some ⟨.respond input, .holding i point⟩)
    (hobject : w.prompts.objects[i]? = some o)
    (hresume : resume digest rcPrefix o input point answer m = some next) :
    Inv digest uuid (w.goOn k i (.answered point.command answer) next) := by
  obtain ⟨o', hobject', hid, hheld⟩ := h.holding hcall
  obtain rfl := Option.some.inj (hobject'.symm.trans hobject)
  have hwent := resume_went hresume
  have hholder := h.holder k _ i point hcall
  cases next with
  | wait q =>
    obtain ⟨hcalls, hhistory, hkeeps, hprompts⟩ :=
      goOn_wait w k i (.answered point.command answer) q
    have hgrown : Grown w.prompts.objects
        (w.goOn k i (.answered point.command answer) (.wait q)).prompts.objects := by
      obtain ⟨hsame, _⟩ | hused := hprompts
      · rw [hsame]
        exact Grown.refl _
      · rw [hused]
        exact grown_consume w.prompts i
    have hturn : Turned w (w.goOn k i (.answered point.command answer) (.wait q)) k
        ⟨.respond input, .holding i point⟩ (.holding i q)
        ⟨k, .answered point.command answer, .issued q.command⟩ :=
      ⟨hcall, rfl, hcalls, hhistory, hgrown⟩
    refine h.turned hturn ?_
      ((Kept.held hobject' hid (hheld.goes hwent rfl rfl)).grown hgrown) ?_ ?_ ?_ ?_
    · obtain ⟨hsame, _⟩ | hused := hprompts
      · rw [hsame]
        exact h.ids
      · rw [hused]
        exact ids_consume h.ids i
    · intro _
      exact hkeeps.trans hholder
    · intro j _ hj
      exact hkeeps.trans hj
    · intro _ named hrequest u hu hsome other then_ hother hsame
      obtain rfl := Request.respond.inj hrequest
      exact h.mine k input i point hcall u hu hsome other then_ hother hsame
    · intro hsome
      obtain ⟨key, hkey⟩ := Option.isSome_iff_exists.mp hsome
      obtain ⟨_, _, _, _, selected, _, pane, n, hq⟩ := went_key hwent rfl rfl hkey
      refine ⟨input, i, point, rfl, { o' with consumed := true }, ?_, hid, rfl⟩
      obtain ⟨_, hnot⟩ | hused := hprompts
      · exact absurd (Next.wait.inj hq) (hnot pane n selected key)
      · rw [hused]
        exact List.mem_of_getElem? (i := i) (by simp [TerminalPrompts.consume, hobject'])
  | done outcome =>
    have hturn : Turned w (w.goOn k i (.answered point.command answer) (.done outcome)) k
        ⟨.respond input, .holding i point⟩ .finished
        ⟨k, .answered point.command answer, .finished outcome⟩ :=
      ⟨hcall, rfl, rfl, rfl, Grown.refl _⟩
    refine h.turned hturn h.ids (.ended hobject' hid (hheld.lawful hwent rfl rfl)) nofun ?_ nofun
      nofun
    intro j hj hother
    exact absurd (Option.some.inj (hother.symm.trans hholder)) hj

theorem turned_observed {prompts : TerminalPrompts} (hcall : w.calls[k]? = some call)
    (hgrown : Grown w.prompts.objects prompts.objects) :
    Turned w { w.finish k heard outcome with prompts := prompts } k call .finished
      ⟨k, heard, .finished outcome⟩ :=
  ⟨hcall, rfl, rfl, rfl, hgrown⟩

theorem step_observed (h : Inv digest uuid w) {k : Nat} {target : ManagedPeer} {pane : String}
    {generation text again : Chars} {answer : Answer} {now : Nat}
    (hcall : w.calls[k]? = some ⟨.read target, .readGenerationAgain pane generation text⟩) :
    Inv digest uuid (w.observed digest uuid k (.answered (.generation pane) answer) target pane
      generation text again now) := by
  have hplain := h.reading hcall
  have hclosed : ∀ did at_, ¬ Closed at_ ⟨k, .answered (.generation pane) answer, did⟩ := by
    rintro did at_ ⟨text, htext⟩
    cases (Heard.answered.inj htext).1
  unfold World.observed
  split
  · exact h.plainTurn (turned_finish hcall) h.ids hplain rfl (hclosed _) rfl nofun rfl
  · have hobjects := @observe_objects digest uuid w.prompts target pane generation text now
    have hgrown : Grown w.prompts.objects
        (observe digest uuid w.prompts target pane generation text now).1.objects := by
      obtain hsame | ⟨o, hmore, _⟩ := hobjects
      · rw [hsame]
        exact Grown.refl _
      · rw [hmore]
        exact grown_append _ o
    have hids : ∀ i o,
        (observe digest uuid w.prompts target pane generation text now).1.objects[i]? = some o →
        o.id = uuid i := by
      intro i o hi
      obtain hsame | ⟨made, hmore, hid⟩ := hobjects
      · rw [hsame] at hi
        exact h.ids i o hi
      · rw [hmore] at hi
        by_cases hlt : i < w.prompts.objects.length
        · rw [List.getElem?_append_left hlt] at hi
          exact h.ids i o hi
        · have hle : i < w.prompts.objects.length + 1 := by
            simpa using (List.getElem?_eq_some_iff.mp hi).1
          obtain rfl : i = w.prompts.objects.length := by omega
          obtain rfl : made = o := by simpa using hi
          exact hid
    exact h.plainTurn (turned_observed hcall hgrown) hids hplain rfl (hclosed _) rfl nofun rfl

theorem readNext_command {command : Command} {result : Except Failure Stage}
    (hcommand : stage.command = some command)
    (hnext : readNext stage answer = some result) (pane : String) : command ≠ .closeGate pane := by
  cases stage with
  | readPane name => exact Option.some.inj hcommand ▸ nofun
  | readGeneration at_ => exact Option.some.inj hcommand ▸ nofun
  | readCapture at_ generation => exact Option.some.inj hcommand ▸ nofun
  | _ => cases hnext

theorem readNext_stage {next : Stage} (hnext : readNext stage answer = some (.ok next)) :
    isHolding next = false ∧ next ≠ .locking ∧ ∀ issued, next.command = some issued →
      ∀ k heard, keyOf ⟨k, heard, .issued issued⟩ = none := by
  cases stage with
  | readPane name =>
    cases answer with
    | panes agentPanes live =>
      simp only [readNext] at hnext
      split at hnext
      · cases hnext
      · obtain rfl := Except.ok.inj (Option.some.inj hnext)
        exact ⟨rfl, by simp, fun _ hissued _ _ => Option.some.inj hissued ▸ rfl⟩
    | _ => cases hnext
  | readGeneration pane =>
    obtain ⟨result, _, hresult⟩ := Option.map_eq_some_iff.mp hnext
    cases result with
    | ok text =>
      obtain rfl := Except.ok.inj hresult
      exact ⟨rfl, by simp, fun _ hissued _ _ => Option.some.inj hissued ▸ rfl⟩
    | error failure => cases hresult
  | readCapture pane generation =>
    obtain ⟨result, _, hresult⟩ := Option.map_eq_some_iff.mp hnext
    cases result with
    | ok text =>
      obtain rfl := Except.ok.inj hresult
      exact ⟨rfl, by simp, fun _ hissued _ _ => Option.some.inj hissued ▸ rfl⟩
    | error failure => cases hresult
  | _ => cases hnext

theorem step_answer (h : Inv digest uuid w) {k : Nat} {answer : Answer} {m : Moment}
    (hstep : step digest rcPrefix uuid w (.answer k answer m) = some v) : Inv digest uuid v := by
  simp only [step] at hstep
  split at hstep
  · next input i point hcall =>
    obtain ⟨o, hobject, hstep⟩ := Option.bind_eq_some_iff.mp hstep
    obtain ⟨next, hresume, rfl⟩ := Option.map_eq_some_iff.mp hstep
    exact step_holding h hcall hobject hresume
  · next target pane generation text hcall =>
    obtain ⟨result, _, rfl⟩ := Option.map_eq_some_iff.mp hstep
    cases result with
    | ok again => exact step_observed h hcall
    | error failure =>
      refine h.plainTurn (turned_finish hcall) h.ids (h.reading hcall) rfl ?_ rfl nofun rfl
      rintro at_ ⟨text, htext⟩
      cases (Heard.answered.inj htext).1
  · next target stage _ hcall =>
    split at hstep
    · next command next hcommand hnext =>
      obtain ⟨issued, hissued, rfl⟩ := Option.map_eq_some_iff.mp hstep
      obtain ⟨hholding, hlocking, hpress⟩ := readNext_stage hnext
      have hturn : Turned w ((w.setStage k next).note k (.answered command answer) (.issued issued))
          k ⟨.read target, stage⟩ next ⟨k, .answered command answer, .issued issued⟩ :=
        ⟨hcall, rfl, rfl, rfl, Grown.refl _⟩
      refine h.plainTurn hturn h.ids (h.reading hcall) (hpress issued hissued k _) ?_ hholding
        hlocking rfl
      rintro pane ⟨text, htext⟩
      exact readNext_command hcommand hnext pane (Heard.answered.inj htext).1
    · next command failure hcommand hnext =>
      obtain rfl := Option.some.inj hstep
      refine h.plainTurn (turned_finish hcall) h.ids (h.reading hcall) rfl ?_ rfl nofun rfl
      rintro pane ⟨text, htext⟩
      exact readNext_command hcommand hnext pane (Heard.answered.inj htext).1
    · cases hstep
  · cases hstep

theorem inv_step (hinjective : Function.Injective uuid) {e : Event} (h : Inv digest uuid w)
    (hstep : step digest rcPrefix uuid w e = some v) : Inv digest uuid v := by
  cases e with
  | read target m =>
    simp only [step] at hstep
    split at hstep
    · exact Option.some.inj hstep ▸ h.begun rfl rfl nofun
    · exact Option.some.inj hstep ▸ h.begun rfl rfl nofun
  | respond input =>
    exact Option.some.inj hstep ▸ h.begun rfl rfl fun _ => rfl
  | refuse k =>
    simp only [step] at hstep
    split at hstep
    · next input hcall =>
      obtain rfl := Option.some.inj hstep
      have hfresh := h.locking hcall
      exact h.plainTurn (turned_finish hcall) h.ids
        (fun t ht => ⟨(hfresh t ht).1, (hfresh t ht).2.2.2.1⟩) rfl not_closed_of_lock rfl nofun rfl
    · cases hstep
  | acquire k m => exact step_acquire hinjective h hstep
  | answer k answer m => exact step_answer h hstep

theorem inv_start : Inv digest uuid World.start := by
  refine ⟨?_, ?_, ?_, ?_, ?_, ?_, ?_⟩
  · intro i o h
    cases h
  · intro k request i point h
    cases h
  · intro t ht
    cases ht
  · intro k call h
    cases h
  · intro t ht
    cases ht
  · intro k input i point h
    cases h
  · intro t ht
    cases ht

/-! ### What the answers send -/

/-- How keys reach a menu, over the turns of all calls in the order they took place. -/
structure Careful (digest : Chars → String) (w : World) : Prop where
  /-- Enter answers a capture of the observed menu with the cursor on the option that was named. -/
  enter : ∀ t ∈ w.history, keyOf t = some .enter → ∃ input o text menu selected,
    Answers w t.call input o ∧ screenOf t = some text ∧ Shows digest o text menu ∧
      menu.selected = some selected ∧ Names input menu selected
  /-- Between a navigation key and the next key the cursor is seen one option nearer. -/
  navigation : ∀ before t between next after key,
    w.history = before ++ t :: (between ++ next :: after) → next.call = t.call →
    keyOf t = some key → (keyOf next).isSome →
    ∃ input o text menu selected desired later moved nearer,
      Answers w t.call input o ∧ screenOf t = some text ∧ Shows digest o text menu ∧
        menu.selected = some selected ∧ Names input menu desired ∧ later ∈ between ∧
        later.call = t.call ∧ ∃ seen, screenOf later = some seen ∧ Shows digest o seen moved ∧
        moved.selected = some nearer ∧ Nearer selected nearer desired
  /-- Up to a key the call saw no other menu and no other generation. -/
  unchanged : ∀ before t after, w.history = before ++ t :: after → (keyOf t).isSome →
    ∃ input o, Answers w t.call input o ∧
      ∀ u ∈ before ++ [t], u.call = t.call → Same digest o u
  /-- Keys for one observation come from one call. -/
  once : ∀ t ∈ w.history, ∀ u ∈ w.history, (keyOf t).isSome → (keyOf u).isSome →
    ∀ input other o seen, Answers w t.call input o → Answers w u.call other seen →
    input.observationId = other.observationId → t.call = u.call
  /-- A call that held the pane's input back ends with the command that gives it back. -/
  reopened : ∀ t ∈ w.history, ∀ outcome, t.did = .finished outcome → ∀ u ∈ w.history,
    u.call = t.call → ∀ pane, Closed pane u →
    ∃ answer, t.heard = .answered (.openGate pane) answer

theorem mem_own :
    t ∈ own k history ↔ t ∈ history ∧ t.call = k := by simp [own]

theorem own_split :
    own t.call (before ++ t :: after) = own t.call before ++ t :: own t.call after := by
  simp [own]

theorem Inv.lawful (h : Inv digest uuid w) {t : Turn} (ht : t ∈ w.history)
    (hsome : (keyOf t).isSome) :
    ∃ input o, Answers w t.call input o ∧ Lawful digest o input (own t.call w.history) := by
  obtain ⟨call, hcall⟩ : ∃ call, w.calls[t.call]? = some call :=
    ⟨_, List.getElem?_eq_getElem (h.known t ht)⟩
  have hkept := h.kept _ _ hcall
  cases hkept with
  | plain hplain =>
    rw [(hplain t (mem_own.mpr ⟨ht, rfl⟩)).1] at hsome
    cases hsome
  | held hobject hid hheld =>
    exact ⟨_, _, ⟨⟨_, hcall⟩, List.mem_of_getElem? hobject, hid⟩, hheld.toLawful⟩
  | ended hobject hid hlawful =>
    exact ⟨_, _, ⟨⟨_, hcall⟩, List.mem_of_getElem? hobject, hid⟩, hlawful⟩

theorem navigationKey_enter :
    navigationKey selected desired = .enter ↔ desired = selected := by
  unfold navigationKey
  split
  · simp [*]
  · split <;> simp [*]

theorem nearer_expected (h : navigationKey selected desired ≠ .enter) :
    Nearer selected (expectedSelection selected (navigationKey selected desired)) desired := by
  have hne : desired ≠ selected := fun heq => h (navigationKey_enter.mpr heq)
  unfold Nearer expectedSelection navigationKey
  split
  · contradiction
  · split
    · simp [*]
    · simp only [reduceCtorEq, if_false]
      omega

theorem selectedAt_unique {other : Nat} {text : Chars} (hscreen : screenOf t = some text)
    (hmenu : menuOf text = some menu)
    (hselected : menu.selected = some selected) (h : SelectedAt t other) : other = selected := by
  obtain ⟨text', menu', hscreen', hmenu', hselected'⟩ := h
  obtain rfl := Option.some.inj (hscreen.symm.trans hscreen')
  obtain rfl := Option.some.inj (hmenu.symm.trans hmenu')
  exact Option.some.inj (hselected'.symm.trans hselected)

theorem Inv.careful (h : Inv digest uuid w) : Careful digest w := by
  refine ⟨?_, ?_, ?_, ?_, ?_⟩
  · intro t ht hkey
    obtain ⟨input, o, hanswers, hlawful⟩ := h.lawful ht (by rw [hkey]; rfl)
    obtain ⟨text, menu, selected, desired, hscreen, hshows, hselected, hnames, hpress⟩ :=
      hlawful.pressed t (mem_own.mpr ⟨ht, rfl⟩) _ hkey
    obtain rfl := navigationKey_enter.mp hpress.symm
    exact ⟨input, o, text, menu, desired, hanswers, hscreen, hshows, hselected, hnames⟩
  · intro before t between next after key hsplit hcall hkey hnext
    have ht : t ∈ w.history := by simp [hsplit]
    obtain ⟨input, o, hanswers, hlawful⟩ := h.lawful ht (by rw [hkey]; rfl)
    obtain ⟨text, menu, selected, desired, hscreen, hshows, hselected, hnames, rfl⟩ :=
      hlawful.pressed t (mem_own.mpr ⟨ht, rfl⟩) _ hkey
    have hown : own t.call w.history =
        own t.call before ++ t :: (own t.call between ++ next :: own t.call after) := by
      rw [hsplit, own_split, ← hcall, own_split]
    obtain ⟨hnot, later, hlater, selected', seen, moved, hat, hseen, hmoved, hplace⟩ :=
      hlawful.confirmed _ t _ next _ hown _ hkey hnext
    obtain rfl := selectedAt_unique hscreen hshows.1 hselected hat
    obtain ⟨hmem, hsame⟩ := mem_own.mp hlater
    exact ⟨input, o, text, menu, selected', desired, later, moved, _, hanswers, hscreen, hshows,
      hselected, hnames, hmem, hsame, seen, hseen, hmoved, hplace, nearer_expected hnot⟩
  · intro before t after hsplit hsome
    have ht : t ∈ w.history := by simp [hsplit]
    obtain ⟨input, o, hanswers, hlawful⟩ := h.lawful ht hsome
    refine ⟨input, o, hanswers, ?_⟩
    intro u hu hcall
    apply hlawful.same (own t.call before) t (own t.call after) (by rw [hsplit, own_split]) hsome
    obtain hu | rfl := List.mem_append.mp hu |>.imp_right List.mem_singleton.mp
    · exact List.mem_append_left _ (mem_own.mpr ⟨hu, hcall⟩)
    · exact List.mem_append_right _ (List.mem_singleton_self u)
  · intro t ht u hu hsome husome input other o seen hanswers hother hid
    obtain ⟨stage, hcall⟩ := hanswers.1
    obtain ⟨later, hlater⟩ := hother.1
    exact h.once t ht u hu hsome husome input other stage later hcall hlater hid
  · intro t ht outcome hfinished u hu hcall pane hclosed
    obtain ⟨call, hcalls⟩ : ∃ call, w.calls[t.call]? = some call :=
      ⟨_, List.getElem?_eq_getElem (h.known t ht)⟩
    have hmine : u ∈ own t.call w.history := mem_own.mpr ⟨hu, hcall⟩
    have hkept := h.kept _ _ hcalls
    cases hkept with
    | plain hplain => exact absurd hclosed ((hplain u hmine).2 pane)
    | held hobject hid hheld =>
      exact hheld.reopened t (mem_own.mpr ⟨ht, rfl⟩) outcome hfinished u hmine pane hclosed
    | ended hobject hid hlawful =>
      exact hlawful.reopened t (mem_own.mpr ⟨ht, rfl⟩) outcome hfinished u hmine pane hclosed

/-- Over every interleaving of calls and every sequence of screens, generations, failures, clocks
and aborts, keys reach the observed menu only. -/
theorem answers_are_careful (digest : Chars → String) (rcPrefix : String) (uuid : Nat → String)
    (hinjective : Function.Injective uuid) (events : List Event) {w : World}
    (hrun : run (step digest rcPrefix uuid) World.start events = some w) : Careful digest w := by
  have hinv : Inv digest uuid w :=
    run_invariant (fun _ _ _ hs hstep => inv_step hinjective hs hstep) hrun inv_start
  exact hinv.careful

/-- In every interleaving one call at a time holds the lock; a call that only reads presses no key,
and one that pressed a key has used up the observation it answers. -/
theorem one_call_presses {digest : Chars → String} {rcPrefix : String} {uuid : Nat → String}
    (hinjective : Function.Injective uuid) {events : List Event} {w : World}
    (hrun : run (step digest rcPrefix uuid) World.start events = some w) :
    (∀ (j k : Nat) (request other : Request) (i i' : Nat) (point point' : Point),
      w.calls[j]? = some ⟨request, .holding i point⟩ →
        w.calls[k]? = some ⟨other, .holding i' point'⟩ → j = k) ∧
    ∀ t ∈ w.history, (keyOf t).isSome → ∃ input stage,
      w.calls[t.call]? = some ⟨.respond input, stage⟩ ∧
        ∃ o ∈ w.prompts.objects, o.id = input.observationId ∧ o.consumed = true := by
  have hinv : Inv digest uuid w :=
    run_invariant (fun _ _ _ hs hstep => inv_step hinjective hs hstep) hrun inv_start
  refine ⟨?_, ?_⟩
  · intro j k request other i i' point point' hj hk
    exact Option.some.inj ((hinv.holder _ _ _ _ hj).symm.trans (hinv.holder _ _ _ _ hk))
  · intro t ht hkey
    obtain ⟨⟨request, stage⟩, hcall⟩ : ∃ call, w.calls[t.call]? = some call :=
      ⟨_, List.getElem?_eq_getElem (hinv.known t ht)⟩
    cases request with
    | respond input => exact ⟨input, stage, hcall, hinv.used t ht hkey input stage hcall⟩
    | read target =>
      have hkept := hinv.kept _ _ hcall
      cases hkept with
      | plain hplain => simp [(hplain t (mem_own.mpr ⟨ht, rfl⟩)).1] at hkey

def exampleUuid (n : Nat) : String :=
  String.ofList ("3f0c6a1e-5b7d-4c2a-9e8f-0242ac120002".toList ++ List.replicate n '0')

theorem exampleUuid_injective : Function.Injective exampleUuid := by
  intro a b h
  have hlength := congrArg List.length (String.ofList_injective h)
  simpa using hlength

def exampleTarget : ManagedPeer := ⟨"host-a", .claude, "worker", "thread-1"⟩

def exampleMoment (now : Nat) : Moment :=
  ⟨now, now, false, [{ name := "worker", dir := "/work", agent := .claude, flags := []
                       runtime := none, delegation := none, initialization := none
                       envFile := none, launchRecipe := none, modelSelection := none
                       applicationPolicy := none, nativeSession := none, uuid := "thread-1"
                       registrationGeneration := none }]⟩

/-- The trust menu with its cursor on either option. -/
def exampleScreen (trusted : Bool) : Chars :=
  if trusted then
    "  No, exit\n❯ Yes, I trust this folder\n Enter to confirm · Esc to cancel\n".toList
  else "❯ No, exit\n  Yes, I trust this folder\n Enter to confirm · Esc to cancel\n".toList

def exampleGeneration : Answer := .out "31:%4:77:1700000000\n".toList

def examplePanes : Answer := .panes [("worker", "%4")] ["worker"]

/-- A read, and the answer that trusts the folder: Down, one screen, Enter. -/
def exampleEvents : List Event :=
  [.read exampleTarget (exampleMoment 0), .answer 0 examplePanes (exampleMoment 1),
    .answer 0 exampleGeneration (exampleMoment 2),
    .answer 0 (.out (exampleScreen false)) (exampleMoment 3),
    .answer 0 exampleGeneration (exampleMoment 4),
    .respond ⟨exampleTarget, exampleUuid 0, "1"⟩, .acquire 1 (exampleMoment 5),
    .answer 1 examplePanes (exampleMoment 6), .answer 1 exampleGeneration (exampleMoment 7),
    .answer 1 (.out []) (exampleMoment 8), .answer 1 exampleGeneration (exampleMoment 9),
    .answer 1 (.out (exampleScreen false)) (exampleMoment 10),
    .answer 1 (.out []) (exampleMoment 11), .answer 1 .slept (exampleMoment 31),
    .answer 1 (.out (exampleScreen true)) (exampleMoment 32),
    .answer 1 exampleGeneration (exampleMoment 33),
    .answer 1 (.out (exampleScreen true)) (exampleMoment 34),
    .answer 1 (.out []) (exampleMoment 35), .answer 1 (.out []) (exampleMoment 36)]

def exampleRun : Option World :=
  run (step String.ofList "host-a" exampleUuid) World.start exampleEvents

theorem answers_are_careful_trust :
    (exampleRun.map fun w => w.history.filterMap keyOf) = some [.down, .enter] ∧
      ∀ w ∈ exampleRun, Careful String.ofList w := by
  refine ⟨by decide +kernel, ?_⟩
  intro w hw
  rw [exampleRun, Option.mem_def] at hw
  exact answers_are_careful String.ofList "host-a" exampleUuid exampleUuid_injective
    exampleEvents hw

theorem one_call_presses_trust :
    exampleRun.isSome ∧ ∀ w ∈ exampleRun, ∀ t ∈ w.history, (keyOf t).isSome →
      ∃ input stage, w.calls[t.call]? = some ⟨.respond input, stage⟩ ∧
        ∃ o ∈ w.prompts.objects, o.id = input.observationId ∧ o.consumed = true := by
  refine ⟨by decide +kernel, ?_⟩
  intro w hw
  rw [exampleRun, Option.mem_def] at hw
  exact (one_call_presses exampleUuid_injective hw).2

end Ccmux.Control.TerminalPromptRun
