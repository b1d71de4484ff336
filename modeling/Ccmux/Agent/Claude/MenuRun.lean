/- Module: Ccmux/Agent/Claude/MenuRun
   source: src/agent/claude/menuStep.ts, src/commands/run.ts (settlePrompts)
   digest: Which keys the start-up watcher sends, over every sequence of screens. -/

import Mathlib
import Ccmux.Agent.Claude.MenuStep

namespace Ccmux.Agent.Claude.MenuRun

open Ccmux.Lib.Text
open Ccmux.Agent.Claude.Prompts
open Ccmux.Agent.Claude.MenuStep

/-- The kind of the live menu of a screen. -/
def kindOf (pane : Chars) : Option PromptKind := (shownMenu pane).map fun shown => shown.2.kind

def IsTrust (kind : PromptKind) : Prop := kind = .folderTrust ∨ kind = .declaredPermissions

/-- The last cursor of the frame stands on an option whose text begins with the label. -/
def cursorOn (label shown : Chars) : Bool :=
  (lastMatch cursorOption (paneTail shown 40)).any fun found =>
    label.isPrefixOf (found.2.dropWhile isSpace)

/-- The cursor of the live menu stands on the option the policy allows. -/
def OnAllowed (m : MachineConfig) (pane : Chars) : Prop :=
  ∃ shown menu, shownMenu pane = some (shown, menu) ∧ policyAnswers menu.kind m = true ∧
    ((IsTrust menu.kind ∧ ∃ idx option, menu.selected = some idx ∧
        menu.options[idx]? = some option ∧ option.label = trustYes) ∨
      (menu.kind = .resumePicker ∧ cursorOn (pickerLabel m) shown = true))

/-- The frame of the resume picker, where that is the live menu. -/
def pickerShown (pane : Chars) : Option Chars :=
  (shownMenu pane).bind fun found => if found.2.kind = .resumePicker then some found.1 else none

/-- The number of the allowed option on a picker that the policy answers. -/
def asked (m : MachineConfig) (pane : Chars) : Option Chars :=
  if policyAnswers .resumePicker m then
    (pickerShown pane).bind fun shown => optionNumber (paneTail shown 40) (pickerLabel m)
  else none

/-- Where the first cursor number of the later picker is the number of the allowed option on the
earlier one, its cursor stands on that option. -/
def Agrees (m : MachineConfig) (earlier later : Chars) : Prop :=
  ∀ number shown, asked m earlier = some number → pickerShown later = some shown →
    cursorNumber shown = some number → cursorOn (pickerLabel m) shown = true

/-- The live menu is one the policy answers, and what the answer needs is read off it. -/
def Answerable (m : MachineConfig) (pane : Chars) : Prop :=
  ∃ shown menu, shownMenu pane = some (shown, menu) ∧ policyAnswers menu.kind m = true ∧
    ((IsTrust menu.kind ∧ menu.selected.isSome = true ∧
        ∃ option ∈ menu.options, option.label = trustYes) ∨
      (menu.kind = .resumePicker ∧
        (optionNumber (paneTail shown 40) (pickerLabel m)).isSome = true))

/-- Without trust in declared permissions no screen with the marker asks for an answer. -/
def Unmarked (m : MachineConfig) (pane : Chars) : Prop :=
  m.trustPrompt ≠ .declared → includes pane declaredLine = true → ¬ Answerable m pane

def EnterOnAllowed (m : MachineConfig) (trace : List Glance) : Prop :=
  ∀ g ∈ trace, g.sent = some .enter → OnAllowed m g.pane

def AnsweredOnce (trace : List Glance) : Prop :=
  ∀ before first between second after kind,
    trace = before ++ first :: (between ++ second :: after) →
    first.sent = some .enter → kindOf first.pane = some kind →
    second.sent ≠ none → kindOf second.pane = some kind →
    ∃ g ∈ between, kindOf g.pane ≠ some kind

def SilentAfterStop (trace : List Glance) : Prop :=
  ∀ before first after reason, trace = before ++ first :: after →
    first.step.action = .stop reason → ∀ g ∈ after, g.sent = none

def SilentWhenMarked (m : MachineConfig) (trace : List Glance) : Prop :=
  m.trustPrompt ≠ .declared → ∀ g ∈ trace, includes g.pane declaredLine = true → g.sent = none

/-- `settlePrompts` as the supervisor starts it. -/
def watch (digest : Chars → String) (m : MachineConfig) (looks : List Look) : List Glance :=
  settlePrompts digest m initialMenuSettle looks

/-- Successive screens agree about the picker, and none with the marker asks for an answer. -/
def Steady (m : MachineConfig) (trace : List Glance) : Prop :=
  (trace.map Glance.pane).IsChain (Agrees m) ∧ ∀ g ∈ trace, Unmarked m g.pane

structure Obeys (m : MachineConfig) (trace : List Glance) : Prop where
  enter : EnterOnAllowed m trace
  once : AnsweredOnce trace
  stopped : SilentAfterStop trace
  marked : SilentWhenMarked m trace

/-! ### What one step does -/

section
variable {digest : Chars → String} {m : MachineConfig} {state : MenuSettleState} {pane : Chars}

inductive Chosen (m : MachineConfig) (state : MenuSettleState) (armed : Bool) (shown : Chars)
    (menu : TerminalMenu) : MenuSettleStep → Prop
  | stopped (reason : String) : armed = false → Chosen m state armed shown menu (stop state reason)
  | waited : Chosen m state armed shown menu (wait armed state)
  | confirmed (target : Nat) : policyAnswers menu.kind m = true → IsTrust menu.kind →
      menu.options.findIdx? (fun option => option.label == trustYes) = some target →
      menu.selected = some target →
      Chosen m state armed shown menu ⟨⟨false, some menu.kind, none⟩, .press .enter⟩
  | moved (target expect : Nat) (fingerprint : String) (key : Key) :
      policyAnswers menu.kind m = true → IsTrust menu.kind →
      menu.options.findIdx? (fun option => option.label == trustYes) = some target →
      menu.selected.isSome = true → key ≠ .enter →
      Chosen m state armed shown menu
        ⟨⟨armed, state.answered, some (.move fingerprint expect)⟩, .press key⟩
  | numbered (number : Chars) : policyAnswers menu.kind m = true → menu.kind = .resumePicker →
      optionNumber (paneTail shown 40) (pickerLabel m) = some number →
      Chosen m state armed shown menu
        ⟨⟨armed, state.answered, some (.number .resumePicker number)⟩, .press (.number number)⟩

theorem navigationKey_enter {selected desired : Nat} :
    navigationKey selected desired = .enter ↔ desired = selected := by
  unfold navigationKey
  split
  · simp [*]
  · split <;> simp [*]

theorem choose_chosen (digest : Chars → String) (m : MachineConfig) (state : MenuSettleState)
    (armed : Bool) (shown : Chars) (menu : TerminalMenu) :
    Chosen m state armed shown menu (choose digest state armed shown menu m) := by
  unfold choose
  split
  · next harmed => exact .stopped _ (by simpa using harmed)
  split
  · exact .waited
  next hpolicy =>
  have hpolicy : policyAnswers menu.kind m = true := by simpa using hpolicy
  split
  · next htrust =>
    split
    · next target selected htarget hselected =>
      dsimp only
      split
      · next hkey =>
        obtain rfl := navigationKey_enter.mp hkey
        rw [hkey]
        exact .confirmed target hpolicy htrust htarget hselected
      · next hkey =>
        exact .moved target _ _ _ hpolicy htrust htarget (by rw [hselected]; rfl) hkey
    · exact .waited
  split
  · next hpicker =>
    split
    · exact .waited
    · next number hnumber =>
      rw [hpicker]
      exact .numbered number hpolicy hpicker hnumber
  · exact .waited

inductive Settled (m : MachineConfig) (state : MenuSettleState) (pane : Chars) :
    MenuSettleStep → Prop
  | lost (reason : String) : Settled m state pane (stop state reason)
  | cleared : shownMenu pane = none → Settled m state pane ⟨initialMenuSettle, .wait⟩
  | entered (shown : Chars) (menu : TerminalMenu) (number : Chars) :
      shownMenu pane = some (shown, menu) → state.pending = some (.number menu.kind number) →
      cursorNumber shown = some number →
      Settled m state pane ⟨⟨false, some menu.kind, none⟩, .press .enter⟩
  | chosen (shown : Chars) (menu : TerminalMenu) (armed : Bool) (step : MenuSettleStep) :
      shownMenu pane = some (shown, menu) → Chosen m state armed shown menu step →
      Settled m state pane step

theorem settleMenu_settled (digest : Chars → String) (m : MachineConfig)
    (state : MenuSettleState) (pane : Chars) :
    Settled m state pane (settleMenu digest state pane m) := by
  unfold settleMenu
  split
  · next hnone =>
    split
    · exact .lost _
    · exact .cleared hnone
  · next shown menu hmenu =>
    dsimp only
    split
    · split
      · exact .chosen shown menu _ _ hmenu (choose_chosen digest m state _ shown menu)
      · exact .lost _
    · next asked number hpending =>
      split
      · exact .chosen shown menu true _ hmenu (choose_chosen digest m state true shown menu)
      · next hkind =>
        split
        · next hcursor =>
          obtain rfl := not_not.mp hkind
          exact .entered shown menu number hmenu hpending hcursor
        · exact .lost _
    · exact .chosen shown menu _ _ hmenu (choose_chosen digest m state _ shown menu)

variable {shown : Chars} {step : MenuSettleStep} {previous : Option Chars} {looks : List Look}
  {g : Glance}

variable {menu : TerminalMenu} {number earlier later : Chars} {key : Key} {after : List Glance}
  {kind : PromptKind}

theorem pickerShown_of_kind (hmenu : shownMenu pane = some (shown, menu))
    (hkind : menu.kind = .resumePicker) :
    pickerShown pane = some shown := by
  simp [pickerShown, hmenu, hkind]

theorem asked_of_number (hmenu : shownMenu pane = some (shown, menu))
    (hkind : menu.kind = .resumePicker)
    (hpolicy : policyAnswers menu.kind m = true)
    (hnumber : optionNumber (paneTail shown 40) (pickerLabel m) = some number) :
    asked m pane = some number := by
  rw [hkind] at hpolicy
  simp [asked, hpolicy, pickerShown_of_kind hmenu hkind, hnumber]

theorem asked_policy (h : asked m pane = some number) :
    policyAnswers .resumePicker m = true := by
  unfold asked at h
  split at h
  · assumption
  · cases h

/-- A number that waits to be confirmed is the allowed option's on the screen before. -/
def PendingFrom (m : MachineConfig) (previous : Option Chars) (state : MenuSettleState) : Prop :=
  ∀ kind number, state.pending = some (.number kind number) →
    kind = .resumePicker ∧ ∃ earlier, previous = some earlier ∧ asked m earlier = some number

theorem Settled.enter_allowed (h : Settled m state pane step)
    (hpending : PendingFrom m previous state)
    (hagrees : ∀ earlier, previous = some earlier → Agrees m earlier pane)
    (henter : step.action = .press .enter) : OnAllowed m pane := by
  cases h with
  | lost reason => cases henter
  | cleared => cases henter
  | entered shown menu number hmenu hstate hcursor =>
    obtain ⟨hkind, earlier, hprevious, hasked⟩ := hpending _ _ hstate
    have hcursorOn := hagrees earlier hprevious number shown hasked
      (pickerShown_of_kind hmenu hkind) hcursor
    exact ⟨shown, menu, hmenu, by rw [hkind]; exact asked_policy hasked, .inr ⟨hkind, hcursorOn⟩⟩
  | chosen shown menu armed step hmenu hchosen =>
    cases hchosen with
    | stopped reason => cases henter
    | waited => cases henter
    | confirmed target hpolicy htrust htarget hselected =>
      obtain ⟨hlt, hlabel, -⟩ := List.findIdx?_eq_some_iff_getElem.mp htarget
      refine ⟨shown, menu, hmenu, hpolicy,
        .inl ⟨htrust, target, menu.options[target], hselected, ?_, ?_⟩⟩
      · exact List.getElem?_eq_getElem hlt
      · simpa using hlabel
    | moved target expect fingerprint key _ _ _ _ hkey =>
      exact absurd (MenuSettleAction.press.inj henter) hkey
    | numbered number => cases henter

theorem Settled.pending (h : Settled m state pane step)
    (hgoes : ∀ reason, step.action ≠ .stop reason) : PendingFrom m (some pane) step.state := by
  intro kind number hnumber
  cases h with
  | lost reason => exact absurd rfl (hgoes reason)
  | cleared => cases hnumber
  | entered => cases hnumber
  | chosen shown menu armed step hmenu hchosen =>
    cases hchosen with
    | stopped reason => exact absurd rfl (hgoes reason)
    | waited => cases hnumber
    | confirmed => cases hnumber
    | moved => cases hnumber
    | numbered found hpolicy hkind hfound =>
      cases hnumber
      exact ⟨rfl, pane, rfl, asked_of_number hmenu hkind hpolicy hfound⟩

theorem Settled.answered (h : Settled m state pane step)
    (henter : step.action = .press .enter) :
    ∃ kind, kindOf pane = some kind ∧ step.state = ⟨false, some kind, none⟩ := by
  cases h with
  | lost reason => cases henter
  | cleared => cases henter
  | entered shown menu number hmenu => exact ⟨menu.kind, by rw [kindOf, hmenu]; rfl, rfl⟩
  | chosen shown menu armed step hmenu hchosen =>
    cases hchosen with
    | stopped reason => cases henter
    | waited => cases henter
    | confirmed => exact ⟨menu.kind, by rw [kindOf, hmenu]; rfl, rfl⟩
    | moved target expect fingerprint key _ _ _ _ hkey =>
      exact absurd (MenuSettleAction.press.inj henter) hkey
    | numbered number => cases henter

theorem findIdx?_mem {options : List MenuOption} {target : Nat}
    (h : options.findIdx? (fun option => option.label == trustYes) = some target) :
    ∃ option ∈ options, option.label = trustYes := by
  obtain ⟨hlt, hlabel, -⟩ := List.findIdx?_eq_some_iff_getElem.mp h
  exact ⟨options[target], List.getElem_mem hlt, by simpa using hlabel⟩

theorem optionNumber_of_cursorOn {label : Chars} (h : cursorOn label shown = true) :
    (optionNumber (paneTail shown 40) label).isSome = true := by
  obtain ⟨⟨number, rest⟩, hlast, hlabel⟩ := (Option.any_eq_true _ _).mp h
  obtain ⟨suffix, hsuffix, hcursor⟩ := lastMatch_eq_some hlast
  rw [optionNumber, firstMatch_isSome_iff]
  unfold cursorOption at hcursor
  split at hcursor
  · next more =>
    refine ⟨more.dropWhile isSpace, ?_, ?_⟩
    · exact (List.dropWhile_suffix isSpace).trans ((List.suffix_cons _ more).trans hsuffix)
    · simp only [numberedLabel, hcursor]
      rw [if_pos hlabel]
      rfl
  · cases hcursor

theorem Settled.answerable (h : Settled m state pane step)
    (hpending : PendingFrom m previous state)
    (hagrees : ∀ earlier, previous = some earlier → Agrees m earlier pane)
    (hpress : step.action = .press key) : Answerable m pane := by
  cases h with
  | lost reason => cases hpress
  | cleared => cases hpress
  | entered shown menu number hmenu hstate hcursor =>
    obtain ⟨hkind, earlier, hprevious, hasked⟩ := hpending _ _ hstate
    have hcursorOn := hagrees earlier hprevious number shown hasked
      (pickerShown_of_kind hmenu hkind) hcursor
    exact ⟨shown, menu, hmenu, by rw [hkind]; exact asked_policy hasked,
      .inr ⟨hkind, optionNumber_of_cursorOn hcursorOn⟩⟩
  | chosen shown menu armed step hmenu hchosen =>
    cases hchosen with
    | stopped reason => cases hpress
    | waited => cases hpress
    | confirmed target hpolicy htrust htarget hselected =>
      exact ⟨shown, menu, hmenu, hpolicy,
        .inl ⟨htrust, by rw [hselected]; rfl, findIdx?_mem htarget⟩⟩
    | moved target expect fingerprint key hpolicy htrust htarget hselected =>
      exact ⟨shown, menu, hmenu, hpolicy, .inl ⟨htrust, hselected, findIdx?_mem htarget⟩⟩
    | numbered number hpolicy hkind hnumber =>
      exact ⟨shown, menu, hmenu, hpolicy, .inr ⟨hkind, by rw [hnumber]; rfl⟩⟩

/-! ### What a whole watch does -/

theorem settlePrompts_screen (digest : Chars → String) (m : MachineConfig)
    (state : MenuSettleState) (pane : Chars) (rest : List Look) :
    ∃ tail, settlePrompts digest m state (.screen pane :: rest) =
        ⟨state, pane, settleMenu digest state pane m⟩ :: tail ∧
      (tail = [] ∨ (∀ reason, (settleMenu digest state pane m).action ≠ .stop reason) ∧
        tail = settlePrompts digest m (settleMenu digest state pane m).state rest) ∧
      ((∃ reason, (settleMenu digest state pane m).action = .stop reason) → tail = []) := by
  simp only [settlePrompts]
  cases haction : (settleMenu digest state pane m).action with
  | stop reason => exact ⟨[], rfl, .inl rfl, fun _ => rfl⟩
  | wait => exact ⟨_, rfl, .inr ⟨by simp, rfl⟩, by simp⟩
  | press key => exact ⟨_, rfl, .inr ⟨by simp, rfl⟩, by simp⟩

/-- Each screen of a watch was settled by the step; what follows is empty after a stop, and else
the watch from the state that the step left. -/
theorem settlePrompts_split {before : List Glance}
    (h : settlePrompts digest m state looks = before ++ g :: after) :
    g.step = settleMenu digest g.before g.pane m ∧
      ((∃ reason, g.step.action = .stop reason) → after = []) ∧
      (after = [] ∨ ∃ rest, after = settlePrompts digest m g.step.state rest) := by
  induction looks generalizing state before with
  | nil => simp [settlePrompts] at h
  | cons look looks ih =>
    cases look with
    | gone => simp [settlePrompts] at h
    | uncapturable => exact ih h
    | screen pane =>
      obtain ⟨tail, htrace, htail, hstop⟩ := settlePrompts_screen digest m state pane looks
      rw [htrace] at h
      cases before with
      | nil =>
        obtain ⟨rfl, rfl⟩ := List.cons.inj h
        refine ⟨rfl, hstop, ?_⟩
        rcases htail with hnil | ⟨-, hrest⟩
        · exact .inl hnil
        · exact .inr ⟨looks, hrest⟩
      | cons head before =>
        obtain ⟨-, hrest⟩ := List.cons.inj h
        rcases htail with hnil | ⟨-, hwatch⟩
        · rw [hnil] at hrest
          simp at hrest
        · exact ih (hwatch.symm.trans hrest)

theorem settlePrompts_silentAfterStop (looks : List Look) :
    SilentAfterStop (settlePrompts digest m state looks) := by
  intro before first after reason htrace hstop g hg
  rw [(settlePrompts_split htrace).2.1 ⟨reason, hstop⟩] at hg
  cases hg

theorem shownMenu_of_kindOf (h : kindOf pane = some kind) :
    ∃ shown menu, shownMenu pane = some (shown, menu) ∧ menu.kind = kind := by
  obtain ⟨⟨shown, menu⟩, hmenu, hkind⟩ := Option.map_eq_some_iff.mp h
  exact ⟨shown, menu, hmenu, hkind⟩

theorem settleMenu_answered (h : kindOf pane = some kind) :
    ∃ reason, (settleMenu digest ⟨false, some kind, none⟩ pane m).action = .stop reason := by
  obtain ⟨shown, menu, hmenu, rfl⟩ := shownMenu_of_kindOf h
  exact ⟨"the menu answered a moment ago is still up", by simp [settleMenu, hmenu, choose, stop]⟩

theorem Glance.sent_eq_some (h : g.sent = some key) :
    g.step.action = .press key := by
  unfold Glance.sent at h
  split at h
  · next haction =>
    obtain rfl := Option.some.inj h
    exact haction
  · cases h

theorem Glance.sent_of_stop {reason : String} (h : g.step.action = .stop reason) :
    g.sent = none := by
  rw [Glance.sent, h]

theorem settlePrompts_head (h : settlePrompts digest m state looks = g :: after) :
    g.step = settleMenu digest state g.pane m := by
  induction looks with
  | nil => cases h
  | cons look looks ih =>
    cases look with
    | gone => cases h
    | uncapturable => exact ih h
    | screen pane =>
      obtain ⟨tail, htrace, -, -⟩ := settlePrompts_screen digest m state pane looks
      rw [htrace] at h
      obtain ⟨rfl, -⟩ := List.cons.inj h
      rfl

theorem settlePrompts_answeredOnce (looks : List Look) :
    AnsweredOnce (settlePrompts digest m state looks) := by
  intro before first between second after kind htrace henter hkind hsecond hsame
  obtain ⟨hstep, hstop, htail⟩ := settlePrompts_split htrace
  have hpress := Glance.sent_eq_some henter
  rw [hstep] at hpress
  obtain ⟨kind', hkind', hstate⟩ :=
    (settleMenu_settled digest m first.before first.pane).answered hpress
  obtain rfl := Option.some.inj (hkind.symm.trans hkind')
  rw [← hstep] at hstate
  rcases htail with hnil | ⟨rest, hrest⟩
  · simp at hnil
  rw [hstate] at hrest
  have hfrom : ∀ g tail, between ++ second :: after = g :: tail → kindOf g.pane = some kind →
      ∃ reason, g.step.action = .stop reason := by
    intro g tail hhead hg
    rw [settlePrompts_head (hrest.symm.trans hhead)]
    exact settleMenu_answered hg
  cases between with
  | nil =>
    obtain ⟨reason, hreason⟩ := hfrom second after rfl hsame
    exact absurd (Glance.sent_of_stop hreason) hsecond
  | cons g between =>
    by_cases hg : kindOf g.pane = some kind
    · have hrestTrace : settlePrompts digest m state looks =
          (before ++ [first]) ++ g :: (between ++ second :: after) := by
        rw [htrace, List.append_assoc]
        rfl
      have hgone := (settlePrompts_split hrestTrace).2.1
        (hfrom g (between ++ second :: after) rfl hg)
      simp at hgone
    · exact ⟨g, List.mem_cons_self, hg⟩

/-- Along a watch whose pickers agree, an Enter is sent only on the allowed option and a key only to
a menu the policy answers. -/
theorem settlePrompts_keys (hpending : PendingFrom m previous state)
    (hagrees : (previous.toList ++ (settlePrompts digest m state looks).map Glance.pane).IsChain
      (Agrees m)) :
    ∀ g ∈ settlePrompts digest m state looks,
      (g.sent = some .enter → OnAllowed m g.pane) ∧ (g.sent ≠ none → Answerable m g.pane) := by
  induction looks generalizing state previous with
  | nil => simp [settlePrompts]
  | cons look looks ih =>
    cases look with
    | gone => simp [settlePrompts]
    | uncapturable => exact ih hpending hagrees
    | screen pane =>
      obtain ⟨tail, htrace, htail, -⟩ := settlePrompts_screen digest m state pane looks
      have hsettled := settleMenu_settled digest m state pane
      rw [htrace] at hagrees ⊢
      have hhead : ∀ earlier, previous = some earlier → Agrees m earlier pane := by
        rintro earlier rfl
        exact (List.isChain_cons_cons.mp hagrees).1
      intro g hg
      rcases List.mem_cons.mp hg with rfl | hg
      · refine ⟨fun henter => ?_, fun hsent => ?_⟩
        · exact hsettled.enter_allowed hpending hhead (Glance.sent_eq_some henter)
        · obtain ⟨key, hkey⟩ := Option.ne_none_iff_exists'.mp hsent
          exact hsettled.answerable hpending hhead (Glance.sent_eq_some hkey)
      · rcases htail with rfl | ⟨hgoes, rfl⟩
        · cases hg
        · have hnext := hsettled.pending hgoes
          exact ih hnext hagrees.right_of_append g hg

theorem watch_obeys (h : Steady m (watch digest m looks)) :
    Obeys m (watch digest m looks) := by
  have hstart : PendingFrom m none initialMenuSettle := nofun
  have hkeys := settlePrompts_keys hstart h.1
  refine ⟨fun g hg henter => (hkeys g hg).1 henter, settlePrompts_answeredOnce looks,
    settlePrompts_silentAfterStop looks, ?_⟩
  intro hundeclared g hg hmarker
  by_contra hsent
  exact h.2 g hg hundeclared hmarker ((hkeys g hg).2 hsent)

theorem answerable_presses (h : Answerable m pane) :
    ∃ key, (settleMenu digest initialMenuSettle pane m).action = .press key := by
  obtain ⟨shown, menu, hmenu, hpolicy, ⟨htrust, hselected, option, hoption, hlabel⟩ |
    ⟨hkind, hnumber⟩⟩ := h
  · obtain ⟨selected, hselected⟩ := Option.isSome_iff_exists.mp hselected
    obtain ⟨target, htarget⟩ : ∃ target,
        menu.options.findIdx? (fun option => option.label == trustYes) = some target := by
      rw [← Option.isSome_iff_exists, List.findIdx?_isSome, List.any_eq_true]
      exact ⟨option, hoption, by simpa using hlabel⟩
    have htrust : menu.kind = .folderTrust ∨ menu.kind = .declaredPermissions := htrust
    refine ⟨navigationKey selected target, ?_⟩
    by_cases hkey : navigationKey selected target = .enter <;>
      simp [settleMenu, hmenu, initialMenuSettle, choose, hpolicy, htrust, htarget, hselected, hkey]
  · obtain ⟨number, hnumber⟩ := Option.isSome_iff_exists.mp hnumber
    refine ⟨.number number, ?_⟩
    rw [hkind] at hpolicy
    simp [settleMenu, hmenu, initialMenuSettle, choose, hpolicy, hkind, hnumber]

theorem marked_screen_is_answered (h : ¬ Unmarked m pane) :
    ¬ Obeys m (watch digest m [.screen pane]) := by
  intro hobeys
  refine h fun hundeclared hmarker hanswerable => ?_
  obtain ⟨key, hkey⟩ := @answerable_presses digest m pane hanswerable
  obtain ⟨tail, htrace, -, -⟩ := settlePrompts_screen digest m initialMenuSettle pane []
  have hsilent := hobeys.marked hundeclared
    ⟨initialMenuSettle, pane, settleMenu digest initialMenuSettle pane m⟩
    (by rw [watch, htrace]; exact List.mem_cons_self) hmarker
  rw [Glance.sent, hkey] at hsilent
  cases hsilent

theorem shownMenu_of_pickerShown (h : pickerShown pane = some shown) :
    ∃ menu, shownMenu pane = some (shown, menu) ∧ menu.kind = .resumePicker := by
  obtain ⟨⟨frame, menu⟩, hmenu, hframe⟩ := Option.bind_eq_some_iff.mp h
  obtain ⟨hkind, hshown⟩ := Option.ite_none_right_eq_some.mp hframe
  obtain rfl := Option.some.inj hshown
  exact ⟨menu, hmenu, hkind⟩

theorem asked_settles {number : Chars} (h : asked m pane = some number) :
    settleMenu digest initialMenuSettle pane m =
      ⟨⟨true, none, some (.number .resumePicker number)⟩, .press (.number number)⟩ := by
  have hpolicy := asked_policy h
  rw [asked, if_pos hpolicy] at h
  obtain ⟨shown, hshown, hnumber⟩ := Option.bind_eq_some_iff.mp h
  obtain ⟨menu, hmenu, hkind⟩ := shownMenu_of_pickerShown hshown
  simp [settleMenu, hmenu, initialMenuSettle, choose, hkind, hpolicy, hnumber]

theorem disagreeing_pickers_are_entered (h : ¬ Agrees m earlier later) :
    ¬ Obeys m (watch digest m [.screen earlier, .screen later]) := by
  intro hobeys
  refine h fun number shown hasked hshown hcursor => ?_
  obtain ⟨menu, hmenu, hkind⟩ := shownMenu_of_pickerShown hshown
  have hfirst := @asked_settles digest m earlier number hasked
  have hsecond : (settleMenu digest ⟨true, none, some (.number .resumePicker number)⟩ later
      m).action = .press .enter := by
    simp [settleMenu, hmenu, hkind, hcursor]
  have hmem : (⟨⟨true, none, some (.number .resumePicker number)⟩, later,
      settleMenu digest ⟨true, none, some (.number .resumePicker number)⟩ later m⟩ : Glance) ∈
        watch digest m [.screen earlier, .screen later] := by
    simp [watch, settlePrompts, hfirst, hsecond]
  obtain ⟨shown', menu', hmenu', -, ⟨htrust, -⟩ | ⟨-, hon⟩⟩ :=
    hobeys.enter _ hmem (by rw [Glance.sent, hsecond])
  · obtain ⟨rfl, rfl⟩ := Prod.mk.inj (Option.some.inj (hmenu.symm.trans hmenu'))
    rcases htrust with htrust | htrust <;>
    · rw [hkind] at htrust
      cases htrust
  · obtain ⟨rfl, rfl⟩ := Prod.mk.inj (Option.some.inj (hmenu.symm.trans hmenu'))
    exact hon

theorem agrees_of_cursorOn (h : (pickerShown later).all (cursorOn (pickerLabel m)) = true) :
    Agrees m earlier later := by
  intro number shown _ hshown _
  rw [hshown] at h
  exact h

theorem unmarked_of_includes (h : includes pane declaredLine = false) : Unmarked m pane := by
  intro _ hmarker
  rw [h] at hmarker
  cases hmarker

end

/-- A steady watch keeps all the laws; two of them hold of every watch, and screens that are not
steady break the others. -/
theorem start_up_menus (digest : Chars → String) (m : MachineConfig) :
    (∀ looks, Steady m (watch digest m looks) → Obeys m (watch digest m looks)) ∧
    (∀ looks, AnsweredOnce (watch digest m looks) ∧ SilentAfterStop (watch digest m looks)) ∧
    (∀ pane, ¬ Unmarked m pane → ¬ Obeys m (watch digest m [.screen pane])) ∧
    ∀ earlier later, ¬ Agrees m earlier later →
      ¬ Obeys m (watch digest m [.screen earlier, .screen later]) :=
  ⟨fun _ => watch_obeys,
    fun looks => ⟨settlePrompts_answeredOnce looks, settlePrompts_silentAfterStop looks⟩,
    fun _ => marked_screen_is_answered, fun _ _ => disagreeing_pickers_are_entered⟩

def defaultPolicy : MachineConfig := ⟨.full, .folder⟩

def trustScreen : Chars :=
  (" Quick safety check: Is this a project you trust?\n❯ No, exit\n" ++
    "  Yes, I trust this folder\n Enter to confirm · Esc to cancel\n").toList

/-- The trust menu of a folder whose permissions take forty lines. -/
def markedScreen : Chars :=
  " This folder pre-approves 40 tool permissions:\n".toList ++
    (List.replicate 40 " Edit\n".toList).flatten ++ trustScreen

/-- The resume picker with its cursor on either option. -/
def pickerScreen (cursor : Bool) : Chars :=
  if cursor then " 1. Resume from summary\n❯ 2. Resume full session as-is\n".toList
  else "❯ 1. Resume from summary\n 2. Resume full session as-is\n".toList

/-- The picker with its options in the other order. -/
def reorderedScreen : Chars := " 1. Resume full session as-is\n❯ 2. Resume from summary\n".toList

/-- The cursor is moved onto the full session, and only then Enter is sent. -/
def pickerLooks : List Look :=
  [.screen (pickerScreen false), .uncapturable, .screen (pickerScreen true)]

theorem start_up_menus_picker :
    Obeys defaultPolicy (watch String.ofList defaultPolicy pickerLooks) ∧
      (watch String.ofList defaultPolicy pickerLooks).map Glance.sent =
        [some (.number ['2']), some .enter] := by
  have hkeys : (watch String.ofList defaultPolicy pickerLooks).map
      (fun g => (g.pane, g.sent)) =
        [(pickerScreen false, some (.number ['2'])), (pickerScreen true, some .enter)] := by
    decide
  have hpanes : (watch String.ofList defaultPolicy pickerLooks).map Glance.pane =
      [pickerScreen false, pickerScreen true] := by
    simpa [List.map_map, Function.comp_def] using congrArg (List.map Prod.fst) hkeys
  have hsteady : Steady defaultPolicy (watch String.ofList defaultPolicy pickerLooks) := by
    refine ⟨?_, ?_⟩
    · rw [hpanes]
      exact List.isChain_pair.mpr (agrees_of_cursorOn (by decide))
    · intro g hg
      have hpane : g.pane ∈ [pickerScreen false, pickerScreen true] := by
        rw [← hpanes]
        exact List.mem_map_of_mem hg
      rcases List.mem_pair.mp hpane with h | h <;> rw [h]
      · exact unmarked_of_includes (by decide)
      · exact unmarked_of_includes (by decide)
  refine ⟨(start_up_menus String.ofList defaultPolicy).1 pickerLooks hsteady, ?_⟩
  simpa [List.map_map, Function.comp_def] using congrArg (List.map Prod.snd) hkeys

/-- A marker above the last forty lines does not hold the key back, and a picker whose options
changed places is entered on the option that the policy does not allow. -/
theorem start_up_menus_fail :
    ¬ SilentWhenMarked defaultPolicy
        (watch String.ofList defaultPolicy [.screen markedScreen]) ∧
      ¬ EnterOnAllowed defaultPolicy
        (watch String.ofList defaultPolicy
          [.screen (pickerScreen false), .screen reorderedScreen]) := by
  constructor
  · intro hsilent
    have hsent : ((watch String.ofList defaultPolicy [.screen markedScreen]).any fun g =>
        includes g.pane declaredLine && g.sent.isSome) = true := by
      decide +kernel
    obtain ⟨g, hg, htest⟩ := List.any_eq_true.mp hsent
    rw [Bool.and_eq_true] at htest
    rw [hsilent (by decide) g hg htest.1] at htest
    cases htest.2
  · intro hallowed
    have hentered : ((watch String.ofList defaultPolicy
        [.screen (pickerScreen false), .screen reorderedScreen]).any fun g =>
          decide (g.sent = some .enter ∧ kindOf g.pane = some .resumePicker) &&
            !(pickerShown g.pane).any (cursorOn (pickerLabel defaultPolicy))) = true := by
      decide
    obtain ⟨g, hg, htest⟩ := List.any_eq_true.mp hentered
    rw [Bool.and_eq_true, decide_eq_true_eq] at htest
    obtain ⟨⟨henter, hkind⟩, hoff⟩ := htest
    obtain ⟨shown, menu, hmenu, -, ⟨htrust, -⟩ | ⟨hpicker, hon⟩⟩ := hallowed g hg henter
    · rw [kindOf, hmenu] at hkind
      have hpicker : menu.kind = .resumePicker := Option.some.inj hkind
      rcases htrust with htrust | htrust <;>
      · rw [hpicker] at htrust
        cases htrust
    · rw [pickerShown_of_kind hmenu hpicker, Option.any_some, hon] at hoff
      cases hoff

end Ccmux.Agent.Claude.MenuRun
