/- Module: Ccmux/Events/ObserveRun
   source: src/events/observe.ts, src/commands/hookStatus.ts
   digest: Hook events and observation passes of one session, and what its feed announces. -/

import Ccmux.Lib.Machine
import Ccmux.Events.Observe

namespace Ccmux.Events.Observe

open Ccmux.Lib.Machine

def startedTurns (feed : List Announcement) : List Instant :=
  feed.filterMap fun a => match a with
    | .turnStart turn => some turn
    | _ => none

/-- The turns announced as finished, where the start was known. -/
def finishedTurns (feed : List Announcement) : List Instant :=
  feed.filterMap fun a => match a with
    | .turnEnd turn _ _ => turn
    | _ => none

/-- The menu the feed last said the session waits at. -/
def announcedMenu (feed : List Announcement) : Option String :=
  feed.foldl (fun menu a => match a with
    | .waiting detail => some detail
    | .resumed | .sessionStop | .observerRestarted => none
    | _ => menu) none

/-- What an announcement may say after the feed. -/
def Due (feed : List Announcement) : Announcement → Prop
  | .turnStart turn => turn ∉ startedTurns feed
  | .turnEnd (some turn) _ _ => turn ∈ startedTurns feed ∧ turn ∉ finishedTurns feed
  | .waiting detail => announcedMenu feed ≠ some detail
  | .resumed => (announcedMenu feed).isSome = true
  | _ => True

/-- The announcements were due one after the other. -/
def AllDue : List Announcement → List Announcement → Prop
  | _, [] => True
  | feed, a :: rest => Due feed a ∧ AllDue (feed ++ [a]) rest

/-- Every announcement of the feed was due where it stands. -/
def WellFormed (feed : List Announcement) : Prop := AllDue [] feed

/-- The session with its lifecycle file, the observer's memory of it and its feed. -/
structure World where
  lifecycle : Option LifecycleStatus
  memory : Option Observed
  feed : List Announcement
  deriving DecidableEq, Repr

inductive Event where
  | hook (hook : Hook) (now : Instant)
  | pass (g : Glimpse)
  | restart
  deriving DecidableEq, Repr

def startWorld : World := ⟨none, none, []⟩

def World.previous (w : World) : Observed := w.memory.getD unseen

/-- `cmdHookStatus` of a session whose events are on. -/
def World.hook (w : World) (hook : Hook) (now : Instant) : World :=
  let status := parseLifecycle hook now
  { w with
    lifecycle := some (lifecycleToWrite status w.lifecycle)
    feed := w.feed ++ (eventForLifecycle status w.lifecycle).toList }

/-- `observeOnce` for the one session. -/
def World.pass (w : World) (g : Glimpse) : World :=
  let prev := w.previous
  let next := observe w.lifecycle g (prev.paneWorkingMs.or g.paneActivityOnDisk)
  let closing := shouldCloseTurn prev next
  let closed := if closing && g.closes then
    next.turnOverMs.elim w.lifecycle (closeTurn w.lifecycle) else w.lifecycle
  { lifecycle := closed
    memory := some { next with
      turnClosedFor := if closing then next.turnStartedMs else prev.turnClosedFor }
    feed := w.feed ++ transitions prev next }

/-- One step; a turn is identified by its start instant, so no two turns start at one. -/
def step (w : World) : Event → Option World
  | .hook hook now =>
    if hook = .userPromptSubmit ∧ isWorking w.lifecycle = false ∧ now ∈ startedTurns w.feed then none
    else some (w.hook hook now)
  | .pass g => some (w.pass g)
  | .restart => some { w with memory := none, feed := w.feed ++ [.observerRestarted] }

/-- The write that closes an abandoned turn succeeds. -/
def closes : Event → Bool
  | .pass g => g.closes
  | _ => true

/-! The feed grows by due announcements. -/

section
variable {feed news : List Announcement} {a : Announcement} {turn : Instant}

@[simp] theorem startedTurns_append : startedTurns (feed ++ news) =
    startedTurns feed ++ startedTurns news := List.filterMap_append

@[simp] theorem finishedTurns_append : finishedTurns (feed ++ news) =
    finishedTurns feed ++ finishedTurns news := List.filterMap_append

theorem announcedMenu_append_singleton : announcedMenu (feed ++ [a]) = (match a with
    | .waiting detail => some detail
    | .resumed | .sessionStop | .observerRestarted => none
    | _ => announcedMenu feed) := by
  rw [announcedMenu, List.foldl_append]
  rfl

theorem allDue_append (more : List Announcement) :
    AllDue feed (news ++ more) ↔ AllDue feed news ∧ AllDue (feed ++ news) more := by
  induction news generalizing feed with
  | nil => simp [AllDue]
  | cons a rest ih =>
    simp only [List.cons_append, AllDue, ih, List.append_assoc, List.nil_append, and_assoc]

theorem wellFormed_append : WellFormed (feed ++ news) ↔ WellFormed feed ∧ AllDue feed news := by
  unfold WellFormed
  rw [allDue_append, List.nil_append]

/-! What a pass adds, part by part: neither a block nor a menu names a turn. -/

variable {prev next : Observed}

theorem transitions_running (h : next.running = true) :
    transitions prev next = blockedNews prev next ++ menuNews prev next ++ endNews prev next := by
  simp [transitions, h]

theorem blockedNews_due : AllDue feed (blockedNews prev next) ∧
    announcedMenu (feed ++ blockedNews prev next) = announcedMenu feed := by
  unfold blockedNews
  split
  · split
    · exact ⟨⟨trivial, trivial⟩, announcedMenu_append_singleton⟩
    · simp [AllDue]
  · simp [AllDue]

/-- The menu of the feed follows the menu of the observer. -/
theorem menuNews_due (hmenu : announcedMenu feed = prev.waitingAt) :
    AllDue feed (menuNews prev next) ∧
      announcedMenu (feed ++ menuNews prev next) = next.waitingAt := by
  unfold menuNews
  cases hnext : next.waitingAt with
  | some detail =>
    dsimp only
    split
    · rename_i hother
      refine ⟨⟨?_, trivial⟩, announcedMenu_append_singleton⟩
      show announcedMenu feed ≠ some detail
      rw [hmenu]
      exact hother
    · rename_i hsame
      rw [List.append_nil, hmenu]
      exact ⟨trivial, not_not.mp hsame⟩
  | none =>
    dsimp only
    split
    · rename_i hsome
      refine ⟨⟨?_, trivial⟩, announcedMenu_append_singleton⟩
      show (announcedMenu feed).isSome = true
      rw [hmenu]
      exact hsome
    · rename_i hnone
      rw [List.append_nil, hmenu]
      refine ⟨trivial, ?_⟩
      simpa using hnone

theorem endNews_menu : announcedMenu (feed ++ endNews prev next) = announcedMenu feed := by
  unfold endNews
  split
  · exact announcedMenu_append_singleton
  · rw [List.append_nil]

theorem started_blockedNews : startedTurns (blockedNews prev next) = [] := by
  unfold blockedNews
  split
  · split <;> rfl
  · rfl

theorem started_menuNews : startedTurns (menuNews prev next) = [] := by
  unfold menuNews
  split <;> split <;> rfl

theorem started_endNews : startedTurns (endNews prev next) = [] := by
  unfold endNews
  split <;> rfl

theorem finished_blockedNews : finishedTurns (blockedNews prev next) = [] := by
  unfold blockedNews
  split
  · split <;> rfl
  · rfl

theorem finished_menuNews : finishedTurns (menuNews prev next) = [] := by
  unfold menuNews
  split <;> split <;> rfl

theorem finished_endNews :
    finishedTurns (endNews prev next) = ((endedTurn prev next).map fun e => e.1).toList := by
  unfold endNews
  cases endedTurn prev next <;> rfl

end

/-! The feed, the observer's memory and the lifecycle file agree. -/

structure Sound (w : World) : Prop where
  formed : WellFormed w.feed
  menu : announcedMenu w.feed = w.previous.waitingAt
  asleep : w.previous.running = false → w.previous.waitingAt = none
  running : ∀ turn, claimedTurn w.lifecycle = some turn → turn ∈ startedTurns w.feed ∧
    turn ∉ finishedTurns w.feed ∧ w.previous.turnClosedFor ≠ some turn
  closed : ∀ turn, w.previous.turnClosedFor = some turn → turn ∈ startedTurns w.feed
  known : ∀ turn ∈ finishedTurns w.feed, turn ∈ startedTurns w.feed

section
variable {w v : World}

theorem sound_start : Sound startWorld := by
  refine ⟨trivial, rfl, fun _ => rfl, ?_, ?_, ?_⟩
  · intro turn h
    cases h
  · intro turn h
    cases h
  · intro turn h
    cases h

theorem Sound.grow {news : List Announcement} (h : Sound w) (hfeed : v.feed = w.feed ++ news)
    (hstarted : startedTurns news = []) (hfinished : finishedTurns news = [])
    (hdue : AllDue w.feed news) (hmenu : announcedMenu v.feed = v.previous.waitingAt)
    (hasleep : v.previous.running = false → v.previous.waitingAt = none)
    (hclaimed : ∀ turn, claimedTurn v.lifecycle = some turn → claimedTurn w.lifecycle = some turn)
    (hclosed : ∀ turn, v.previous.turnClosedFor = some turn →
      w.previous.turnClosedFor = some turn) : Sound v := by
  have hstarts : startedTurns v.feed = startedTurns w.feed := by
    rw [hfeed, startedTurns_append, hstarted, List.append_nil]
  have hends : finishedTurns v.feed = finishedTurns w.feed := by
    rw [hfeed, finishedTurns_append, hfinished, List.append_nil]
  refine ⟨?_, hmenu, hasleep, ?_, ?_, ?_⟩
  · rw [hfeed]
    exact (wellFormed_append).mpr ⟨h.formed, hdue⟩
  · intro turn hturn
    obtain ⟨hin, hout, hother⟩ := h.running turn (hclaimed turn hturn)
    rw [hstarts, hends]
    exact ⟨hin, hout, fun hc => hother (hclosed turn hc)⟩
  · intro turn hc
    rw [hstarts]
    exact h.closed turn (hclosed turn hc)
  · rw [hstarts, hends]
    exact h.known

variable {now : Instant}

theorem sound_prompt (h : Sound w)
    (hnew : isWorking w.lifecycle = false → now ∉ startedTurns w.feed) :
    Sound (w.hook .userPromptSubmit now) := by
  have hclaimed := @claimedTurn_hook w.lifecycle .userPromptSubmit now
  cases hturn : claimedTurn w.lifecycle with
  | some start =>
    -- The prompt joins the running turn: nothing is announced and the start stays.
    rw [hturn] at hclaimed
    have hworking : isWorking w.lifecycle = true := by rw [isWorking_eq, hturn]; rfl
    have hsilent : eventForLifecycle (parseLifecycle .userPromptSubmit now) w.lifecycle = none := by
      simp [eventForLifecycle, parseLifecycle, hworking]
    have hfeed : (w.hook .userPromptSubmit now).feed = w.feed ++ [] := by
      simp [World.hook, hsilent]
    refine h.grow hfeed rfl rfl trivial ?_ h.asleep ?_ fun _ hc => hc
    · rw [hfeed, List.append_nil]
      exact h.menu
    · intro turn hnow
      exact hturn.trans (hclaimed.symm.trans hnow)
  | none =>
    rw [hturn] at hclaimed
    have hidle : isWorking w.lifecycle = false := by rw [isWorking_eq, hturn]; rfl
    have hsaid : eventForLifecycle (parseLifecycle .userPromptSubmit now) w.lifecycle =
        some (.turnStart now) := by simp [eventForLifecycle, parseLifecycle, hidle]
    have hfresh := hnew hidle
    have hstarts : startedTurns (w.feed ++ [.turnStart now]) = startedTurns w.feed ++ [now] := by
      rw [startedTurns_append]
      rfl
    have hends : finishedTurns (w.feed ++ [.turnStart now]) = finishedTurns w.feed := by
      rw [finishedTurns_append, show finishedTurns [.turnStart now] = [] from rfl, List.append_nil]
    unfold World.hook
    dsimp only
    rw [hsaid, Option.toList_some]
    refine ⟨(wellFormed_append).mpr ⟨h.formed, hfresh, trivial⟩,
      (announcedMenu_append_singleton).trans h.menu, h.asleep, ?_, ?_, ?_⟩
    · intro turn hnow
      obtain rfl : turn = now := Option.some.inj (hnow.symm.trans hclaimed)
      dsimp only
      rw [hstarts, hends]
      refine ⟨List.mem_append_right _ (List.mem_singleton_self _), ?_, ?_⟩
      · exact fun hdone => hfresh (h.known _ hdone)
      · exact fun hclosed => hfresh (h.closed _ hclosed)
    · intro turn hclosed
      dsimp only
      rw [hstarts]
      exact List.mem_append_left _ (h.closed turn hclosed)
    · dsimp only
      rw [hstarts, hends]
      exact fun turn hdone => List.mem_append_left _ (h.known turn hdone)

theorem sound_sessionStart (h : Sound w) : Sound (w.hook .sessionStart now) := by
  have hclaimed := @claimedTurn_hook w.lifecycle .sessionStart now
  refine @Sound.grow _ _ [.sessionStart] h rfl rfl rfl ⟨trivial, trivial⟩
    ((announcedMenu_append_singleton).trans h.menu) h.asleep ?_ fun _ hc => hc
  intro turn hturn
  cases hclaimed.symm.trans hturn

theorem sound_stop (h : Sound w) : Sound (w.hook .stop now) := by
  have hclaimed := @claimedTurn_hook w.lifecycle .stop now
  have hnone : ∀ turn, claimedTurn (w.hook .stop now).lifecycle = some turn →
      claimedTurn w.lifecycle = some turn := by
    intro turn hturn
    cases hclaimed.symm.trans hturn
  cases hsaid : eventForLifecycle (parseLifecycle .stop now) w.lifecycle with
  | none =>
    have hfeed : (w.hook .stop now).feed = w.feed ++ [] := by simp [World.hook, hsaid]
    refine h.grow hfeed rfl rfl trivial ?_ h.asleep hnone fun _ hc => hc
    rw [hfeed, List.append_nil]
    exact h.menu
  | some a =>
    have hfeed : (w.hook .stop now).feed = w.feed ++ [a] := by simp [World.hook, hsaid]
    simp only [eventForLifecycle, parseLifecycle] at hsaid
    split at hsaid
    · cases hsaid
    · split at hsaid
      · obtain rfl := Option.some.inj hsaid
        refine h.grow hfeed rfl rfl ⟨trivial, trivial⟩ ?_ h.asleep hnone fun _ hc => hc
        rw [hfeed]
        exact (announcedMenu_append_singleton).trans h.menu
      · rename_i start hstart
        obtain rfl := Option.some.inj hsaid
        obtain ⟨hstarted, hunfinished, -⟩ := h.running start hstart
        have hstarts : startedTurns (w.hook .stop now).feed = startedTurns w.feed := by
          rw [hfeed, startedTurns_append]
          exact List.append_nil _
        have hends : finishedTurns (w.hook .stop now).feed = finishedTurns w.feed ++ [start] := by
          rw [hfeed, finishedTurns_append]
          rfl
        refine ⟨?_, ?_, h.asleep, ?_, ?_, ?_⟩
        · rw [hfeed]
          exact (wellFormed_append).mpr ⟨h.formed, ⟨hstarted, hunfinished⟩, trivial⟩
        · rw [hfeed]
          exact (announcedMenu_append_singleton).trans h.menu
        · intro turn hturn
          cases hclaimed.symm.trans hturn
        · rw [hstarts]
          exact h.closed
        · rw [hstarts, hends]
          intro turn hdone
          rcases List.mem_append.mp hdone with hold | hnew
          · exact h.known turn hold
          · rw [List.mem_singleton.mp hnew]
            exact hstarted

variable {g : Glimpse}

theorem sound_pass_stopped (h : Sound w) (hstopped : g.running = false) :
    Sound (w.pass g) := by
  have hpass : w.pass g = ⟨w.lifecycle, some { unseen with turnClosedFor := w.previous.turnClosedFor },
      w.feed ++ transitions w.previous unseen⟩ := by
    simp [World.pass, observe_stopped hstopped, shouldCloseTurn, unseen]
  rw [hpass]
  cases hprev : w.previous.running with
  | true =>
    have hnews : transitions w.previous unseen = [.sessionStop] := by
      simp [transitions, hprev, unseen]
    rw [hnews]
    exact h.grow rfl rfl rfl ⟨trivial, trivial⟩ announcedMenu_append_singleton (fun _ => rfl)
      (fun _ hc => hc) fun _ hc => hc
  | false =>
    have hnews : transitions w.previous unseen = [] := by simp [transitions, hprev, unseen]
    rw [hnews]
    refine h.grow rfl rfl rfl trivial ?_ (fun _ => rfl) (fun _ hc => hc) fun _ hc => hc
    rw [List.append_nil]
    exact h.menu.trans (h.asleep hprev)

theorem sound_pass_running (h : Sound w) (hrunning : g.running = true)
    (hcloses : g.closes = true) : Sound (w.pass g) := by
  unfold World.pass
  dsimp only
  generalize hnext : observe w.lifecycle g (w.previous.paneWorkingMs.or g.paneActivityOnDisk) = next
  have hobserved : next.running = true := by rw [← hnext, observe_running, hrunning]
  have hover : ∀ overAt, next.turnOverMs = some overAt →
      next.turnStartedMs = claimedTurn w.lifecycle ∧ (claimedTurn w.lifecycle).isSome = true := by
    intro overAt ho
    rw [← hnext] at ho ⊢
    exact observe_over ho
  have hclosing := @shouldCloseTurn_iff w.previous next fun overAt ho =>
    (hover overAt ho).1 ▸ (hover overAt ho).2
  have hfinished : finishedTurns (transitions w.previous next) =
      ((endedTurn w.previous next).map fun e => e.1).toList := by
    rw [transitions_running hobserved]
    simp [finished_blockedNews, finished_menuNews, finished_endNews]
  have hstarted : startedTurns (transitions w.previous next) = [] := by
    rw [transitions_running hobserved]
    simp [started_blockedNews, started_menuNews, started_endNews]
  obtain ⟨hblocked, hsame⟩ := @blockedNews_due w.feed w.previous next
  obtain ⟨hmenu, hmenuAfter⟩ := @menuNews_due _ _ next (hsame.trans h.menu)
  have hafter : announcedMenu (w.feed ++ transitions w.previous next) = next.waitingAt := by
    rw [transitions_running hobserved, ← List.append_assoc, endNews_menu, ← List.append_assoc]
    exact hmenuAfter
  have hnotAsleep : next.running = false → next.waitingAt = none := by
    intro hstopped
    rw [hobserved] at hstopped
    cases hstopped
  cases hended : endedTurn w.previous next with
  | none =>
    have hopen : shouldCloseTurn w.previous next = false := by
      rw [← Bool.not_eq_true, hclosing, hended]
      exact Bool.false_ne_true
    rw [hended] at hfinished
    have hend : endNews w.previous next = [] := by rw [endNews, hended]
    have hdue : AllDue w.feed (transitions w.previous next) := by
      rw [transitions_running hobserved, hend, List.append_nil]
      exact (allDue_append _).mpr ⟨hblocked, hmenu⟩
    rw [hopen]
    exact h.grow rfl hstarted hfinished hdue hafter hnotAsleep (fun _ hc => hc) fun _ hc => hc
  | some ended =>
    obtain ⟨start, overAt⟩ := ended
    have hclose : shouldCloseTurn w.previous next = true := by
      rw [hclosing, hended]
      rfl
    rw [hended] at hfinished
    obtain ⟨hoverMs, hstartMs⟩ : next.turnOverMs = some overAt ∧ next.turnStartedMs = some start := by
      unfold endedTurn at hended
      split at hended
      · rename_i ho hs
        split at hended
        · obtain ⟨rfl, rfl⟩ := Prod.mk.inj (Option.some.inj hended)
          exact ⟨ho, hs⟩
        · cases hended
      · cases hended
    have hclaimed : claimedTurn w.lifecycle = some start := (hover overAt hoverMs).1.symm.trans hstartMs
    obtain ⟨hknown, hunfinished, -⟩ := h.running start hclaimed
    have hend : endNews w.previous next =
        [.turnEnd (some start) (some (max 0 (overAt - start))) next.turnInterrupted] := by
      rw [endNews, hended]
    have hdue : AllDue w.feed (transitions w.previous next) := by
      rw [transitions_running hobserved, hend]
      refine (allDue_append _).mpr ⟨(allDue_append _).mpr ⟨hblocked, hmenu⟩, ⟨?_, ?_⟩, trivial⟩
      · simpa [started_blockedNews, started_menuNews] using hknown
      · simpa [finished_blockedNews, finished_menuNews] using hunfinished
    have hstarts : startedTurns (w.feed ++ transitions w.previous next) = startedTurns w.feed := by
      rw [startedTurns_append, hstarted, List.append_nil]
    rw [hclose, hcloses, hoverMs]
    refine ⟨(wellFormed_append).mpr ⟨h.formed, hdue⟩, hafter, hnotAsleep, ?_, ?_, ?_⟩
    · intro turn hturn
      cases (claimedTurn_closeTurn overAt).symm.trans hturn
    · intro turn hclosed
      have hnow : next.turnStartedMs = some turn := hclosed
      obtain rfl : turn = start := Option.some.inj (hnow.symm.trans hstartMs)
      dsimp only
      rw [hstarts]
      exact hknown
    · intro turn hdone
      dsimp only at hdone ⊢
      rw [finishedTurns_append, hfinished] at hdone
      rw [hstarts]
      rcases List.mem_append.mp hdone with hold | hnew
      · exact h.known turn hold
      · rw [List.mem_singleton.mp hnew]
        exact hknown

theorem step_sound {e : Event} (h : Sound w) (hcloses : closes e = true)
    (hstep : step w e = some v) : Sound v := by
  cases e with
  | hook hook now =>
    simp only [step] at hstep
    split at hstep
    · cases hstep
    · rename_i hnew
      obtain rfl := Option.some.inj hstep
      cases hook with
      | userPromptSubmit => exact sound_prompt h fun hidle hused => hnew ⟨rfl, hidle, hused⟩
      | stop => exact sound_stop h
      | sessionStart => exact sound_sessionStart h
  | pass g =>
    obtain rfl := Option.some.inj hstep
    cases hrunning : g.running with
    | true => exact sound_pass_running h hrunning hcloses
    | false => exact sound_pass_stopped h hrunning
  | restart =>
    obtain rfl := Option.some.inj hstep
    refine h.grow rfl rfl rfl ⟨trivial, trivial⟩ announcedMenu_append_singleton (fun _ => rfl)
      (fun _ hc => hc) ?_
    intro turn hclosed
    cases hclosed

/-- Where every write that closes a turn succeeds, each announcement of the feed was due after the
ones before it, and a menu that the last pass found is the one the feed names. -/
theorem announcements_are_due (es : List Event) (w : World) (hrun : run step startWorld es = some w)
    (hcloses : ∀ e ∈ es, closes e = true) :
    WellFormed w.feed ∧
      ∀ menu, w.previous.waitingAt = some menu → announcedMenu w.feed = some menu := by
  have hsound : Sound w :=
    run_invariant_along (fun _ _ _ hs hc hstep => step_sound hs hc hstep) hrun
      (along_of_forall (fun e he _ => hcloses e he) startWorld) sound_start
  exact ⟨hsound.formed, fun menu hmenu => hsound.menu.trans hmenu⟩

/-- The turn that the session's file claims is announced as started and not as finished, only a
started turn is announced as finished, and a session that does not run is said to wait nowhere. -/
theorem feed_names_open_turn {es : List Event} {w : World}
    (hrun : run step startWorld es = some w) (hcloses : ∀ e ∈ es, closes e = true) :
    (∀ turn, claimedTurn w.lifecycle = some turn →
      turn ∈ startedTurns w.feed ∧ turn ∉ finishedTurns w.feed) ∧
    (∀ turn ∈ finishedTurns w.feed, turn ∈ startedTurns w.feed) ∧
      (w.previous.running = false → announcedMenu w.feed = none) := by
  have hsound : Sound w :=
    run_invariant_along (fun _ _ _ hs hc hstep => step_sound hs hc hstep) hrun
      (along_of_forall (fun e he _ => hcloses e he) startWorld) sound_start
  refine ⟨?_, hsound.known, fun hasleep => hsound.menu.trans (hsound.asleep hasleep)⟩
  intro turn hclaimed
  obtain ⟨hstarted, hopen, -⟩ := hsound.running turn hclaimed
  exact ⟨hstarted, hopen⟩

end

/-! A turn that no hook ended, and a menu that is replaced before the pane cannot be captured. -/

def idlePane : PaneScan := ⟨true, .indeterminate, none⟩

def atMenu (title : String) : PaneScan := ⟨true, .indeterminate, some title⟩

/-- The turn is closed by the pass that finds it quiet for a minute; the late `Stop` stays silent. -/
def abandonedTurn : List Event :=
  [.pass { running := true, pane := some idlePane, nowMs := 0 }, .hook .userPromptSubmit 1000,
    .pass { running := true, pane := some ⟨true, .working, none⟩, nowMs := 2000 },
    .hook .userPromptSubmit 3000,
    .pass { running := true, pane := some idlePane, activityMs := some 4000, nowMs := 70000 },
    .hook .stop 71000, .pass { running := true, pane := some idlePane, nowMs := 72000 }]

theorem announcements_are_due_abandoned :
    ∃ w, run step startWorld abandonedTurn = some w ∧ startedTurns w.feed = [1000] ∧
      finishedTurns w.feed = [1000] ∧ WellFormed w.feed := by
  have hruns : ((run step startWorld abandonedTurn).any fun w =>
      decide (startedTurns w.feed = [1000] ∧ finishedTurns w.feed = [1000])) = true := by
    decide
  obtain ⟨w, hrun, hw⟩ := (Option.any_eq_true _ _).mp hruns
  obtain ⟨hstarted, hfinished⟩ := of_decide_eq_true hw
  exact ⟨w, hrun, hstarted, hfinished,
    (announcements_are_due abandonedTurn w hrun (by decide)).1⟩

theorem feed_names_open_turn_abandoned :
    ∃ w, run step startWorld abandonedTurn = some w ∧
      ∀ turn ∈ finishedTurns w.feed, turn ∈ startedTurns w.feed := by
  have hruns : (run step startWorld abandonedTurn).isSome = true := by decide
  obtain ⟨w, hrun⟩ := Option.isSome_iff_exists.mp hruns
  exact ⟨w, hrun, (feed_names_open_turn hrun (by decide)).2.1⟩

/-- The waiting and resumed announcements alternate, a waiting one first. -/
def alternates : Bool → List Announcement → Bool
  | _, [] => true
  | waits, .waiting _ :: rest => !waits && alternates true rest
  | waits, .resumed :: rest => waits && alternates false rest
  | waits, _ :: rest => alternates waits rest

def replacedMenu : List Event :=
  [.pass { running := true, pane := some (atMenu "Edit this file?"), nowMs := 0 },
    .pass { running := true, pane := some (atMenu "Run this command?"), nowMs := 2000 }]

/-- A second menu is announced as waiting again, and a pane that could not be captured as resumed. -/
theorem replaced_menu_is_announced_again :
    ∃ v w, run step startWorld replacedMenu = some v ∧ alternates false v.feed = false ∧
      step v (.pass { running := true, pane := none, nowMs := 4000 }) = some w ∧
      w.feed = [.waiting "Edit this file?", .waiting "Run this command?", .resumed] := by
  have hruns : ((run step startWorld replacedMenu).any fun v =>
      alternates false v.feed == false &&
        (step v (.pass { running := true, pane := none, nowMs := 4000 })).any fun w =>
          decide (w.feed =
            [.waiting "Edit this file?", .waiting "Run this command?", .resumed])) = true := by
    decide
  obtain ⟨v, hrun, hv⟩ := (Option.any_eq_true _ _).mp hruns
  obtain ⟨halternates, hnext⟩ := (Bool.and_eq_true _ _).mp hv
  obtain ⟨w, hstep, hw⟩ := (Option.any_eq_true _ _).mp hnext
  exact ⟨v, w, hrun, eq_of_beq halternates, hstep, of_decide_eq_true hw⟩

end Ccmux.Events.Observe
