/- Module: Ccmux/Agent/OpenCode/InputRun
   source: src/agent/opencode/input.ts, src/chat/nativeRuntime.ts
   digest: A prompt is posted once for each input, over every run of ticks and passes. -/

import Ccmux.Agent.OpenCode.Input
import Ccmux.Chat.NativeQueue

namespace Ccmux.Agent.OpenCode.Input

open Ccmux.Lib.Machine (run run_invariant)
open Ccmux.Chat.Identity (ManagedPeer managedPeerKey)
open Ccmux.Chat.Message (ChatMessage ChatCursors)
open Ccmux.Chat.NativeRuntime (PassEnv queuedInput)
open Ccmux.Chat.NativeRun (Good Inv Queue Delivers Extends ofOwner Start)
open Ccmux.Runtime.Input

section
variable (recipientKey : String) (openCodeMessageId : String → Int → String) (session : Session)

/-- The native id of the input is the one of its letter at some instant. -/
def Shaped (input : RuntimeInput) : Prop :=
  (∃ at_, input.nativeId = openCodeMessageId input.messageId at_) ∧ input.turnId = none

/-- Where the tick stands in relation to the slot it read under the lock. -/
def PointOk (w : World) : Point → Prop
  | .agents _ input => w.base.mailbox = some input
  | .message input _ => w.base.mailbox = some input ∧ input.phase ≠ .queued
  | .confirming input => w.base.mailbox = some input ∧ input.phase ≠ .queued ∧
      ⟨input.nativeId, some input.messageId⟩ ∈ w.base.turns
  | .doubting input => w.base.mailbox = some input ∧ input.phase = .dispatching
  | .images input _ _ => w.base.mailbox = some input ∧ input.phase = .queued
  | .marking input request => w.base.mailbox = some input ∧ input.phase = .queued ∧
      request.messageID = input.nativeId
  | .prompting input request => w.base.mailbox = some { input with phase := .dispatching } ∧
      input.messageId ∉ w.base.calls ∧ request.messageID = input.nativeId
  | .awaiting input => w.base.mailbox = some { input with phase := .dispatching }
  | .accepting input => w.base.mailbox = some { input with phase := .dispatching } ∧
      ⟨input.nativeId, some input.messageId⟩ ∈ w.base.turns

/-- The provider answered the prompt, or a lookup with the user message of the id. -/
def Evident (w : World) (nativeId : String) : Prop :=
  nativeId ∈ w.answered ∨
    ∃ info ∈ w.shown, info.id = nativeId ∧ session.sessionID = some info.sessionID ∧
      info.role = .user

structure Sound (w : World) : Prop where
  good : Good recipientKey w.base
  queue : Queue (Shaped openCodeMessageId) w.base
  shaped : ∀ input, w.base.mailbox = some input → Shaped openCodeMessageId input
  unlocked : ∀ point, w.point = some point → w.base.holder = .free ∧ PointOk w point
  letters : w.base.calls = w.prompts.map Prompt.letter
  ids : ∀ prompt ∈ w.prompts, ∃ at_,
    prompt.request.messageID = openCodeMessageId prompt.letter at_
  evident : ∀ turn ∈ w.base.turns, Evident session w turn.id

end

section
variable {dateParse : String → Option Int} {recipientKey : String}
  {openCodeMessageId : String → Int → String} {session : Session} {w v : World} {e : Event}
  {input : RuntimeInput} {point : Point}

theorem Evident.mono {nativeId : String} (h : Evident session w nativeId)
    (hanswered : w.answered ⊆ v.answered) (hshown : w.shown ⊆ v.shown) :
    Evident session v nativeId := by
  rcases h with hanswer | ⟨info, hinfo, hmatch⟩
  · exact .inl (hanswered hanswer)
  · exact .inr ⟨info, hshown hinfo, hmatch⟩

theorem PointOk.congr (h : PointOk w point) (hmailbox : v.base.mailbox = w.base.mailbox)
    (hcalls : v.base.calls = w.base.calls) (hturns : w.base.turns ⊆ v.base.turns) :
    PointOk v point := by
  cases point with
  | confirming input => exact ⟨hmailbox.trans h.1, h.2.1, hturns h.2.2⟩
  | accepting input => exact ⟨hmailbox.trans h.1, hturns h.2⟩
  | prompting input request => exact ⟨hmailbox.trans h.1, by rw [hcalls]; exact h.2.1, h.2.2⟩
  | agents env input | awaiting input => exact hmailbox.trans h
  | message input agent | doubting input | images input agent options =>
    exact ⟨hmailbox.trans h.1, h.2⟩
  | marking input request => exact ⟨hmailbox.trans h.1, h.2.1, h.2.2⟩

variable {env : TickEnv} {agent : Option String} {request : PromptRequest} {es : List Event}

theorem proceed_ok (hmailbox : w.base.mailbox = some input)
    (h : proceed env input agent = some point) : PointOk w point := by
  unfold proceed at h
  split at h
  · next hphase =>
    obtain rfl := Option.some.inj h
    exact ⟨hmailbox, hphase⟩
  · next hphase =>
    split at h
    · cases h
    · split at h
      · cases h
      · split at h
        · cases h
        · split at h
          · cases h
          · obtain rfl := Option.some.inj h
            exact ⟨hmailbox, not_not.mp hphase⟩

theorem applyLocked_ok (h : applyLocked session env w.base.mailbox = some point) :
    PointOk w point := by
  unfold applyLocked at h
  split at h
  · next input sessionID hmailbox hsession =>
    split at h
    · cases h
    · split at h
      · split at h
        · obtain rfl := Option.some.inj h
          exact hmailbox
        · cases h
      · exact proceed_ok hmailbox h
  · cases h

theorem Sound.tick (h : Sound recipientKey openCodeMessageId session w)
    (hfree : w.base.holder = .free) (hpoint : ∀ point, v.point = some point → PointOk w point)
    (hbase : v.base = w.base) (hprompts : v.prompts = w.prompts)
    (hanswered : w.answered ⊆ v.answered) (hshown : w.shown ⊆ v.shown) :
    Sound recipientKey openCodeMessageId session v where
  good := hbase ▸ h.good
  queue := hbase ▸ h.queue
  shaped := hbase ▸ h.shaped
  unlocked point hsome := by
    refine ⟨hbase ▸ hfree, (hpoint point hsome).congr ?_ ?_ ?_⟩
    · rw [hbase]
    · rw [hbase]
    · rw [hbase]
      exact List.Subset.refl _
  letters := by rw [hbase, hprompts]; exact h.letters
  ids := hprompts ▸ h.ids
  evident turn hturn := by
    rw [hbase] at hturn
    exact (h.evident turn hturn).mono hanswered hshown

theorem Sound.stop (h : Sound recipientKey openCodeMessageId session w)
    (hfree : w.base.holder = .free) : Sound recipientKey openCodeMessageId session (w.at none) :=
  h.tick hfree (fun _ hnone => by cases hnone) rfl rfl (List.Subset.refl _) (List.Subset.refl _)

theorem Sound.proven (h : Sound recipientKey openCodeMessageId session w)
    (hevident : Evident session w input.nativeId) :
    Sound recipientKey openCodeMessageId session (w.proven input) where
  good := by
    have hmore : Extends recipientKey w.base (w.proven input).base :=
      { ledger := List.prefix_refl _, unique := h.good.inv.unique, acks := Finset.Subset.refl _,
        file := rfl, mailbox := rfl, journal := rfl, memory := rfl,
        turns := List.subset_append_left _ _, calls := rfl, queued := rfl }
    exact h.good.grow hmore rfl
  queue := ⟨h.queue.once, h.queue.shaped⟩
  shaped := h.shaped
  unlocked point hpoint := by
    obtain ⟨hfree, hok⟩ := h.unlocked point hpoint
    exact ⟨hfree, hok.congr rfl rfl (List.subset_append_left _ _)⟩
  letters := h.letters
  ids := h.ids
  evident turn hturn := by
    rcases List.mem_append.mp hturn with hold | hnew
    · exact h.evident turn hold
    · obtain rfl := List.mem_singleton.mp hnew
      exact hevident

variable {base : Chat.NativeRun.World} {event : Chat.NativeRun.Event} {id sessionID : String}
  {options : Options}

theorem good_free (hinv : Inv recipientKey base)
    (hfree : base.holder = .free) : Good recipientKey base := by
  refine ⟨hinv, ?_⟩
  unfold Chat.NativeRun.HolderOk
  rw [hfree]
  trivial

theorem Sound.store {phase : InputPhase} {after : Option Point}
    (h : Sound recipientKey openCodeMessageId session w) (hfree : w.base.holder = .free)
    (hmailbox : w.base.mailbox = some input) (hopen : input.phase ≠ .accepted)
    (hphase : phase ≠ .queued)
    (hturn : phase = .accepted → ⟨input.nativeId, some input.messageId⟩ ∈ w.base.turns)
    (hpoint : ∀ point, after = some point → PointOk (w.store { input with phase } after) point) :
    Sound recipientKey openCodeMessageId session (w.store { input with phase } after) where
  good := by
    refine good_free (h.good.inv.advance hmailbox hopen rfl hphase ?_) hfree
    intro haccepted
    refine ⟨_, hturn haccepted, ?_, rfl⟩
    simp [inputTurnId, (h.shaped input hmailbox).2]
  queue := ⟨h.queue.once, h.queue.shaped⟩
  shaped other hother := by
    obtain rfl := Option.some.inj hother
    exact h.shaped input hmailbox
  unlocked point hsome := ⟨hfree, hpoint point hsome⟩
  letters := h.letters
  ids := h.ids
  evident := h.evident

theorem store_accepted (hmailbox : w.base.mailbox = some input) (haccepted : input.phase = .accepted)
    (after : Option Point) : w.store { input with phase := .accepted } after = w.at after := by
  have hsame : ({ input with phase := .accepted } : RuntimeInput) = input := by rw [← haccepted]
  rw [World.store, World.at, hsame, ← hmailbox]

theorem Sound.write {landed : Bool} (h : Sound recipientKey openCodeMessageId session w)
    (hpoint : w.point = some point) (hwrite : write w landed point = some v) :
    Sound recipientKey openCodeMessageId session v := by
  obtain ⟨hfree, hok⟩ := h.unlocked point hpoint
  cases point with
  | confirming input =>
    obtain ⟨hmailbox, hphase, hturn⟩ := hok
    obtain rfl := Option.some.inj hwrite
    cases landed with
    | true =>
      by_cases haccepted : input.phase = .accepted
      · rw [if_pos rfl, store_accepted hmailbox haccepted]
        exact h.stop hfree
      · rw [if_pos rfl]
        refine h.store hfree hmailbox haccepted (by simp) (fun _ => hturn) ?_
        intro point hnone
        cases hnone
    | false =>
      rw [if_neg Bool.false_ne_true]
      split
      · next hdispatching =>
        refine h.tick hfree ?_ rfl rfl (List.Subset.refl _) (List.Subset.refl _)
        intro point hsome
        obtain rfl := Option.some.inj hsome
        exact ⟨hmailbox, hdispatching⟩
      · exact h.stop hfree
  | doubting input =>
    obtain ⟨hmailbox, hphase⟩ := hok
    obtain rfl := Option.some.inj hwrite
    cases landed with
    | true =>
      refine h.store hfree hmailbox (by simp [hphase]) (by simp) (by simp) ?_
      intro point hnone
      cases hnone
    | false => exact h.stop hfree
  | marking input request =>
    obtain ⟨hmailbox, hphase, hid⟩ := hok
    obtain rfl := Option.some.inj hwrite
    cases landed with
    | true =>
      refine h.store hfree hmailbox (by simp [hphase]) (by simp) (by simp) ?_
      intro point hsome
      obtain rfl := Option.some.inj hsome
      exact ⟨rfl, h.good.inv.unstarted input hmailbox hphase, hid⟩
    | false => exact h.stop hfree
  | accepting input =>
    obtain ⟨hmailbox, hturn⟩ := hok
    obtain rfl := Option.some.inj hwrite
    cases landed with
    | true =>
      have hstored : Sound recipientKey openCodeMessageId session
          (w.store { ({ input with phase := .dispatching } : RuntimeInput) with phase := .accepted }
            none) := by
        refine h.store hfree hmailbox (by simp) (by simp) (fun _ => hturn) ?_
        intro point hnone
        cases hnone
      exact hstored
    | false => exact h.stop hfree
  | agents _ _ | message _ _ | images _ _ _ | prompting _ _ | awaiting _ => cases hwrite

/-- The prompt is posted once: the slot was marked, and its letter had not been called. -/
theorem Sound.prompt (h : Sound recipientKey openCodeMessageId session w)
    (hpoint : w.point = some (.prompting input request)) :
    Sound recipientKey openCodeMessageId session
      { w with
        base := { w.base with calls := w.base.calls ++ [input.messageId] }
        prompts := w.prompts ++ [{ letter := input.messageId, request }]
        point := some (.awaiting input) } where
  good := by
    obtain ⟨hfree, hmailbox, hnew, -⟩ := h.unlocked _ hpoint
    have hcalled : Inv recipientKey
        { w.base with calls := w.base.calls ++ [input.messageId] } :=
      @Inv.call recipientKey w.base { input with phase := .dispatching } w.base.inflight h.good.inv
        hmailbox rfl hnew
    exact good_free hcalled hfree
  queue := ⟨h.queue.once, h.queue.shaped⟩
  shaped := h.shaped
  unlocked point hsome := by
    obtain ⟨hfree, hmailbox, -, -⟩ := h.unlocked _ hpoint
    obtain rfl := Option.some.inj hsome
    exact ⟨hfree, hmailbox⟩
  letters := by
    rw [List.map_append, ← h.letters]
    rfl
  ids other hother := by
    rcases List.mem_append.mp hother with hold | hnew
    · exact h.ids other hold
    · obtain rfl := List.mem_singleton.mp hnew
      obtain ⟨-, hmailbox, -, hid⟩ := h.unlocked _ hpoint
      obtain ⟨⟨at_, hat⟩, -⟩ := h.shaped _ hmailbox
      exact ⟨at_, hid.trans hat⟩
  evident := h.evident

theorem daemonEvent_some {next : Chat.NativeRun.Event}
    (h : daemonEvent openCodeMessageId event = some next) :
    ofOwner next = false ∧
      ∀ env, next = .pass env → env.agent = .opencode ∧ env.openCodeMessageId = openCodeMessageId := by
  cases event with
  | pass env =>
    obtain rfl := Option.some.inj h
    refine ⟨rfl, fun other hother => ?_⟩
    obtain rfl := Chat.NativeRun.Event.pass.inj hother
    exact ⟨rfl, rfl⟩
  | tick _ | ownerStep | response _ | ownerStop | providerStart _ _ | foreignTurn _ => cases h
  | _ =>
    obtain rfl := Option.some.inj h
    exact ⟨rfl, fun env henv => by cases henv⟩

theorem queuedInput_shaped {env : PassEnv} (hagent : env.agent = .opencode)
    (hid : env.openCodeMessageId = openCodeMessageId) (msg : ChatMessage) (at_ : Int) :
    Shaped openCodeMessageId (queuedInput env msg at_) := by
  refine ⟨⟨at_, ?_⟩, rfl⟩
  simp only [queuedInput, hagent, hid, runtimeInputId]

/-- A step of the daemon, with the writes it may make. -/
theorem Sound.daemon (h : Sound recipientKey openCodeMessageId session w)
    (hstep : step dateParse recipientKey openCodeMessageId session w (.daemon event) = some v) :
    Sound recipientKey openCodeMessageId session v ∧
      Delivers (Shaped openCodeMessageId) w.base v.base ∧
      v = { w with base := v.base } ∧
      (w.point.isSome = true → v.base.mailbox = w.base.mailbox) := by
  simp only [step] at hstep
  split at hstep
  · cases hstep
  · next next hnext =>
    split at hstep
    · cases hstep
    · next hlock =>
      obtain ⟨base, hbase, rfl⟩ := Option.map_eq_some_iff.mp hstep
      obtain ⟨howner, hpass⟩ := daemonEvent_some hnext
      have hdelivers : Delivers (Shaped openCodeMessageId) w.base base := by
        refine h.queue.step h.good howner ?_ hbase
        intro env henv msg at_
        obtain ⟨hagent, hid⟩ := hpass env henv
        exact queuedInput_shaped hagent hid msg at_
      have hsame : ∀ point, w.point = some point →
          base.holder = .free ∧ base.mailbox = w.base.mailbox := by
        intro point hpoint
        have hfree := (h.unlocked point hpoint).1
        refine ⟨Chat.NativeRun.step_free hfree howner ?_ hbase, ?_⟩
        · rintro env rfl
          exact hlock ⟨rfl, by rw [hpoint]; rfl⟩
        · rcases hdelivers.mailbox with ⟨hmailbox, -⟩ | ⟨input, hinput, -⟩
          · exact hmailbox
          · rw [hfree] at hinput
            cases hinput
      refine ⟨?_, hdelivers, rfl, ?_⟩
      · refine ⟨Good.step w.base next base h.good hbase, hdelivers.queue, ?_, ?_, ?_, h.ids, ?_⟩
        · intro input hinput
          rcases hdelivers.mailbox with ⟨hmailbox, -⟩ | ⟨other, hother, hmailbox, -⟩
          · exact h.shaped input (hmailbox.symm.trans hinput)
          · obtain rfl := Option.some.inj (hmailbox.symm.trans hinput)
            exact (h.queue.shaped _ hother).2
        · intro point hpoint
          obtain ⟨hfree, hmailbox⟩ := hsame point hpoint
          refine ⟨hfree, (h.unlocked point hpoint).2.congr hmailbox hdelivers.calls ?_⟩
          rw [hdelivers.turns]
          exact List.Subset.refl _
        · exact hdelivers.calls.trans h.letters
        · intro turn hturn
          rw [hdelivers.turns] at hturn
          exact h.evident turn hturn
      · intro hsome
        obtain ⟨point, hpoint⟩ := Option.isSome_iff_exists.mp hsome
        exact (hsame point hpoint).2

theorem reconcile_cases {sessionID : String} {agent : Option String} {answer : Option MessageInfo} :
    (reconcile session sessionID input agent answer = some (.confirming input) ∧
        ∃ info, answer = some info ∧ correlates sessionID input info = true) ∨
      (reconcile session sessionID input agent answer = some (.doubting input) ∧
        input.phase = .dispatching) ∨
      reconcile session sessionID input agent answer = none := by
  unfold reconcile
  dsimp only
  split
  · next hproven =>
    obtain ⟨info, hinfo, hmatch⟩ := (Option.any_eq_true _ _).mp hproven
    exact .inl ⟨rfl, info, hinfo, (Bool.and_eq_true_iff.mp hmatch).1⟩
  · split
    · next hdispatching => exact .inr (.inl ⟨rfl, hdispatching⟩)
    · exact .inr (.inr rfl)

/-- The answer of a lookup: evidence where it is the record of the input. -/
theorem Sound.message {agent : Option String} {sessionID : String} {answer : Option MessageInfo}
    (h : Sound recipientKey openCodeMessageId session w)
    (hpoint : w.point = some (.message input agent)) (hsession : session.sessionID = some sessionID) :
    let shown : World := { w with shown := w.shown ++ answer.toList }
    let point := reconcile session sessionID input agent answer
    Sound recipientKey openCodeMessageId session
      ((if point = some (.confirming input) then shown.proven input else shown).at point) := by
  intro shown point
  obtain ⟨hfree, hmailbox, hphase⟩ := h.unlocked _ hpoint
  have hshown : Sound recipientKey openCodeMessageId session shown := by
    refine h.tick hfree ?_ rfl rfl (List.Subset.refl _) (List.subset_append_left _ _)
    intro other hother
    obtain rfl := Option.some.inj (hpoint.symm.trans hother)
    exact ⟨hmailbox, hphase⟩
  rcases @reconcile_cases session input sessionID agent answer with
    ⟨hconfirming, info, rfl, hmatch⟩ | ⟨hdoubting, hdispatching⟩ | hnone
  · simp only [point, hconfirming, if_true]
    simp only [correlates, Bool.and_eq_true, beq_iff_eq] at hmatch
    obtain ⟨⟨hid, hin⟩, hrole⟩ := hmatch
    have hevident : Evident session shown input.nativeId := by
      refine .inr ⟨info, List.mem_append_right _ (by simp), hid, ?_, hrole⟩
      rw [hin]
      exact hsession
    refine (hshown.proven hevident).tick hfree ?_ rfl rfl (List.Subset.refl _) (List.Subset.refl _)
    intro other hother
    obtain rfl := Option.some.inj hother
    exact ⟨hmailbox, hphase, List.mem_append_right _ (List.mem_singleton_self _)⟩
  · simp only [point, hdoubting]
    rw [if_neg (by simp)]
    refine hshown.tick hfree ?_ rfl rfl (List.Subset.refl _) (List.Subset.refl _)
    intro other hother
    obtain rfl := Option.some.inj hother
    exact ⟨hmailbox, hdispatching⟩
  · simp only [point, hnone]
    rw [if_neg (by simp)]
    exact hshown.stop hfree

theorem Sound.answer {ok : Bool} (h : Sound recipientKey openCodeMessageId session w)
    (hpoint : w.point = some (.awaiting input)) :
    Sound recipientKey openCodeMessageId session
      (if ok then
        ({ w with answered := w.answered ++ [input.nativeId] }.proven input).at
          (some (.accepting input))
      else w.at none) := by
  obtain ⟨hfree, hmailbox⟩ := h.unlocked _ hpoint
  cases ok with
  | false => exact h.stop hfree
  | true =>
    rw [if_pos rfl]
    have hanswered : Sound recipientKey openCodeMessageId session
        { w with answered := w.answered ++ [input.nativeId] } := by
      refine h.tick hfree ?_ rfl rfl (List.subset_append_left _ _) (List.Subset.refl _)
      intro other hother
      exact (h.unlocked other hother).2
    have hevident : Evident session { w with answered := w.answered ++ [input.nativeId] }
        input.nativeId := .inl (List.mem_append_right _ (List.mem_singleton_self _))
    refine (hanswered.proven hevident).tick hfree ?_ rfl rfl (List.Subset.refl _)
      (List.Subset.refl _)
    intro other hother
    obtain rfl := Option.some.inj hother
    exact ⟨hmailbox, List.mem_append_right _ (List.mem_singleton_self _)⟩

/-- One await of a tick: where the tick stood, and what the await leaves. -/
inductive Awaits (session : Session) (w : World) : Event → World → Prop where
  | tick (env : TickEnv) (hfree : w.base.holder = .free) :
      Awaits session w (.tick env) (w.at (applyLocked session env w.base.mailbox))
  | agents (answer : Option String) {env : TickEnv} {input : RuntimeInput}
      (hpoint : w.point = some (.agents env input)) :
      Awaits session w (.agents answer)
        (w.at (answer.bind fun agent => proceed env input (some agent)))
  | message (answer : Option MessageInfo) {input : RuntimeInput} {agent : Option String}
      {sessionID : String} (hpoint : w.point = some (.message input agent))
      (hsession : session.sessionID = some sessionID) :
      Awaits session w (.message answer)
        ((if reconcile session sessionID input agent answer = some (.confirming input) then
            World.proven { w with shown := w.shown ++ answer.toList } input
          else { w with shown := w.shown ++ answer.toList }).at
          (reconcile session sessionID input agent answer))
  | images (answer : Option (List ResolvedImage)) {input : RuntimeInput} {agent : Option String}
      {options : Options} {sessionID : String}
      (hpoint : w.point = some (.images input agent options)) :
      Awaits session w (.images answer) (w.at (answer.map fun images =>
        .marking input (promptRequest sessionID input agent options images)))
  | write (landed : Bool) {point : Point} {v : World} (hpoint : w.point = some point)
      (hwrite : write w landed point = some v) : Awaits session w (.write landed) v
  | prompt {input : RuntimeInput} {request : PromptRequest}
      (hpoint : w.point = some (.prompting input request)) :
      Awaits session w .prompt { w with
        base := { w.base with calls := w.base.calls ++ [input.messageId] }
        prompts := w.prompts ++ [{ letter := input.messageId, request }]
        point := some (.awaiting input) }
  | answer (ok : Bool) {input : RuntimeInput} (hpoint : w.point = some (.awaiting input)) :
      Awaits session w (.answer ok) (if ok then
          (World.proven { w with answered := w.answered ++ [input.nativeId] } input).at
            (some (.accepting input))
        else w.at none)
  | stop {point : Point} (hpoint : w.point = some point) : Awaits session w .stop (w.at none)

theorem daemon_or_owner (e : Event) :
    (∃ event, e = .daemon event) ∨ ∀ event, e ≠ .daemon event := by
  cases e with
  | daemon event => exact .inl ⟨event, rfl⟩
  | tick _ | agents _ | message _ | images _ | write _ | prompt | answer _ | stop =>
    exact .inr fun _ => Event.noConfusion

theorem step_awaits (howner : ∀ event, e ≠ .daemon event)
    (hstep : step dateParse recipientKey openCodeMessageId session w e = some v) :
    Awaits session w e v := by
  cases e with
  | daemon event => exact absurd rfl (howner event)
  | tick env =>
    simp only [Input.step] at hstep
    split at hstep
    · next hfree hnone =>
      obtain rfl := Option.some.inj hstep
      exact .tick env hfree
    · cases hstep
  | agents answer =>
    simp only [Input.step] at hstep
    split at hstep
    · next env input hpoint =>
      obtain rfl := Option.some.inj hstep
      exact .agents answer hpoint
    · cases hstep
  | message answer =>
    simp only [Input.step] at hstep
    split at hstep
    · next input agent sessionID hpoint hsession =>
      obtain rfl := Option.some.inj hstep
      exact .message answer hpoint hsession
    · cases hstep
  | images answer =>
    simp only [Input.step] at hstep
    split at hstep
    · next input agent options sessionID hpoint hsession =>
      obtain rfl := Option.some.inj hstep
      exact .images answer hpoint
    · cases hstep
  | write landed =>
    obtain ⟨point, hpoint, hwrite⟩ := Option.bind_eq_some_iff.mp hstep
    exact .write landed hpoint hwrite
  | prompt =>
    simp only [Input.step] at hstep
    split at hstep
    · next input request hpoint =>
      obtain rfl := Option.some.inj hstep
      exact .prompt hpoint
    · cases hstep
  | answer ok =>
    simp only [Input.step] at hstep
    split at hstep
    · next input hpoint =>
      obtain rfl := Option.some.inj hstep
      exact .answer ok hpoint
    · cases hstep
  | stop =>
    obtain ⟨point, hpoint, rfl⟩ := Option.map_eq_some_iff.mp hstep
    exact .stop hpoint

theorem Sound.awaits (h : Sound recipientKey openCodeMessageId session w)
    (hawait : Awaits session w e v) : Sound recipientKey openCodeMessageId session v := by
  cases hawait with
  | tick env hfree =>
    exact h.tick hfree (fun point hpoint => applyLocked_ok hpoint) rfl rfl
      (List.Subset.refl _) (List.Subset.refl _)
  | agents answer hpoint =>
    obtain ⟨hfree, hmailbox⟩ := h.unlocked _ hpoint
    refine h.tick hfree ?_ rfl rfl (List.Subset.refl _) (List.Subset.refl _)
    intro point hsome
    obtain ⟨agent, -, hproceed⟩ := Option.bind_eq_some_iff.mp hsome
    exact proceed_ok hmailbox hproceed
  | message answer hpoint hsession => exact h.message hpoint hsession
  | images answer hpoint =>
    obtain ⟨hfree, hmailbox, hphase⟩ := h.unlocked _ hpoint
    refine h.tick hfree ?_ rfl rfl (List.Subset.refl _) (List.Subset.refl _)
    intro point hsome
    obtain ⟨images, -, rfl⟩ := Option.map_eq_some_iff.mp hsome
    exact ⟨hmailbox, hphase, rfl⟩
  | write landed hpoint hwrite => exact h.write hpoint hwrite
  | prompt hpoint => exact h.prompt hpoint
  | answer ok hpoint => exact h.answer hpoint
  | stop hpoint => exact h.stop (h.unlocked _ hpoint).1

theorem Sound.step (h : Sound recipientKey openCodeMessageId session w)
    (hstep : step dateParse recipientKey openCodeMessageId session w e = some v) :
    Sound recipientKey openCodeMessageId session v := by
  rcases daemon_or_owner e with ⟨event, rfl⟩ | howner
  · exact (h.daemon hstep).1
  · exact h.awaits (step_awaits howner hstep)

/-- What a tick does to the slot: nothing, or another phase for the letter in it. -/
def Advances (w v : World) : Prop :=
  v.base.queued = w.base.queued ∧
    (v.base.mailbox = w.base.mailbox ∨
      ∃ input phase, w.base.mailbox = some input ∧ v.base.mailbox = some { input with phase } ∧
        phase ≠ .queued ∧ (input.phase = .accepted → phase = .accepted))

theorem write_advances {landed : Bool} (hok : PointOk w point)
    (hwrite : write w landed point = some v) : Advances w v := by
  cases point with
  | confirming input =>
    obtain rfl := Option.some.inj hwrite
    cases landed with
    | true => exact ⟨rfl, .inr ⟨input, .accepted, hok.1, rfl, by simp, fun _ => rfl⟩⟩
    | false => exact ⟨rfl, .inl rfl⟩
  | doubting input =>
    obtain rfl := Option.some.inj hwrite
    cases landed with
    | true => exact ⟨rfl, .inr ⟨input, .uncertain, hok.1, rfl, by simp, by simp [hok.2]⟩⟩
    | false => exact ⟨rfl, .inl rfl⟩
  | marking input request =>
    obtain rfl := Option.some.inj hwrite
    cases landed with
    | true => exact ⟨rfl, .inr ⟨input, .dispatching, hok.1, rfl, by simp, by simp [hok.2.1]⟩⟩
    | false => exact ⟨rfl, .inl rfl⟩
  | accepting input =>
    obtain rfl := Option.some.inj hwrite
    cases landed with
    | true => exact ⟨rfl, .inr ⟨_, .accepted, hok.1, rfl, by simp, fun _ => rfl⟩⟩
    | false => exact ⟨rfl, .inl rfl⟩
  | agents _ _ | message _ _ | images _ _ _ | prompting _ _ | awaiting _ => cases hwrite

theorem tick_advances (h : Sound recipientKey openCodeMessageId session w)
    (howner : ∀ event, e ≠ .daemon event)
    (hstep : step dateParse recipientKey openCodeMessageId session w e = some v) :
    Advances w v := by
  cases step_awaits howner hstep with
  | write landed hpoint hwrite => exact write_advances (h.unlocked _ hpoint).2 hwrite
  | tick _ _ | agents _ _ | images _ _ | prompt _ | stop _ => exact ⟨rfl, .inl rfl⟩
  | message _ _ _ => split <;> exact ⟨rfl, .inl rfl⟩
  | answer _ _ => split <;> exact ⟨rfl, .inl rfl⟩

theorem step_slot (h : Sound recipientKey openCodeMessageId session w)
    (hstep : step dateParse recipientKey openCodeMessageId session w e = some v) :
    Advances w v ∨ ∃ input, v.base.mailbox = some input ∧ input.messageId ∉ w.base.queued ∧
      v.base.queued = w.base.queued ++ [input.messageId] := by
  rcases daemon_or_owner e with ⟨event, rfl⟩ | howner
  · obtain ⟨-, hdelivers, -, -⟩ := h.daemon hstep
    rcases hdelivers.mailbox with ⟨hmailbox, hqueued⟩ | ⟨input, hinput, hmailbox, hqueued⟩
    · exact .inl ⟨hqueued, .inl hmailbox⟩
    · refine .inr ⟨input, hmailbox, ?_, hqueued⟩
      intro hmem
      have hdisjoint := (List.nodup_append.mp h.queue.once).2.2 _ hmem _
        (List.mem_map_of_mem hinput)
      exact hdisjoint rfl
  · exact .inl (tick_advances h howner hstep)

/-- The letter was in the slot, and where it still is, its phase is one of `phases`. -/
structure Held (phases : InputPhase → Prop) (id : String) (w : World) : Prop where
  queued : id ∈ w.base.queued
  phase : ∀ input, w.base.mailbox = some input → input.messageId = id → phases input.phase

theorem Held.step {phases : InputPhase → Prop} {id : String}
    (hkept : ∀ before after, phases before → after ≠ .queued →
      (before = .accepted → after = .accepted) → phases after)
    (h : Sound recipientKey openCodeMessageId session w) (hheld : Held phases id w)
    (hstep : step dateParse recipientKey openCodeMessageId session w e = some v) :
    Held phases id v := by
  rcases step_slot h hstep with
    ⟨hqueued, hsame | ⟨input, phase, hmailbox, hnext, hphase, haccepted⟩⟩ |
    ⟨input, hmailbox, hnew, hqueued⟩
  · refine ⟨hqueued ▸ hheld.queued, ?_⟩
    intro input hinput hid
    exact hheld.phase input (hsame.symm.trans hinput) hid
  · refine ⟨hqueued ▸ hheld.queued, ?_⟩
    intro other hother hid
    obtain rfl := Option.some.inj (hnext.symm.trans hother)
    exact hkept input.phase phase (hheld.phase input hmailbox hid) hphase haccepted
  · refine ⟨by rw [hqueued]; exact List.mem_append_left _ hheld.queued, ?_⟩
    rintro other hother rfl
    obtain rfl := Option.some.inj (hmailbox.symm.trans hother)
    exact absurd hheld.queued hnew

theorem accepted_stays (h : Sound recipientKey openCodeMessageId session w)
    (hheld : Held (· = .accepted) id w)
    (hrun : run (step dateParse recipientKey openCodeMessageId session) w es = some v) :
    Held (· = .accepted) id v := by
  have hboth : Sound recipientKey openCodeMessageId session v ∧ Held (· = .accepted) id v := by
    refine run_invariant (P := fun v => Sound recipientKey openCodeMessageId session v ∧
      Held (· = .accepted) id v) ?_ hrun ⟨h, hheld⟩
    rintro u e u' ⟨hsound, hu⟩ hstep
    exact ⟨hsound.step hstep,
      hu.step (fun before after hbefore _ hafter => hafter hbefore) hsound hstep⟩
  exact hboth.2

theorem step_prompts (h : Sound recipientKey openCodeMessageId session w)
    (hstep : step dateParse recipientKey openCodeMessageId session w e = some v) :
    v.prompts = w.prompts ∨ ∃ input request, w.point = some (.prompting input request) ∧
      v.prompts = w.prompts ++ [{ letter := input.messageId, request }] := by
  rcases daemon_or_owner e with ⟨event, rfl⟩ | howner
  · obtain ⟨-, -, hsame, -⟩ := h.daemon hstep
    exact .inl (by rw [hsame])
  · cases step_awaits howner hstep with
    | prompt hpoint => exact .inr ⟨_, _, hpoint, rfl⟩
    | @write landed point _ _ hwrite =>
      cases point with
      | confirming _ | doubting _ | marking _ _ | accepting _ =>
        obtain rfl := Option.some.inj hwrite
        cases landed <;> exact .inl rfl
      | agents _ _ | message _ _ | images _ _ _ | prompting _ _ | awaiting _ => cases hwrite
    | tick _ _ | agents _ _ | images _ _ | stop _ => exact .inl rfl
    | message _ _ _ => split <;> exact .inl rfl
    | answer _ _ => split <;> exact .inl rfl

theorem proceed_not_prompting {held : RuntimeInput} :
    proceed env held agent ≠ some (.prompting input request) := by
  unfold proceed
  repeat' split
  all_goals simp

theorem applyLocked_not_prompting {mailbox : Option RuntimeInput} :
    applyLocked session env mailbox ≠ some (.prompting input request) := by
  unfold applyLocked
  repeat' split
  all_goals first | exact proceed_not_prompting | simp

/-- A tick comes to its prompt by the write that marks a queued slot. -/
theorem step_prompting (h : Sound recipientKey openCodeMessageId session w)
    (hstep : step dateParse recipientKey openCodeMessageId session w e = some v)
    (hpoint : v.point = some (.prompting input request)) :
    w.point = some (.prompting input request) ∨
      ∃ held, w.base.mailbox = some held ∧ held.messageId = input.messageId ∧
        held.phase = .queued := by
  rcases daemon_or_owner e with ⟨event, rfl⟩ | howner
  · obtain ⟨-, -, hsame, -⟩ := h.daemon hstep
    rw [hsame] at hpoint
    exact .inl hpoint
  · cases step_awaits howner hstep with
    | @write landed point _ hwas hwrite =>
      obtain ⟨-, hok⟩ := h.unlocked point hwas
      cases point with
      | marking held request' =>
        obtain rfl := Option.some.inj hwrite
        cases landed with
        | false => cases hpoint
        | true =>
          obtain ⟨rfl, -⟩ := Point.prompting.inj (Option.some.inj hpoint)
          exact .inr ⟨held, hok.1, rfl, hok.2.1⟩
      | confirming _ =>
        obtain rfl := Option.some.inj hwrite
        cases landed with
        | true => cases hpoint
        | false =>
          rw [if_neg Bool.false_ne_true] at hpoint
          simp only [World.at] at hpoint
          split at hpoint <;> cases hpoint
      | doubting _ | accepting _ =>
        obtain rfl := Option.some.inj hwrite
        cases landed <;> cases hpoint
      | agents _ _ | message _ _ | images _ _ _ | prompting _ _ | awaiting _ => cases hwrite
    | tick env _ => exact absurd hpoint applyLocked_not_prompting
    | agents answer _ =>
      obtain ⟨agent, -, hproceed⟩ := Option.bind_eq_some_iff.mp hpoint
      exact absurd hproceed proceed_not_prompting
    | @message answer held agent sessionID _ _ =>
      rcases @reconcile_cases session held sessionID agent answer with
        ⟨hsome, -⟩ | ⟨hsome, -⟩ | hnone
      · cases hsome.symm.trans hpoint
      · cases hsome.symm.trans hpoint
      · cases hnone.symm.trans hpoint
    | images answer _ =>
      obtain ⟨images, -, hmarking⟩ := Option.map_eq_some_iff.mp hpoint
      cases hmarking
    | answer ok _ => cases ok <;> cases hpoint
    | prompt _ | stop _ => cases hpoint

/-- A letter past its marking that was not posted, with no tick about to post it. -/
structure Lost (id : String) (w : World) : Prop where
  held : Held (· ≠ .queued) id w
  unposted : ∀ prompt ∈ w.prompts, prompt.letter ≠ id
  idle : ∀ input request, w.point = some (.prompting input request) → input.messageId ≠ id

theorem Lost.step {id : String} (h : Sound recipientKey openCodeMessageId session w)
    (hlost : Lost id w)
    (hstep : step dateParse recipientKey openCodeMessageId session w e = some v) : Lost id v where
  held := hlost.held.step (fun _ _ _ hafter _ => hafter) h hstep
  unposted prompt hprompt := by
    rcases step_prompts h hstep with hsame | ⟨input, request, hpoint, hmore⟩
    · exact hlost.unposted prompt (hsame ▸ hprompt)
    · rw [hmore] at hprompt
      rcases List.mem_append.mp hprompt with hold | hnew
      · exact hlost.unposted prompt hold
      · obtain rfl := List.mem_singleton.mp hnew
        exact hlost.idle input request hpoint
  idle input request hpoint := by
    rcases step_prompting h hstep hpoint with hwas | ⟨held, hmailbox, hid, hqueued⟩
    · exact hlost.idle input request hwas
    · intro hsame
      exact hlost.held.phase held hmailbox (hid.trans hsame) hqueued

theorem lost_stays (h : Sound recipientKey openCodeMessageId session w)
    (hlost : Lost id w)
    (hrun : run (step dateParse recipientKey openCodeMessageId session) w es = some v) :
    Lost id v := by
  have hboth : Sound recipientKey openCodeMessageId session v ∧ Lost id v := by
    refine run_invariant (P := fun v => Sound recipientKey openCodeMessageId session v ∧ Lost id v)
      ?_ hrun ⟨h, hlost⟩
    rintro u e u' ⟨hsound, hu⟩ hstep
    exact ⟨hsound.step hstep, hu.step hsound hstep⟩
  exact hboth.2

theorem Sound.initial (h : Start recipientKey base)
    (hturns : base.turns = []) :
    Sound recipientKey openCodeMessageId session { base } where
  good := Good.initial h
  queue := by
    refine ⟨?_, ?_⟩
    · simp [h.noneQueued, h.unlocked, Chat.NativeRun.Holder.pending]
    · simp [h.unlocked, Chat.NativeRun.Holder.pending]
  shaped input hinput := by
    rw [h.noInput] at hinput
    cases hinput
  unlocked point hpoint := by cases hpoint
  letters := h.noCalls
  ids prompt hprompt := by cases hprompt
  evident turn hturn := by
    rw [hturns] at hturn
    cases hturn

theorem run_sound (h : Sound recipientKey openCodeMessageId session w)
    (hrun : run (step dateParse recipientKey openCodeMessageId session) w es = some v) :
    Sound recipientKey openCodeMessageId session v :=
  run_invariant (fun _ _ _ hsound hstep => Sound.step hsound hstep) hrun h

/-- Native ids keep their letters apart: the durable id of the ledger is their suffix. -/
def Distinct (openCodeMessageId : String → Int → String) : Prop :=
  ∀ one other at_ at', openCodeMessageId one at_ = openCodeMessageId other at' → one = other

theorem Sound.letter_eq (h : Sound recipientKey openCodeMessageId session w)
    (hids : Distinct openCodeMessageId) {prompt : Prompt} (hprompt : prompt ∈ w.prompts)
    (hmailbox : w.base.mailbox = some input) (hsame : prompt.request.messageID = input.nativeId) :
    prompt.letter = input.messageId := by
  obtain ⟨at_, hat⟩ := h.ids prompt hprompt
  obtain ⟨⟨at', hat'⟩, -⟩ := h.shaped input hmailbox
  exact hids _ _ at_ at' (hat.symm.trans (hsame.trans hat'))

theorem Sound.once (h : Sound recipientKey openCodeMessageId session w)
    (hids : Distinct openCodeMessageId) :
    (w.prompts.map fun prompt => prompt.request.messageID).Nodup := by
  have hletters : w.prompts.Pairwise fun one other => one.letter ≠ other.letter := by
    have honce := h.good.inv.once
    rw [h.letters] at honce
    exact List.pairwise_map.mp honce
  refine List.pairwise_map.mpr (hletters.imp_of_mem ?_)
  intro one other hone hother hne hsame
  obtain ⟨at_, hat⟩ := h.ids one hone
  obtain ⟨at', hat'⟩ := h.ids other hother
  exact hne (hids _ _ at_ at' (hat.symm.trans (hsame.trans hat')))

/-- The events of a tick that submits: past the policy where there is one, with the images. -/
def submission (session : Session) (env : TickEnv) (agent : Option String)
    (images : List ResolvedImage) : List Event :=
  [.tick env] ++ (if session.policied then [.agents agent] else []) ++
    [.images (some images), .write true, .prompt]

def posted (sessionID : String) (input : RuntimeInput) (agent : Option String) (options : Options)
    (images : List ResolvedImage) : Prompt :=
  { letter := input.messageId
    request := promptRequest sessionID input agent options images }

/-- What a tick asks for before it submits the input. -/
structure Clears (session : Session) (env : TickEnv) (input : RuntimeInput)
    (agent : Option String) (sessionID : String) (options : Options) : Prop where
  bound : session.sessionID = some sessionID
  verified : session.policied = true → env.verified = true
  selected : agent.isSome = session.policied
  context : env.contextPending = false
  idle : ready env.snapshot = true
  chosen : optionsOf env input = some options
  compatible : agent.isSome = true → options.agent.isSome = true → options.agent = agent

theorem Clears.proceed (h : Clears session env input agent sessionID options)
    (hqueued : input.phase = .queued) :
    proceed env input agent = some (.images input agent options) := by
  have hagree : ¬(agent.isSome = true ∧ options.agent.isSome = true ∧ options.agent ≠ agent) := by
    rintro ⟨hagent, hoption, hne⟩
    exact hne (h.compatible hagent hoption)
  simp only [Input.proceed, hqueued, ne_eq, not_true_eq_false, if_false, h.context, h.idle,
    h.chosen, Bool.false_eq_true, Bool.not_true]
  exact if_neg hagree

/-- A tick that clears its checks posts the queued input. -/
theorem submission_posts (images : List ResolvedImage)
    (h : Clears session env input agent sessionID options)
    (hmailbox : w.base.mailbox = some input) (hqueued : input.phase = .queued)
    (hpoint : w.point = none) (hfree : w.base.holder = .free) :
    ∃ v, run (step dateParse recipientKey openCodeMessageId session) w
        (submission session env agent images) = some v ∧
      v.prompts = w.prompts ++ [posted sessionID input agent options images] := by
  have hproceed := h.proceed hqueued
  have hsession := h.bound
  cases hpolicy : session.policied with
  | false =>
    have hagent : agent = none := by
      have := h.selected
      rw [hpolicy] at this
      simpa using this
    subst hagent
    simp [submission, run, step, hpolicy, hmailbox, hfree, hpoint, applyLocked, hsession, hqueued,
      hproceed, write, posted, World.at, World.store]
  | true =>
    obtain ⟨name, rfl⟩ : ∃ name, agent = some name := by
      have := h.selected
      rw [hpolicy] at this
      exact Option.isSome_iff_exists.mp this
    have hverified := h.verified hpolicy
    simp [submission, run, step, hpolicy, hmailbox, hfree, hpoint, applyLocked, hsession, hqueued,
      hproceed, hverified, write, posted, World.at, World.store]

/-- An await of a tick that ends in an error, or in a crash. -/
def fails : Event → Bool
  | .agents none | .images none | .write false | .stop => true
  | _ => false

/-- A failure before the slot is marked leaves the queued input for a later tick. -/
theorem failure_keeps (h : Sound recipientKey openCodeMessageId session w)
    (hmailbox : w.base.mailbox = some input) (hqueued : input.phase = .queued)
    (hfails : fails e = true)
    (hstep : step dateParse recipientKey openCodeMessageId session w e = some v) :
    v.base = w.base ∧ v.point = none := by
  have howner : ∀ event, e ≠ .daemon event := by
    rintro event rfl
    cases hfails
  cases step_awaits howner hstep with
  | agents answer _ =>
    cases answer with
    | some agent => cases hfails
    | none => exact ⟨rfl, rfl⟩
  | images answer _ =>
    cases answer with
    | some images => cases hfails
    | none => exact ⟨rfl, rfl⟩
  | @write landed point _ hpoint hwrite =>
    cases landed with
    | true => cases hfails
    | false =>
      obtain ⟨-, hok⟩ := h.unlocked point hpoint
      cases point with
      | confirming held =>
        obtain rfl := Option.some.inj (hok.1.symm.trans hmailbox)
        exact absurd hqueued hok.2.1
      | doubting _ | marking _ _ | accepting _ =>
        obtain rfl := Option.some.inj hwrite
        exact ⟨rfl, rfl⟩
      | agents _ _ | message _ _ | images _ _ _ | prompting _ _ | awaiting _ => cases hwrite
  | stop _ => exact ⟨rfl, rfl⟩
  | tick _ _ | message _ _ _ | prompt _ | answer _ _ => cases hfails

/-- The laws of the slot in a state of the run. -/
structure Laws (dateParse : String → Option Int) (recipientKey : String)
    (openCodeMessageId : String → Int → String) (session : Session) (w : World) : Prop where
  once : (w.prompts.map fun prompt => prompt.request.messageID).Nodup
  accepted : ∀ input, w.base.mailbox = some input → input.phase = .accepted →
    Evident session w input.nativeId
  stays : ∀ input, w.base.mailbox = some input → input.phase = .accepted →
    ∀ es v, run (step dateParse recipientKey openCodeMessageId session) w es = some v →
    ∀ next, v.base.mailbox = some next → next.nativeId = input.nativeId → next.phase = .accepted
  unposted : ∀ input, w.base.mailbox = some input → input.phase = .queued →
    ∀ prompt ∈ w.prompts, prompt.request.messageID ≠ input.nativeId
  failed : ∀ input, w.base.mailbox = some input → input.phase = .queued →
    ∀ e v, fails e = true →
    step dateParse recipientKey openCodeMessageId session w e = some v →
    v.base.mailbox = some input ∧ v.point = none
  retried : ∀ input, w.base.mailbox = some input → input.phase = .queued →
    w.point = none → w.base.holder = .free →
    ∀ env agent sessionID options images, Clears session env input agent sessionID options →
    ∃ v, run (step dateParse recipientKey openCodeMessageId session) w
        (submission session env agent images) = some v ∧
      v.prompts = w.prompts ++ [posted sessionID input agent options images]

/-- Over every run of passes and ticks with errors and crashes. -/
theorem opencode_input_laws {base : Chat.NativeRun.World} {es : List Event}
    (hids : Distinct openCodeMessageId) (hstart : Start recipientKey base)
    (hturns : base.turns = [])
    (hrun : run (step dateParse recipientKey openCodeMessageId session) { base } es = some w) :
    Laws dateParse recipientKey openCodeMessageId session w := by
  have hw : Sound recipientKey openCodeMessageId session w :=
    run_sound (Sound.initial hstart hturns) hrun
  refine ⟨hw.once hids, ?_, ?_, ?_, ?_, ?_⟩
  · intro input hmailbox haccepted
    obtain ⟨turn, hturn, hid, -⟩ := hw.good.inv.accepted input hmailbox haccepted
    have hevident := hw.evident turn hturn
    rw [hid] at hevident
    simpa [inputTurnId, (hw.shaped input hmailbox).2] using hevident
  · intro input hmailbox haccepted es' v hlater next hnext hsame
    have hheld : Held (· = .accepted) input.messageId w := by
      refine ⟨hw.good.inv.known input hmailbox, ?_⟩
      intro other hother _
      obtain rfl := Option.some.inj (hmailbox.symm.trans hother)
      exact haccepted
    have hv := run_sound hw hlater
    obtain ⟨⟨at_, hat⟩, -⟩ := hw.shaped input hmailbox
    obtain ⟨⟨at', hat'⟩, -⟩ := hv.shaped next hnext
    have hletter : next.messageId = input.messageId :=
      hids _ _ at' at_ (hat'.symm.trans (hsame.trans hat))
    exact (accepted_stays hw hheld hlater).phase next hnext hletter
  · intro input hmailbox hqueued prompt hprompt hsame
    have hletter := hw.letter_eq hids hprompt hmailbox hsame
    have huncalled := hw.good.inv.unstarted input hmailbox hqueued
    rw [hw.letters, ← hletter] at huncalled
    exact huncalled (List.mem_map_of_mem hprompt)
  · intro input hmailbox hqueued e v hfails hstep
    obtain ⟨hbase, hpoint⟩ := failure_keeps hw hmailbox hqueued hfails hstep
    exact ⟨by rw [hbase]; exact hmailbox, hpoint⟩
  · intro input hmailbox hqueued hpoint hfree env agent sessionID options images hclears
    exact submission_posts images hclears hmailbox hqueued hpoint hfree

end

def examplePeer : ManagedPeer := ⟨"host", .opencode, "coder", "t1"⟩

def exampleLetter : ChatMessage :=
  { id := "m1", ts := "2026-01-01T00:00:00Z", sender := .cli "host", target := .managed examplePeer,
    body := "go", defer := false,
    turnOptions := some ⟨0, .opencode ⟨"provider-a", "model-a"⟩ none none⟩ }

def exampleBase : Chat.NativeRun.World :=
  { ledger := [some exampleLetter], acks := [], file := ChatCursors.empty, mailbox := none
    journal := [], memory := none, holder := .free, inflight := [], turns := [], calls := []
    queued := [] }

def examplePass : PassEnv :=
  { sessionName := "coder", agent := .opencode, snapshot := some ⟨.idle, none, true⟩
    sameIdentity := true, contextPending := false, rateHeld := false, heldMessage := none
    cli := "ccmux", reply := fun _ => none, openCodeMessageId := fun id _ => "msg_" ++ id, now := 0 }

def exampleTick : TickEnv :=
  { snapshot := ⟨.idle, none, true⟩, applied := false, verified := true, contextPending := false
    selection := none }

def exampleSession : Session := { sessionID := some "ses_native", policied := false }

abbrev exampleStep : World → Event → Option World :=
  step (fun _ => none) (managedPeerKey examplePeer) (fun id _ => "msg_" ++ id) exampleSession

/-- The daemon's pass that puts the letter into the slot. -/
def exampleDelivery : List Event :=
  [.daemon .load, .daemon (.pass examplePass)] ++ List.replicate 6 (.daemon .daemonStep)

/-- A tick whose images cannot be resolved, and one that submits. -/
def exampleRetry : List Event :=
  exampleDelivery ++ [.tick exampleTick, .images none] ++
    submission exampleSession exampleTick none [] ++ [.answer true, .write true]

/-- A crash between the marked slot and the prompt. -/
def exampleCrash : List Event :=
  exampleDelivery ++ [.tick exampleTick, .images (some []), .write true, .stop]

theorem exampleBase_start : Start (managedPeerKey examplePeer) exampleBase := by
  refine ⟨?_, rfl, rfl, rfl, rfl, rfl, rfl, rfl⟩
  intro i j a b hi hj _
  have hi' := Chat.Message.Ledger.letter_lt hi
  have hj' := Chat.Message.Ledger.letter_lt hj
  simp only [exampleBase, List.length_singleton] at hi' hj'
  omega

theorem exampleIds_distinct : Distinct fun id _ => "msg_" ++ id := by
  intro one other _ _ hsame
  exact (String.append_right_inj "msg_").mp hsame

/-- A marked letter whose prompt was never posted is posted by no later tick. -/
theorem crashed_input_is_not_retried :
    ∃ w, run exampleStep { base := exampleBase } exampleCrash = some w ∧ w.prompts = [] ∧
      (w.base.mailbox.map fun input => (input.messageId, input.phase)) =
        some ("m1", .dispatching) ∧
      ∀ es v, run exampleStep w es = some v → ∀ prompt ∈ v.prompts, prompt.letter ≠ "m1" := by
  have hrun : ((run exampleStep { base := exampleBase } exampleCrash).any fun w =>
      decide (w.prompts = [] ∧ w.point = none ∧ w.base.queued = ["m1"] ∧
        (w.base.mailbox.map fun input => (input.messageId, input.phase)) =
          some ("m1", .dispatching))) = true := by decide +kernel
  obtain ⟨w, hw, hfacts⟩ := (Option.any_eq_true _ _).mp hrun
  obtain ⟨hprompts, hpoint, hqueued, hslot⟩ := of_decide_eq_true hfacts
  have hsound : Sound (managedPeerKey examplePeer) (fun id _ => "msg_" ++ id) exampleSession w :=
    run_sound (Sound.initial exampleBase_start rfl) hw
  have hlost : Lost "m1" w := by
    refine ⟨⟨by rw [hqueued]; exact List.mem_singleton_self _, ?_⟩, ?_, ?_⟩
    · intro input hinput _
      rw [hinput] at hslot
      have hphase : input.phase = .dispatching := (Prod.mk.inj (Option.some.inj hslot)).2
      simp [hphase]
    · simp [hprompts]
    · simp [hpoint]
  exact ⟨w, hw, hprompts, hslot, fun es v hlater => (lost_stays hsound hlost hlater).unposted⟩

theorem opencode_input_laws_retry :
    ∃ w, run exampleStep { base := exampleBase } exampleRetry = some w ∧
      w.prompts.map Prompt.letter = ["m1"] ∧
      (w.base.mailbox.map RuntimeInput.phase) = some .accepted ∧
      Laws (fun _ => none) (managedPeerKey examplePeer) (fun id _ => "msg_" ++ id) exampleSession
        w := by
  have hrun : ((run exampleStep { base := exampleBase } exampleRetry).any fun w =>
      decide (w.prompts.map Prompt.letter = ["m1"] ∧
        w.base.mailbox.map RuntimeInput.phase = some .accepted)) = true := by decide +kernel
  obtain ⟨w, hw, hfacts⟩ := (Option.any_eq_true _ _).mp hrun
  obtain ⟨hprompts, hphase⟩ := of_decide_eq_true hfacts
  exact ⟨w, hw, hprompts, hphase,
    opencode_input_laws exampleIds_distinct exampleBase_start rfl hw⟩

end Ccmux.Agent.OpenCode.Input
