/- Module: Ccmux/Chat/NativeRepair
   source: src/chat/nativeRuntime.ts (the repair of an intent), src/runtime/input.ts
   digest: When a pickup whose mailbox was never written is repaired by a later pass. -/

import Ccmux.Chat.NativeHandOver

namespace Ccmux.Chat.NativeRun

open Ccmux.Lib.Machine
open Ccmux.Chat.Identity (managedPeerKey)
open Ccmux.Chat.Message
open Ccmux.Chat.Settlement
open Ccmux.Chat.NativeRuntime
open Ccmux.Chat.TurnProgress
open Ccmux.Chat.Format (utf16Length utf16Length_body_le)
open Ccmux.Runtime.Input

/-- The actions of a pass in order, up to the first that throws. -/
def finish (w : World) : List Action → World
  | [] => w
  | action :: rest =>
    match perform w action with
    | some v => finish v rest
    | none => w

/-- A later pass, with what reached the ledger and the ack log before it. -/
structure Later where
  sent : Ledger
  acks : AckLog
  env : PassEnv

section
variable (dateParse : String → Option Int) (recipientKey : String)

/-- A pass from its load to its last action. -/
def round (env : PassEnv) (w : World) : World :=
  let memory : Memory := ⟨w.ledger, loadAckedIds w.acks, w.file, true⟩
  finish { w with memory := some memory } (deliverLocked dateParse env recipientKey memory.ledger
    memory.cursors memory.acked w.mailbox).1

def later (w : World) (p : Later) : World :=
  round dateParse recipientKey p.env
    { w with ledger := w.ledger ++ p.sent, acks := w.acks ++ p.acks }

def rounds (w : World) (passes : List Later) : World :=
  passes.foldl (later dateParse recipientKey) w

/-- The runtime is live and idle, and still the registered one. -/
def Idle (env : PassEnv) : Prop :=
  env.sameIdentity = true ∧ ∃ snapshot, env.snapshot = some snapshot ∧ snapshot.state = .idle

/-- The letter reached the mailbox, or its pickup is gone. -/
def Resolved (pickup : Pickup) (w : World) : Prop :=
  heldId w = some pickup.messageId ∨ w.file.pickups recipientKey = none

/-- The last turn of the runtime is the one the mailbox's letter started, and it is over; a custom
runtime recorded the end in the mailbox itself. -/
def PreviousOver (env : PassEnv) (input : RuntimeInput) : Prop :=
  if env.agent = .custom then input.terminal ≠ none
  else ∃ snapshot turn, env.snapshot = some snapshot ∧ snapshot.turn = some turn ∧
    turn.id = inputTurnId input ∧ turn.status ≠ .inProgress

/-- No context operation is pending, the previous letter of the mailbox is over, and the mailbox's
schema accepts the letter as it is framed now. -/
def Repairable (env : PassEnv) (mailbox : Option RuntimeInput) (pickup : Pickup)
    (msg : ChatMessage) : Prop :=
  env.contextPending = false ∧ (∀ input, mailbox = some input → PreviousOver env input) ∧
    (queuedInput env msg pickup.injectedAt).valid = true

/-- An intent whose letter is not in the mailbox, beside no unresolved dispatch. -/
structure Stuck (pickup : Pickup) (msg : ChatMessage) (mailbox : Option RuntimeInput)
    (w : World) : Prop where
  armed : w.file.pickups recipientKey = some pickup
  intent : (pickup.native.any fun native => native.phase == .intent) = true
  slot : pickup.ledgerIndex.bind w.ledger.letter = some msg
  named : msg.id = pickup.messageId
  holds : w.mailbox = mailbox
  resolved : ∀ input, mailbox = some input → input.phase = .accepted ∧
    input.messageId ≠ pickup.messageId

variable {dateParse recipientKey}

variable {pickup : Pickup} {msg : ChatMessage} {mailbox : Option RuntimeInput} {w v : World}
  {env : PassEnv} {snapshot : NativeSnapshot}

theorem Stuck.not_resolved (h : Stuck recipientKey pickup msg mailbox w) :
    ¬ Resolved recipientKey pickup w := by
  rintro (hheld | hnone)
  · obtain ⟨input, hinput, hid⟩ := Option.map_eq_some_iff.mp hheld
    exact (h.resolved input (h.holds.symm.trans hinput)).2 hid
  · rw [h.armed] at hnone
    cases hnone

theorem Stuck.grow {pickup : Pickup} {msg : ChatMessage} {mailbox : Option RuntimeInput}
    {w : World} (sent : Ledger) (acks : AckLog)
    (h : Stuck recipientKey pickup msg mailbox w) :
    Stuck recipientKey pickup msg mailbox
      { w with ledger := w.ledger ++ sent, acks := w.acks ++ acks } := by
  refine { h with slot := ?_ }
  obtain ⟨idx, hidx, hletter⟩ := Option.bind_eq_some_iff.mp h.slot
  exact Option.bind_eq_some_iff.mpr ⟨idx, hidx, Ledger.letter_append sent hletter⟩

theorem previousComplete_iff (hlive : env.snapshot = some snapshot)
    (haccepted : ∀ input, mailbox = some input → input.phase = .accepted) :
    previousComplete env snapshot mailbox = true ↔
      ∀ input, mailbox = some input → PreviousOver env input := by
  cases mailbox with
  | none => simp [previousComplete]
  | some input =>
    have hphase := haccepted input rfl
    by_cases hcustom : env.agent = .custom
    · simp [previousComplete, PreviousOver, hphase, hcustom, Option.isSome_iff_ne_none]
    · cases hturn : snapshot.turn with
      | none => simp [previousComplete, PreviousOver, hphase, hcustom, turnOver, hlive, hturn]
      | some turn => simp [previousComplete, PreviousOver, hphase, hcustom, turnOver, hlive, hturn]

theorem Stuck.deliverLocked (h : Stuck recipientKey pickup msg mailbox w)
    (hidentity : env.sameIdentity = true)
    (hlive : env.snapshot = some snapshot) :
    (deliverLocked dateParse env recipientKey w.ledger w.file (loadAckedIds w.acks)
      w.mailbox).1 = (repair env snapshot w.ledger pickup mailbox).1 := by
  have hpending : pendingMessageId dateParse w.ledger recipientKey w.file (loadAckedIds w.acks)
      env.now = some pickup.messageId := by
    simp [pendingMessageId, h.armed]
  rw [h.holds]
  unfold NativeRuntime.deliverLocked
  simp only [hpending, hlive, hidentity, h.armed, Bool.not_true, Bool.false_eq_true, if_false]
  cases hmailbox : mailbox with
  | none => rfl
  | some input => simp [(h.resolved input hmailbox).2]

@[simp] theorem finish_hold (w : World) (messageId reason : String) :
    finish w [.hold messageId reason] = w := rfl

theorem finish_writeInput (w : World) (input : RuntimeInput) :
    finish w [.writeInput input] = if input.valid then
      { w with mailbox := some input, queued := w.queued ++ [input.messageId] } else w := by
  by_cases h : input.valid = true
  · simp [finish, perform, h]
  · simp [finish, perform, h]

/-- The repair of a stuck intent writes exactly when its two guards are open. -/
theorem Stuck.repair (h : Stuck recipientKey pickup msg mailbox w) (hstate : snapshot.state = .idle)
    :
    (previousComplete env snapshot mailbox = true ∧ env.contextPending = false ∧
      (repair env snapshot w.ledger pickup mailbox).1 =
        [.writeInput (queuedInput env msg pickup.injectedAt)]) ∨
    (¬ (previousComplete env snapshot mailbox = true ∧ env.contextPending = false) ∧
      ∃ reason, (repair env snapshot w.ledger pickup mailbox).1 =
        [.hold pickup.messageId reason]) := by
  cases hready : previousComplete env snapshot mailbox with
  | false =>
    refine Or.inr ⟨by simp, "native dispatch receipt is unavailable", ?_⟩
    simp only [NativeRuntime.repair, h.slot, hready, Bool.and_false, Bool.false_and]
    rfl
  | true =>
    have hguard : ((pickup.native.any fun native => native.phase == .intent) &&
        previousComplete env snapshot mailbox && snapshot.state == .idle &&
        msg.id == pickup.messageId) = true := by
      simp [h.intent, hready, hstate, h.named]
    cases hcontext : env.contextPending with
    | true =>
      refine Or.inr ⟨by simp, "native context operation is unresolved", ?_⟩
      simp only [NativeRuntime.repair, h.slot, hguard, hcontext]
      rfl
    | false =>
      refine Or.inl ⟨rfl, rfl, ?_⟩
      simp only [NativeRuntime.repair, h.slot, hguard, hcontext]
      rfl

/-- What one pass of an idle runtime does about a stuck intent. -/
theorem Stuck.round (h : Stuck recipientKey pickup msg mailbox w)
    (hidle : Idle env) :
    (Repairable env mailbox pickup msg ∧
      heldId (round dateParse recipientKey env w) = some pickup.messageId) ∨
    (¬ Repairable env mailbox pickup msg ∧
      Stuck recipientKey pickup msg mailbox (round dateParse recipientKey env w)) := by
  obtain ⟨hidentity, snapshot, hlive, hstate⟩ := hidle
  have hcomplete := previousComplete_iff hlive fun input hinput => (h.resolved input hinput).1
  have hround : NativeRun.round dateParse recipientKey env w =
      finish { w with memory := some ⟨w.ledger, loadAckedIds w.acks, w.file, true⟩ }
        (NativeRuntime.repair env snapshot w.ledger pickup mailbox).1 := by
    rw [← h.deliverLocked hidentity hlive]
    rfl
  have hkept : Stuck recipientKey pickup msg mailbox
      { w with memory := some ⟨w.ledger, loadAckedIds w.acks, w.file, true⟩ } := { h with }
  rw [hround]
  rcases h.repair hstate with ⟨hready, hcontext, hwrite⟩ | ⟨hclosed, reason, hhold⟩
  · rw [hwrite, finish_writeInput]
    by_cases hvalid : (queuedInput env msg pickup.injectedAt).valid = true
    · rw [if_pos hvalid]
      refine Or.inl ⟨⟨hcontext, hcomplete.mp hready, hvalid⟩, ?_⟩
      simp [heldId, h.named]
    · rw [if_neg hvalid]
      exact Or.inr ⟨fun hrep => hvalid hrep.2.2, hkept⟩
  · rw [hhold, finish_hold]
    exact Or.inr ⟨fun hrep => hclosed ⟨hcomplete.mpr hrep.2.1, hrep.1⟩, hkept⟩

theorem Stuck.later {p : Later} (h : Stuck recipientKey pickup msg mailbox w)
    (hidle : Idle p.env) :
    (Repairable p.env mailbox pickup msg ∧
      Resolved recipientKey pickup (later dateParse recipientKey w p)) ∨
    (¬ Repairable p.env mailbox pickup msg ∧
      Stuck recipientKey pickup msg mailbox (later dateParse recipientKey w p)) := by
  rcases (h.grow p.sent p.acks).round hidle with ⟨hrep, hheld⟩ | hstuck
  · exact Or.inl ⟨hrep, Or.inl hheld⟩
  · exact Or.inr hstuck

theorem Stuck.rounds {passes : List Later} {pickup : Pickup} {msg : ChatMessage}
    {mailbox : Option RuntimeInput} {w : World} (h : Stuck recipientKey pickup msg mailbox w)
    (hidle : ∀ p ∈ passes, Idle p.env)
    (hclosed : ∀ p ∈ passes, ¬ Repairable p.env mailbox pickup msg) :
    Stuck recipientKey pickup msg mailbox (NativeRun.rounds dateParse recipientKey w passes) := by
  induction passes generalizing w with
  | nil => exact h
  | cons p rest ih =>
    rcases h.later (hidle p List.mem_cons_self) with ⟨hrep, _⟩ | ⟨_, hstuck⟩
    · exact absurd hrep (hclosed p List.mem_cons_self)
    · exact ih hstuck (fun q hq => hidle q (List.mem_cons_of_mem p hq))
        (fun q hq => hclosed q (List.mem_cons_of_mem p hq))

theorem Stuck.resolves {passes : List Later} (h : Stuck recipientKey pickup msg mailbox w)
    (hidle : ∀ p ∈ passes, Idle p.env)
    (hopen : ∃ p ∈ passes, Repairable p.env mailbox pickup msg) :
    ∃ before, before <+: passes ∧
      Resolved recipientKey pickup (NativeRun.rounds dateParse recipientKey w before) := by
  induction passes generalizing w with
  | nil =>
    obtain ⟨p, hp, _⟩ := hopen
    cases hp
  | cons p rest ih =>
    rcases h.later (hidle p List.mem_cons_self) with ⟨_, hresolved⟩ | ⟨hnot, hstuck⟩
    · exact ⟨[p], ⟨rest, rfl⟩, hresolved⟩
    · have hrest : ∃ q ∈ rest, Repairable q.env mailbox pickup msg := by
        obtain ⟨q, hq, hrep⟩ := hopen
        rcases List.mem_cons.mp hq with rfl | htail
        · exact absurd hrep hnot
        · exact ⟨q, htail, hrep⟩
      obtain ⟨before, ⟨after, hbefore⟩, hresolved⟩ :=
        ih hstuck (fun q hq => hidle q (List.mem_cons_of_mem p hq)) hrest
      exact ⟨p :: before, ⟨after, by rw [List.cons_append, hbefore]⟩, hresolved⟩

theorem perform_holder (w : World) (action : Action) (holder : Holder) :
    perform { w with holder } action = (perform w action).map fun v => { v with holder } := by
  cases action with
  | remember cursors | saveCursors => cases h : w.memory <;> simp [perform, h]
  | journal messageId phase turnId now =>
    cases h : MessageOperation.advanceMessageOperation w.journal messageId phase turnId now <;>
      simp [perform, h]
  | writeInput input => by_cases h : input.valid = true <;> simp [perform, h]
  | appendAck _ | hold _ _ | clearHold | refuse _ => rfl

/-- The owner of any native runtime moves the mailbox's letter along in its own way; here it may
write whatever it likes. -/
inductive AnyEvent where
  | event (e : Event)
  | ownerWrites (mailbox : Option RuntimeInput)

variable (dateParse recipientKey) in
def anyStep (w : World) : AnyEvent → Option World
  | .event e => step dateParse recipientKey w e
  | .ownerWrites mailbox => some { w with mailbox }

/-- Every pickup, durable, in memory or about to be, names a letter of the ledger. -/
structure Grounded (recipientKey : String) (w : World) : Prop where
  placed : ∀ x, Sees recipientKey w x → x.Placed w.ledger
  loaded : ∀ memory, w.memory = some memory → memory.ledger <+: w.ledger
  planned : ∀ actions, w.holder = .daemon actions → ∀ cursors, .remember cursors ∈ actions →
    (view recipientKey cursors).Placed w.ledger

theorem Grounded.initial (h : Start recipientKey w) : Grounded recipientKey w := by
  refine ⟨?_, by simp [h.noMemory], by simp [h.unlocked]⟩
  rintro x (rfl | ⟨memory, hmemory, _⟩)
  · intro pickup hpickup
    have hnone : (view recipientKey w.file).pickup = none := h.noPickup
    rw [hnone] at hpickup
    cases hpickup
  · rw [h.noMemory] at hmemory
    cases hmemory

theorem Grounded.grow {w v : World} (hw : Grounded recipientKey w)
    (hledger : w.ledger <+: v.ledger)
    (hsees : ∀ x, Sees recipientKey v x → Sees recipientKey w x)
    (hmemory : ∀ memory, v.memory = some memory → memory.ledger <+: w.ledger)
    (hplans : ∀ actions, v.holder = .daemon actions → ∃ before, w.holder = .daemon before ∧
      ∀ action ∈ actions, action ∈ before) : Grounded recipientKey v := by
  refine ⟨?_, ?_, ?_⟩
  · intro x hx
    exact (hw.placed x (hsees x hx)).mono hledger
  · intro memory h
    exact (hmemory memory h).trans hledger
  · intro actions hactions cursors hcursors
    obtain ⟨before, hbefore, hmem⟩ := hplans actions hactions
    exact (hw.planned before hbefore cursors (hmem _ hcursors)).mono hledger

variable {ledger : Ledger} {cursors : ChatCursors} {action : Action}

theorem repair_forgets {input : Option RuntimeInput} :
    .remember cursors ∉ (NativeRuntime.repair env snapshot ledger pickup input).1 := by
  rcases repair_cases env snapshot ledger pickup input with ⟨reason, h⟩ | ⟨_, _, _, _, _, h⟩
  · simp [h]
  · simp [h]

/-- What a pass plans to remember is grounded in the ledger it read. -/
theorem planned_placed {grown : Ledger} {remembered : ChatCursors} {acked : Finset String}
    (hgrown : ledger <+: grown)
    (hplaced : (view recipientKey cursors).Placed grown)
    (h : .remember remembered ∈
      (NativeRuntime.deliverLocked dateParse env recipientKey ledger cursors acked mailbox).1) :
    (view recipientKey remembered).Placed grown := by
  rcases deliverLocked_cases dateParse env recipientKey ledger cursors acked mailbox with
    (hnil | ⟨_, _, hhold⟩ | ⟨_, hrefuse⟩) | ⟨_, _, _, _, hrepair⟩ |
    ⟨_, pickup, input, hpickup, _, _, _, hsettle⟩ | ⟨pick, _, hpick, hdispatch⟩
  · simp [hnil] at h
  · simp [hhold] at h
  · simp [hrefuse] at h
  · rw [hrepair] at h
    exact absurd h repair_forgets
  · rw [hsettle] at h
    rcases settleAccepted_remembers h with rfl | rfl
    · intro other hother
      obtain rfl : { pickup with native := some ⟨.accepted, some (inputTurnId input)⟩ } = other := by
        simpa [view, bindPickup] using hother
      exact hplaced pickup hpickup
    · intro other hother
      simp [view, dropPickup] at hother
  · rw [hdispatch] at h
    obtain rfl : remembered = armPickup cursors recipientKey pick env.now none
        (some ⟨.intent, none⟩) := by
      simpa [dispatch] using h
    intro other hother
    simp only [view, armPickup_pickups, assign_self, Option.some.injEq] at hother
    subst hother
    obtain ⟨more, rfl⟩ := hgrown
    refine ⟨pick.idx, pick.msg, rfl,
      Ledger.letter_append more (pickPendingDelivery_letter dateParse hpick).1, rfl, rfl, ?_⟩
    intro himm
    simp [view, armPickup_delivered_immediate himm]

theorem Grounded.perform (hw : Grounded recipientKey w)
    (hfree : w.holder = .free)
    (hplaced : ∀ cursors, action = .remember cursors →
      (view recipientKey cursors).Placed w.ledger)
    (h : perform w action = some v) : Grounded recipientKey v ∧ v.ledger = w.ledger := by
  cases action with
  | remember cursors =>
    obtain ⟨memory, hmemory, rfl⟩ := Option.map_eq_some_iff.mp h
    refine ⟨⟨?_, ?_, by simp [hfree]⟩, rfl⟩
    · rintro x (rfl | ⟨other, ⟨⟩, rfl⟩)
      · exact hw.placed _ Sees.file
      · exact hplaced cursors rfl
    · rintro other ⟨⟩
      exact hw.loaded memory hmemory
  | saveCursors =>
    obtain ⟨memory, hmemory, rfl⟩ := Option.map_eq_some_iff.mp h
    refine ⟨⟨?_, hw.loaded, by simp [hfree]⟩, rfl⟩
    rintro x (rfl | ⟨other, hother, rfl⟩)
    · exact hw.placed _ (Sees.memory hmemory)
    · exact hw.placed _ (Sees.memory hother)
  | journal _ _ _ _ =>
    obtain ⟨journal, _, rfl⟩ := Option.map_eq_some_iff.mp h
    exact ⟨{ hw with }, rfl⟩
  | writeInput input =>
    simp only [NativeRun.perform] at h
    split at h
    · obtain rfl := Option.some.inj h
      exact ⟨{ hw with }, rfl⟩
    · cases h
  | appendAck _ | hold _ _ | clearHold =>
    obtain rfl := Option.some.inj h
    exact ⟨{ hw with }, rfl⟩
  | refuse _ => cases h

theorem Grounded.free (hw : Grounded recipientKey w) {holder : Holder}
    (hidle : ∀ actions, holder ≠ .daemon actions) : Grounded recipientKey { w with holder } :=
  ⟨hw.placed, hw.loaded, fun actions h => absurd h (hidle actions)⟩

theorem Grounded.daemonStep {rest : List Action} (hw : Grounded recipientKey w)
    (hholder : w.holder = .daemon (action :: rest))
    (hperform : NativeRun.perform w action = some v) :
    Grounded recipientKey { v with holder := .daemon rest } := by
  have hplanned := hw.planned _ hholder
  have hfree : Grounded recipientKey { w with holder := .free } := hw.free (by simp)
  have hdone : NativeRun.perform { w with holder := .free } action =
      some { v with holder := .free } := by
    rw [perform_holder, hperform]
    rfl
  obtain ⟨hv, hledger⟩ := hfree.perform rfl (fun cursors h => hplanned cursors (by simp [h])) hdone
  refine ⟨hv.placed, hv.loaded, ?_⟩
  rintro actions ⟨⟩ cursors hcursors
  have hplaced := hplanned cursors (List.mem_cons_of_mem action hcursors)
  rwa [← hledger] at hplaced

theorem Grounded.pass {memory : Memory} (env : PassEnv)
    (hw : Grounded recipientKey w) (hloaded : w.memory = some memory) :
    Grounded recipientKey { w with
      memory := some { memory with visited := true }
      holder := .daemon (NativeRuntime.deliverLocked dateParse env recipientKey memory.ledger
        memory.cursors memory.acked w.mailbox).1 } := by
  refine ⟨?_, ?_, ?_⟩
  · rintro x (rfl | ⟨other, ⟨⟩, rfl⟩)
    · exact hw.placed _ Sees.file
    · exact hw.placed _ (Or.inr ⟨memory, hloaded, rfl⟩)
  · rintro other ⟨⟩
    exact hw.loaded memory hloaded
  · rintro actions ⟨⟩ cursors hcursors
    exact planned_placed (hw.loaded memory hloaded)
      (hw.placed _ (Or.inr ⟨memory, hloaded, rfl⟩)) hcursors

theorem ownerStep_grounded {phase : Owner} (hw : Grounded recipientKey w)
    (hstep : ownerStep w phase = some v) : Grounded recipientKey v := by
  cases phase with
  | awaiting _ => cases hstep
  | _ =>
    obtain rfl := Option.some.inj hstep
    exact ⟨hw.placed, hw.loaded, by simp⟩

theorem Grounded.step {w v : World} {e : Event} (hw : Grounded recipientKey w)
    (hstep : NativeRun.step dateParse recipientKey w e = some v) : Grounded recipientKey v := by
  cases e with
  | send msg =>
    simp only [NativeRun.step] at hstep
    split at hstep
    · obtain rfl := Option.some.inj hstep
      exact hw.grow (List.prefix_append _ _) (fun _ h => h) hw.loaded
        (fun actions h => ⟨actions, h, fun _ ha => ha⟩)
    · cases hstep
  | ack _ | mark _ _ | foreignTurn _ =>
    obtain rfl := Option.some.inj hstep
    exact ⟨hw.placed, hw.loaded, hw.planned⟩
  | load =>
    simp only [NativeRun.step] at hstep
    split at hstep
    · cases hstep
    · next hidle =>
      obtain rfl := Option.some.inj hstep
      refine ⟨?_, ?_, fun actions h => absurd h (hidle actions)⟩
      · rintro x (rfl | ⟨other, ⟨⟩, rfl⟩)
        · exact hw.placed _ Sees.file
        · exact hw.placed _ Sees.file
      · rintro other ⟨⟩
        exact List.prefix_refl _
  | elsewhere change =>
    simp only [NativeRun.step] at hstep
    split at hstep
    · cases hstep
    · cases hstep
    · next memory hloaded hidle =>
      split at hstep
      · next hsame =>
        obtain rfl := Option.some.inj hstep
        have hview : view recipientKey (change memory.cursors) =
            view recipientKey memory.cursors := by
          simp only [view, hsame.1, hsame.2]
        refine ⟨?_, ?_, fun actions h => absurd h (hidle actions)⟩
        · rintro x (rfl | ⟨other, ⟨⟩, rfl⟩)
          · exact hw.placed _ Sees.file
          · simp only [hview]
            exact hw.placed _ (Sees.memory hloaded)
        · rintro other ⟨⟩
          exact hw.loaded memory hloaded
      · cases hstep
  | flush =>
    simp only [NativeRun.step] at hstep
    split at hstep
    · cases hstep
    · next hidle =>
      obtain ⟨memory, hloaded, rfl⟩ := Option.map_eq_some_iff.mp hstep
      refine ⟨?_, hw.loaded, fun actions h => absurd h (hidle actions)⟩
      rintro x (rfl | ⟨other, hother, rfl⟩)
      · exact hw.placed _ (Sees.memory hloaded)
      · exact hw.placed _ (Sees.memory hother)
  | pass env =>
    simp only [NativeRun.step] at hstep
    split at hstep
    · next memory _ hloaded =>
      split at hstep
      · cases hstep
      · obtain rfl := Option.some.inj hstep
        exact hw.pass env hloaded
    · cases hstep
  | daemonStep =>
    simp only [NativeRun.step] at hstep
    split at hstep
    · obtain rfl := Option.some.inj hstep
      exact hw.free (by simp)
    · next action rest hholder =>
      split at hstep
      · next done hperform =>
        obtain rfl := Option.some.inj hstep
        exact hw.daemonStep hholder hperform
      · obtain rfl := Option.some.inj hstep
        exact hw.free (by simp)
    · cases hstep
  | daemonFail | ownerStop =>
    simp only [NativeRun.step] at hstep
    split at hstep
    · obtain rfl := Option.some.inj hstep
      exact hw.free (by simp)
    · cases hstep
  | daemonCrash =>
    have hgone : ∀ holder, (∀ actions, holder ≠ .daemon actions) →
        Grounded recipientKey { w with memory := none, holder } := by
      intro holder hidle
      refine ⟨?_, by simp, fun actions h => absurd h (hidle actions)⟩
      rintro x (rfl | ⟨other, hother, _⟩)
      · exact hw.placed _ Sees.file
      · cases hother
    simp only [NativeRun.step] at hstep
    split at hstep
    · obtain rfl := Option.some.inj hstep
      exact hgone _ (by simp)
    · next hidle =>
      obtain rfl := Option.some.inj hstep
      exact hgone w.holder hidle
  | tick env =>
    simp only [NativeRun.step] at hstep
    split at hstep
    · split at hstep
      · obtain rfl := Option.some.inj hstep
        exact hw.free (by simp)
      · obtain rfl := Option.some.inj hstep
        exact hw.free (by simp)
      · obtain rfl := Option.some.inj hstep
        exact hw
    · cases hstep
  | ownerStep =>
    simp only [NativeRun.step] at hstep
    split at hstep
    · exact ownerStep_grounded hw hstep
    · cases hstep
  | response turnId =>
    simp only [NativeRun.step] at hstep
    split at hstep
    · split at hstep
      · obtain rfl := Option.some.inj hstep
        exact hw.free (by simp)
      · cases hstep
    · cases hstep
  | providerStart request turnId =>
    simp only [NativeRun.step] at hstep
    split at hstep
    · split at hstep
      · cases hstep
      · obtain rfl := Option.some.inj hstep
        exact ⟨hw.placed, hw.loaded, hw.planned⟩
    · cases hstep

theorem Grounded.anyStep (w : World) (e : AnyEvent) (v : World) (hw : Grounded recipientKey w)
    (hstep : anyStep dateParse recipientKey w e = some v) : Grounded recipientKey v := by
  cases e with
  | event e => exact hw.step hstep
  | ownerWrites mailbox =>
    obtain rfl := Option.some.inj hstep
    exact ⟨hw.placed, hw.loaded, hw.planned⟩

/-- In every state that any native owner's runs reach, with an intent whose letter is not in the mailbox and no unresolved
dispatch, and over every later series of passes of an idle runtime: one of them queues the letter
or releases its pickup exactly when one of them meets the condition. -/
theorem intent_resolved_iff {w m : World} {events : List AnyEvent} {pickup : Pickup}
    {passes : List Later} (hstart : Start recipientKey w)
    (hrun : run (anyStep dateParse recipientKey) w events = some m)
    (harmed : m.file.pickups recipientKey = some pickup)
    (hintent : (pickup.native.any fun native => native.phase == .intent) = true)
    (hresolved : ∀ input, m.mailbox = some input → input.phase = .accepted ∧
      input.messageId ≠ pickup.messageId)
    (hidle : ∀ p ∈ passes, Idle p.env) :
    (∃ before, before <+: passes ∧
      Resolved recipientKey pickup (rounds dateParse recipientKey m before)) ↔
    ∃ idx msg, pickup.ledgerIndex = some idx ∧ m.ledger.letter idx = some msg ∧
      ∃ p ∈ passes, Repairable p.env m.mailbox pickup msg := by
  have hm : Grounded recipientKey m :=
    run_invariant Grounded.anyStep hrun (Grounded.initial hstart)
  obtain ⟨idx, msg, hidx, hletter, hid, _, _⟩ := hm.placed _ Sees.file pickup harmed
  have hstuck : Stuck recipientKey pickup msg m.mailbox m :=
    ⟨harmed, hintent, by simp [hidx, hletter], hid, rfl, hresolved⟩
  constructor
  · rintro ⟨before, ⟨after, rfl⟩, hbefore⟩
    refine ⟨idx, msg, hidx, hletter, ?_⟩
    by_contra hnone
    have hclosed : ∀ p ∈ before, ¬ Repairable p.env m.mailbox pickup msg :=
      fun p hp hrep => hnone ⟨p, List.mem_append_left _ hp, hrep⟩
    have hkept := @Stuck.rounds dateParse _ _ _ _ _ _ hstuck (fun p hp => hidle p (List.mem_append_left _ hp)) hclosed
    exact hkept.not_resolved hbefore
  · rintro ⟨idx', msg', hidx', hletter', hopen⟩
    obtain rfl : idx = idx' := Option.some.inj (hidx.symm.trans hidx')
    obtain rfl : msg = msg' := Option.some.inj (hletter.symm.trans hletter')
    exact hstuck.resolves hidle hopen

end

/-- A letter longer than the mailbox takes. -/
def longOrder : ChatMessage :=
  { order with body := String.ofList (List.replicate 40000 'a') }

/-- The pass saves the pickup of the letter and throws at the write of the mailbox. -/
def refusedEvents : List AnyEvent :=
  [.event .load, .event (.pass idlePass), .event .daemonStep, .event .daemonStep,
    .event .daemonStep, .event .daemonFail]

def refusedPickup : Pickup :=
  { messageId := "m1", injectedAt := 0, ledgerIndex := some 0, conditional := false
    native := some ⟨.intent, none⟩ }

theorem utf16Length_replicate (n : Nat) :
    utf16Length (String.ofList (List.replicate n 'a')) = n := by
  simp [utf16Length]

theorem longOrder_refused (env : PassEnv) (at_ : Int) :
    (queuedInput env longOrder at_).valid = false := by
  have hbody : utf16Length longOrder.body = 40000 := utf16Length_replicate 40000
  have hframed : 40000 ≤ utf16Length (queuedInput env longOrder at_).text := by
    rw [← hbody]
    exact utf16Length_body_le longOrder env.cli (env.reply longOrder.sender)
  have hlong : ¬ utf16Length (queuedInput env longOrder at_).text ≤ maxInputText := by
    simp only [maxInputText]
    omega
  simp [RuntimeInput.valid, hlong]

def armedCursors : ChatCursors :=
  armPickup ChatCursors.empty (managedPeerKey coder) ⟨longOrder, 0⟩ 0 none (some ⟨.intent, none⟩)

/-- After the throw: the pickup is durable and the mailbox was never written. -/
def refused : World :=
  { registered with
    ledger := [some longOrder]
    file := Cursors.saveCursors ChatCursors.empty armedCursors
    memory := some ⟨[some longOrder], loadAckedIds [], armedCursors, true⟩ }

theorem refused_run :
    run (anyStep (fun _ => none) (managedPeerKey coder))
      { registered with ledger := [some longOrder] } refusedEvents = some refused := rfl

theorem refused_stuck : Stuck (managedPeerKey coder) refusedPickup longOrder none refused :=
  ⟨rfl, rfl, rfl, rfl, rfl, by simp⟩

/-- The intent of a letter the mailbox refuses outlives every later pass of the idle runtime. -/
theorem refused_letter_stays_intent :
    run (anyStep (fun _ => none) (managedPeerKey coder))
        { registered with ledger := [some longOrder] } refusedEvents = some refused ∧
      refused.file.pickups (managedPeerKey coder) = some refusedPickup ∧ refused.mailbox = none ∧
      ∀ passes : List Later, (∀ p ∈ passes, Idle p.env) →
        ¬ Resolved (managedPeerKey coder) refusedPickup
          (rounds (fun _ => none) (managedPeerKey coder) refused passes) := by
  refine ⟨refused_run, rfl, rfl, ?_⟩
  intro passes hidle
  refine (refused_stuck.rounds hidle ?_).not_resolved
  intro p _ hrep
  have hvalid := hrep.2.2
  rw [longOrder_refused] at hvalid
  cases hvalid

theorem longOrder_start :
    Start (managedPeerKey coder) { registered with ledger := [some longOrder] } := by
  refine ⟨?_, rfl, rfl, rfl, rfl, rfl, rfl, rfl⟩
  intro i j a b hi hj _
  have hi' := Ledger.letter_lt hi
  have hj' := Ledger.letter_lt hj
  simp only [List.length_singleton] at hi' hj'
  omega

theorem intent_resolved_iff_refused :
    (∃ before, before <+: [Later.mk [] [] idlePass] ∧
      Resolved (managedPeerKey coder) refusedPickup
        (rounds (fun _ => none) (managedPeerKey coder) refused before)) ↔
    ∃ idx msg, refusedPickup.ledgerIndex = some idx ∧ refused.ledger.letter idx = some msg ∧
      ∃ p ∈ [Later.mk [] [] idlePass], Repairable p.env refused.mailbox refusedPickup msg := by
  refine intent_resolved_iff longOrder_start refused_run rfl rfl ?_ ?_
  · intro input hinput
    cases hinput
  · intro p hp
    obtain rfl := List.mem_singleton.mp hp
    exact ⟨rfl, _, rfl, rfl⟩

end Ccmux.Chat.NativeRun
