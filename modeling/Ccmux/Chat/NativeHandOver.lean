/- Module: Ccmux/Chat/NativeHandOver
   source: src/chat/nativeRuntime.ts, src/agent/codex/owned/input.ts
   digest: A letter is submitted to its native runtime at most once, over every run with crashes. -/

import Ccmux.Chat.NativeInvariant

namespace Ccmux.Chat.NativeRun

open Ccmux.Lib.Machine
open Ccmux.Chat.Identity (ManagedPeer managedPeerKey)
open Ccmux.Chat.Message
open Ccmux.Chat.Settlement
open Ccmux.Chat.NativeRuntime
open Ccmux.Chat.TurnProgress
open Ccmux.Runtime.Input
open Ccmux.Agent.Codex.OwnedInput

section
variable {dateParse : String → Option Int} {recipientKey : String}

/-- The pass has been given its memory, which for the recipient is still what the file says. -/
structure Entered (recipientKey : String) (w : World) (memory : Memory) : Prop where
  inv : Inv recipientKey w
  loaded : w.memory = some memory
  visited : memory.visited = true
  agree : view recipientKey memory.cursors = view recipientKey w.file

variable {w v : World} {memory : Memory} {pickup : Pickup} {input : RuntimeInput}
  {rest : List Action} {env : PassEnv} {snapshot : NativeSnapshot}

theorem Entered.views (h : Entered recipientKey w memory) (x : View)
    (hx : Sees recipientKey w x) : x = view recipientKey memory.cursors := by
  rcases hx with rfl | ⟨other, hother, rfl⟩
  · exact h.agree.symm
  · obtain rfl := Option.some.inj (h.loaded.symm.trans hother)
    rfl

theorem Entered.pickup_new (h : Entered recipientKey w memory)
    (hpickup : memory.cursors.pickups recipientKey = some pickup)
    (hother : ∀ input, w.mailbox = some input → input.messageId ≠ pickup.messageId) :
    pickup.messageId ∉ w.queued := by
  intro hqueued
  have hid : (view recipientKey memory.cursors).pickupId = some pickup.messageId := by
    simp [view, View.pickupId, hpickup]
  have hheld := h.inv.single _ (Sees.memory h.loaded) _ hid hqueued
  obtain ⟨input, hinput, hsame⟩ := Option.map_eq_some_iff.mp hheld
  exact hother input hinput hsame

variable {pick : Pick} {earlier : Ledger} {e : Event}

/-- A letter the pass picks was never queued. -/
theorem Entered.pick_new {now : Int} {acked : Finset String} (h : Entered recipientKey w memory)
    (hnone : memory.cursors.pickups recipientKey = none)
    (hledger : earlier <+: w.ledger)
    (hacked : ∀ id ∈ w.queued, ∀ idx msg, w.ledger.letter idx = some msg → msg.id = id →
      isConditional msg = true →
      id ∈ acked ∨ (view recipientKey memory.cursors).pickupId = some id)
    (hpick : (pickPendingDelivery dateParse earlier recipientKey
      (position memory.cursors.delivered recipientKey) acked now).1 = some pick) :
    w.ledger.letter pick.idx = some pick.msg ∧ pick.msg.id ∉ w.queued := by
  obtain ⟨more, hmore⟩ := hledger
  have hletter : w.ledger.letter pick.idx = some pick.msg := by
    rw [← hmore]
    exact Ledger.letter_append more (pickPendingDelivery_letter dateParse hpick).1
  refine ⟨hletter, ?_⟩
  intro hqueued
  obtain ⟨idx, msg, hat, hid, himm, _⟩ := h.inv.spent _ hqueued
  obtain rfl : idx = pick.idx := h.inv.unique _ _ _ _ hat hletter hid
  obtain rfl : msg = pick.msg := Option.some.inj (hat.symm.trans hletter)
  cases hkind : isConditional pick.msg with
  | false =>
    have hpast := himm hkind _ (Sees.memory h.loaded)
    have hfrom := pickPendingDelivery_immediate dateParse hpick hkind
    simp only [view] at hpast
    omega
  | true =>
    have hopen := (pickPendingDelivery_conditional dateParse hpick hkind).1
    rcases hacked _ hqueued pick.idx pick.msg hletter rfl hkind with hin | hid
    · exact hopen hin
    · simp [view, View.pickupId, hnone] at hid

theorem Inv.safe_write (hw : Inv recipientKey w) (hphase : input.phase = .queued)
    (hnew : input.messageId ∉ w.queued)
    (hviews : ∀ x, Sees recipientKey w x → x.pickupId = some input.messageId)
    (hrest : ∀ v, Inv recipientKey v → Safe recipientKey v rest) :
    Safe recipientKey w (.writeInput input :: rest) := by
  refine ⟨hw, hphase, ?_⟩
  intro v hv
  simp only [perform] at hv
  split at hv
  · obtain rfl := Option.some.inj hv
    exact hrest _ (hw.enqueue hphase hnew hviews)
  · cases hv

theorem Entered.safe_hold (h : Entered recipientKey w memory)
    (messageId reason : String) : Safe recipientKey w [.hold messageId reason] := by
  refine ⟨h.inv, trivial, ?_⟩
  rintro v ⟨⟩
  exact h.inv

theorem Entered.safe_refuse (h : Entered recipientKey w memory)
    (error : String) : Safe recipientKey w [.refuse error] := by
  refine ⟨h.inv, trivial, ?_⟩
  rintro v ⟨⟩

theorem Entered.safe_repair (h : Entered recipientKey w memory)
    (hpickup : memory.cursors.pickups recipientKey = some pickup)
    (hother : ∀ input, w.mailbox = some input → input.messageId ≠ pickup.messageId) :
    Safe recipientKey w (repair env snapshot earlier pickup w.mailbox).1 := by
  rcases repair_cases env snapshot earlier pickup w.mailbox with
    ⟨reason, hhold⟩ | ⟨msg, _, hid, _, _, hwrite⟩
  · rw [hhold]
    exact h.safe_hold _ _
  · rw [hwrite]
    refine h.inv.safe_write rfl ?_ ?_ (fun v hv => hv)
    · rw [queuedInput_messageId, hid]
      exact h.pickup_new hpickup hother
    · intro x hx
      rw [h.views x hx, queuedInput_messageId, hid]
      simp [view, View.pickupId, hpickup]

theorem Entered.safe_dispatch (h : Entered recipientKey w memory)
    (hnone : memory.cursors.pickups recipientKey = none)
    (hletter : w.ledger.letter pick.idx = some pick.msg) (hnew : pick.msg.id ∉ w.queued)
    (hcursor : isConditional pick.msg = false →
      position memory.cursors.delivered recipientKey ≤ pick.idx) :
    Safe recipientKey w (dispatch env recipientKey memory.cursors pick).1 := by
  refine ⟨h.inv, trivial, ?_⟩
  intro w₁ h₁
  obtain ⟨journal, rfl⟩ := perform_journal h₁
  have hinv₁ := h.inv.withJournal journal
  have hloaded₁ : ({ w with journal } : World).memory = some memory := h.loaded
  refine ⟨hinv₁, trivial, ?_⟩
  intro w₂ h₂
  obtain rfl := perform_remember hloaded₁ h₂
  have hinv₂ := @Inv.rememberArm recipientKey _ memory pick env.now hinv₁ hloaded₁ h.visited hnone
    hletter hnew hcursor
  refine ⟨hinv₂, trivial, ?_⟩
  intro w₃ h₃
  obtain rfl := perform_saveCursors rfl h₃
  have hinv₃ := hinv₂.save rfl
  refine hinv₃.safe_write rfl hnew ?_ ?_
  · rintro x (rfl | ⟨other, hother, rfl⟩)
    · simp [view, View.pickupId, Cursors.saveCursors]
    · obtain rfl := Option.some.inj hother
      simp [view, View.pickupId]
  · intro v hv
    refine ⟨hv, trivial, ?_⟩
    rintro x ⟨⟩
    exact hv

theorem Inv.safe_end (hw : Inv recipientKey w) (hloaded : w.memory = some memory)
    (hvisited : memory.visited = true)
    (hinput : w.mailbox = some input) (hphase : input.phase = .accepted)
    (hacked : ∀ idx msg, w.ledger.letter idx = some msg → msg.id = input.messageId →
      isConditional msg = true → input.messageId ∈ loadAckedIds w.acks) :
    Safe recipientKey w
      [.remember (dropPickup memory.cursors recipientKey), .clearHold, .saveCursors] := by
  refine ⟨hw, trivial, ?_⟩
  intro w₁ h₁
  obtain rfl := perform_remember hloaded h₁
  have hinv₁ := hw.rememberEnd hloaded hvisited hinput hphase hacked
  refine ⟨hinv₁, trivial, ?_⟩
  rintro w₂ ⟨⟩
  refine ⟨hinv₁, trivial, ?_⟩
  intro w₃ h₃
  obtain rfl := perform_saveCursors rfl h₃
  exact hinv₁.save rfl

theorem Inv.safe_ack {conditional : Bool} (hw : Inv recipientKey w)
    (hloaded : w.memory = some memory) (hvisited : memory.visited = true)
    (hinput : w.mailbox = some input) (hphase : input.phase = .accepted)
    (hkind : ∀ idx msg, w.ledger.letter idx = some msg → msg.id = input.messageId →
      conditional = isConditional msg) :
    Safe recipientKey w ((if conditional then [.appendAck input.messageId] else []) ++
      [.remember (dropPickup memory.cursors recipientKey), .clearHold, .saveCursors]) := by
  cases conditional with
  | false =>
    refine hw.safe_end hloaded hvisited hinput hphase ?_
    intro idx msg hletter hid hcond
    rw [← hkind idx msg hletter hid] at hcond
    cases hcond
  | true =>
    have hext : Extends recipientKey w
        { w with acks := w.acks ++ [⟨input.messageId, .daemon⟩] } :=
      { ledger := List.prefix_refl _, unique := hw.unique,
        acks := loadAckedIds_subset_append _ _, file := rfl, mailbox := rfl, journal := rfl,
        memory := rfl, turns := List.Subset.refl _, calls := rfl, queued := rfl }
    refine ⟨hw, trivial, ?_⟩
    rintro w₁ ⟨⟩
    refine (hw.extends hext).safe_end hloaded hvisited hinput hphase ?_
    intro idx msg _ _ _
    simp

theorem Inv.safe_receipt (hw : Inv recipientKey w)
    (hrest : ∀ journal, Safe recipientKey { w with journal } rest) :
    Safe recipientKey w (endReceipt env snapshot pickup input ++ rest) := by
  unfold endReceipt
  split
  · split
    · exact hrest w.journal
    · refine ⟨hw, trivial, ?_⟩
      intro v hv
      obtain ⟨journal, rfl⟩ := perform_journal hv
      exact hrest journal
  · exact hrest w.journal

theorem Entered.safe_settle (h : Entered recipientKey w memory)
    (hpickup : memory.cursors.pickups recipientKey = some pickup)
    (hinput : w.mailbox = some input) (hsame : input.messageId = pickup.messageId)
    (hphase : input.phase = .accepted) :
    Safe recipientKey w
      (settleAccepted env snapshot recipientKey memory.cursors pickup input).1 := by
  obtain ⟨idx, msg, _, hletter, hid, hcond, _⟩ :=
    h.inv.placed _ (Sees.memory h.loaded) pickup hpickup
  have hkind : ∀ other msg', w.ledger.letter other = some msg' → msg'.id = input.messageId →
      pickup.conditional = isConditional msg' := by
    intro other msg' hletter' hid'
    obtain rfl : idx = other :=
      h.inv.unique _ _ _ _ hletter hletter' (hid.trans (hsame.symm.trans hid'.symm))
    obtain rfl : msg = msg' := Option.some.inj (hletter.symm.trans hletter')
    exact hcond
  have hbound := @Inv.rememberBinding recipientKey w memory pickup (inputTurnId input) h.inv
    h.loaded h.visited hpickup
  have hstart : ∀ rest, (∀ journal, Safe recipientKey
        { w with
          journal
          memory := some { memory with
            cursors := bindPickup memory.cursors recipientKey pickup (inputTurnId input) } } rest) →
      Safe recipientKey w
        (.remember (bindPickup memory.cursors recipientKey pickup (inputTurnId input)) ::
          .journal pickup.messageId .admitted (some (inputTurnId input)) env.now :: rest) := by
    intro rest hrest
    refine ⟨h.inv, trivial, ?_⟩
    intro w₁ h₁
    obtain rfl := perform_remember h.loaded h₁
    refine ⟨hbound, trivial, ?_⟩
    intro w₂ h₂
    obtain ⟨journal, rfl⟩ := perform_journal h₂
    exact hrest journal
  cases hended : pickupEnded env snapshot input with
  | false =>
    rw [settleAccepted_open hended]
    refine hstart _ fun journal => ⟨hbound.withJournal journal, trivial, ?_⟩
    intro v hv
    obtain rfl := perform_saveCursors rfl hv
    exact (hbound.withJournal journal).save rfl
  | true =>
    rw [settleAccepted_ended hended]
    refine hstart _ fun journal => (hbound.withJournal journal).safe_receipt ?_
    intro journal'
    rw [← hsame]
    exact (hbound.withJournal journal').safe_ack rfl h.visited hinput hphase hkind

/-- Whatever a pass is about to do, the invariant holds at each of its crash points. -/
theorem Entered.safe (h : Entered recipientKey w memory) (hledger : memory.ledger <+: w.ledger)
    (hacked : ∀ id ∈ w.queued, ∀ idx msg, w.ledger.letter idx = some msg → msg.id = id →
      isConditional msg = true →
      id ∈ memory.acked ∨ (view recipientKey memory.cursors).pickupId = some id) :
    Safe recipientKey w (deliverLocked dateParse env recipientKey memory.ledger memory.cursors
      memory.acked w.mailbox).1 := by
  rcases deliverLocked_cases dateParse env recipientKey memory.ledger memory.cursors memory.acked
      w.mailbox with
    (hnil | ⟨messageId, reason, hhold⟩ | ⟨error, hrefuse⟩) |
    ⟨snapshot, pickup, hpickup, hother, hrepair⟩ |
    ⟨snapshot, pickup, input, hpickup, hinput, hsame, hphase, hsettle⟩ |
    ⟨pick, hnone, hpick, hdispatch⟩
  · rw [hnil]
    exact h.inv
  · rw [hhold]
    exact h.safe_hold _ _
  · rw [hrefuse]
    exact h.safe_refuse _
  · rw [hrepair]
    exact h.safe_repair hpickup hother
  · rw [hsettle]
    exact h.safe_settle hpickup hinput hsame hphase
  · rw [hdispatch]
    obtain ⟨hletter, hnew⟩ := h.pick_new hnone hledger hacked hpick
    exact h.safe_dispatch hnone hletter hnew
      fun himm => pickPendingDelivery_immediate dateParse hpick himm

theorem Extends.holder (w : World) (hw : Inv recipientKey w) (holder : Holder) :
    Extends recipientKey w { w with holder } :=
  { ledger := List.prefix_refl _, unique := hw.unique, acks := Finset.Subset.refl _, file := rfl,
    mailbox := rfl, journal := rfl, memory := rfl, turns := List.Subset.refl _, calls := rfl,
    queued := rfl }

theorem Good.grow {w v : World} (hw : Good recipientKey w) (h : Extends recipientKey w v)
    (hholder : v.holder = w.holder) : Good recipientKey v := by
  refine ⟨hw.inv.extends h, ?_⟩
  have hok := hw.holder
  unfold HolderOk at hok ⊢
  rw [hholder]
  cases hcase : w.holder with
  | free => trivial
  | daemon actions =>
    rw [hcase] at hok
    exact Safe.extends hok h
  | owner phase =>
    rw [hcase] at hok
    exact OwnerOk.extends hok h.mailbox h.calls h.turns

theorem Good.cursors (hw : Good recipientKey w) (hinv : Inv recipientKey v)
    (hidle : ∀ actions, w.holder ≠ .daemon actions) (hholder : v.holder = w.holder)
    (hmailbox : v.mailbox = w.mailbox) (hcalls : v.calls = w.calls) (hturns : v.turns = w.turns) :
    Good recipientKey v := by
  refine ⟨hinv, ?_⟩
  have hok := hw.holder
  unfold HolderOk at hok ⊢
  rw [hholder]
  cases hcase : w.holder with
  | free => trivial
  | daemon actions => exact absurd hcase (hidle actions)
  | owner phase =>
    rw [hcase] at hok
    exact OwnerOk.extends hok hmailbox hcalls (by rw [hturns]; exact List.Subset.refl _)

theorem Good.unlocked (hw : Inv recipientKey w) :
    Good recipientKey { w with holder := .free } :=
  ⟨hw.extends (Extends.holder w hw .free), trivial⟩

theorem Good.load (hw : Good recipientKey w)
    (hidle : ∀ actions, w.holder ≠ .daemon actions) :
    Good recipientKey { w with
      memory := some ⟨w.ledger, loadAckedIds w.acks, w.file, false⟩ } := by
  refine hw.cursors (hw.inv.narrow ?_ ?_ ?_ rfl rfl rfl rfl rfl rfl) hidle rfl rfl rfl rfl
  · rintro x (rfl | ⟨other, ⟨⟩, rfl⟩)
    · exact Sees.file
    · exact Sees.file
  · rintro m ⟨⟩ _
    exact Or.inr rfl
  · rintro m ⟨⟩ _
    exact ⟨rfl, List.prefix_refl _⟩

theorem Good.elsewhere {cursors : ChatCursors} (hw : Good recipientKey w)
    (hidle : ∀ actions, w.holder ≠ .daemon actions)
    (hloaded : w.memory = some memory)
    (hview : view recipientKey cursors = view recipientKey memory.cursors) :
    Good recipientKey { w with memory := some { memory with cursors } } := by
  refine hw.cursors (hw.inv.narrow ?_ ?_ ?_ rfl rfl rfl rfl rfl rfl) hidle rfl rfl rfl rfl
  · rintro x (rfl | ⟨other, ⟨⟩, rfl⟩)
    · exact Sees.file
    · simp only [hview]
      exact Sees.memory hloaded
  · rintro m ⟨⟩ hvisited
    exact Or.inl ⟨memory, hloaded, hvisited, rfl⟩
  · rintro m ⟨⟩ hvisited
    obtain ⟨hagree, hledger⟩ := hw.inv.fresh memory hloaded hvisited
    exact ⟨hview.trans hagree, hledger⟩

theorem Good.crash (hw : Good recipientKey w) :
    Inv recipientKey { w with memory := none } := by
  refine hw.inv.narrow ?_ (by simp) (by simp) rfl rfl rfl rfl rfl rfl
  rintro x (rfl | ⟨other, hother, rfl⟩)
  · exact Sees.file
  · cases hother

/-- A pass enters with the memory of its round, for which every spent letter is out of reach. -/
theorem Good.enters {w : World} {memory : Memory} (env : PassEnv) (hw : Good recipientKey w)
    (hloaded : w.memory = some memory) (hvisited : memory.visited = false) :
    Entered recipientKey
      { w with
        memory := some { memory with visited := true }
        holder := .daemon (deliverLocked dateParse env recipientKey memory.ledger memory.cursors
          memory.acked w.mailbox).1 }
      { memory with visited := true } ∧
    ∀ id ∈ w.queued, ∀ idx msg, w.ledger.letter idx = some msg → msg.id = id →
      isConditional msg = true →
      id ∈ memory.acked ∨ (view recipientKey memory.cursors).pickupId = some id := by
  obtain ⟨hagree, hledger⟩ := hw.inv.fresh memory hloaded hvisited
  refine ⟨⟨?_, rfl, rfl, hagree⟩, ?_⟩
  · refine hw.inv.narrow ?_ ?_ ?_ rfl rfl rfl rfl rfl rfl
    · rintro x (rfl | ⟨other, ⟨⟩, rfl⟩)
      · exact Sees.file
      · exact Or.inr ⟨memory, hloaded, rfl⟩
    · rintro m ⟨⟩ hfalse
      cases hfalse
    · rintro m ⟨⟩ hfalse
      cases hfalse
  · intro id hid idx msg hletter hmsg hcond
    obtain ⟨idx', msg', hletter', hmsg', _, hspent⟩ := hw.inv.spent id hid
    obtain rfl : idx = idx' :=
      hw.inv.unique _ _ _ _ hletter hletter' (hmsg.trans hmsg'.symm)
    obtain rfl : msg = msg' := Option.some.inj (hletter.symm.trans hletter')
    rcases hspent hcond with ⟨_, hmem⟩ | ⟨_, hviews⟩
    · exact Or.inl (hmem memory hloaded hvisited)
    · exact Or.inr (hviews (view recipientKey memory.cursors) (Sees.memory hloaded))

theorem Good.pass (env : PassEnv) (hw : Good recipientKey w)
    (hloaded : w.memory = some memory) (hvisited : memory.visited = false) :
    Good recipientKey { w with
      memory := some { memory with visited := true }
      holder := .daemon (deliverLocked dateParse env recipientKey memory.ledger memory.cursors
        memory.acked w.mailbox).1 } := by
  obtain ⟨-, hledger⟩ := hw.inv.fresh memory hloaded hvisited
  obtain ⟨hentered, hspent⟩ := hw.enters env hloaded hvisited
  exact ⟨hentered.inv, hentered.safe hledger hspent⟩

theorem Good.daemonStep (hw : Good recipientKey w)
    (hstep : step dateParse recipientKey w .daemonStep = some v) : Good recipientKey v := by
  have hok := hw.holder
  unfold HolderOk at hok
  simp only [step] at hstep
  cases hholder : w.holder with
  | free => simp [hholder] at hstep
  | owner phase => simp [hholder] at hstep
  | daemon actions =>
    rw [hholder] at hok
    cases actions with
    | nil =>
      simp only [hholder, Option.some.injEq] at hstep
      subst hstep
      exact Good.unlocked hw.inv
    | cons action rest =>
      simp only [hholder] at hstep
      cases hperform : perform w action with
      | none =>
        simp only [hperform, Option.some.injEq] at hstep
        subst hstep
        exact Good.unlocked hw.inv
      | some done =>
        simp only [hperform, Option.some.injEq] at hstep
        subst hstep
        have hsafe := hok.2.2 done hperform
        have hext := Extends.holder done hsafe.inv (.daemon rest)
        exact ⟨hsafe.inv.extends hext, hsafe.extends hext⟩

theorem Good.ownerStep {phase : Owner} (hw : Good recipientKey w)
    (hholder : w.holder = .owner phase) (hstep : ownerStep w phase = some v) :
    Good recipientKey v := by
  have hok : OwnerOk w phase := by
    have := hw.holder
    unfold HolderOk at this
    rwa [hholder] at this
  cases phase with
  | settling next =>
    obtain rfl := Option.some.inj hstep
    obtain ⟨input, hinput, hphase, hid, hnext⟩ := hok
    have hadvanced : Inv recipientKey { w with mailbox := some next } := by
      refine hw.inv.advance hinput ?_ hid ?_ ?_
      · rcases hphase with h | h <;> simp [h]
      · rcases hnext with h | ⟨h, _⟩ <;> simp [h]
      · intro haccepted
        rcases hnext with h | ⟨_, hturn⟩
        · rw [h] at haccepted
          cases haccepted
        · exact hturn
    exact Good.unlocked hadvanced
  | marking env input =>
    obtain rfl := Option.some.inj hstep
    obtain ⟨hinput, hphase⟩ := hok
    have hadvanced : Inv recipientKey { w with mailbox := some (dispatching env input) } := by
      refine hw.inv.advance hinput (by simp [hphase]) rfl (by simp [dispatching]) ?_
      intro haccepted
      cases haccepted
    refine ⟨hadvanced.extends (Extends.holder _ hadvanced _), ⟨_, rfl, rfl, rfl⟩, ?_⟩
    exact hw.inv.unstarted input hinput hphase
  | starting input =>
    obtain rfl := Option.some.inj hstep
    obtain ⟨⟨held, hheld, hid, hphase⟩, hnew⟩ := hok
    have hcalled : Inv recipientKey { w with
        calls := w.calls ++ [input.messageId]
        inflight := w.inflight ++ [input.messageId] } := by
      rw [← hid] at hnew ⊢
      exact hw.inv.call hheld hphase hnew
    exact ⟨hcalled.extends (Extends.holder _ hcalled _), held, hheld, hid, hphase⟩
  | awaiting input => cases hstep
  | accepting input turnId =>
    obtain rfl := Option.some.inj hstep
    obtain ⟨⟨held, hheld, hid, hphase⟩, hturn⟩ := hok
    have hadvanced : Inv recipientKey { w with mailbox := some (started input turnId) } := by
      refine hw.inv.advance hheld (by simp [hphase]) hid.symm (by simp [started]) ?_
      intro _
      exact ⟨_, hturn, rfl, rfl⟩
    exact Good.unlocked hadvanced

theorem Good.tick {env : OwnerEnv} (hw : Good recipientKey w)
    (hstep : step dateParse recipientKey w (.tick env) = some v) : Good recipientKey v := by
  simp only [step] at hstep
  cases hholder : w.holder with
  | daemon _ => simp [hholder] at hstep
  | owner _ => simp [hholder] at hstep
  | free =>
    simp only [hholder] at hstep
    cases hnext : applyLocked env w.turns w.mailbox with
    | settle input =>
      simp only [hnext, Option.some.injEq] at hstep
      subst hstep
      exact ⟨hw.inv.extends (Extends.holder w hw.inv _), applyLocked_settle hnext⟩
    | submit input =>
      simp only [hnext, Option.some.injEq] at hstep
      subst hstep
      exact ⟨hw.inv.extends (Extends.holder w hw.inv _), applyLocked_submit hnext⟩
    | nothing | hold _ =>
      simp only [hnext, Option.some.injEq] at hstep
      subst hstep
      exact hw

/-- One event of the run, whoever acts. -/
theorem Good.step (w : World) (e : Event) (v : World) (hw : Good recipientKey w)
    (hstep : step dateParse recipientKey w e = some v) : Good recipientKey v := by
  have hrefl : Extends recipientKey w w :=
    { ledger := List.prefix_refl _, unique := hw.inv.unique, acks := Finset.Subset.refl _,
      file := rfl, mailbox := rfl, journal := rfl, memory := rfl, turns := List.Subset.refl _,
      calls := rfl, queued := rfl }
  cases e with
  | send msg =>
    simp only [NativeRun.step] at hstep
    split at hstep
    · next hnew =>
      obtain rfl := Option.some.inj hstep
      exact hw.grow { hrefl with
        ledger := List.prefix_append _ _, unique := hw.inv.unique.send hnew } rfl
    · cases hstep
  | ack row =>
    obtain rfl := Option.some.inj hstep
    exact hw.grow { hrefl with acks := loadAckedIds_subset_append _ _ } rfl
  | mark key len =>
    obtain rfl := Option.some.inj hstep
    exact hw.grow { hrefl with } rfl
  | load =>
    simp only [NativeRun.step] at hstep
    split at hstep
    · cases hstep
    · next hidle =>
      obtain rfl := Option.some.inj hstep
      exact hw.load fun actions h => hidle actions h
  | elsewhere change =>
    simp only [NativeRun.step] at hstep
    split at hstep
    · cases hstep
    · cases hstep
    · next memory hloaded hidle =>
      split at hstep
      · next hsame =>
        obtain rfl := Option.some.inj hstep
        refine hw.elsewhere (fun actions h => hidle actions h) hloaded ?_
        simp only [view, hsame.1, hsame.2]
      · cases hstep
  | flush =>
    simp only [NativeRun.step] at hstep
    split at hstep
    · cases hstep
    · next hidle =>
      obtain ⟨memory, hloaded, rfl⟩ := Option.map_eq_some_iff.mp hstep
      exact hw.cursors (hw.inv.save hloaded) (fun actions h => hidle actions h) rfl rfl rfl rfl
  | pass env =>
    simp only [NativeRun.step] at hstep
    split at hstep
    · next memory _ hloaded =>
      split at hstep
      · cases hstep
      · next hvisited =>
        obtain rfl := Option.some.inj hstep
        exact hw.pass env hloaded (by simpa using hvisited)
    · cases hstep
  | daemonStep => exact hw.daemonStep hstep
  | daemonFail =>
    simp only [NativeRun.step] at hstep
    split at hstep
    · obtain rfl := Option.some.inj hstep
      exact Good.unlocked hw.inv
    · cases hstep
  | daemonCrash =>
    simp only [NativeRun.step] at hstep
    split at hstep
    · obtain rfl := Option.some.inj hstep
      exact Good.unlocked hw.crash
    · next hidle =>
      obtain rfl := Option.some.inj hstep
      exact hw.cursors hw.crash (fun actions h => hidle actions h) rfl rfl rfl rfl
  | tick env => exact hw.tick hstep
  | ownerStep =>
    simp only [NativeRun.step] at hstep
    split at hstep
    · next hholder => exact hw.ownerStep hholder hstep
    · cases hstep
  | response turnId =>
    simp only [NativeRun.step] at hstep
    split at hstep
    · next input hholder =>
      split at hstep
      · next hturn =>
        obtain rfl := Option.some.inj hstep
        have hok : OwnerOk w (.awaiting input) := by
          have := hw.holder
          unfold HolderOk at this
          rwa [hholder] at this
        exact ⟨hw.inv.extends (Extends.holder w hw.inv _), hok, hturn⟩
      · cases hstep
    · cases hstep
  | ownerStop =>
    simp only [NativeRun.step] at hstep
    split at hstep
    · obtain rfl := Option.some.inj hstep
      exact Good.unlocked hw.inv
    · cases hstep
  | providerStart request turnId =>
    simp only [NativeRun.step] at hstep
    split at hstep
    · split at hstep
      · cases hstep
      · obtain rfl := Option.some.inj hstep
        exact hw.grow { hrefl with turns := List.subset_append_left _ _ } rfl
    · cases hstep
  | foreignTurn turnId =>
    obtain rfl := Option.some.inj hstep
    exact hw.grow { hrefl with turns := List.subset_append_left _ _ } rfl

theorem Good.initial (h : Start recipientKey w) : Good recipientKey w := by
  have hviews : ∀ x, Sees recipientKey w x → x.pickup = none := by
    rintro x (rfl | ⟨memory, hmemory, _⟩)
    · exact h.noPickup
    · rw [h.noMemory] at hmemory
      cases hmemory
  refine ⟨?_, by unfold HolderOk; rw [h.unlocked]; trivial⟩
  constructor
  · exact h.unique
  · intro x hx pickup hpickup
    rw [hviews x hx] at hpickup
    cases hpickup
  · simp [h.noneQueued]
  · intro x hx id hid
    simp [View.pickupId, hviews x hx] at hid
  · simp [h.noInput]
  · simp [h.noMemory]
  · simp [h.noInput]
  · simp [h.noCalls]
  · simp [h.noCalls]
  · simp [h.noInput]
  · simp [h.noInput]

theorem perform_mailbox {action : Action} (hsafe : Safe recipientKey w (action :: rest))
    (h : perform w action = some v) :
    v.mailbox = w.mailbox ∨ ∃ input, v.mailbox = some input ∧
      (view recipientKey w.file).pickupId = some input.messageId := by
  have hinv := (hsafe.2.2 v h).inv
  have hproper := hsafe.2.1
  cases action with
  | remember _ | journal _ _ _ _ | saveCursors =>
    obtain ⟨_, _, rfl⟩ := Option.map_eq_some_iff.mp h
    exact Or.inl rfl
  | appendAck _ | hold _ _ | clearHold =>
    obtain rfl := Option.some.inj h
    exact Or.inl rfl
  | refuse _ => cases h
  | writeInput input =>
    simp only [perform] at h
    split at h
    · obtain rfl := Option.some.inj h
      have hopen : input.phase ≠ .accepted := by
        rw [hproper]
        simp
      exact Or.inr ⟨input, rfl, hinv.bound input rfl hopen _ Sees.file⟩
    · cases h

theorem step_mailbox (hdaemon : e ≠ .daemonStep)
    (howner : e ≠ .ownerStep) (hstep : NativeRun.step dateParse recipientKey w e = some v) :
    v.mailbox = w.mailbox := by
  cases e with
  | daemonStep => exact absurd rfl hdaemon
  | ownerStep => exact absurd rfl howner
  | flush =>
    simp only [NativeRun.step] at hstep
    split at hstep
    · cases hstep
    · obtain ⟨_, _, rfl⟩ := Option.map_eq_some_iff.mp hstep
      rfl
  | _ =>
    simp only [NativeRun.step] at hstep
    repeat' split at hstep
    all_goals cases hstep <;> rfl

/-- An unresolved letter stays in the mailbox until its own phase is settled. -/
theorem Good.keeps_open (hw : Good recipientKey w)
    (hstep : NativeRun.step dateParse recipientKey w e = some v)
    (hinput : w.mailbox = some input) (hopen : input.phase ≠ .accepted) :
    ∃ next, v.mailbox = some next ∧ next.messageId = input.messageId := by
  have hsame : v.mailbox = w.mailbox →
      ∃ next, v.mailbox = some next ∧ next.messageId = input.messageId :=
    fun h => ⟨input, h.trans hinput, rfl⟩
  have hok := hw.holder
  unfold HolderOk at hok
  cases e with
  | daemonStep =>
    simp only [NativeRun.step] at hstep
    cases hholder : w.holder with
    | free => simp [hholder] at hstep
    | owner _ => simp [hholder] at hstep
    | daemon actions =>
      rw [hholder] at hok
      cases actions with
      | nil =>
        simp only [hholder, Option.some.injEq] at hstep
        subst hstep
        exact hsame rfl
      | cons action rest =>
        simp only [hholder] at hstep
        cases hperform : perform w action with
        | none =>
          simp only [hperform, Option.some.injEq] at hstep
          subst hstep
          exact hsame rfl
        | some done =>
          simp only [hperform, Option.some.injEq] at hstep
          subst hstep
          rcases perform_mailbox hok hperform with hkept | ⟨next, hnext, hid⟩
          · exact hsame hkept
          · have hbound := hw.inv.bound input hinput hopen _ Sees.file
            exact ⟨next, hnext, Option.some.inj (hid.symm.trans hbound)⟩
  | ownerStep =>
    simp only [NativeRun.step] at hstep
    cases hholder : w.holder with
    | free => simp [hholder] at hstep
    | daemon _ => simp [hholder] at hstep
    | owner phase =>
      rw [hholder] at hok
      simp only [hholder] at hstep
      have hread : ∀ held, w.mailbox = some held → held = input :=
        fun held h => Option.some.inj (h.symm.trans hinput)
      cases phase with
      | settling next =>
        obtain rfl := Option.some.inj hstep
        obtain ⟨held, hheld, _, hid, _⟩ := hok
        exact ⟨next, rfl, by rw [hid, hread held hheld]⟩
      | marking env next =>
        obtain rfl := Option.some.inj hstep
        exact ⟨_, rfl, by rw [← hread next hok.1]; rfl⟩
      | starting next =>
        obtain rfl := Option.some.inj hstep
        exact hsame rfl
      | awaiting next => cases hstep
      | accepting next turnId =>
        obtain rfl := Option.some.inj hstep
        obtain ⟨⟨held, hheld, hid, _⟩, _⟩ := hok
        exact ⟨_, rfl, by rw [← hread held hheld]; exact hid.symm⟩
  | _ => exact hsame (step_mailbox (by simp) (by simp) hstep)

/-- Over every run of passes and ticks with crashes: `turn/start` is called at most once for a
letter, an unresolved letter is never overwritten in the mailbox, the cursor of an immediate letter
is past it once its pickup is durable, and an accepted letter names a turn the provider started
for it. -/
theorem native_hand_over {w m t : World} {earlier : List Event} {e : Event}
    (hstart : Start recipientKey w)
    (hrun : run (NativeRun.step dateParse recipientKey) w earlier = some m)
    (hstep : NativeRun.step dateParse recipientKey m e = some t) :
    t.calls.Nodup ∧
    (∀ input, m.mailbox = some input → input.phase ≠ .accepted →
      ∃ next, t.mailbox = some next ∧ next.messageId = input.messageId) ∧
    (∀ pickup, t.file.pickups recipientKey = some pickup → pickup.conditional = false →
      ∃ idx, pickup.ledgerIndex = some idx ∧ idx < position t.file.delivered recipientKey) ∧
    (∀ input, t.mailbox = some input → input.phase = .accepted →
      ∃ turn ∈ t.turns, turn.id = inputTurnId input ∧
        turn.clientId = some input.messageId) := by
  have hm : Good recipientKey m := run_invariant Good.step hrun (Good.initial hstart)
  have ht : Good recipientKey t := Good.step m e t hm hstep
  refine ⟨ht.inv.once, ?_, ?_, ht.inv.accepted⟩
  · intro input hinput hopen
    exact hm.keeps_open hstep hinput hopen
  · intro pickup hpickup himm
    obtain ⟨idx, msg, hidx, _, _, hkind, hpast⟩ := ht.inv.placed _ Sees.file pickup hpickup
    rw [himm] at hkind
    exact ⟨idx, hidx, hpast hkind.symm⟩

end

def coder : ManagedPeer := ⟨"host", .codex, "coder", "t1"⟩

def order : ChatMessage :=
  { id := "m1", ts := "2026-01-01T00:00:00Z", sender := .cli "host", target := .managed coder,
    body := "go", defer := false }

def idlePass : PassEnv :=
  { sessionName := "coder", agent := .codex, snapshot := some ⟨.idle, none, true⟩
    sameIdentity := true, contextPending := false, rateHeld := false, heldMessage := none
    cli := "ccmux", reply := fun _ => none, openCodeMessageId := fun id _ => id, now := 0 }

def readyOwner : OwnerEnv :=
  { snapshot := ⟨.idle, none, true⟩, contextPending := false, delegated := false, typing := false
    gated := true, paneHold := none, threadHold := none, threadIdle := true, sameIdentity := true
    policy := true, attachments := true, dispatchedAt := "2026-01-01T00:00:01Z" }

def registered : World :=
  { ledger := [some order], acks := [], file := ChatCursors.empty, mailbox := none, journal := []
    memory := none, holder := .free, inflight := [], turns := [], calls := [], queued := [] }

/-- One letter from the pass that arms it to the turn the provider answers with. -/
def handOverEvents : List Event :=
  [.load, .pass idlePass, .daemonStep, .daemonStep, .daemonStep, .daemonStep, .daemonStep,
    .daemonStep, .tick readyOwner, .ownerStep, .ownerStep, .providerStart 0 "turn-1",
    .response "turn-1"]

theorem registered_start : Start (managedPeerKey coder) registered := by
  refine ⟨?_, rfl, rfl, rfl, rfl, rfl, rfl, rfl⟩
  intro i j a b hi hj _
  have hi' := Ledger.letter_lt hi
  have hj' := Ledger.letter_lt hj
  simp only [registered, List.length_singleton] at hi' hj'
  omega

set_option maxRecDepth 20000 in
theorem native_hand_over_registered :
    ∃ m t, run (NativeRun.step (fun _ => none) (managedPeerKey coder)) registered handOverEvents =
        some m ∧
      NativeRun.step (fun _ => none) (managedPeerKey coder) m .ownerStep = some t ∧
      t.calls = ["m1"] ∧ t.calls.Nodup := by
  have hrun : run (NativeRun.step (fun _ => none) (managedPeerKey coder)) registered
      handOverEvents = some _ := rfl
  exact ⟨_, _, hrun, rfl, rfl, (native_hand_over registered_start hrun
    (show NativeRun.step _ _ _ .ownerStep = some _ from rfl)).1⟩

end Ccmux.Chat.NativeRun
