/- Module: Ccmux/Chat/NativeInvariant
   source: src/chat/nativeRuntime.ts, src/agent/codex/owned/input.ts
   digest: What relates pickup, mailbox, cursor and provider record at every crash point. -/

import Ccmux.Chat.NativeRun

namespace Ccmux.Chat.NativeRun

open Ccmux.Lib.Machine
open Ccmux.Chat.Message
open Ccmux.Chat.Settlement
open Ccmux.Chat.NativeRuntime
open Ccmux.Chat.TurnProgress
open Ccmux.Runtime.Input
open Ccmux.Agent.Codex.OwnedInput

section
variable (recipientKey : String)

/-- The two fields of the cursors that belong to the recipient. -/
structure View where
  delivered : Nat
  pickup : Option Pickup

@[grind =]
def view (cursors : ChatCursors) : View :=
  ⟨position cursors.delivered recipientKey, cursors.pickups recipientKey⟩

/-- The cursors in force for the recipient: the file's and, while the daemon runs, its memory's. -/
def Sees (w : World) (v : View) : Prop :=
  v = view recipientKey w.file ∨ ∃ memory, w.memory = some memory ∧
    v = view recipientKey memory.cursors

@[grind =]
def heldId (w : World) : Option String := w.mailbox.map RuntimeInput.messageId

@[grind =]
def View.pickupId (v : View) : Option String := v.pickup.map Pickup.messageId

/-- A pickup names a letter of the ledger, and an immediate one's cursor stands past it. -/
def View.Placed (ledger : Ledger) (v : View) : Prop :=
  ∀ pickup, v.pickup = some pickup → ∃ idx msg, pickup.ledgerIndex = some idx ∧
    ledger.letter idx = some msg ∧ msg.id = pickup.messageId ∧
    pickup.conditional = isConditional msg ∧ (isConditional msg = false → idx < v.delivered)

/-- A letter that was queued cannot be picked again: the cursor is past it, or it is acked, or it
is the letter both mailbox and pickup are about. -/
def Spent (w : World) (id : String) : Prop :=
  ∃ idx msg, w.ledger.letter idx = some msg ∧ msg.id = id ∧
    (isConditional msg = false → ∀ v, Sees recipientKey w v → idx < v.delivered) ∧
    (isConditional msg = true →
      (id ∈ loadAckedIds w.acks ∧
        ∀ memory, w.memory = some memory → memory.visited = false → id ∈ memory.acked) ∨
      (heldId w = some id ∧ ∀ v, Sees recipientKey w v → v.pickupId = some id))

structure Inv (w : World) : Prop where
  unique : UniqueIds w.ledger
  placed : ∀ v, Sees recipientKey w v → v.Placed w.ledger
  spent : ∀ id ∈ w.queued, Spent recipientKey w id
  single : ∀ v, Sees recipientKey w v → ∀ id, v.pickupId = some id → id ∈ w.queued →
    heldId w = some id
  bound : ∀ input, w.mailbox = some input → input.phase ≠ .accepted →
    ∀ v, Sees recipientKey w v → v.pickupId = some input.messageId
  fresh : ∀ memory, w.memory = some memory → memory.visited = false →
    view recipientKey memory.cursors = view recipientKey w.file ∧ memory.ledger <+: w.ledger
  known : ∀ input, w.mailbox = some input → input.messageId ∈ w.queued
  once : w.calls.Nodup
  called : ∀ id ∈ w.calls, id ∈ w.queued
  unstarted : ∀ input, w.mailbox = some input → input.phase = .queued →
    input.messageId ∉ w.calls
  accepted : ∀ input, w.mailbox = some input → input.phase = .accepted →
    ∃ turn ∈ w.turns, turn.id = inputTurnId input ∧ turn.clientId = some input.messageId

/-- What others may change while a pass holds the lock. -/
structure Extends (w v : World) : Prop where
  ledger : w.ledger <+: v.ledger
  unique : UniqueIds v.ledger
  acks : loadAckedIds w.acks ⊆ loadAckedIds v.acks
  file : view recipientKey v.file = view recipientKey w.file
  mailbox : v.mailbox = w.mailbox
  journal : v.journal = w.journal
  memory : v.memory = w.memory
  turns : w.turns ⊆ v.turns
  calls : v.calls = w.calls
  queued : v.queued = w.queued

def Proper : Action → Prop
  | .writeInput input => input.phase = .queued
  | _ => True

/-- The invariant holds now and after each action that is left. -/
def Safe (w : World) : List Action → Prop
  | [] => Inv recipientKey w
  | action :: rest => Inv recipientKey w ∧ Proper action ∧
      ∀ v, perform w action = some v → Safe v rest

/-- Where the owner stands in relation to the mailbox it read under the lock. -/
def OwnerOk (w : World) : Owner → Prop
  | .settling next => ∃ input, w.mailbox = some input ∧
      (input.phase = .dispatching ∨ input.phase = .uncertain) ∧
      next.messageId = input.messageId ∧
      (next.phase = .uncertain ∨ next.phase = .accepted ∧
        ∃ turn ∈ w.turns, turn.id = inputTurnId next ∧ turn.clientId = some next.messageId)
  | .marking _ input => w.mailbox = some input ∧ input.phase = .queued
  | .starting input => (∃ held, w.mailbox = some held ∧ held.messageId = input.messageId ∧
      held.phase = .dispatching) ∧ input.messageId ∉ w.calls
  | .awaiting input => ∃ held, w.mailbox = some held ∧ held.messageId = input.messageId ∧
      held.phase = .dispatching
  | .accepting input turnId => (∃ held, w.mailbox = some held ∧
      held.messageId = input.messageId ∧ held.phase = .dispatching) ∧
      ⟨turnId, some input.messageId⟩ ∈ w.turns

@[grind =]
def HolderOk (w : World) : Prop :=
  match w.holder with
  | .free => True
  | .daemon actions => Safe recipientKey w actions
  | .owner phase => OwnerOk w phase

structure Good (w : World) : Prop where
  inv : Inv recipientKey w
  holder : HolderOk recipientKey w


variable {recipientKey}

theorem Sees.file {w : World} : Sees recipientKey w (view recipientKey w.file) := Or.inl rfl

theorem Sees.memory {w : World} {memory : Memory} (h : w.memory = some memory) :
    Sees recipientKey w (view recipientKey memory.cursors) := Or.inr ⟨memory, h, rfl⟩

theorem Extends.sees {w v : World} (h : Extends recipientKey w v) {x : View} :
    Sees recipientKey v x ↔ Sees recipientKey w x := by
  simp only [Sees, h.file, h.memory]

theorem Extends.heldId {w v : World} (h : Extends recipientKey w v) : heldId v = heldId w := by
  simp only [NativeRun.heldId, h.mailbox]

theorem View.Placed.mono {ledger grown : Ledger} {v : View} (hgrown : ledger <+: grown)
    (h : v.Placed ledger) : v.Placed grown := by
  obtain ⟨more, rfl⟩ := hgrown
  intro pickup hpickup
  obtain ⟨idx, msg, hidx, hletter, rest⟩ := h pickup hpickup
  exact ⟨idx, msg, hidx, Ledger.letter_append more hletter, rest⟩

/-- The invariant does not depend on what others may change during a pass. -/
theorem Inv.extends {w v : World} (hw : Inv recipientKey w) (h : Extends recipientKey w v) :
    Inv recipientKey v := by
  constructor
  · exact h.unique
  · intro x hx
    exact (hw.placed x (h.sees.mp hx)).mono h.ledger
  · intro id hid
    rw [h.queued] at hid
    obtain ⟨idx, msg, hletter, hmsg, himm, hcond⟩ := hw.spent id hid
    obtain ⟨more, hmore⟩ := h.ledger
    refine ⟨idx, msg, by rw [← hmore]; exact Ledger.letter_append more hletter, hmsg, ?_, ?_⟩
    · intro hfalse x hx
      exact himm hfalse x (h.sees.mp hx)
    · intro htrue
      rcases hcond htrue with ⟨hacked, hmem⟩ | ⟨hheld, hviews⟩
      · refine Or.inl ⟨h.acks hacked, ?_⟩
        intro memory hmemory
        rw [h.memory] at hmemory
        exact hmem memory hmemory
      · exact Or.inr ⟨by rw [h.heldId]; exact hheld, fun x hx => hviews x (h.sees.mp hx)⟩
  · intro x hx id hid hqueued
    rw [h.queued] at hqueued
    rw [h.heldId]
    exact hw.single x (h.sees.mp hx) id hid hqueued
  · intro input hinput hphase x hx
    rw [h.mailbox] at hinput
    exact hw.bound input hinput hphase x (h.sees.mp hx)
  · intro memory hmemory hvisited
    rw [h.memory] at hmemory
    obtain ⟨hview, hledger⟩ := hw.fresh memory hmemory hvisited
    exact ⟨hview.trans h.file.symm, hledger.trans h.ledger⟩
  · intro input hinput
    rw [h.mailbox] at hinput
    rw [h.queued]
    exact hw.known input hinput
  · rw [h.calls]
    exact hw.once
  · intro id hid
    rw [h.calls] at hid
    rw [h.queued]
    exact hw.called id hid
  · intro input hinput hphase
    rw [h.mailbox] at hinput
    rw [h.calls]
    exact hw.unstarted input hinput hphase
  · intro input hinput hphase
    rw [h.mailbox] at hinput
    obtain ⟨turn, hturn, hrest⟩ := hw.accepted input hinput hphase
    exact ⟨turn, h.turns hturn, hrest⟩

theorem perform_remember {w v : World} {memory : Memory} {cursors : ChatCursors}
    (hmemory : w.memory = some memory) (h : perform w (.remember cursors) = some v) :
    v = { w with memory := some { memory with cursors } } := by
  simpa [perform, hmemory] using h.symm

theorem perform_saveCursors {w v : World} {memory : Memory} (hmemory : w.memory = some memory)
    (h : perform w .saveCursors = some v) :
    v = { w with file := Cursors.saveCursors w.file memory.cursors } := by
  simpa [perform, hmemory] using h.symm

theorem perform_journal {w v : World} {messageId : String}
    {phase : MessageOperation.OperationPhase} {turnId : Option String} {now : Int}
    (h : perform w (.journal messageId phase turnId now) = some v) :
    ∃ journal, v = { w with journal } := by
  obtain ⟨journal, _, rfl⟩ := Option.map_eq_some_iff.mp h
  exact ⟨journal, rfl⟩

/-- An action of the pass does the same over what others added. -/
theorem perform_extends {w w' v' : World} {action : Action} (h : Extends recipientKey w w')
    (hstep : perform w' action = some v') :
    ∃ v, perform w action = some v ∧ Extends recipientKey v v' := by
  cases action with
  | remember cursors =>
    simp only [perform, h.memory, Option.map_eq_some_iff] at hstep ⊢
    obtain ⟨memory, hmemory, rfl⟩ := hstep
    exact ⟨_, ⟨memory, hmemory, rfl⟩, { h with memory := rfl }⟩
  | journal messageId phase turnId now =>
    simp only [perform, h.journal, Option.map_eq_some_iff] at hstep ⊢
    obtain ⟨journal, hjournal, rfl⟩ := hstep
    exact ⟨_, ⟨journal, hjournal, rfl⟩, { h with journal := rfl }⟩
  | appendAck messageId =>
    obtain rfl := Option.some.inj hstep
    refine ⟨_, rfl, { h with acks := ?_ }⟩
    simp only [loadAckedIds_append]
    exact Finset.union_subset_union_left h.acks
  | saveCursors =>
    simp only [perform, h.memory, Option.map_eq_some_iff] at hstep ⊢
    obtain ⟨memory, hmemory, rfl⟩ := hstep
    exact ⟨_, ⟨memory, hmemory, rfl⟩, { h with file := rfl, memory := rfl }⟩
  | writeInput input =>
    simp only [perform] at hstep ⊢
    split at hstep
    · next hvalid =>
      obtain rfl := Option.some.inj hstep
      refine ⟨_, if_pos hvalid, { h with mailbox := rfl, queued := ?_ }⟩
      rw [h.queued]
    · cases hstep
  | hold _ _ | clearHold =>
    obtain rfl := Option.some.inj hstep
    exact ⟨_, rfl, h⟩
  | refuse _ => cases hstep

theorem Safe.extends {w v : World} {actions : List Action} (hw : Safe recipientKey w actions)
    (h : Extends recipientKey w v) : Safe recipientKey v actions := by
  induction actions generalizing w v with
  | nil => exact Inv.extends hw h
  | cons action rest ih =>
    refine ⟨hw.1.extends h, hw.2.1, ?_⟩
    intro v' hv'
    obtain ⟨w', hw', hext⟩ := perform_extends h hv'
    exact ih (hw.2.2 w' hw') hext

theorem Safe.inv {w : World} {actions : List Action} (h : Safe recipientKey w actions) :
    Inv recipientKey w := by
  cases actions with
  | nil => exact h
  | cons action rest => exact h.1

theorem OwnerOk.extends {w v : World} {phase : Owner} (hw : OwnerOk w phase)
    (hmailbox : v.mailbox = w.mailbox) (hcalls : v.calls = w.calls) (hturns : w.turns ⊆ v.turns) :
    OwnerOk v phase := by
  cases phase with
  | settling next =>
    obtain ⟨input, hinput, hphase, hid, hnext⟩ := hw
    refine ⟨input, by rw [hmailbox]; exact hinput, hphase, hid, ?_⟩
    rcases hnext with huncertain | ⟨haccepted, turn, hturn, hrest⟩
    · exact Or.inl huncertain
    · exact Or.inr ⟨haccepted, turn, hturns hturn, hrest⟩
  | marking env input => exact ⟨by rw [hmailbox]; exact hw.1, hw.2⟩
  | starting input =>
    obtain ⟨⟨held, hheld, hrest⟩, hfresh⟩ := hw
    exact ⟨⟨held, by rw [hmailbox]; exact hheld, hrest⟩, by rw [hcalls]; exact hfresh⟩
  | awaiting input =>
    obtain ⟨held, hheld, hrest⟩ := hw
    exact ⟨held, by rw [hmailbox]; exact hheld, hrest⟩
  | accepting input turnId =>
    obtain ⟨⟨held, hheld, hrest⟩, hturn⟩ := hw
    exact ⟨⟨held, by rw [hmailbox]; exact hheld, hrest⟩, hturns hturn⟩

theorem Inv.withJournal {w : World} (hw : Inv recipientKey w)
    (journal : MessageOperation.MessageOperationJournal) :
    Inv recipientKey { w with journal } := { hw with }

/-- Fewer cursors in force and nothing else changed. -/
theorem Inv.narrow {w v : World} (hw : Inv recipientKey w)
    (hsees : ∀ x, Sees recipientKey v x → Sees recipientKey w x)
    (hacked : ∀ memory, v.memory = some memory → memory.visited = false →
      (∃ old, w.memory = some old ∧ old.visited = false ∧ old.acked = memory.acked) ∨
        memory.acked = loadAckedIds w.acks)
    (hfresh : ∀ memory, v.memory = some memory → memory.visited = false →
      view recipientKey memory.cursors = view recipientKey v.file ∧ memory.ledger <+: v.ledger)
    (hledger : v.ledger = w.ledger) (hacks : v.acks = w.acks) (hmailbox : v.mailbox = w.mailbox)
    (hturns : v.turns = w.turns) (hcalls : v.calls = w.calls) (hqueued : v.queued = w.queued) :
    Inv recipientKey v := by
  have hheld : heldId v = heldId w := by simp only [heldId, hmailbox]
  constructor
  · rw [hledger]
    exact hw.unique
  · intro x hx
    rw [hledger]
    exact hw.placed x (hsees x hx)
  · intro id hid
    rw [hqueued] at hid
    obtain ⟨idx, msg, hletter, hmsg, himm, hcond⟩ := hw.spent id hid
    refine ⟨idx, msg, by rw [hledger]; exact hletter, hmsg, ?_, ?_⟩
    · intro hfalse x hx
      exact himm hfalse x (hsees x hx)
    · intro htrue
      rcases hcond htrue with ⟨hin, hmem⟩ | ⟨hheldId, hviews⟩
      · refine Or.inl ⟨by rw [hacks]; exact hin, ?_⟩
        intro memory hmemory hvisited
        rcases hacked memory hmemory hvisited with ⟨old, hold, hunvisited, hsame⟩ | hnew
        · rw [← hsame]
          exact hmem old hold hunvisited
        · rw [hnew]
          exact hin
      · exact Or.inr ⟨by rw [hheld]; exact hheldId, fun x hx => hviews x (hsees x hx)⟩
  · intro x hx id hid hin
    rw [hqueued] at hin
    rw [hheld]
    exact hw.single x (hsees x hx) id hid hin
  · intro input hinput hphase x hx
    rw [hmailbox] at hinput
    exact hw.bound input hinput hphase x (hsees x hx)
  · exact hfresh
  · intro input hinput
    rw [hmailbox] at hinput
    rw [hqueued]
    exact hw.known input hinput
  · rw [hcalls]
    exact hw.once
  · intro id hid
    rw [hcalls] at hid
    rw [hqueued]
    exact hw.called id hid
  · intro input hinput hphase
    rw [hmailbox] at hinput
    rw [hcalls]
    exact hw.unstarted input hinput hphase
  · intro input hinput hphase
    rw [hmailbox] at hinput
    rw [hturns]
    exact hw.accepted input hinput hphase

theorem Inv.save {w : World} {memory : Memory} (hw : Inv recipientKey w)
    (hmemory : w.memory = some memory) :
    Inv recipientKey { w with file := Cursors.saveCursors w.file memory.cursors } := by
  have hview : view recipientKey (Cursors.saveCursors w.file memory.cursors) =
      view recipientKey memory.cursors := rfl
  refine hw.narrow ?_ (fun m hm hvisited => Or.inl ⟨m, hm, hvisited, rfl⟩) ?_ rfl rfl rfl rfl rfl rfl
  · rintro x (rfl | ⟨other, hother, rfl⟩)
    · exact Or.inr ⟨memory, hmemory, hview⟩
    · exact Or.inr ⟨other, hother, rfl⟩
  · intro m hm hvisited
    obtain rfl : memory = m := Option.some.inj (hmemory.symm.trans hm)
    exact ⟨rfl, (hw.fresh memory hmemory hvisited).2⟩

/-- New cursors in memory, after the session was visited. -/
theorem Inv.remember {w : World} {memory : Memory} {cursors : ChatCursors}
    (hw : Inv recipientKey w) (hmemory : w.memory = some memory) (hvisited : memory.visited = true)
    (hplaced : (view recipientKey cursors).Placed w.ledger)
    (hdelivered : (view recipientKey memory.cursors).delivered ≤
      (view recipientKey cursors).delivered)
    (hspent : ∀ id ∈ w.queued, (view recipientKey memory.cursors).pickupId = some id →
      heldId w = some id → (view recipientKey cursors).pickupId = some id ∨
        ∀ idx msg, w.ledger.letter idx = some msg → msg.id = id → isConditional msg = true →
          id ∈ loadAckedIds w.acks)
    (hsingle : ∀ id, (view recipientKey cursors).pickupId = some id → id ∈ w.queued →
      heldId w = some id)
    (hbound : ∀ input, w.mailbox = some input → input.phase ≠ .accepted →
      (view recipientKey cursors).pickupId = some input.messageId) :
    Inv recipientKey { w with memory := some { memory with cursors } } := by
  have hsees : ∀ x, Sees recipientKey { w with memory := some { memory with cursors } } x →
      Sees recipientKey w x ∨ x = view recipientKey cursors := by
    rintro x (rfl | ⟨other, hother, rfl⟩)
    · exact Or.inl Sees.file
    · obtain rfl := Option.some.inj hother
      exact Or.inr rfl
  refine { hw with placed := ?_, spent := ?_, single := ?_, bound := ?_, fresh := ?_ }
  · intro x hx
    rcases hsees x hx with hold | rfl
    · exact hw.placed x hold
    · exact hplaced
  · intro id hid
    obtain ⟨idx, msg, hletter, hmsg, himm, hcond⟩ := hw.spent id hid
    have hfree : ∀ m, some { memory with cursors } = some m → m.visited = false →
        id ∈ m.acked := by
      rintro m ⟨⟩ hfalse
      rw [hvisited] at hfalse
      cases hfalse
    refine ⟨idx, msg, hletter, hmsg, ?_, ?_⟩
    · intro hfalse x hx
      rcases hsees x hx with hold | rfl
      · exact himm hfalse x hold
      · exact (himm hfalse _ (Sees.memory hmemory)).trans_le hdelivered
    · intro htrue
      rcases hcond htrue with ⟨hin, _⟩ | ⟨hheld, hviews⟩
      · exact Or.inl ⟨hin, hfree⟩
      · rcases hspent id hid (hviews _ (Sees.memory hmemory)) hheld with hsame | hacked
        · refine Or.inr ⟨hheld, ?_⟩
          intro x hx
          rcases hsees x hx with hold | rfl
          · exact hviews x hold
          · exact hsame
        · exact Or.inl ⟨hacked idx msg hletter hmsg htrue, hfree⟩
  · intro x hx id hid hqueued
    rcases hsees x hx with hold | rfl
    · exact hw.single x hold id hid hqueued
    · exact hsingle id hid hqueued
  · intro input hinput hphase x hx
    rcases hsees x hx with hold | rfl
    · exact hw.bound input hinput hphase x hold
    · exact hbound input hinput hphase
  · rintro m ⟨⟩ hfalse
    rw [hvisited] at hfalse
    cases hfalse

theorem Inv.rememberBinding {w : World} {memory : Memory} {pickup : Pickup} {turnId : String}
    (hw : Inv recipientKey w) (hmemory : w.memory = some memory)
    (hvisited : memory.visited = true)
    (hpickup : memory.cursors.pickups recipientKey = some pickup) :
    Inv recipientKey { w with memory := some { memory with
      cursors := bindPickup memory.cursors recipientKey pickup turnId } } := by
  have hsame : (view recipientKey (bindPickup memory.cursors recipientKey pickup turnId)).pickupId =
      (view recipientKey memory.cursors).pickupId := by
    simp [view, View.pickupId, bindPickup, hpickup]
  refine hw.remember hmemory hvisited ?_ le_rfl ?_ ?_ ?_
  · intro other hother
    obtain rfl : { pickup with native := some ⟨.accepted, some turnId⟩ } = other := by
      simpa [view, bindPickup] using hother
    exact hw.placed _ (Sees.memory hmemory) pickup hpickup
  · intro id _ hid _
    exact Or.inl (hsame.trans hid)
  · intro id hid hqueued
    exact hw.single _ (Sees.memory hmemory) id (hsame.symm.trans hid) hqueued
  · intro input hinput hphase
    exact hsame.trans (hw.bound input hinput hphase _ (Sees.memory hmemory))

theorem Inv.rememberEnd {w : World} {memory : Memory} {input : RuntimeInput}
    (hw : Inv recipientKey w) (hmemory : w.memory = some memory) (hvisited : memory.visited = true)
    (hinput : w.mailbox = some input) (hphase : input.phase = .accepted)
    (hacked : ∀ idx msg, w.ledger.letter idx = some msg → msg.id = input.messageId →
      isConditional msg = true → input.messageId ∈ loadAckedIds w.acks) :
    Inv recipientKey { w with memory := some { memory with
      cursors := dropPickup memory.cursors recipientKey } } := by
  refine hw.remember hmemory hvisited ?_ le_rfl ?_ ?_ ?_
  · intro other hother
    simp [view, dropPickup] at hother
  · intro id _ _ hheld
    obtain rfl : input.messageId = id := by simpa [heldId, hinput] using hheld
    exact Or.inr hacked
  · intro id hid
    simp [view, View.pickupId, dropPickup] at hid
  · intro other hother hopen
    obtain rfl : input = other := Option.some.inj (hinput.symm.trans hother)
    exact absurd hphase hopen

/-- A letter that was never queued is armed while no pickup stands. -/
theorem Inv.rememberArm {w : World} {memory : Memory} {pick : Pick} {now : Int}
    (hw : Inv recipientKey w) (hmemory : w.memory = some memory) (hvisited : memory.visited = true)
    (hnone : memory.cursors.pickups recipientKey = none)
    (hletter : w.ledger.letter pick.idx = some pick.msg) (hnew : pick.msg.id ∉ w.queued)
    (hcursor : isConditional pick.msg = false →
      position memory.cursors.delivered recipientKey ≤ pick.idx) :
    Inv recipientKey { w with memory := some { memory with
      cursors := armPickup memory.cursors recipientKey pick now none (some ⟨.intent, none⟩) } } := by
  have hpickupId : (view recipientKey (armPickup memory.cursors recipientKey pick now none
      (some ⟨.intent, none⟩))).pickupId = some pick.msg.id := by
    simp [view, View.pickupId]
  have hdelivered : isConditional pick.msg = false →
      (view recipientKey (armPickup memory.cursors recipientKey pick now none
        (some ⟨.intent, none⟩))).delivered = pick.idx + 1 := by
    intro himm
    simp [view, armPickup_delivered_immediate himm]
  refine hw.remember hmemory hvisited ?_ ?_ ?_ ?_ ?_
  · intro other hother
    simp only [view, armPickup_pickups, assign_self, Option.some.injEq] at hother
    subst hother
    refine ⟨pick.idx, pick.msg, rfl, hletter, rfl, rfl, ?_⟩
    intro himm
    rw [hdelivered himm]
    omega
  · cases hcond : isConditional pick.msg with
    | true => simp [view, armPickup_delivered_conditional hcond]
    | false =>
      rw [hdelivered hcond]
      have := hcursor hcond
      simp only [view]
      omega
  · intro id _ hid _
    simp [view, View.pickupId, hnone] at hid
  · intro id hid hqueued
    rw [hpickupId] at hid
    obtain rfl := Option.some.inj hid
    exact absurd hqueued hnew
  · intro input hinput hphase
    have := hw.bound input hinput hphase _ (Sees.memory hmemory)
    simp [view, View.pickupId, hnone] at this

/-- The armed letter reaches the mailbox, once file and memory both name it. -/
theorem Inv.enqueue {w : World} {input : RuntimeInput} (hw : Inv recipientKey w)
    (hphase : input.phase = .queued) (hnew : input.messageId ∉ w.queued)
    (hviews : ∀ x, Sees recipientKey w x → x.pickupId = some input.messageId) :
    Inv recipientKey { w with
      mailbox := some input
      queued := w.queued ++ [input.messageId] } := by
  refine { hw with
    spent := ?_
    single := ?_
    bound := ?_
    known := ?_
    called := ?_
    unstarted := ?_
    accepted := ?_ }
  · intro id hid
    rcases List.mem_append.mp hid with hold | hlast
    · obtain ⟨idx, msg, hletter, hmsg, himm, hcond⟩ := hw.spent id hold
      refine ⟨idx, msg, hletter, hmsg, himm, ?_⟩
      intro htrue
      rcases hcond htrue with hacked | ⟨_, hviews'⟩
      · exact Or.inl hacked
      · have hsame := (hviews' _ Sees.file).symm.trans (hviews _ Sees.file)
        obtain rfl := Option.some.inj hsame
        exact absurd hold hnew
    · obtain rfl := List.mem_singleton.mp hlast
      have hfile := hviews _ Sees.file
      obtain ⟨pickup, hpickup, hpid⟩ := Option.map_eq_some_iff.mp hfile
      obtain ⟨idx, msg, _, hletter, hmsg, _, _⟩ := hw.placed _ Sees.file pickup hpickup
      have hid' : msg.id = input.messageId := hmsg.trans hpid
      refine ⟨idx, msg, hletter, hid', ?_, fun _ => Or.inr ⟨rfl, hviews⟩⟩
      intro himm x hx
      obtain ⟨other, hother, hotherId⟩ := Option.map_eq_some_iff.mp (hviews x hx)
      obtain ⟨idx', msg', _, hletter', hmsg', _, hpast⟩ := hw.placed x hx other hother
      obtain rfl : idx = idx' :=
        hw.unique idx idx' msg msg' hletter hletter' (hid'.trans (hmsg'.trans hotherId).symm)
      obtain rfl : msg = msg' := Option.some.inj (hletter.symm.trans hletter')
      exact hpast himm
  · intro x hx id hid _
    have hsame := (hviews x hx).symm.trans hid
    exact hsame
  · rintro other ⟨⟩ _ x hx
    exact hviews x hx
  · rintro other ⟨⟩
    exact List.mem_append_right _ (List.mem_singleton_self _)
  · intro id hid
    exact List.mem_append_left _ (hw.called id hid)
  · rintro other ⟨⟩ _ hcalled
    exact hnew (hw.called _ hcalled)
  · rintro other ⟨⟩ haccepted
    rw [hphase] at haccepted
    cases haccepted

/-- The owner moves the letter in the mailbox along. -/
theorem Inv.advance {w : World} {input next : RuntimeInput} (hw : Inv recipientKey w)
    (hinput : w.mailbox = some input) (hopen : input.phase ≠ .accepted)
    (hid : next.messageId = input.messageId) (hnext : next.phase ≠ .queued)
    (hturn : next.phase = .accepted →
      ∃ turn ∈ w.turns, turn.id = inputTurnId next ∧ turn.clientId = some next.messageId) :
    Inv recipientKey { w with mailbox := some next } := by
  have hheld : heldId { w with mailbox := some next } = heldId w := by
    simp [heldId, hinput, hid]
  refine { hw with
    spent := ?_
    single := ?_
    bound := ?_
    known := ?_
    unstarted := ?_
    accepted := ?_ }
  · intro id hqueued
    obtain ⟨idx, msg, hletter, hmsg, himm, hcond⟩ := hw.spent id hqueued
    refine ⟨idx, msg, hletter, hmsg, himm, ?_⟩
    intro htrue
    rcases hcond htrue with hacked | ⟨hin, hviews⟩
    · exact Or.inl hacked
    · exact Or.inr ⟨hheld.trans hin, hviews⟩
  · intro x hx id hpickup hqueued
    exact hheld.trans (hw.single x hx id hpickup hqueued)
  · rintro other ⟨⟩ _ x hx
    rw [hid]
    exact hw.bound input hinput hopen x hx
  · rintro other ⟨⟩
    rw [hid]
    exact hw.known input hinput
  · rintro other ⟨⟩ hqueued
    exact absurd hqueued hnext
  · rintro other ⟨⟩ haccepted
    exact hturn haccepted

theorem Inv.call {w : World} {held : RuntimeInput} {inflight : List String}
    (hw : Inv recipientKey w) (hheld : w.mailbox = some held) (hphase : held.phase = .dispatching)
    (hnew : held.messageId ∉ w.calls) :
    Inv recipientKey { w with calls := w.calls ++ [held.messageId], inflight } := by
  refine { hw with once := ?_, called := ?_, unstarted := ?_ }
  · exact nodup_grow hw.once hnew
  · intro id hid
    rcases List.mem_append.mp hid with hold | hlast
    · exact hw.called id hold
    · rw [List.mem_singleton.mp hlast]
      exact hw.known held hheld
  · intro input hinput hqueued
    obtain rfl : held = input := Option.some.inj (hheld.symm.trans hinput)
    rw [hphase] at hqueued
    cases hqueued

end

end Ccmux.Chat.NativeRun
