/- Module: Ccmux/Chat/NativeQueue
   source: src/chat/nativeRuntime.ts
   digest: The daemon's side of the input slot: each letter is written to it once. -/

import Ccmux.Chat.NativeHandOver

namespace Ccmux.Chat.NativeRun

open Ccmux.Chat.Message
open Ccmux.Chat.Settlement
open Ccmux.Chat.NativeRuntime
open Ccmux.Runtime.Input

def writeOf : Action → Option RuntimeInput
  | .writeInput input => some input
  | _ => none

/-- The inputs the pass under way has yet to write. -/
def Holder.pending : Holder → List RuntimeInput
  | .daemon actions => actions.filterMap writeOf
  | _ => []

/-- The events of an owner and of its provider. -/
def ofOwner : Event → Bool
  | .tick _ | .ownerStep | .response _ | .ownerStop | .providerStart _ _ | .foreignTurn _ => true
  | _ => false

/-- The letters of the mailbox do not repeat, with those a pass is about to write; each of these is
a queued input of the shape `P`. -/
structure Queue (P : RuntimeInput → Prop) (w : World) : Prop where
  once : (w.queued ++ w.holder.pending.map RuntimeInput.messageId).Nodup
  shaped : ∀ input ∈ w.holder.pending, input.phase = .queued ∧ P input

section
variable {dateParse : String → Option Int} {recipientKey : String} {P : RuntimeInput → Prop}
  {w v : World} {e : Event} {input : RuntimeInput}

theorem mem_writes {actions : List Action} :
    input ∈ actions.filterMap writeOf ↔ .writeInput input ∈ actions := by
  rw [List.mem_filterMap]
  constructor
  · rintro ⟨action, haction, hwrite⟩
    cases action with
    | writeInput other =>
      obtain rfl := Option.some.inj hwrite
      exact haction
    | _ => cases hwrite
  · intro h
    exact ⟨_, h, rfl⟩

theorem repair_pending (env : PassEnv) (snapshot : NativeSnapshot) (ledger : Ledger)
    (pickup : Pickup) (mailbox : Option RuntimeInput) :
    (repair env snapshot ledger pickup mailbox).1.filterMap writeOf = [] ∨
      ∃ msg, msg.id = pickup.messageId ∧
        (repair env snapshot ledger pickup mailbox).1.filterMap writeOf =
          [queuedInput env msg pickup.injectedAt] := by
  rcases repair_cases env snapshot ledger pickup mailbox with
    ⟨reason, hhold⟩ | ⟨msg, -, hid, -, -, hwrite⟩
  · exact .inl (by rw [hhold]; rfl)
  · exact .inr ⟨msg, hid, by rw [hwrite]; rfl⟩

/-- A pass writes at most one input: a queued one, of a letter that was never queued. -/
theorem Good.pass_pending {memory : Memory} (env : PassEnv) (hw : Good recipientKey w)
    (hloaded : w.memory = some memory) (hvisited : memory.visited = false) :
    let actions := (deliverLocked dateParse env recipientKey memory.ledger memory.cursors
      memory.acked w.mailbox).1
    actions.filterMap writeOf = [] ∨ ∃ msg at_, msg.id ∉ w.queued ∧
      actions.filterMap writeOf = [queuedInput env msg at_] := by
  intro actions
  obtain ⟨-, hledger⟩ := hw.inv.fresh memory hloaded hvisited
  obtain ⟨hentered, hspent⟩ := @Good.enters dateParse _ _ _ env hw hloaded hvisited
  rcases deliverLocked_cases dateParse env recipientKey memory.ledger memory.cursors memory.acked
      w.mailbox with
    (hnil | ⟨messageId, reason, hhold⟩ | ⟨error, hrefuse⟩) |
    ⟨snapshot, pickup, hpickup, hother, hrepair⟩ |
    ⟨snapshot, pickup, input, hpickup, hinput, hsame, hphase, hsettle⟩ |
    ⟨pick, hnone, hpick, hdispatch⟩
  · exact .inl (by simp only [actions, hnil]; rfl)
  · exact .inl (by simp only [actions, hhold]; rfl)
  · exact .inl (by simp only [actions, hrefuse]; rfl)
  · simp only [actions, hrepair]
    refine (repair_pending env snapshot memory.ledger pickup w.mailbox).imp id ?_
    rintro ⟨msg, hid, hwrite⟩
    refine ⟨msg, pickup.injectedAt, ?_, hwrite⟩
    rw [hid]
    exact hentered.pickup_new hpickup hother
  · refine .inl (List.eq_nil_iff_forall_not_mem.mpr fun other hmem => ?_)
    simp only [actions, hsettle, mem_writes] at hmem
    exact settleAccepted_writes hmem
  · obtain ⟨-, hnew⟩ := hentered.pick_new hnone hledger hspent hpick
    exact .inr ⟨pick.msg, env.now, hnew, by simp only [actions, hdispatch]; rfl⟩

theorem perform_queue {action : Action} (h : perform w action = some v) :
    v.calls = w.calls ∧ v.turns = w.turns ∧
      (writeOf action = none ∧ v.mailbox = w.mailbox ∧ v.queued = w.queued ∨
        ∃ input, writeOf action = some input ∧ v.mailbox = some input ∧
          v.queued = w.queued ++ [input.messageId]) := by
  cases action with
  | remember _ | journal _ _ _ _ | saveCursors =>
    obtain ⟨_, _, rfl⟩ := Option.map_eq_some_iff.mp h
    exact ⟨rfl, rfl, .inl ⟨rfl, rfl, rfl⟩⟩
  | appendAck _ | hold _ _ | clearHold =>
    obtain rfl := Option.some.inj h
    exact ⟨rfl, rfl, .inl ⟨rfl, rfl, rfl⟩⟩
  | refuse _ => cases h
  | writeInput input =>
    simp only [perform] at h
    split at h
    · obtain rfl := Option.some.inj h
      exact ⟨rfl, rfl, .inr ⟨input, rfl, rfl, rfl⟩⟩
    · cases h

theorem queue_unlocked (h : Queue P w) : Queue P { w with holder := .free } where
  once := by
    simp only [Holder.pending, List.map_nil, List.append_nil]
    exact (List.nodup_append.mp h.once).1
  shaped input hinput := by cases hinput

/-- What a step of the daemon does to the mailbox: nothing, or the first write that was pending. -/
structure Delivers (P : RuntimeInput → Prop) (w v : World) : Prop where
  queue : Queue P v
  calls : v.calls = w.calls
  turns : v.turns = w.turns
  mailbox : v.mailbox = w.mailbox ∧ v.queued = w.queued ∨
    ∃ input ∈ w.holder.pending, v.mailbox = some input ∧ v.queued = w.queued ++ [input.messageId]

theorem delivers_same (h : Queue P w) (hqueued : v.queued = w.queued)
    (hholder : v.holder.pending = w.holder.pending) (hcalls : v.calls = w.calls)
    (hturns : v.turns = w.turns) (hmailbox : v.mailbox = w.mailbox) : Delivers P w v where
  queue := by
    refine ⟨?_, ?_⟩
    · rw [hqueued, hholder]
      exact h.once
    · rw [hholder]
      exact h.shaped
  calls := hcalls
  turns := hturns
  mailbox := .inl ⟨hmailbox, hqueued⟩

theorem delivers_unlocked (h : Queue P w) : Delivers P w { w with holder := .free } where
  queue := queue_unlocked h
  calls := rfl
  turns := rfl
  mailbox := .inl ⟨rfl, rfl⟩

theorem Queue.daemonStep (h : Queue P w)
    (hstep : step dateParse recipientKey w .daemonStep = some v) : Delivers P w v := by
  simp only [step] at hstep
  cases hholder : w.holder with
  | free => simp [hholder] at hstep
  | owner phase => simp [hholder] at hstep
  | daemon actions =>
    cases actions with
    | nil =>
      simp only [hholder, Option.some.injEq] at hstep
      subst hstep
      exact delivers_unlocked h
    | cons action rest =>
      simp only [hholder] at hstep
      cases hperform : perform w action with
      | none =>
        simp only [hperform, Option.some.injEq] at hstep
        subst hstep
        exact delivers_unlocked h
      | some done =>
        simp only [hperform, Option.some.injEq] at hstep
        subst hstep
        obtain ⟨hcalls, hturns, ⟨hnone, hmailbox, hqueued⟩ | ⟨input, hwrite, hmailbox, hqueued⟩⟩ :=
          perform_queue hperform
        · have hpending : w.holder.pending = rest.filterMap writeOf := by
            rw [hholder]
            exact List.filterMap_cons_none hnone
          exact delivers_same h hqueued hpending.symm hcalls hturns hmailbox
        · have hpending : w.holder.pending = input :: rest.filterMap writeOf := by
            rw [hholder]
            exact List.filterMap_cons_some hwrite
          refine ⟨⟨?_, ?_⟩, hcalls, hturns, .inr ⟨input, ?_, hmailbox, hqueued⟩⟩
          · have honce := h.once
            rw [hpending, List.map_cons] at honce
            simpa only [hqueued, Holder.pending, List.append_assoc, List.singleton_append]
              using honce
          · intro other hother
            exact h.shaped other (by rw [hpending]; exact List.mem_cons_of_mem _ hother)
          · rw [hpending]
            exact List.mem_cons_self

/-- A pass asks for the lock and plans its write. -/
theorem Queue.pass {env : PassEnv} (h : Queue P w) (hw : Good recipientKey w)
    (hshape : ∀ msg at_, P (queuedInput env msg at_))
    (hstep : step dateParse recipientKey w (.pass env) = some v) : Delivers P w v := by
  simp only [step] at hstep
  split at hstep
  · next memory hfree hloaded =>
    split at hstep
    · cases hstep
    · next hvisited =>
      obtain rfl := Option.some.inj hstep
      have honce : w.queued.Nodup := (List.nodup_append.mp h.once).1
      refine ⟨?_, rfl, rfl, .inl ⟨rfl, rfl⟩⟩
      rcases @Good.pass_pending dateParse _ _ _ env hw hloaded (by simpa using hvisited) with
        hnone | ⟨msg, at_, hnew, hone⟩
      · refine ⟨?_, ?_⟩
        · simp only [Holder.pending, hnone, List.map_nil, List.append_nil]
          exact honce
        · intro input hinput
          simp only [Holder.pending, hnone] at hinput
          cases hinput
      · refine ⟨?_, ?_⟩
        · simp only [Holder.pending, hone, List.map_cons, List.map_nil]
          exact Lib.Machine.nodup_grow honce hnew
        · intro input hinput
          simp only [Holder.pending, hone, List.mem_singleton] at hinput
          subst hinput
          exact ⟨rfl, hshape msg at_⟩
  · cases hstep

/-- Every event of the daemon and of those who write letters and read them. -/
theorem Queue.step (h : Queue P w) (hw : Good recipientKey w) (howner : ofOwner e = false)
    (hshape : ∀ env, e = .pass env → ∀ msg at_, P (queuedInput env msg at_))
    (hstep : NativeRun.step dateParse recipientKey w e = some v) : Delivers P w v := by
  cases e with
  | pass env => exact h.pass hw (hshape env rfl) hstep
  | daemonStep => exact h.daemonStep hstep
  | tick _ | ownerStep | response _ | ownerStop | providerStart _ _ | foreignTurn _ => cases howner
  | send msg =>
    obtain ⟨-, hnext⟩ := Option.ite_none_right_eq_some.mp hstep
    obtain rfl := Option.some.inj hnext
    exact delivers_same h rfl rfl rfl rfl rfl
  | ack row | mark key len =>
    obtain rfl := Option.some.inj hstep
    exact delivers_same h rfl rfl rfl rfl rfl
  | load =>
    simp only [NativeRun.step] at hstep
    split at hstep
    · cases hstep
    · obtain rfl := Option.some.inj hstep
      exact delivers_same h rfl rfl rfl rfl rfl
  | elsewhere change =>
    simp only [NativeRun.step] at hstep
    split at hstep
    · cases hstep
    · cases hstep
    · split at hstep
      · obtain rfl := Option.some.inj hstep
        exact delivers_same h rfl rfl rfl rfl rfl
      · cases hstep
  | flush =>
    simp only [NativeRun.step] at hstep
    split at hstep
    · cases hstep
    · obtain ⟨_, _, rfl⟩ := Option.map_eq_some_iff.mp hstep
      exact delivers_same h rfl rfl rfl rfl rfl
  | daemonFail =>
    simp only [NativeRun.step] at hstep
    split at hstep
    · obtain rfl := Option.some.inj hstep
      exact delivers_unlocked h
    · cases hstep
  | daemonCrash =>
    simp only [NativeRun.step] at hstep
    split at hstep
    · obtain rfl := Option.some.inj hstep
      exact ⟨⟨(queue_unlocked h).once, (queue_unlocked h).shaped⟩, rfl, rfl, .inl ⟨rfl, rfl⟩⟩
    · obtain rfl := Option.some.inj hstep
      exact delivers_same h rfl rfl rfl rfl rfl

theorem step_free (hfree : w.holder = .free) (howner : ofOwner e = false)
    (hpass : ∀ env, e ≠ .pass env)
    (hstep : NativeRun.step dateParse recipientKey w e = some v) : v.holder = .free := by
  cases e with
  | pass env => exact absurd rfl (hpass env)
  | tick _ | ownerStep | response _ | ownerStop | providerStart _ _ | foreignTurn _ => cases howner
  | flush =>
    simp only [NativeRun.step, hfree] at hstep
    obtain ⟨_, _, rfl⟩ := Option.map_eq_some_iff.mp hstep
    exact hfree
  | _ =>
    simp only [NativeRun.step, hfree] at hstep
    repeat' split at hstep
    all_goals cases hstep <;> rfl

end

end Ccmux.Chat.NativeRun
