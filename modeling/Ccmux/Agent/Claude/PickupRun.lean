/- Module: Ccmux/Agent/Claude/PickupRun
   source: src/agent/claude/native/pickup.ts
   digest: Every input is pushed at most once, and a failed dispatch is taken up by a later pass. -/

import Ccmux.Agent.Claude.Pickup

namespace Ccmux.Agent.Claude.Pickup

open Ccmux.Lib.Machine
open Ccmux.Runtime.Input

/-- The input was pushed, and the slot says that it is accepted. -/
def Delivered (w : World) (nativeId : String) : Prop :=
  nativeId ∈ w.pushed ∧ ∃ input, w.slot = some input ∧ input.nativeId = nativeId ∧
    input.phase = .accepted

/-- The steps of a pass that nothing interrupts deliver the input. -/
def Settles (now : String) (w : World) (nativeId : String) : Prop :=
  ∃ k v, run step w (List.replicate k (.advance now)) = some v ∧ Delivered v nativeId

/-- An input that is not accepted is delivered by the next uninterrupted pass: of a restarted
process, or of the same one where no turn runs. -/
def Recoverable (w : World) : Prop :=
  ∀ input, w.slot = some input → input.phase ≠ .accepted → w.delegationStopped = false → ∀ now,
    (w.owner = none → ∃ restarted ticked, step w .starts = some restarted ∧
      step restarted .tick = some ticked ∧ Settles now ticked input.nativeId) ∧
    ∀ owner, w.owner = some owner → owner.point = .idle → owner.turnInProgress = false →
      ∃ ticked, step w .tick = some ticked ∧ Settles now ticked input.nativeId

/-- Where the delegated work has ended and its process is gone, nothing is pushed any more. -/
def Ended (w : World) : Prop :=
  w.delegationStopped = true → w.owner = none →
    ∀ es v, run step w es = some v → v.pushed = w.pushed

/-! What a step may leave behind. -/

structure SlotOk (w : World) (input : RuntimeInput) : Prop where
  used : input.nativeId ∈ w.used
  queued : input.phase = .queued → input.nativeId ∉ w.pushed
  accepted : input.phase = .accepted → input.nativeId ∈ w.pushed
  certain : input.phase ≠ .uncertain

/-- The slot holds the dispatch of this input. -/
def Dispatching (w : World) (input : RuntimeInput) : Prop :=
  ∃ held, w.slot = some held ∧ held.nativeId = input.nativeId ∧ held.phase = .dispatching

def PointOk (w : World) (owner : Owner) : Prop :=
  match owner.point with
  | .idle => ∀ input, w.slot = some input → input.phase ≠ .accepted →
      owner.dispatched ≠ some input.nativeId
  | .adopting input => w.slot = some input ∧ input.nativeId ∈ w.pushed
  | .requeueing input => w.slot = some input ∧ input.nativeId ∉ w.pushed ∧
      owner.dispatched ≠ some input.nativeId
  | .reading => ∀ input, w.slot = some input → input.phase ≠ .accepted →
      input.phase = .queued ∧ owner.dispatched ≠ some input.nativeId
  | .announcing input _ => w.slot = some input ∧ input.nativeId ∉ w.pushed
  | .selecting input => Dispatching w input ∧ input.nativeId ∉ w.pushed
  | .flagging input => Dispatching w input ∧ input.nativeId ∉ w.pushed
  | .building input => Dispatching w input ∧ input.nativeId ∉ w.pushed
  | .accepting input => Dispatching w input ∧ input.nativeId ∈ w.pushed

structure Sound (w : World) : Prop where
  once : w.pushed.Nodup
  record : w.transcript = w.pushed
  settled : ∀ nativeId ∈ w.accepted, nativeId ∈ w.pushed
  known : ∀ nativeId ∈ w.pushed, nativeId ∈ w.used
  slot : ∀ input, w.slot = some input → SlotOk w input
  owner : ∀ owner, w.owner = some owner → PointOk w owner
  dispatched : ∀ owner, w.owner = some owner → ∀ nativeId, owner.dispatched = some nativeId →
    nativeId ∈ w.used

section
variable {w v : World} {input : RuntimeInput} {owner : Owner} {now : String}

theorem sound_start : Sound startWorld := by
  refine ⟨List.nodup_nil, rfl, ?_, ?_, ?_, ?_, ?_⟩
  · intro nativeId h
    cases h
  · intro nativeId h
    cases h
  · intro input h
    cases h
  · intro owner h
    cases h
  · intro owner h
    cases h

theorem delivered_iff (h : Sound w) (input : RuntimeInput) :
    nativeInputDelivered w.transcript input = true ↔ input.nativeId ∈ w.pushed := by
  rw [nativeInputDelivered, h.record, List.contains_iff_mem]

/-! The owner ends, or stands at another point. -/

theorem SlotOk.same (h : SlotOk w input) (hused : v.used = w.used) (hpushed : v.pushed = w.pushed) :
    SlotOk v input := by
  refine ⟨?_, ?_, ?_, h.certain⟩
  · rw [hused]
    exact h.used
  · rw [hpushed]
    exact h.queued
  · rw [hpushed]
    exact h.accepted

theorem Sound.ends (h : Sound w) : Sound { w with owner := none } := by
  refine ⟨h.once, h.record, h.settled, h.known,
    fun input hslot => (h.slot input hslot).same rfl rfl, ?_, ?_⟩
  · intro owner howner
    cases howner
  · intro owner howner
    cases howner

theorem Sound.goOn (h : Sound w) {next : Owner} (hpoint : PointOk w next)
    (hdispatched : ∀ nativeId, next.dispatched = some nativeId → nativeId ∈ w.used) :
    Sound { w with owner := some next } := by
  refine ⟨h.once, h.record, h.settled, h.known,
    fun input hslot => (h.slot input hslot).same rfl rfl, ?_, ?_⟩
  · intro other hother
    obtain rfl := Option.some.inj hother
    exact hpoint
  · intro other hother
    obtain rfl := Option.some.inj hother
    exact hdispatched

theorem Sound.write (h : Sound w) {written : RuntimeInput} {next : Owner} {accepted : List String}
    (hwritten : SlotOk w written) (hsettled : ∀ nativeId ∈ accepted, nativeId ∈ w.pushed)
    (hpoint : PointOk { w with slot := some written } next)
    (hdispatched : ∀ nativeId, next.dispatched = some nativeId → nativeId ∈ w.used) :
    Sound { w with slot := some written, accepted, owner := some next } := by
  refine ⟨h.once, h.record, hsettled, h.known, ?_, ?_, ?_⟩
  · intro input hinput
    obtain rfl := Option.some.inj hinput
    exact hwritten.same rfl rfl
  · intro other hother
    obtain rfl := Option.some.inj hother
    exact hpoint
  · intro other hother
    obtain rfl := Option.some.inj hother
    exact hdispatched

theorem slotOk_accepted (hused : input.nativeId ∈ w.used) (hpushed : input.nativeId ∈ w.pushed) :
    SlotOk w { input with phase := .accepted } :=
  ⟨hused, (fun hqueued => by cases hqueued), fun _ => hpushed, InputPhase.noConfusion⟩

theorem accepted_append (h : Sound w) (hpushed : input.nativeId ∈ w.pushed) :
    ∀ nativeId ∈ w.accepted ++ [input.nativeId], nativeId ∈ w.pushed := by
  intro nativeId hmem
  rcases List.mem_append.mp hmem with hold | hlast
  · exact h.settled nativeId hold
  · rw [List.mem_singleton.mp hlast]
    exact hpushed

theorem Dispatching.used (h : Sound w) (hd : Dispatching w input) : input.nativeId ∈ w.used := by
  obtain ⟨held, hslot, hid, -⟩ := hd
  rw [← hid]
  exact (h.slot held hslot).used

/-! The steps of a pass. -/

theorem begin_ok (h : Sound w) (howner : w.owner = some owner) (hidle : owner.point = .idle) :
    PointOk w (begin w.transcript owner w.slot) ∧
      ∀ nativeId, (begin w.transcript owner w.slot).dispatched = some nativeId →
        nativeId ∈ w.used := by
  have hpoint := h.owner owner howner
  rw [PointOk, hidle] at hpoint
  have hdispatched := h.dispatched owner howner
  cases hslot : w.slot with
  | none =>
    refine ⟨?_, hdispatched⟩
    intro input hinput
    rw [hslot] at hinput
    cases hinput
  | some pending =>
    have hpending := h.slot pending hslot
    by_cases hphase : pending.phase = .dispatching
    · simp only [begin, if_pos hphase, reconcile]
      have hne := hpoint pending hslot (by rw [hphase]; exact InputPhase.noConfusion)
      rw [if_neg hne]
      split
      · rename_i hdelivered
        refine ⟨⟨hslot, (delivered_iff h pending).mp hdelivered⟩, ?_⟩
        intro nativeId hid
        obtain rfl := Option.some.inj hid
        exact hpending.used
      · rename_i hdelivered
        refine ⟨⟨hslot, ?_, hne⟩, hdispatched⟩
        exact fun hmem => hdelivered ((delivered_iff h pending).mpr hmem)
    · simp only [begin, if_neg hphase]
      refine ⟨?_, hdispatched⟩
      intro input hinput hopen
      rw [hslot] at hinput
      obtain rfl := Option.some.inj hinput
      refine ⟨?_, hpoint pending hslot hopen⟩
      have hcertain := hpending.certain
      cases hp : pending.phase <;> simp_all

theorem take_ok (h : Sound w) (howner : w.owner = some owner) (hreading : owner.point = .reading)
    (now : String) : PointOk w (take owner w.slot now) ∧
      ∀ nativeId, (take owner w.slot now).dispatched = some nativeId → nativeId ∈ w.used := by
  have hpoint := h.owner owner howner
  rw [PointOk, hreading] at hpoint
  have hdispatched := h.dispatched owner howner
  cases hslot : w.slot with
  | none =>
    refine ⟨?_, hdispatched⟩
    intro input hinput
    rw [hslot] at hinput
    cases hinput
  | some input =>
    have hinput := h.slot input hslot
    simp only [take]
    split
    · rename_i htaken
      refine ⟨⟨hslot, hinput.queued htaken.1⟩, ?_⟩
      intro nativeId hid
      obtain rfl := Option.some.inj hid
      exact hinput.used
    · refine ⟨?_, hdispatched⟩
      intro other hother hopen
      exact (hpoint other hother hopen).2

theorem step_advance (h : step w (.advance now) = some v) :
    ∃ owner, w.owner = some owner ∧ owner.point ≠ .idle ∧
      v = { (advance w owner now).1 with owner := (advance w owner now).2 } := by
  simp only [step] at h
  split at h
  · rename_i owner howner
    split at h
    · cases h
    · rename_i hpoint
      exact ⟨owner, howner, hpoint, (Option.some.inj h).symm⟩
  · cases h

theorem advance_step (howner : w.owner = some owner) (hpoint : owner.point ≠ .idle) :
    step w (.advance now) =
      some { (advance w owner now).1 with owner := (advance w owner now).2 } := by
  simp only [step, howner, if_neg hpoint]

theorem advance_sound (h : Sound w) (howner : w.owner = some owner) :
    Sound { (advance w owner now).1 with owner := (advance w owner now).2 } := by
  have hpoint := h.owner owner howner
  have hdispatched := h.dispatched owner howner
  unfold PointOk at hpoint
  unfold advance
  split
  · rename_i hp
    rw [hp] at hpoint
    refine h.goOn ?_ hdispatched
    rw [PointOk, hp]
    exact hpoint
  · rename_i input hp
    rw [hp] at hpoint
    refine h.write (slotOk_accepted (h.slot input hpoint.1).used hpoint.2)
      (accepted_append h hpoint.2) ?_ hdispatched
    intro other hother hopen
    obtain rfl := Option.some.inj hother
    exact absurd rfl hopen
  · rename_i input hp
    rw [hp] at hpoint
    have hslot := h.slot input hpoint.1
    have hqueued : SlotOk w { input with phase := .queued } :=
      ⟨hslot.used, fun _ => hpoint.2.1, (fun ha => by cases ha), InputPhase.noConfusion⟩
    refine h.write hqueued h.settled ?_ hdispatched
    intro other hother _
    obtain rfl := Option.some.inj hother
    exact ⟨rfl, hpoint.2.2⟩
  · rename_i hp
    obtain ⟨htake, hused⟩ := take_ok h howner hp now
    exact h.goOn htake hused
  · rename_i input startedAt hp
    rw [hp] at hpoint
    have hslot := h.slot input hpoint.1
    have hdispatching : SlotOk w
        { input with phase := .dispatching, dispatchedAt := some startedAt } :=
      ⟨hslot.used, (fun hq => by cases hq), (fun ha => by cases ha), InputPhase.noConfusion⟩
    refine h.write hdispatching h.settled ?_ hdispatched
    exact ⟨⟨_, rfl, rfl, rfl⟩, hpoint.2⟩
  · rename_i input hp
    rw [hp] at hpoint
    exact h.goOn hpoint hdispatched
  · rename_i input hp
    rw [hp] at hpoint
    split
    · exact h.ends
    · exact h.goOn hpoint hdispatched
  · rename_i input hp
    rw [hp] at hpoint
    obtain ⟨hd, hnew⟩ := hpoint
    have hused := hd.used h
    have hpushes : ∀ nativeId, nativeId ∈ w.pushed → nativeId ∈ w.pushed ++ [input.nativeId] :=
      fun nativeId hmem => List.mem_append_left _ hmem
    refine ⟨?_, ?_, fun nativeId hmem => hpushes nativeId (h.settled nativeId hmem), ?_, ?_, ?_, ?_⟩
    · exact nodup_grow h.once hnew
    · change w.transcript ++ [input.nativeId] = w.pushed ++ [input.nativeId]
      rw [h.record]
    · intro nativeId hmem
      rcases List.mem_append.mp hmem with hold | hlast
      · exact h.known nativeId hold
      · rw [List.mem_singleton.mp hlast]
        exact hused
    · intro other hother
      obtain ⟨held, hheld, hid, hphase⟩ := hd
      have hsame : other = held := Option.some.inj (hother.symm.trans hheld)
      subst hsame
      refine ⟨(h.slot other hheld).used, ?_, fun ha => hpushes _ ((h.slot other hheld).accepted ha),
        (h.slot other hheld).certain⟩
      intro hqueued
      rw [hphase] at hqueued
      cases hqueued
    · intro other hother
      obtain rfl := Option.some.inj hother
      exact ⟨hd, List.mem_append_right _ List.mem_cons_self⟩
    · intro other hother
      obtain rfl := Option.some.inj hother
      exact hdispatched
  · rename_i input hp
    rw [hp] at hpoint
    refine h.write (slotOk_accepted (hpoint.1.used h) hpoint.2) (accepted_append h hpoint.2) ?_
      hdispatched
    intro other hother hopen
    obtain rfl := Option.some.inj hother
    exact absurd rfl hopen

theorem step_sound {e : Event} (h : Sound w) (hstep : step w e = some v) : Sound v := by
  cases e with
  | deliver input =>
    simp only [step] at hstep
    split at hstep
    · rename_i hguard
      obtain rfl := Option.some.inj hstep
      simp only [Bool.and_eq_true, Bool.not_eq_true', List.contains_eq_mem,
        decide_eq_false_iff_not] at hguard
      obtain ⟨⟨hidle, -⟩, hfresh⟩ := hguard
      have hgrows : ∀ nativeId ∈ w.used, nativeId ∈ w.used ++ [input.nativeId] :=
        fun _ hmem => List.mem_append_left _ hmem
      refine ⟨h.once, h.record, h.settled, fun _ hmem => hgrows _ (h.known _ hmem), ?_, ?_, ?_⟩
      · intro other hother
        obtain rfl := Option.some.inj hother
        refine ⟨List.mem_append_right _ List.mem_cons_self, ?_, (fun ha => by cases ha),
          InputPhase.noConfusion⟩
        exact fun _ hmem => hfresh (h.known _ hmem)
      · intro owner howner
        have hpoint : owner.point = .idle := by
          rw [howner] at hidle
          simpa using hidle
        rw [PointOk, hpoint]
        intro other hother _ hsame
        obtain rfl := Option.some.inj hother
        exact hfresh (h.dispatched owner howner _ hsame)
      · intro owner howner nativeId hid
        exact hgrows _ (h.dispatched owner howner nativeId hid)
    · cases hstep
  | starts =>
    simp only [step] at hstep
    split at hstep
    · obtain rfl := Option.some.inj hstep
      refine h.goOn ?_ ?_
      · intro input _ _ hsame
        cases hsame
      · intro nativeId hid
        cases hid
    · cases hstep
  | tick =>
    simp only [step] at hstep
    split at hstep
    · rename_i owner howner
      split at hstep
      · rename_i hguard
        obtain rfl := Option.some.inj hstep
        obtain ⟨hbegin, hused⟩ := begin_ok h howner hguard.1
        exact h.goOn hbegin hused
      · cases hstep
    · cases hstep
  | advance now =>
    obtain ⟨owner, howner, -, rfl⟩ := step_advance hstep
    exact advance_sound h howner
  | throws =>
    simp only [step] at hstep
    split at hstep
    · split at hstep
      · cases hstep
      · obtain rfl := Option.some.inj hstep
        exact h.ends
    · cases hstep
  | crashes =>
    obtain rfl := Option.some.inj hstep
    exact h.ends
  | turn inProgress =>
    simp only [step] at hstep
    split at hstep
    · rename_i owner howner
      obtain rfl := Option.some.inj hstep
      exact h.goOn (h.owner owner howner) (h.dispatched owner howner)
    · cases hstep
  | stopDelegation =>
    obtain rfl := Option.some.inj hstep
    exact ⟨h.once, h.record, h.settled, h.known,
      fun input hslot => (h.slot input hslot).same rfl rfl, h.owner, h.dispatched⟩

/-! A pass that nothing interrupts. -/

variable {nativeId : String}

theorem Delivered.settles (h : Delivered w nativeId) : Settles now w nativeId :=
  ⟨0, w, rfl, h⟩

/-- The state after the next await of the owner's pass. -/
def World.next (w : World) (owner : Owner) (now : String) : World :=
  { (advance w owner now).1 with owner := (advance w owner now).2 }

theorem settles_next (howner : w.owner = some owner)
    (hpoint : owner.point ≠ .idle) (h : Settles now (w.next owner now) nativeId) :
    Settles now w nativeId := by
  obtain ⟨k, v, hrun, hv⟩ := h
  refine ⟨k + 1, v, ?_, hv⟩
  rw [List.replicate_succ]
  exact run_cons.mpr ⟨_, advance_step howner hpoint, hrun⟩

theorem settles_accepting (h : Sound w) (howner : w.owner = some owner)
    (hp : owner.point = .accepting input) : Settles now w input.nativeId := by
  have hpoint := h.owner owner howner
  rw [PointOk, hp] at hpoint
  refine settles_next howner (by simp [hp]) (Delivered.settles ?_)
  rw [World.next, advance, hp]
  exact ⟨hpoint.2, _, rfl, rfl, rfl⟩

theorem settles_building (h : Sound w) (howner : w.owner = some owner)
    (hp : owner.point = .building input) : Settles now w input.nativeId := by
  have hnext : (w.next owner now).owner = some { owner with point := .accepting input } := by
    rw [World.next, advance, hp]
  exact settles_next howner (by simp [hp])
    (settles_accepting (advance_sound h howner) hnext rfl)

theorem settles_flagging (h : Sound w) (howner : w.owner = some owner)
    (hopen : w.delegationStopped = false) (hp : owner.point = .flagging input) :
    Settles now w input.nativeId := by
  have hnext : (w.next owner now).owner = some { owner with point := .building input } := by
    simp only [World.next, advance, hp, hopen, Bool.false_eq_true, if_false]
  exact settles_next howner (by simp [hp])
    (settles_building (advance_sound h howner) hnext rfl)

theorem settles_selecting (h : Sound w) (howner : w.owner = some owner)
    (hopen : w.delegationStopped = false) (hp : owner.point = .selecting input) :
    Settles now w input.nativeId := by
  have hnext : (w.next owner now).owner = some { owner with point := .flagging input } := by
    rw [World.next, advance, hp]
  have hstill : (w.next owner now).delegationStopped = false := by
    rw [World.next, advance, hp]
    exact hopen
  exact settles_next howner (by simp [hp])
    (settles_flagging (advance_sound h howner) hnext hstill rfl)

theorem settles_announcing (h : Sound w) (howner : w.owner = some owner)
    (hopen : w.delegationStopped = false) {startedAt : String}
    (hp : owner.point = .announcing input startedAt) : Settles now w input.nativeId := by
  have hnext : (w.next owner now).owner = some { owner with point := .selecting input } := by
    rw [World.next, advance, hp]
  have hstill : (w.next owner now).delegationStopped = false := by
    rw [World.next, advance, hp]
    exact hopen
  exact settles_next howner (by simp [hp])
    (settles_selecting (advance_sound h howner) hnext hstill rfl)

theorem settles_reading (h : Sound w) (howner : w.owner = some owner)
    (hopen : w.delegationStopped = false) (hp : owner.point = .reading)
    (hslot : w.slot = some input) (hunaccepted : input.phase ≠ .accepted)
    (hturn : owner.turnInProgress = false) : Settles now w input.nativeId := by
  have hpoint := h.owner owner howner
  rw [PointOk, hp] at hpoint
  obtain ⟨hqueued, hne⟩ := hpoint input hslot hunaccepted
  have hnext : (w.next owner now).owner = some
      { dispatched := some input.nativeId, turnInProgress := true,
        point := .announcing input now } := by
    simp only [World.next, advance, hp, take, hslot, hqueued, hne, hturn, ne_eq,
      not_false_eq_true, and_self, if_true]
  have hstill : (w.next owner now).delegationStopped = false := by
    rw [World.next, advance, hp]
    exact hopen
  exact settles_next howner (by simp [hp])
    (settles_announcing (advance_sound h howner) hnext hstill rfl)

/-- A pass over an input that is not accepted delivers it. -/
theorem settles_tick (h : Sound w) (howner : w.owner = some owner)
    (hopen : w.delegationStopped = false) (hp : owner.point = .idle)
    (hslot : w.slot = some input) (hunaccepted : input.phase ≠ .accepted)
    (hturn : owner.turnInProgress = false) :
    ∃ ticked, step w .tick = some ticked ∧ Settles now ticked input.nativeId := by
  have hwanted : wanted w.slot owner = true := by
    simp [wanted, hslot, hturn, hunaccepted]
  have htick : step w .tick = some { w with owner := some (begin w.transcript owner w.slot) } := by
    simp only [step, howner, hp, hopen, hwanted, Bool.not_false, and_self, if_true]
  refine ⟨_, htick, ?_⟩
  have hticked := step_sound h htick
  have hpoint := h.owner owner howner
  rw [PointOk, hp] at hpoint
  have hne := hpoint input hslot hunaccepted
  by_cases hphase : input.phase = .dispatching
  · by_cases hdelivered : nativeInputDelivered w.transcript input = true
    · have hbegin : begin w.transcript owner w.slot =
          { owner with dispatched := some input.nativeId, point := .adopting input } := by
        simp only [begin, hslot, hphase, if_true, reconcile, if_neg hne, hdelivered]
      rw [hbegin] at hticked ⊢
      refine settles_next rfl (by simp) (Delivered.settles ?_)
      exact ⟨(delivered_iff h input).mp hdelivered, _, rfl, rfl, rfl⟩
    · have hbegin : begin w.transcript owner w.slot =
          { owner with point := .requeueing input } := by
        simp only [begin, hslot, hphase, if_true, reconcile, if_neg hne, hdelivered,
          Bool.false_eq_true, if_false]
      rw [hbegin] at hticked ⊢
      refine settles_next rfl (by simp) ?_
      let queued : RuntimeInput := { input with phase := .queued }
      have hqueued : queued.phase ≠ .accepted := InputPhase.noConfusion
      exact @settles_reading _ queued _ now (advance_sound hticked rfl) rfl hopen rfl rfl hqueued
        hturn
  · have hbegin : begin w.transcript owner w.slot = { owner with point := .reading } := by
      simp only [begin, hslot, if_neg hphase]
    rw [hbegin] at hticked ⊢
    exact settles_reading hticked rfl hopen rfl hslot hunaccepted hturn

theorem Sound.recoverable (h : Sound w) : Recoverable w := by
  intro input hslot hunaccepted hopen now
  constructor
  · intro hnone
    have hstarts : step w .starts = some { w with owner := some ⟨none, false, .idle⟩ } := by
      simp only [step, hnone, hopen, Option.isNone_none, Bool.not_false, Bool.and_self, if_true]
    obtain ⟨ticked, htick, hsettles⟩ :=
      @settles_tick _ input _ now (step_sound h hstarts) rfl hopen rfl hslot hunaccepted rfl
    exact ⟨_, ticked, hstarts, htick, hsettles⟩
  · intro owner howner hidle hturn
    exact settles_tick h howner hopen hidle hslot hunaccepted hturn

/-! After the end of the delegated work. -/

/-- Nothing starts a process again, and without one only a delivery changes the slot. -/
theorem ended_step (hstopped : w.delegationStopped = true) (hnone : w.owner = none) {e : Event}
    (hstep : step w e = some v) : v.delegationStopped = true ∧ v.owner = none ∧
      v.pushed = w.pushed ∧ (writable w.slot = false → v.slot = w.slot) := by
  cases e with
  | deliver input =>
    simp only [step] at hstep
    split at hstep
    · rename_i hguard
      obtain rfl := Option.some.inj hstep
      simp only [Bool.and_eq_true] at hguard
      refine ⟨hstopped, hnone, rfl, ?_⟩
      intro hheld
      rw [hguard.1.2] at hheld
      cases hheld
    · cases hstep
  | starts => simp [step, hstopped] at hstep
  | tick => simp [step, hnone] at hstep
  | advance now => simp [step, hnone] at hstep
  | throws => simp [step, hnone] at hstep
  | crashes =>
    obtain rfl := Option.some.inj hstep
    exact ⟨hstopped, rfl, rfl, fun _ => rfl⟩
  | turn inProgress => simp [step, hnone] at hstep
  | stopDelegation =>
    obtain rfl := Option.some.inj hstep
    exact ⟨rfl, hnone, rfl, fun _ => rfl⟩

theorem ended_run (hstopped : w.delegationStopped = true) (hnone : w.owner = none)
    {es : List Event} (hrun : run step w es = some v) : v.delegationStopped = true ∧
      v.owner = none ∧ v.pushed = w.pushed ∧ (writable w.slot = false → v.slot = w.slot) := by
  refine run_invariant (P := fun u => u.delegationStopped = true ∧ u.owner = none ∧
    u.pushed = w.pushed ∧ (writable w.slot = false → u.slot = w.slot)) ?_ hrun
    ⟨hstopped, hnone, rfl, fun _ => rfl⟩
  rintro u e t ⟨hu, hu_none, hpushed, hslot⟩ hstep
  obtain ⟨ht, ht_none, hpushed', hslot'⟩ := ended_step hu hu_none hstep
  refine ⟨ht, ht_none, hpushed'.trans hpushed, ?_⟩
  intro hheld
  have hsame := hslot hheld
  rw [hslot' (by rw [hsame]; exact hheld), hsame]

theorem ended (w : World) : Ended w := by
  intro hstopped hnone es v hrun
  exact (ended_run hstopped hnone hrun).2.2.1

/-- In every run, with a crash or a throw at any await: no input is pushed twice, only pushed ones
are marked accepted, an input that is not accepted is delivered by the next uninterrupted pass, and
after the delegated work has ended nothing is pushed. -/
theorem inputs_are_pushed_once (es : List Event) (w : World)
    (hrun : run step startWorld es = some w) :
    w.pushed.Nodup ∧ (∀ nativeId ∈ w.accepted, nativeId ∈ w.pushed) ∧ Recoverable w ∧ Ended w := by
  have h : Sound w := run_invariant (fun _ _ _ hs hstep => step_sound hs hstep) hrun sound_start
  exact ⟨h.once, h.settled, h.recoverable, ended w⟩

end

/-! A dispatch that throws, with and without the end of the delegated work. -/

def letter (nativeId : String) : RuntimeInput :=
  { messageId := nativeId, nativeId, text := "text", phase := .queued }

/-- The first pass throws while the model is selected, the second crashes between push and record. -/
def twiceFailed : List Event :=
  [.deliver (letter "a"), .starts, .tick, .advance "t1", .advance "t1", .throws,
    .starts, .tick, .advance "t2", .advance "t2", .advance "t2", .advance "t2", .advance "t2",
    .advance "t2", .crashes]

/-- The delegated work ends while the model is selected. -/
def stoppedDispatch : List Event :=
  [.deliver (letter "a"), .starts, .tick, .advance "t1", .advance "t1", .stopDelegation,
    .advance "t1", .advance "t1"]

theorem inputs_are_pushed_once_twice :
    ∃ w, run step startWorld twiceFailed = some w ∧ w.pushed = ["a"] ∧
      w.slot.map (fun input => input.phase) = some .dispatching ∧
      w.pushed.Nodup ∧ (∀ nativeId ∈ w.accepted, nativeId ∈ w.pushed) ∧ Recoverable w ∧ Ended w := by
  have hruns : ((run step startWorld twiceFailed).any fun w =>
      decide (w.pushed = ["a"] ∧ w.slot.map (fun input => input.phase) = some .dispatching)) =
        true := by decide
  obtain ⟨w, hrun, hw⟩ := (Option.any_eq_true _ _).mp hruns
  obtain ⟨hpushed, hslot⟩ := of_decide_eq_true hw
  exact ⟨w, hrun, hpushed, hslot, inputs_are_pushed_once twiceFailed w hrun⟩

/-- The letter was not pushed, and stays in phase dispatching whatever follows. -/
theorem stopped_dispatch_stays :
    ∃ w, run step startWorld stoppedDispatch = some w ∧ w.pushed = [] ∧
      w.slot.map (fun input => (input.nativeId, input.phase)) = some ("a", .dispatching) ∧
      ∀ es v, run step w es = some v → v.pushed = [] ∧ v.slot = w.slot := by
  have hruns : ((run step startWorld stoppedDispatch).any fun w =>
      decide (w.pushed = [] ∧ w.delegationStopped = true ∧ w.owner = none ∧
        writable w.slot = false ∧
        w.slot.map (fun input => (input.nativeId, input.phase)) = some ("a", .dispatching))) =
          true := by decide
  obtain ⟨w, hrun, hw⟩ := (Option.any_eq_true _ _).mp hruns
  obtain ⟨hpushed, hstopped, hnone, hheld, hslot⟩ := of_decide_eq_true hw
  refine ⟨w, hrun, hpushed, hslot, ?_⟩
  intro es v hes
  obtain ⟨-, -, hsame, hkept⟩ := ended_run hstopped hnone hes
  exact ⟨hsame.trans hpushed, hkept hheld⟩

end Ccmux.Agent.Claude.Pickup
