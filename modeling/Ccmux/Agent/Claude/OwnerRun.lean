/- Module: Ccmux/Agent/Claude/OwnerRun
   source: src/agent/claude/native/owner.ts, src/agent/claude/native/mailboxes.ts,
     src/agent/claude/native/turn.ts
   digest: When the counter of a turn is the number of its permissions, in every order of steps. -/

import Ccmux.Agent.Claude.Owner

namespace Ccmux.Agent.Claude.Owner

open Ccmux.Agent.Claude.Turn
open Ccmux.Lib.Machine
open Ccmux.Runtime.Response

/-- The counter is the size of the map, the state waits exactly where the map has an entry, and a
turn that has ended is idle where it has none: the status is terminal until the next turn starts. -/
structure Matches (w : World) : Prop where
  counted : w.turn.outstanding = w.pending.length
  waits : w.turn.state.waiting = true ↔ w.pending ≠ []
  rests : isRunning w.turn.status = false → w.pending = [] → w.turn.state = .idle

/-- The step empties the map, resets the counter or starts a turn only where nothing is pending, and
no output of the stream arrives after the end of a turn that nothing is pending for. -/
@[grind =]
def keepsCount (w : World) : Event → Bool
  | .marked =>
    match w.tick with
    | .marking command => !w.cancellable command || w.pending.isEmpty
    | _ => true
  | .interruptResolves => w.pending.isEmpty
  | .streamThrows => w.pending.isEmpty
  | .reported => w.pending.isEmpty
  | .streamEnds => w.pending.isEmpty
  | .closes => w.pending.isEmpty
  | .picks _ => w.pending.isEmpty
  | .compacts _ => w.pending.isEmpty
  | .message message =>
    !progress (classifySdkMessage message.type) || isRunning w.turn.status || !w.pending.isEmpty
  | _ => true

section
variable {w v : World}

theorem matches_iff : Matches w ↔ Counts w.turn w.pending.length := by
  constructor
  · intro h
    refine ⟨h.counted, ?_, ?_⟩
    · rw [h.waits, ne_eq, ne_eq, List.length_eq_zero_iff]
    · intro hended hnone
      exact h.rests hended (List.length_eq_zero_iff.mp hnone)
  · intro h
    refine ⟨h.counted, ?_, ?_⟩
    · rw [h.waits, ne_eq, ne_eq, List.length_eq_zero_iff]
    · intro hended hnone
      exact h.rests hended (List.length_eq_zero_iff.mpr hnone)

theorem matches_start (generation : String) : Matches (startWorld generation) :=
  (matches_iff).mpr counts_initial

theorem Matches.same (h : Matches w) (hturn : v.turn = w.turn) (hpending : v.pending = w.pending) :
    Matches v := by
  rw [matches_iff, hturn, hpending]
  exact (matches_iff).mp h

theorem Matches.decide (h : Matches w) (requestId : String) : Matches (w.decide requestId) := by
  rw [matches_iff, decide_length]
  exact ((matches_iff).mp h).requested .request .approval false

theorem Matches.submit (h : Matches w) (command : NativeResponseCommand) :
    Matches (w.submit command) := by
  rcases submit_cases (w := w) command with hfails | ⟨request, hmem, hid, decision, -, hsubmit⟩
  · rw [hfails]
    exact h.same rfl rfl
  · rw [hsubmit, matches_iff]
    have herase : w.pending.length =
        (w.pending.eraseP fun item => item.requestId == command.requestId).length + 1 := by
      have hlength := List.length_eraseP_of_mem
        (p := fun item : NativePendingRequest => item.requestId == command.requestId) hmem (by simp [hid])
      have hpos := List.length_pos_of_mem hmem
      omega
    have hcounts := (matches_iff).mp h
    rw [herase] at hcounts
    exact hcounts.answered

/-! The steps that forget what is pending keep the count exactly where nothing is. -/

theorem matches_emptied (h : Matches w) (hturn : v.turn = w.turn) (hpending : v.pending = []) :
    Matches v ↔ w.pending.isEmpty = true := by
  rw [List.isEmpty_iff]
  constructor
  · intro hv
    have hcounted := hv.counted
    rw [hturn, hpending, h.counted] at hcounted
    exact List.length_eq_zero_iff.mp hcounted
  · intro hnone
    exact h.same hturn (hpending.trans hnone.symm)

theorem matches_reset (hturn : v.turn = advanceTurn w.turn .interrupted ∨
    v.turn = advanceTurn w.turn .failed) (hpending : v.pending = w.pending) :
    Matches v ↔ w.pending.isEmpty = true := by
  rw [matches_iff, hpending, List.isEmpty_iff, ← List.length_eq_zero_iff]
  rcases hturn with hturn | hturn
  · rw [hturn]
    exact counts_interrupted
  · rw [hturn]
    exact counts_failed

theorem matches_begin (h : Matches w) (nativeId : String) :
    Matches (w.begin nativeId) ↔ w.pending.isEmpty = true := by
  rw [matches_iff, begin_turn, begin_pending, List.isEmpty_iff]
  constructor
  · intro hcounts
    by_contra hsome
    exact not_counts_begin (mt List.length_eq_zero_iff.mp hsome) hcounts
  · intro hnone
    have hcounts := (matches_iff).mp h
    rw [hnone] at hcounts ⊢
    exact hcounts.begin

theorem matches_receive (h : Matches w) (message : SdkMessage) :
    Matches (w.receive message) ↔ keepsCount w (.message message) = true := by
  rw [matches_iff, receive_pending]
  simp only [keepsCount, Bool.or_eq_true, Bool.not_eq_true', List.isEmpty_eq_false_iff]
  have hcounts := (matches_iff).mp h
  constructor
  · intro hafter
    by_contra hlate
    obtain ⟨⟨hprogress, hended⟩, hnone⟩ : (progress (classifySdkMessage message.type) = true ∧
        isRunning w.turn.status = false) ∧ w.pending = [] := by
      simpa [not_or] using hlate
    rw [hnone] at hcounts hafter
    exact not_counts_late hcounts hprogress hended hafter
  · intro hkeeps
    apply hcounts.messaged
    intro hprogress
    rcases hkeeps with (hskip | hrun) | hsome
    · rw [hprogress] at hskip
      cases hskip
    · exact .inl hrun
    · exact .inr (mt List.length_eq_zero_iff.mp hsome)

variable {e : Event}

/-- A step keeps the count exactly where the condition holds. -/
theorem step_matches (h : Matches w) (hstep : step w e = some v) :
    Matches v ↔ keepsCount w e = true := by
  cases e with
  | asks requestId =>
    simp only [step] at hstep
    split at hstep
    · cases hstep
    · obtain rfl := Option.some.inj hstep
      exact iff_of_true (h.decide requestId) rfl
  | interrupt command =>
    simp only [step] at hstep
    split at hstep
    · obtain rfl := Option.some.inj hstep
      refine iff_of_true ?_ rfl
      split
      · exact h.same rfl rfl
      · exact h
    · cases hstep
  | marked =>
    simp only [step] at hstep
    split at hstep
    · rename_i command htick
      obtain rfl := Option.some.inj hstep
      simp only [keepsCount, htick, Bool.or_eq_true, Bool.not_eq_true']
      split
      · rename_i hcancellable
        simp only [hcancellable, Bool.true_eq_false, false_or]
        exact matches_emptied h rfl rfl
      · rename_i hcancellable
        refine iff_of_true (h.same rfl rfl) (.inl ?_)
        simpa using hcancellable
    · cases hstep
  | interruptResolves =>
    simp only [step] at hstep
    split at hstep
    · obtain rfl := Option.some.inj hstep
      exact matches_reset (.inl rfl) rfl
    · cases hstep
  | interruptRejects =>
    simp only [step] at hstep
    split at hstep
    · obtain rfl := Option.some.inj hstep
      exact iff_of_true (h.same rfl rfl) rfl
    · cases hstep
  | response command receipt =>
    simp only [step] at hstep
    split at hstep
    · split at hstep
      · obtain rfl := Option.some.inj hstep
        exact iff_of_true (h.same rfl rfl) rfl
      · obtain rfl := Option.some.inj hstep
        exact iff_of_true h rfl
    · cases hstep
  | submits =>
    simp only [step] at hstep
    split at hstep
    · rename_i command _
      obtain rfl := Option.some.inj hstep
      exact iff_of_true (h.submit command) rfl
    · cases hstep
  | picks nativeId =>
    simp only [step] at hstep
    split at hstep
    · obtain rfl := Option.some.inj hstep
      exact matches_begin h nativeId
    · cases hstep
  | compacts nativeId =>
    simp only [step] at hstep
    split at hstep
    · cases hstep
    · obtain rfl := Option.some.inj hstep
      exact matches_begin h nativeId
  | message message =>
    simp only [step] at hstep
    split at hstep
    · obtain rfl := Option.some.inj hstep
      exact matches_receive h message
    · cases hstep
  | streamThrows =>
    simp only [step] at hstep
    split at hstep
    · obtain rfl := Option.some.inj hstep
      exact matches_reset (.inr rfl) rfl
    · cases hstep
  | reported =>
    simp only [step] at hstep
    split at hstep
    · obtain rfl := Option.some.inj hstep
      exact matches_emptied h rfl rfl
    · cases hstep
  | streamEnds =>
    simp only [step] at hstep
    split at hstep
    · obtain rfl := Option.some.inj hstep
      exact matches_emptied h rfl rfl
    · cases hstep
  | throws =>
    simp only [step] at hstep
    split at hstep
    · cases hstep
    · obtain rfl := Option.some.inj hstep
      exact iff_of_true (h.same rfl rfl) rfl
  | closes =>
    simp only [step] at hstep
    split at hstep
    · obtain rfl := Option.some.inj hstep
      exact matches_emptied h rfl rfl
    · cases hstep

/-- In every order of steps, the counter is the number of pending permissions after each step, the
state waits exactly where there is one, and an ended turn rests, exactly if every step meets the
condition. -/
theorem counter_matches_pending (generation : String) (es : List Event) (w : World)
    (hrun : run step (startWorld generation) es = some w) :
    (∀ u, Reached step (startWorld generation) es u → Matches u) ↔
      Along step (fun w e => keepsCount w e = true) (startWorld generation) es := by
  symm
  apply along_iff_reached (I := Matches) _ _ _ hrun (matches_start generation)
  · intro s e t h hkeeps hstep
    exact (step_matches h hstep).mpr hkeeps
  · intro s h
    exact h
  · intro s e t h hbreaks hstep hmatches
    exact hbreaks ((step_matches h hstep).mp hmatches)

/-! Whatever the counter says, no permission is settled twice, and none is forgotten. -/

theorem submit_known (command : NativeResponseCommand) :
    (w.submit command).known.Perm w.known := by
  rcases submit_cases (w := w) command with hfails | ⟨request, hmem, hid, decision, -, hsubmit⟩
  · rw [hfails]
    exact List.Perm.refl _
  · rw [hsubmit, World.known, World.known, List.map_append, List.append_assoc, ← hid]
    exact (erase_perm hmem).append_left _

theorem step_known (hstep : step w e = some v) :
    v.known.Perm w.known ∨ ∃ requestId ∉ w.known, v.known = w.known ++ [requestId] := by
  cases e with
  | asks requestId =>
    simp only [step] at hstep
    split at hstep
    · cases hstep
    · rename_i hfresh
      obtain rfl := Option.some.inj hstep
      refine .inr ⟨requestId, ?_, decide_known requestId⟩
      simpa using hfresh
  | marked =>
    simp only [step] at hstep
    split at hstep
    · obtain rfl := Option.some.inj hstep
      refine .inl (.of_eq ?_)
      split
      · exact settleAll_known .cancel
      · rfl
    · cases hstep
  | submits =>
    simp only [step] at hstep
    split at hstep
    · obtain rfl := Option.some.inj hstep
      exact .inl (submit_known _)
    · cases hstep
  | reported =>
    simp only [step] at hstep
    split at hstep
    · obtain rfl := Option.some.inj hstep
      exact .inl (.of_eq (settleAll_known .cancel))
    · cases hstep
  | streamEnds =>
    simp only [step] at hstep
    split at hstep
    · obtain rfl := Option.some.inj hstep
      exact .inl (.of_eq (settleAll_known .cancel))
    · cases hstep
  | closes =>
    simp only [step] at hstep
    split at hstep
    · obtain rfl := Option.some.inj hstep
      exact .inl (.of_eq (settleAll_known .decline))
    · cases hstep
  | response command receipt =>
    simp only [step] at hstep
    split at hstep
    · split at hstep <;> obtain rfl := Option.some.inj hstep <;> exact .inl (.refl _)
    · cases hstep
  | interrupt command =>
    simp only [step] at hstep
    split at hstep
    · obtain rfl := Option.some.inj hstep
      split <;> exact .inl (.refl _)
    · cases hstep
  | _ =>
    simp only [step] at hstep
    split at hstep <;>
      first
        | (obtain rfl := Option.some.inj hstep; exact .inl (.refl _))
        | cases hstep

/-- No permission is settled twice, and none that is settled is still pending. -/
theorem permissions_settle_once {generation : String} {es : List Event}
    (hrun : run step (startWorld generation) es = some w) : w.known.Nodup := by
  refine run_invariant (P := fun u => u.known.Nodup) ?_ hrun List.nodup_nil
  intro u e t hu hstep
  rcases step_known hstep with hperm | ⟨requestId, hfresh, hgrows⟩
  · exact hperm.nodup_iff.mpr hu
  · rw [hgrows, List.nodup_append_comm]
    exact List.nodup_cons.mpr ⟨hfresh, hu⟩

end

/-! One permission that is answered, and one that an interrupt cancels. -/

def accepting (generation requestId : String) : NativeResponseCommand :=
  commandOf ⟨"o", generation, requestId, .approval, some .accept, none⟩

def answeredTurn : List Event :=
  [.picks "t", .message ⟨"assistant", false, none⟩, .asks "r",
    .response (some (accepting "g" "r")) none, .submits, .message ⟨"result", false, some "success"⟩,
    .interrupt ⟨"t", "g"⟩, .closes]

theorem permissions_settle_once_answered :
    ∃ w, run step (startWorld "g") answeredTurn = some w ∧ w.known = ["r"] ∧ w.known.Nodup := by
  have hruns : ((run step (startWorld "g") answeredTurn).any fun w =>
      decide (w.known = ["r"])) = true := by decide
  obtain ⟨w, hrun, hw⟩ := (Option.any_eq_true _ _).mp hruns
  exact ⟨w, hrun, of_decide_eq_true hw, permissions_settle_once hrun⟩

/-- The interrupt settles the permission, and its call rejects. -/
def rejectedInterrupt : List Event :=
  [.picks "t", .asks "r", .interrupt ⟨"t", "g"⟩, .marked, .interruptRejects]

/-- A permission is asked while the interrupt is awaited. -/
def lateRequest : List Event :=
  [.picks "t", .interrupt ⟨"t", "g"⟩, .marked, .asks "r", .interruptResolves]

theorem counter_matches_pending_answered :
    ∃ w, run step (startWorld "g") answeredTurn = some w ∧
      ∀ u, Reached step (startWorld "g") answeredTurn u → Matches u := by
  have hruns : ((run step (startWorld "g") answeredTurn).any fun w =>
      decide (w.tick = .closed)) = true := by decide
  obtain ⟨w, hrun, -⟩ := (Option.any_eq_true _ _).mp hruns
  exact ⟨w, hrun, (counter_matches_pending "g" answeredTurn w hrun).mpr
    (along_of_check (C := keepsCount) (by decide))⟩

/-- The session waits for nothing, or is idle where a permission waits. -/
theorem interrupt_miscounts :
    (∃ w, run step (startWorld "g") rejectedInterrupt = some w ∧ w.pending = [] ∧
      w.turn.outstanding = 1 ∧ w.turn.state = .waitingApproval ∧ ¬ Matches w) ∧
    ∃ w, run step (startWorld "g") lateRequest = some w ∧ w.pending = [approvalRequest "r"] ∧
      w.turn.outstanding = 0 ∧ w.turn.state = .idle ∧ ¬ Matches w := by
  constructor
  · have hruns : ((run step (startWorld "g") rejectedInterrupt).any fun w =>
        decide (w.pending = [] ∧ w.turn.outstanding = 1 ∧ w.turn.state = .waitingApproval)) =
          true := by decide
    obtain ⟨w, hrun, hw⟩ := (Option.any_eq_true _ _).mp hruns
    obtain ⟨hpending, hcount, hstate⟩ := of_decide_eq_true hw
    refine ⟨w, hrun, hpending, hcount, hstate, ?_⟩
    intro h
    have hcounted := h.counted
    rw [hcount, hpending] at hcounted
    cases hcounted
  · have hruns : ((run step (startWorld "g") lateRequest).any fun w =>
        decide (w.pending = [approvalRequest "r"] ∧ w.turn.outstanding = 0 ∧
          w.turn.state = .idle)) = true := by decide
    obtain ⟨w, hrun, hw⟩ := (Option.any_eq_true _ _).mp hruns
    obtain ⟨hpending, hcount, hstate⟩ := of_decide_eq_true hw
    refine ⟨w, hrun, hpending, hcount, hstate, ?_⟩
    intro h
    have hcounted := h.counted
    rw [hcount, hpending] at hcounted
    cases hcounted

end Ccmux.Agent.Claude.Owner
