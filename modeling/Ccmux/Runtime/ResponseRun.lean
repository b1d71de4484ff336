/- Module: Ccmux/Runtime/ResponseRun
   source: src/runtime/response.ts, src/control/nativeFeed.ts
   digest: Answers submitted and retried against one command and one receipt file. -/

import Ccmux.Lib.Machine
import Ccmux.Runtime.Response

namespace Ccmux.Runtime.Response

open Ccmux.Lib.Machine
open Ccmux.Runtime.Mailbox (AppError)

/-- One call of `respondControlNative`; `recorded` says that its operation had a receipt before. -/
structure Call where
  input : ResponseInput
  recorded : Bool
  point : Point

/-- The files of one session, what its runtime publishes and holds, and the histories of what
reached the runtime and of the receipts. -/
structure World where
  published : Option ControlNativeSnapshot
  pending : List NativePendingRequest
  command : Option NativeResponseCommand
  receipt : Option NativeResponseReceipt
  calls : List Call
  owner : OwnerPoint
  submitted : List NativeResponseCommand
  recorded : List NativeResponseReceipt

inductive Event where
  | publish (snapshot : Option ControlNativeSnapshot)
  | hold (pending : List NativePendingRequest)
  | ask (input : ResponseInput)
  | callWrites (i : Nat)
  | callLooks (i : Nat)
  | callGivesUp (i : Nat)
  | ownerTakes
  | ownerWrites
  | ownerSubmits (pending : List NativePendingRequest)
  | ownerClears
  | ownerStops

def startWorld : World := ⟨none, [], none, none, [], .idle, [], []⟩

def World.setPoint (w : World) (i : Nat) (call : Call) (point : Point) : World :=
  { w with calls := w.calls.set i { call with point } }

def World.writeReceipt (w : World) (receipt : NativeResponseReceipt) (owner : OwnerPoint) : World :=
  { w with receipt := some receipt, recorded := w.recorded ++ [receipt], owner }

/-- The receipt file holds the receipt of this operation. -/
def ownReceipt (w : World) (operationId : String) : Bool :=
  w.receipt.any fun receipt => receipt.operationId == operationId

/-- The operation has been given a receipt. -/
def isRecorded (w : World) (operationId : String) : Bool :=
  w.recorded.any fun receipt => receipt.operationId == operationId

def submittedIds (w : World) : List String := w.submitted.map fun command => command.operationId

/-- One step of the callers and of the owner of generation `g`; the runtimes that answer through
these files journal no continuation. -/
@[grind =]
def step (g : String) (w : World) : Event → Option World
  | .publish snapshot => some { w with published := snapshot }
  | .hold pending => some { w with pending }
  | .ask input =>
    let point := respondControlNative [] w.receipt w.published w.command input
    some { w with calls := w.calls ++ [⟨input, isRecorded w input.operationId, point⟩] }
  | .callWrites i =>
    match w.calls[i]? with
    | some call =>
      match call.point with
      | .writing command => some { w.setPoint i call .waiting with command := some command }
      | _ => none
    | none => none
  | .callLooks i =>
    match w.calls[i]? with
    | some call =>
      match call.point with
      | .waiting => some (w.setPoint i call (lookForReceipt w.receipt call.input.operationId))
      | _ => none
    | none => none
  | .callGivesUp i =>
    match w.calls[i]? with
    | some call =>
      match call.point with
      | .waiting => some (w.setPoint i call (.gaveUp .uncertain))
      | _ => none
    | none => none
  | .ownerTakes =>
    match w.owner with
    | .idle => some { w with owner := answerNativeCommand w.command w.receipt g w.pending }
    | _ => none
  | .ownerWrites =>
    match w.owner with
    | .rejecting command reason =>
      some (w.writeReceipt (receiptOf command .rejected (some reason)) .clearing)
    | .announcing command =>
      some (w.writeReceipt (receiptOf command .uncertain none) (.submitting command))
    | .recording command => some (w.writeReceipt (receiptOf command .submitted none) .clearing)
    | _ => none
  | .ownerSubmits pending =>
    match w.owner with
    | .submitting command =>
      some { w with pending, submitted := w.submitted ++ [command], owner := .recording command }
    | _ => none
  | .ownerClears =>
    match w.owner with
    | .clearing => some { w with command := none, owner := .idle }
    | _ => none
  | .ownerStops => some { w with owner := .idle }

/-- No operation was submitted to the runtime twice. -/
def SubmittedOnce (w : World) : Prop := (submittedIds w).Nodup

instance (w : World) : Decidable (SubmittedOnce w) := inferInstanceAs (Decidable (submittedIds w).Nodup)

/-- The owner's passes over the files up to the call of the runtime, whatever requests it holds. -/
def submission (pending : List NativePendingRequest) : List Event :=
  [.hold pending, .ownerTakes, .ownerWrites, .ownerSubmits pending]

/-- No operation was submitted twice, nor is one by the next submission. -/
def SubmitsOnce (g : String) (w : World) : Prop :=
  SubmittedOnce w ∧ ∀ pending u, run (step g) w (submission pending) = some u → SubmittedOnce u

/-- Every call whose operation had a receipt was answered from a receipt of that operation. -/
def RetriesAnswered (w : World) : Prop :=
  ∀ call ∈ w.calls, call.recorded = true → ∃ receipt, receipt.operationId = call.input.operationId ∧
    call.point = .fromReceipt receipt (priorAnswer receipt call.input)

/-- The stored command is one that the owner would submit although its operation was submitted. -/
def retaken (g : String) (w : World) (command : Option NativeResponseCommand) : Bool :=
  command.any fun c => answerable g c && (submittedIds w).contains c.operationId &&
    !ownReceipt w c.operationId

def World.busy (w : World) : Bool :=
  match w.owner with
  | .idle => false
  | _ => true

/-- A retry comes while the receipt of its operation is in the file; no command of a submitted
operation is written past another's receipt, unless the owner is about to clear it; and the owner
stops where it leaves no such command. -/
def keepsReceipts (g : String) (w : World) : Event → Bool
  | .ask input => !isRecorded w input.operationId || ownReceipt w input.operationId
  | .callWrites i =>
    match w.calls[i]? with
    | some call =>
      match call.point with
      | .writing command => w.busy || !retaken g w (some command)
      | _ => true
    | none => true
  | .ownerStops => !retaken g w w.command
  | _ => true

/-! What a step may leave behind. -/

structure Sound (g : String) (w : World) : Prop where
  once : SubmittedOnce w
  safe : w.owner = .idle → retaken g w w.command = false
  fresh : ∀ command, w.owner = .announcing command ∨ w.owner = .submitting command →
    command.operationId ∉ submittedIds w
  retries : RetriesAnswered w

section
variable {g : String} {w v u : World}

theorem busy_eq_false : w.busy = false ↔ w.owner = .idle := by
  unfold World.busy
  cases w.owner <;> simp

variable {command : NativeResponseCommand} {i : Nat}

theorem retaken_some : retaken g w (some command) = false ↔
    (answerable g command = true → ownReceipt w command.operationId = false →
      command.operationId ∉ submittedIds w) := by
  simp only [retaken, Option.any_some, Bool.and_eq_false_iff, Bool.not_eq_false',
    List.contains_eq_mem, decide_eq_false_iff_not]
  constructor
  · rintro ((hanswer | hnew) | hown) ha ho
    · rw [ha] at hanswer
      cases hanswer
    · exact hnew
    · rw [ho] at hown
      cases hown
  · intro h
    cases ha : answerable g command with
    | false => exact .inl (.inl rfl)
    | true =>
      cases ho : ownReceipt w command.operationId with
      | true => exact .inr rfl
      | false => exact .inl (.inr (h ha ho))

theorem sound_start : Sound g startWorld := by
  refine ⟨List.nodup_nil, fun _ => rfl, ?_, ?_⟩
  · rintro _ (h | h) <;> cases h
  · intro call hcall
    cases hcall

theorem Sound.congr (h : Sound g w) (hsubmitted : v.submitted = w.submitted)
    (howner : v.owner = w.owner) (hcommand : v.command = w.command)
    (hreceipt : v.receipt = w.receipt) (hretries : RetriesAnswered v) : Sound g v := by
  have hids : submittedIds v = submittedIds w := by rw [submittedIds, hsubmitted, submittedIds]
  refine ⟨?_, ?_, ?_, hretries⟩
  · rw [SubmittedOnce, hids]
    exact h.once
  · intro hidle
    have hsafe := h.safe (howner ▸ hidle)
    rw [hcommand]
    unfold retaken ownReceipt at hsafe ⊢
    rw [hids, hreceipt]
    exact hsafe
  · rw [hids, howner]
    exact h.fresh

theorem retries_setPoint (h : RetriesAnswered w) {i : Nat} {call : Call} {point : Point}
    (hcall : w.calls[i]? = some call)
    (hopen : ∀ receipt answer, call.point ≠ .fromReceipt receipt answer) :
    RetriesAnswered (w.setPoint i call point) := by
  intro other hother hrecorded
  rcases List.mem_or_eq_of_mem_set hother with hold | rfl
  · exact h other hold hrecorded
  · obtain ⟨receipt, -, hpoint⟩ := h call (List.mem_of_getElem? hcall) hrecorded
    exact absurd hpoint (hopen receipt _)

theorem step_callWrites (h : step g w (.callWrites i) = some v) :
    ∃ call command, w.calls[i]? = some call ∧ call.point = .writing command ∧
      v = { w.setPoint i call .waiting with command := some command } := by
  simp only [step] at h
  split at h
  · rename_i call hcall
    split at h
    · rename_i command hpoint
      exact ⟨call, command, hcall, hpoint, (Option.some.inj h).symm⟩
    · cases h
  · cases h

theorem step_callLooks (h : step g w (.callLooks i) = some v) :
    ∃ call point, w.calls[i]? = some call ∧ call.point = .waiting ∧ v = w.setPoint i call point := by
  simp only [step] at h
  split at h
  · rename_i call hcall
    split at h
    · rename_i hpoint
      exact ⟨call, _, hcall, hpoint, (Option.some.inj h).symm⟩
    · cases h
  · cases h

theorem step_callGivesUp (h : step g w (.callGivesUp i) = some v) :
    ∃ call point, w.calls[i]? = some call ∧ call.point = .waiting ∧ v = w.setPoint i call point := by
  simp only [step] at h
  split at h
  · rename_i call hcall
    split at h
    · rename_i hpoint
      exact ⟨call, _, hcall, hpoint, (Option.some.inj h).symm⟩
    · cases h
  · cases h

variable {input : ResponseInput} {e : Event}

theorem respond_ownReceipt (h : ownReceipt w input.operationId = true) :
    ∃ receipt, receipt.operationId = input.operationId ∧
      respondControlNative [] w.receipt w.published w.command input =
        .fromReceipt receipt (priorAnswer receipt input) := by
  unfold ownReceipt at h
  cases hreceipt : w.receipt with
  | none =>
    rw [hreceipt] at h
    cases h
  | some receipt =>
    rw [hreceipt, Option.any_some, beq_iff_eq] at h
    have hfilter : ((some receipt).filter fun prior => prior.operationId == input.operationId) =
        some receipt := by simp [Option.filter, h]
    refine ⟨receipt, h, ?_⟩
    simp only [respondControlNative, List.find?_nil, hfilter]

theorem respond_other (h : ownReceipt w input.operationId = false)
    (receipt : NativeResponseReceipt) (answer : Except AppError Outcome) :
    respondControlNative [] w.receipt w.published w.command input ≠ .fromReceipt receipt answer := by
  have hfilter : (w.receipt.filter fun prior => prior.operationId == input.operationId) = none := by
    unfold ownReceipt at h
    cases hreceipt : w.receipt with
    | none => rfl
    | some prior =>
      rw [hreceipt, Option.any_some] at h
      simp only [Option.filter, h, Bool.false_eq_true, if_false]
  simp only [respondControlNative, List.find?_nil, hfilter]
  split
  · exact Point.noConfusion
  · split_ifs
    · exact Point.noConfusion
    · exact Point.noConfusion
    · split
      · exact Point.noConfusion
      · split_ifs <;> exact Point.noConfusion

/-- The owner announces only a command that it could submit and whose receipt is not in the file. -/
theorem answerNativeCommand_announcing
    (h : answerNativeCommand w.command w.receipt g w.pending = .announcing command) :
    w.command = some command ∧ answerable g command = true ∧
      ownReceipt w command.operationId = false := by
  unfold answerNativeCommand at h
  cases hcommand : w.command with
  | none =>
    rw [hcommand] at h
    cases h
  | some stored =>
    rw [hcommand] at h
    dsimp only at h
    split at h
    · cases h
    · rename_i hown
      split at h
      · cases h
      · rename_i hrefusal
        obtain rfl := OwnerPoint.announcing.inj h
        refine ⟨rfl, ?_, by simpa [ownReceipt] using hown⟩
        cases hrequest : w.pending.find? fun item => item.requestId == stored.requestId with
        | none =>
          rw [hrequest] at hrefusal
          unfold nativeResponseRefusal at hrefusal
          split at hrefusal <;> cases hrefusal
        | some request =>
          rw [hrequest] at hrefusal
          exact answerable_of_taken hrefusal

theorem answerNativeCommand_ne_submitting :
    answerNativeCommand w.command w.receipt g w.pending ≠ .submitting command := by
  unfold answerNativeCommand
  split
  · exact OwnerPoint.noConfusion
  · split_ifs
    · exact OwnerPoint.noConfusion
    · dsimp only
      split <;> exact OwnerPoint.noConfusion

theorem answerNativeCommand_idle
    (h : answerNativeCommand w.command w.receipt g w.pending = .idle) : w.command = none := by
  unfold answerNativeCommand at h
  split at h
  · rename_i hcommand
    exact hcommand
  · split_ifs at h
    dsimp only at h
    split at h <;> cases h

theorem step_sound (h : Sound g w) (hkeeps : keepsReceipts g w e = true)
    (hstep : step g w e = some v) : Sound g v := by
  cases e with
  | publish snapshot =>
    obtain rfl := Option.some.inj hstep
    exact h.congr rfl rfl rfl rfl h.retries
  | hold pending =>
    obtain rfl := Option.some.inj hstep
    exact h.congr rfl rfl rfl rfl h.retries
  | ask input =>
    obtain rfl := Option.some.inj hstep
    refine h.congr rfl rfl rfl rfl ?_
    intro call hcall hrecorded
    rcases List.mem_append.mp hcall with hold | hnew
    · exact h.retries call hold hrecorded
    · obtain rfl := List.mem_singleton.mp hnew
      dsimp only at hrecorded
      have hown : ownReceipt w input.operationId = true := by
        simpa [keepsReceipts, hrecorded] using hkeeps
      exact respond_ownReceipt hown
  | callWrites i =>
    obtain ⟨call, command, hcall, hpoint, rfl⟩ := step_callWrites hstep
    have hretries : RetriesAnswered (w.setPoint i call .waiting) :=
      retries_setPoint h.retries hcall (by simp [hpoint])
    refine ⟨h.once, ?_, h.fresh, hretries⟩
    intro hidle
    have hbusy : w.busy = false := busy_eq_false.mpr hidle
    have hsafe : retaken g w (some command) = false := by
      simpa [keepsReceipts, hcall, hpoint, hbusy] using hkeeps
    exact hsafe
  | callLooks i =>
    obtain ⟨call, point, hcall, hpoint, rfl⟩ := step_callLooks hstep
    exact h.congr rfl rfl rfl rfl (retries_setPoint h.retries hcall (by simp [hpoint]))
  | callGivesUp i =>
    obtain ⟨call, point, hcall, hpoint, rfl⟩ := step_callGivesUp hstep
    exact h.congr rfl rfl rfl rfl (retries_setPoint h.retries hcall (by simp [hpoint]))
  | ownerTakes =>
    simp only [step] at hstep
    split at hstep
    · rename_i hidle
      have hsafe := h.safe hidle
      obtain rfl := Option.some.inj hstep
      refine ⟨h.once, ?_, ?_, h.retries⟩
      · intro hstays
        have hnone : w.command = none := answerNativeCommand_idle hstays
        dsimp only
        rw [hnone]
        rfl
      · rintro command (hannouncing | hsubmitting)
        · obtain ⟨hcommand, hanswer, hown⟩ := answerNativeCommand_announcing hannouncing
          rw [hcommand, retaken_some] at hsafe
          exact hsafe hanswer hown
        · exact absurd hsubmitting answerNativeCommand_ne_submitting
    · cases hstep
  | ownerWrites =>
    simp only [step] at hstep
    split at hstep
    · obtain rfl := Option.some.inj hstep
      refine ⟨h.once, (fun hi => by cases hi), ?_, h.retries⟩
      rintro _ (hc | hc) <;> cases hc
    · rename_i command howner
      obtain rfl := Option.some.inj hstep
      refine ⟨h.once, (fun hi => by cases hi), ?_, h.retries⟩
      rintro _ (hc | hc)
      · cases hc
      · obtain rfl := OwnerPoint.submitting.inj hc
        exact h.fresh command (.inl howner)
    · obtain rfl := Option.some.inj hstep
      refine ⟨h.once, (fun hi => by cases hi), ?_, h.retries⟩
      rintro _ (hc | hc) <;> cases hc
    · cases hstep
  | ownerSubmits pending =>
    simp only [step] at hstep
    split at hstep
    · rename_i command howner
      obtain rfl := Option.some.inj hstep
      have hnew := h.fresh command (.inr howner)
      refine ⟨?_, (fun hi => by cases hi), ?_, h.retries⟩
      · rw [SubmittedOnce, submittedIds, List.map_append]
        exact nodup_grow h.once hnew
      · rintro _ (hc | hc) <;> cases hc
    · cases hstep
  | ownerClears =>
    simp only [step] at hstep
    split at hstep
    · obtain rfl := Option.some.inj hstep
      refine ⟨h.once, fun _ => rfl, ?_, h.retries⟩
      rintro _ (hc | hc) <;> cases hc
    · cases hstep
  | ownerStops =>
    obtain rfl := Option.some.inj hstep
    have hsafe : retaken g w w.command = false := by simpa [keepsReceipts] using hkeeps
    refine ⟨h.once, fun _ => hsafe, ?_, h.retries⟩
    rintro _ (hc | hc) <;> cases hc

theorem Sound.submitsOnce (h : Sound g w) : SubmitsOnce g w := by
  refine ⟨h.once, ?_⟩
  intro pending u hrun
  have hsound : Sound g u := by
    refine run_invariant_along (C := fun w e => keepsReceipts g w e = true)
      (fun _ _ _ hs hc hstep => step_sound hs hc hstep) hrun ?_ h
    refine ⟨rfl, fun _ _ => ⟨rfl, fun _ _ => ⟨rfl, fun _ _ => ⟨rfl, fun _ _ => trivial⟩⟩⟩⟩
  exact hsound.once

/-! A submitted command left without its receipt is submitted again. -/

theorem retaken_submits (hidle : w.owner = .idle) (h : retaken g w w.command = true) :
    ¬ SubmitsOnce g w := by
  cases hcommand : w.command with
  | none =>
    rw [hcommand] at h
    cases h
  | some command =>
    rw [hcommand] at h
    simp only [retaken, Option.any_some, Bool.and_eq_true, List.contains_eq_mem,
      decide_eq_true_eq, Bool.not_eq_true'] at h
    obtain ⟨⟨hanswer, hmem⟩, hown⟩ := h
    rintro ⟨-, hsubmission⟩
    let held := { w with pending := [requestFor command] }
    let announced := { held with owner := .announcing command }
    let written := announced.writeReceipt (receiptOf command .uncertain none) (.submitting command)
    have htakes : step g held .ownerTakes = some announced := by
      have hown' : ¬ (w.receipt.any fun prior => prior.operationId == command.operationId) = true := by
        simpa [ownReceipt] using hown
      have hfind : ([requestFor command].find? fun item => item.requestId == command.requestId) =
          some (requestFor command) := by simp [requestFor]
      simp only [step, held, hidle, answerNativeCommand, hcommand, if_neg hown', hfind,
        refusal_requestFor hanswer, announced]
    let sent := { written with submitted := w.submitted ++ [command] }
    have hrun : run (step g) w (submission [requestFor command]) =
        some { sent with owner := .recording command } := by
      refine run_cons.mpr ⟨held, rfl, ?_⟩
      refine run_cons.mpr ⟨announced, htakes, ?_⟩
      rfl
    have honce := hsubmission [requestFor command] _ hrun
    rw [SubmittedOnce, submittedIds, List.map_append, List.nodup_append] at honce
    exact honce.2.2 command.operationId hmem command.operationId (by simp) rfl

theorem broken_step (hbroken : ¬ keepsReceipts g w e = true)
    (hstep : step g w e = some v) : ¬ (SubmitsOnce g v ∧ RetriesAnswered v) := by
  cases e with
  | ask input =>
    obtain rfl := Option.some.inj hstep
    simp only [keepsReceipts, Bool.or_eq_true, Bool.not_eq_true', not_or, Bool.not_eq_false,
      Bool.not_eq_true] at hbroken
    rintro ⟨-, hretries⟩
    obtain ⟨receipt, -, hpoint⟩ := hretries _ (List.mem_append_right _ (List.mem_singleton_self _))
      hbroken.1
    exact respond_other hbroken.2 receipt _ hpoint
  | callWrites i =>
    obtain ⟨call, command, hcall, hpoint, rfl⟩ := step_callWrites hstep
    simp only [keepsReceipts, hcall, hpoint, Bool.or_eq_true, Bool.not_eq_true', not_or,
      Bool.not_eq_true, Bool.not_eq_false] at hbroken
    refine fun hboth => retaken_submits ?_ ?_ hboth.1
    · exact busy_eq_false.mp hbroken.1
    · exact hbroken.2
  | ownerStops =>
    obtain rfl := Option.some.inj hstep
    have hretaken : retaken g w w.command = true := by simpa [keepsReceipts] using hbroken
    refine fun hboth => retaken_submits ?_ ?_ hboth.1
    · rfl
    · exact hretaken
  | publish snapshot => exact absurd rfl hbroken
  | hold pending => exact absurd rfl hbroken
  | callLooks i => exact absurd rfl hbroken
  | callGivesUp i => exact absurd rfl hbroken
  | ownerTakes => exact absurd rfl hbroken
  | ownerWrites => exact absurd rfl hbroken
  | ownerSubmits pending => exact absurd rfl hbroken
  | ownerClears => exact absurd rfl hbroken

/-- In every state a run reaches no answer was submitted twice, none is by the next submission, and
every retry was answered from its receipt, exactly when the run keeps the receipts of its retries. -/
theorem answers_are_submitted_once (g : String) (es : List Event) (w : World)
    (hrun : run (step g) startWorld es = some w) :
    (∀ v, Reached (step g) startWorld es v → SubmitsOnce g v ∧ RetriesAnswered v) ↔
      Along (step g) (fun v e => keepsReceipts g v e = true) startWorld es :=
  (along_iff_reached (fun _ _ _ hs hkeeps hstep => step_sound hs hkeeps hstep)
    (fun _ hs => ⟨hs.submitsOnce, hs.retries⟩)
    (fun _ _ _ _ hbroken hstep => broken_step hbroken hstep) hrun sound_start).symm

end

/-! An answer whose submission threw, retried after another answer was recorded. -/

def approvalOf (requestId : String) : NativePendingRequest :=
  { requestId, kind := .approval, decisions := [.accept, .decline] }

def acceptOf (operationId requestId : String) : ResponseInput :=
  ⟨operationId, "g", requestId, .approval, some .accept, none⟩

def bothPending : List NativePendingRequest := [approvalOf "r1", approvalOf "r2"]

/-- An answer that is asked, submitted, recorded and cleared. -/
def answerRound (i : Nat) (input : ResponseInput) (left : List NativePendingRequest) : List Event :=
  [.ask input, .callWrites i, .ownerTakes, .ownerWrites, .ownerSubmits left, .ownerWrites,
    .ownerClears, .callLooks i]

def twoAnswers : List Event :=
  [.publish (some ⟨"g", bothPending⟩), .hold bothPending] ++
    answerRound 0 (acceptOf "first" "r1") [approvalOf "r2"] ++
    answerRound 1 (acceptOf "second" "r2") []

/-- The runtime was told, but the call threw and the request stayed pending; the next pass finds
the uncertain receipt and clears the command. -/
def thrownAnswer : List Event :=
  [.publish (some ⟨"g", bothPending⟩), .hold bothPending, .ask (acceptOf "first" "r1"),
    .callWrites 0, .ownerTakes, .ownerWrites, .ownerSubmits bothPending, .ownerStops, .ownerTakes,
    .ownerClears, .callLooks 0]

def retriedAnswer : List Event :=
  thrownAnswer ++ answerRound 1 (acceptOf "second" "r2") [approvalOf "r1"] ++
    answerRound 2 (acceptOf "first" "r1") []

theorem answers_are_submitted_once_two :
    ∃ w, run (step "g") startWorld twoAnswers = some w ∧
      ∀ v, Reached (step "g") startWorld twoAnswers v → SubmitsOnce "g" v ∧ RetriesAnswered v := by
  have hruns : (run (step "g") startWorld twoAnswers).isSome = true := by decide
  obtain ⟨w, hrun⟩ := Option.isSome_iff_exists.mp hruns
  refine ⟨w, hrun, (answers_are_submitted_once "g" twoAnswers w hrun).mpr ?_⟩
  exact along_of_check (C := keepsReceipts "g") (by decide)

/-- The first answer had an uncertain receipt; retried after the second, it is submitted again. -/
theorem retried_answer_is_submitted_again :
    ∃ w, run (step "g") startWorld retriedAnswer = some w ∧
      submittedIds w = ["first", "second", "first"] ∧
      (w.calls[2]?.map fun call => (call.input, call.recorded)) =
        some (acceptOf "first" "r1", true) ∧
      ¬ SubmittedOnce w := by
  have hruns : ((run (step "g") startWorld retriedAnswer).any fun w =>
      decide (submittedIds w = ["first", "second", "first"] ∧
        (w.calls[2]?.map fun call => (call.input, call.recorded)) =
          some (acceptOf "first" "r1", true) ∧
        ¬ SubmittedOnce w)) = true := by decide
  obtain ⟨w, hrun, hw⟩ := (Option.any_eq_true _ _).mp hruns
  exact ⟨w, hrun, of_decide_eq_true hw⟩

end Ccmux.Runtime.Response
