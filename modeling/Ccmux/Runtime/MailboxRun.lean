/- Module: Ccmux/Runtime/MailboxRun
   source: src/runtime/mailbox.ts, src/agent/claude/native/mailboxes.ts
   digest: Requests and owner passes on one mailbox, and when no command is executed twice. -/

import Ccmux.Lib.Machine
import Ccmux.Runtime.Mailbox

namespace Ccmux.Runtime.Mailbox

open Ccmux.Lib.Machine

/-- One call of `request`. -/
structure Caller (Receipt Result : Type) where
  operationId : String
  point : Point Receipt Result
  deriving DecidableEq, Repr

/-- Where the process that holds the runtime stands with the command it read. -/
inductive OwnerPoint (Receipt : Type) where
  | idle
  | announcing (receipt : Receipt)
  | executing (receipt : Receipt)
  | answering (answer : Receipt)
  deriving DecidableEq, Repr

/-- One mailbox, its callers and its owner; `executed` is the history of the commands that reached
the runtime. -/
structure World (Receipt Result : Type) where
  status : Option ManagedRuntimeSnapshot
  slot : Option Receipt
  callers : List (Caller Receipt Result)
  owner : OwnerPoint Receipt
  executed : List Receipt
  deriving DecidableEq, Repr

inductive Event (Receipt Outcome : Type) where
  | publish (status : Option ManagedRuntimeSnapshot)
  | ask (operationId : String)
    (compose : String → ManagedRuntimeSnapshot → Except AppError Receipt)
  | callerWrites (i : Nat)
  | callerLooks (i : Nat)
  | callerGivesUp (i : Nat)
  | ownerTakes (p : Projection)
  | ownerAnnounces (p : Projection)
  | ownerReturns (outcome : Outcome)
  | ownerAnswers
  | ownerStops

section
variable {Receipt Result Outcome : Type} {d : MailboxDefinition Receipt Result}

def startWorld (Receipt Result : Type) : World Receipt Result := ⟨none, none, [], .idle, []⟩

def World.setPoint (w : World Receipt Result) (i : Nat) (caller : Caller Receipt Result)
    (point : Point Receipt Result) : World Receipt Result :=
  { w with callers := w.callers.set i { caller with point } }

def World.execute (w : World Receipt Result) (receipt : Receipt) : World Receipt Result :=
  { w with owner := .executing receipt, executed := w.executed ++ [receipt] }

/-- A command that the owner may not act on is declined where its mailbox does so, else left. -/
def World.decline (side : OwnerSide d Outcome) (w : World Receipt Result) (receipt : Receipt) :
    World Receipt Result :=
  match side.declined receipt with
  | some answer => { w with owner := .answering answer }
  | none => { w with owner := .idle }

/-- The owner of generation `g` reads the mailbox. -/
def World.take (side : OwnerSide d Outcome) (g : String) (w : World Receipt Result)
    (p : Projection) : World Receipt Result :=
  match w.slot.filter side.takes with
  | none => w
  | some receipt =>
    if side.mayAct g receipt p then
      match side.announced receipt with
      | some _ => { w with owner := .announcing receipt }
      | none => w.execute receipt
    else w.decline side receipt

/-- The announcement is in the file; writing it yielded, so the turn is looked at again. -/
def World.announce (side : OwnerSide d Outcome) (g : String) (w : World Receipt Result)
    (receipt : Receipt) (p : Projection) : World Receipt Result :=
  let written := { w with slot := side.announced receipt }
  if side.mayAct g receipt p then written.execute receipt else written.decline side receipt

/-- One step of the callers and of the owner of generation `g`. -/
@[grind =]
def step (side : OwnerSide d Outcome) (g : String) (w : World Receipt Result) :
    Event Receipt Outcome → Option (World Receipt Result)
  | .publish status => some { w with status }
  | .ask operationId compose =>
    let caller := ⟨operationId, beginRequest d w.status w.slot operationId compose⟩
    some { w with callers := w.callers ++ [caller] }
  | .callerWrites i =>
    match w.callers[i]? with
    | some caller =>
      match caller.point with
      | .writing receipt generation =>
        some { w.setPoint i caller (.waiting generation) with slot := some receipt }
      | _ => none
    | none => none
  | .callerLooks i =>
    match w.callers[i]? with
    | some caller =>
      match caller.point with
      | .waiting generation =>
        let point := lookForReceipt d w.status w.slot caller.operationId generation
        some (w.setPoint i caller point)
      | _ => none
    | none => none
  | .callerGivesUp i =>
    match w.callers[i]? with
    | some caller =>
      match caller.point with
      | .waiting _ => some (w.setPoint i caller (.refused notAnswered))
      | _ => none
    | none => none
  | .ownerTakes p => if let .idle := w.owner then some (w.take side g p) else none
  | .ownerAnnounces p =>
    match w.owner with
    | .announcing receipt => some (w.announce side g receipt p)
    | _ => none
  | .ownerReturns outcome =>
    match w.owner with
    | .executing receipt => some { w with owner := .answering (side.settled receipt outcome) }
    | _ => none
  | .ownerAnswers =>
    match w.owner with
    | .answering answer => some { w with owner := .idle, slot := some answer }
    | _ => none
  | .ownerStops => some { w with owner := .idle }

def executedIds (d : MailboxDefinition Receipt Result) (w : World Receipt Result) : List String :=
  w.executed.map d.identity

/-- No operation of this generation reached the runtime twice. -/
def ExecutedOnce (d : MailboxDefinition Receipt Result) (w : World Receipt Result) : Prop :=
  (executedIds d w).Nodup

instance (w : World Receipt Result) : Decidable (ExecutedOnce d w) :=
  inferInstanceAs (Decidable (executedIds d w).Nodup)

/-- The stored command is one that the owner of generation `g` would take although its operation
has been executed. -/
def retaken (side : OwnerSide d Outcome) (g : String) (w : World Receipt Result)
    (slot : Option Receipt) : Bool :=
  slot.any fun receipt => side.takes receipt && d.generation receipt == g &&
    (executedIds d w).contains (d.identity receipt)

def World.busy (w : World Receipt Result) : Bool :=
  match w.owner with
  | .idle => false
  | _ => true

/-- A retry is written only where its operation was not executed, or where an answer of the owner
is about to replace it; and the owner stops only where it leaves no executed command behind. -/
def keepsOnce (side : OwnerSide d Outcome) (g : String) (w : World Receipt Result) :
    Event Receipt Outcome → Bool
  | .callerWrites i =>
    match w.callers[i]? with
    | some caller =>
      match caller.point with
      | .writing receipt _ => w.busy || !retaken side g w (some receipt)
      | _ => true
    | none => true
  | .ownerStops => !retaken side g w w.slot
  | _ => true

/-- The owner's next pass over the mailbox, up to the call of the runtime. -/
def nextPass (side : OwnerSide d Outcome) (g : String) (w : World Receipt Result)
    (p : Projection) : Option (World Receipt Result) :=
  (step side g w (.ownerTakes p)).map fun taken =>
    match taken.owner with
    | .announcing receipt => taken.announce side g receipt p
    | _ => taken

/-! What a step may leave behind. -/

/-- What holds between the steps of a run in which no executed command is left to be retaken. -/
structure Sound (side : OwnerSide d Outcome) (g : String) (w : World Receipt Result) : Prop where
  once : ExecutedOnce d w
  safe : w.owner = .idle → retaken side g w w.slot = false
  fresh : ∀ receipt, w.owner = .announcing receipt →
    d.generation receipt = g ∧ d.identity receipt ∉ executedIds d w
  answer : ∀ receipt, w.owner = .answering receipt → side.takes receipt = false

variable {side : OwnerSide d Outcome} {g : String} {w v u : World Receipt Result}

theorem busy_eq_false : w.busy = false ↔ w.owner = .idle := by
  unfold World.busy
  cases w.owner <;> simp

variable {receipt : Receipt} {i : Nat}

theorem retaken_some : retaken side g w (some receipt) = false ↔
    (side.takes receipt = true → d.generation receipt = g →
      d.identity receipt ∉ executedIds d w) := by
  simp only [retaken, Option.any_some, Bool.and_eq_false_iff, List.contains_eq_mem,
    decide_eq_false_iff_not, beq_eq_false_iff_ne]
  constructor
  · rintro ((htakes | hgen) | hnew) ht hg
    · rw [ht] at htakes
      cases htakes
    · exact absurd hg hgen
    · exact hnew
  · intro h
    by_cases ht : side.takes receipt = true
    · by_cases hg : d.generation receipt = g
      · exact .inr (h ht hg)
      · exact .inl (.inr hg)
    · exact .inl (.inl (by simpa using ht))

theorem Sound.congr (h : Sound side g w) (hexecuted : v.executed = w.executed)
    (howner : v.owner = w.owner) (hslot : v.slot = w.slot) : Sound side g v := by
  have hids : executedIds d v = executedIds d w := by rw [executedIds, hexecuted, executedIds]
  refine ⟨?_, ?_, ?_, ?_⟩
  · rw [ExecutedOnce, hids]
    exact h.once
  · intro hidle
    have hsafe := h.safe (howner ▸ hidle)
    rw [retaken, hids, hslot]
    exact hsafe
  · rw [hids, howner]
    exact h.fresh
  · rw [howner]
    exact h.answer

theorem sound_start : Sound side g (startWorld Receipt Result) :=
  ⟨List.nodup_nil, fun _ => rfl, (fun _ h => by cases h), fun _ h => by cases h⟩

theorem sound_execute (honce : ExecutedOnce d w)
    (hnew : d.identity receipt ∉ executedIds d w) : Sound side g (w.execute receipt) := by
  have hids : executedIds d (w.execute receipt) = executedIds d w ++ [d.identity receipt] := by
    simp [executedIds, World.execute]
  refine ⟨?_, (fun h => by cases h), (fun _ h => by cases h), fun _ h => by cases h⟩
  rw [ExecutedOnce, hids]
  exact nodup_grow honce hnew

theorem sound_decline (honce : ExecutedOnce d w)
    (hsafe : retaken side g w w.slot = false) : Sound side g (w.decline side receipt) := by
  unfold World.decline
  cases hdeclined : side.declined receipt with
  | none => exact ⟨honce, fun _ => hsafe, (fun _ h => by cases h), fun _ h => by cases h⟩
  | some answer =>
    refine ⟨honce, (fun h => by cases h), (fun _ h => by cases h), ?_⟩
    rintro _ ⟨⟩
    exact side.declined_takes receipt answer hdeclined

variable {p : Projection} {e : Event Receipt Outcome}

theorem sound_take (h : Sound side g w) (hidle : w.owner = .idle) :
    Sound side g (w.take side g p) := by
  have hsafe := h.safe hidle
  unfold World.take
  cases hslot : w.slot.filter side.takes with
  | none => exact h
  | some receipt =>
    obtain ⟨hstored, htakes⟩ := Option.filter_eq_some_iff.mp hslot
    dsimp only
    split
    · rename_i hact
      have hgen := side.generation_eq g receipt p hact
      have hnew : d.identity receipt ∉ executedIds d w := by
        rw [hstored, retaken_some] at hsafe
        exact hsafe htakes hgen
      cases hannounced : side.announced receipt with
      | none => exact sound_execute h.once hnew
      | some announced =>
        refine ⟨h.once, (fun hi => by cases hi), ?_, fun _ ha => by cases ha⟩
        rintro _ ⟨⟩
        exact ⟨hgen, hnew⟩
    · exact sound_decline h.once hsafe

theorem sound_announce (h : Sound side g w)
    (howner : w.owner = .announcing receipt) : Sound side g (w.announce side g receipt p) := by
  obtain ⟨-, hnew⟩ := h.fresh receipt howner
  unfold World.announce
  dsimp only
  split
  · exact sound_execute (w := { w with slot := side.announced receipt }) h.once hnew
  · refine sound_decline (w := { w with slot := side.announced receipt }) h.once ?_
    cases hannounced : side.announced receipt with
    | none => rfl
    | some announced =>
      refine retaken_some.mpr ?_
      intro _ _
      rw [side.announced_identity receipt announced hannounced]
      exact hnew

/-! The steps of the callers change the mailbox only where a command reaches the file. -/

theorem step_callerWrites (h : step side g w (.callerWrites i) = some v) :
    ∃ caller receipt generation, w.callers[i]? = some caller ∧
      caller.point = .writing receipt generation ∧
      v = { w.setPoint i caller (.waiting generation) with slot := some receipt } := by
  simp only [step] at h
  split at h
  · rename_i caller hcaller
    split at h
    · rename_i receipt generation hpoint
      exact ⟨caller, receipt, generation, hcaller, hpoint, (Option.some.inj h).symm⟩
    · cases h
  · cases h

theorem step_callerLooks (h : step side g w (.callerLooks i) = some v) :
    ∃ caller point, v = w.setPoint i caller point := by
  simp only [step] at h
  split at h
  · split at h
    · exact ⟨_, _, (Option.some.inj h).symm⟩
    · cases h
  · cases h

theorem step_callerGivesUp (h : step side g w (.callerGivesUp i) = some v) :
    ∃ caller point, v = w.setPoint i caller point := by
  simp only [step] at h
  split at h
  · split at h
    · exact ⟨_, _, (Option.some.inj h).symm⟩
    · cases h
  · cases h

theorem keepsOnce_callerWrites {caller : Caller Receipt Result} {generation : String}
    (hcaller : w.callers[i]? = some caller)
    (hpoint : caller.point = .writing receipt generation) :
    keepsOnce side g w (.callerWrites i) = (w.busy || !retaken side g w (some receipt)) := by
  simp only [keepsOnce, hcaller, hpoint]

theorem step_sound (h : Sound side g w)
    (hkeeps : keepsOnce side g w e = true) (hstep : step side g w e = some v) :
    Sound side g v := by
  cases e with
  | publish status =>
    obtain rfl := Option.some.inj hstep
    exact h.congr rfl rfl rfl
  | ask operationId compose =>
    obtain rfl := Option.some.inj hstep
    exact h.congr rfl rfl rfl
  | callerWrites i =>
    obtain ⟨caller, receipt, generation, hcaller, hpoint, rfl⟩ := step_callerWrites hstep
    rw [keepsOnce_callerWrites hcaller hpoint] at hkeeps
    refine ⟨h.once, ?_, h.fresh, h.answer⟩
    intro hidle
    have hbusy : w.busy = false := busy_eq_false.mpr hidle
    have hsafe : retaken side g w (some receipt) = false := by simpa [hbusy] using hkeeps
    exact hsafe
  | callerLooks i =>
    obtain ⟨caller, point, rfl⟩ := step_callerLooks hstep
    exact h.congr rfl rfl rfl
  | callerGivesUp i =>
    obtain ⟨caller, point, rfl⟩ := step_callerGivesUp hstep
    exact h.congr rfl rfl rfl
  | ownerTakes p =>
    simp only [step] at hstep
    split at hstep
    · rename_i hidle
      obtain rfl := Option.some.inj hstep
      exact sound_take h hidle
    · cases hstep
  | ownerAnnounces p =>
    simp only [step] at hstep
    split at hstep
    · rename_i receipt howner
      obtain rfl := Option.some.inj hstep
      exact sound_announce h howner
    · cases hstep
  | ownerReturns outcome =>
    simp only [step] at hstep
    split at hstep
    · obtain rfl := Option.some.inj hstep
      refine ⟨h.once, (fun hi => by cases hi), (fun _ ha => by cases ha), ?_⟩
      rintro _ ⟨⟩
      exact side.settled_takes _ outcome
    · cases hstep
  | ownerAnswers =>
    simp only [step] at hstep
    split at hstep
    · rename_i answer howner
      obtain rfl := Option.some.inj hstep
      refine ⟨h.once, fun _ => ?_, (fun _ ha => by cases ha), fun _ ha => by cases ha⟩
      refine retaken_some.mpr ?_
      intro htakes
      rw [h.answer answer howner] at htakes
      cases htakes
    · cases hstep
  | ownerStops =>
    obtain rfl := Option.some.inj hstep
    have hsafe : retaken side g w w.slot = false := by simpa [keepsOnce] using hkeeps
    exact ⟨h.once, fun _ => hsafe, (fun _ ha => by cases ha), fun _ ha => by cases ha⟩

/-! An executed command left for the owner is executed again by its next pass. -/

/-- No operation was executed twice, and the owner's next pass executes none again. -/
def PassesOnce (side : OwnerSide d Outcome) (g : String) (w : World Receipt Result) : Prop :=
  ExecutedOnce d w ∧ ∀ p u, nextPass side g w p = some u → ExecutedOnce d u

theorem nextPass_idle (hidle : w.owner = .idle) (p : Projection) :
    nextPass side g w p = some (match (w.take side g p).owner with
      | .announcing receipt => (w.take side g p).announce side g receipt p
      | _ => w.take side g p) := by
  simp only [nextPass, step, hidle, Option.map_some]

theorem not_once_execute (hmem : d.identity receipt ∈ executedIds d w) :
    ¬ ExecutedOnce d (w.execute receipt) := by
  have hids : executedIds d (w.execute receipt) = executedIds d w ++ [d.identity receipt] := by
    simp [executedIds, World.execute]
  intro honce
  rw [ExecutedOnce, hids, List.nodup_append] at honce
  exact honce.2.2 _ hmem _ (List.mem_singleton_self _) rfl

theorem retaken_executes (hidle : w.owner = .idle) (h : retaken side g w w.slot = true) :
    ¬ PassesOnce side g w := by
  cases hslot : w.slot with
  | none =>
    rw [hslot] at h
    cases h
  | some receipt =>
    rw [hslot] at h
    simp only [retaken, Option.any_some, Bool.and_eq_true, List.contains_eq_mem,
      decide_eq_true_eq, beq_iff_eq] at h
    obtain ⟨⟨htakes, hgen⟩, hmem⟩ := h
    obtain ⟨p, hact⟩ := side.exists_turn g receipt hgen
    have hfilter : w.slot.filter side.takes = some receipt := by simp [hslot, htakes]
    rintro ⟨-, hpass⟩
    have honce := hpass p _ (nextPass_idle hidle p)
    cases hannounced : side.announced receipt with
    | none =>
      have htake : w.take side g p = w.execute receipt := by
        simp [World.take, hfilter, hact, hannounced]
      rw [htake] at honce
      exact not_once_execute hmem honce
    | some announced =>
      have htake : w.take side g p = { w with owner := .announcing receipt } := by
        simp [World.take, hfilter, hact, hannounced]
      rw [htake] at honce
      simp only [World.announce, hact, if_true] at honce
      exact not_once_execute (by exact hmem) honce

theorem Sound.passesOnce (h : Sound side g w) : PassesOnce side g w := by
  refine ⟨h.once, ?_⟩
  intro p u hpass
  obtain ⟨taken, htaken, rfl⟩ := Option.map_eq_some_iff.mp hpass
  have hsound : Sound side g taken := step_sound h rfl htaken
  split
  · rename_i receipt howner
    exact (sound_announce hsound howner).once
  · exact hsound.once

theorem broken_step (hbroken : ¬ keepsOnce side g w e = true)
    (hstep : step side g w e = some v) : ¬ PassesOnce side g v := by
  cases e with
  | callerWrites i =>
    obtain ⟨caller, receipt, generation, hcaller, hpoint, rfl⟩ := step_callerWrites hstep
    rw [keepsOnce_callerWrites hcaller hpoint] at hbroken
    simp only [Bool.or_eq_true, Bool.not_eq_true', not_or, Bool.not_eq_true,
      Bool.not_eq_false] at hbroken
    exact retaken_executes (busy_eq_false.mp hbroken.1) hbroken.2
  | ownerStops =>
    obtain rfl := Option.some.inj hstep
    have hretaken : retaken side g w w.slot = true := by simpa [keepsOnce] using hbroken
    exact retaken_executes rfl hretaken
  | publish status => exact absurd rfl hbroken
  | ask operationId compose => exact absurd rfl hbroken
  | callerLooks i => exact absurd rfl hbroken
  | callerGivesUp i => exact absurd rfl hbroken
  | ownerTakes p => exact absurd rfl hbroken
  | ownerAnnounces p => exact absurd rfl hbroken
  | ownerReturns outcome => exact absurd rfl hbroken
  | ownerAnswers => exact absurd rfl hbroken

/-- In every state a run reaches no operation has been executed twice, nor will be by the owner's
next pass, exactly when the run writes no retry of an executed command and the owner stops at no
executed one. -/
theorem operations_are_executed_once (side : OwnerSide d Outcome) (g : String)
    (es : List (Event Receipt Outcome)) (w : World Receipt Result)
    (hrun : run (step side g) (startWorld Receipt Result) es = some w) :
    (∀ v, Reached (step side g) (startWorld Receipt Result) es v → PassesOnce side g v) ↔
      Along (step side g) (fun v e => keepsOnce side g v e = true) (startWorld Receipt Result) es :=
  (along_iff_reached (fun _ _ _ hs hkeeps hstep => step_sound hs hkeeps hstep)
    (fun _ hs => hs.passesOnce) (fun _ _ _ _ hbroken hstep => broken_step hbroken hstep)
    hrun sound_start).symm

end

/-! A rewind asked again after another one used the mailbox. -/

def betweenTurns : Projection := ⟨.idle, none⟩

def liveWithCheckpoints : ManagedRuntimeSnapshot := { generation := "g", fileCheckpoints := some true }

def filesRestored : RewindResult := ⟨true, none, ["main.ts"], some 1, some 2, some 0⟩

/-- A rewind that is asked, executed, answered and read by its caller. -/
def rewindRound (i : Nat) (operationId messageId : String) :
    List (Event RuntimeRewindRequest (Option RewindResult)) :=
  [.ask operationId (composeRewind operationId messageId false), .callerWrites i,
    .ownerTakes betweenTurns, .ownerReturns (some filesRestored), .ownerAnswers, .callerLooks i]

def oneRewind : List (Event RuntimeRewindRequest (Option RewindResult)) :=
  .publish (some liveWithCheckpoints) :: rewindRound 0 "first" "m1"

def retriedRewind : List (Event RuntimeRewindRequest (Option RewindResult)) :=
  oneRewind ++ rewindRound 1 "second" "m2" ++ rewindRound 2 "first" "m1"

theorem operations_are_executed_once_rewind :
    ∃ w, run (step applyRewind "g") (startWorld _ _) oneRewind = some w ∧
      ∀ v, Reached (step applyRewind "g") (startWorld _ _) oneRewind v →
        PassesOnce applyRewind "g" v := by
  have hruns : (run (step applyRewind "g") (startWorld _ _) oneRewind).isSome = true := by
    decide
  obtain ⟨w, hrun⟩ := Option.isSome_iff_exists.mp hruns
  refine ⟨w, hrun, (operations_are_executed_once applyRewind "g" oneRewind w hrun).mpr ?_⟩
  exact along_of_check (C := keepsOnce applyRewind "g") (by decide)

/-- The first rewind was answered; asked again after the second, it is carried out again. -/
theorem retried_rewind_is_executed_again :
    ∃ w, run (step applyRewind "g") (startWorld _ _) retriedRewind = some w ∧
      (w.callers[0]?.map fun caller => caller.point) = some (.done filesRestored) ∧
      w.executed.map (fun r => (r.operationId, r.messageId)) =
        [("first", "m1"), ("second", "m2"), ("first", "m1")] ∧
      ¬ ExecutedOnce rewindMailbox w := by
  have hruns : ((run (step applyRewind "g") (startWorld _ _) retriedRewind).any fun w =>
      decide ((w.callers[0]?.map fun caller => caller.point) = some (.done filesRestored) ∧
        w.executed.map (fun r => (r.operationId, r.messageId)) =
          [("first", "m1"), ("second", "m2"), ("first", "m1")] ∧
        ¬ ExecutedOnce rewindMailbox w)) = true := by decide
  obtain ⟨w, hrun, hw⟩ := (Option.any_eq_true _ _).mp hruns
  exact ⟨w, hrun, of_decide_eq_true hw⟩

end Ccmux.Runtime.Mailbox
