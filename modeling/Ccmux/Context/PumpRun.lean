/- Module: Ccmux/Context/PumpRun
   source: src/context/pump.ts, src/context/service.ts, src/chat/nativeRuntime.ts
   digest: Context operations are serial in every run; a completion seen again raises twice. -/

import Ccmux.Context.Pump

namespace Ccmux.Context

open Ccmux.Lib.Amend
open Ccmux.Lib.Machine
open Ccmux.Chat.Message (ChatCursors Ledger)
open Ccmux.Chat.NativeRuntime
open Ccmux.Runtime.Input

/-- The completion that a step observes: the generation it is looked for in, and its id. -/
def observation (w : World) : Event → Option (String × Option String)
  | .observe generation completionId => some (generation, completionId)
  | .pumpWrites i =>
    match w.tasks[i]? with
    | some task =>
      match task.point with
      | .observing active marker => some (active.generation, some marker)
      | _ => none
    | none => none
  | _ => none

def completionOf (w : World) (e : Event) : Option Completion :=
  (observation w e).bind fun seen => seen.2.map fun id => ⟨seen.1, id⟩

/-- The step writes a letter to the mailbox, or the owner submits the one that is there. -/
def handsOver (w : World) : Event → Bool
  | .deliveryWrites =>
    match w.admission with
    | some (.delivery (.writeInput _ :: _)) => true
    | _ => false
  | .ownerTakes => true
  | .ownerSubmits => true
  | _ => false

/-- At most one operation is unresolved, none was compacted twice, and no completion raised the
revision twice. -/
structure Serial (w : World) : Prop where
  one : ∀ row ∈ w.journal.operations, ∀ other ∈ w.journal.operations,
    unresolved row = true → unresolved other = true → row = other
  called : w.compacted.Nodup
  once : w.raised.Nodup

/-- What a step does to operations and letters: a resolved row stays as it is, a row is completed
by a completion of its generation that is not its marker, and letters wait for the unresolved. -/
structure Advances (w : World) (e : Event) (v : World) : Prop where
  final : ∀ row ∈ w.journal.operations, unresolved row = false → row ∈ v.journal.operations
  completes : ∀ row ∈ v.journal.operations, row.state = .completed →
    row ∈ w.journal.operations ∨ ∃ before ∈ w.journal.operations,
      before.operationId = row.operationId ∧ before.markerBefore = row.markerBefore ∧
      taken before = true ∧ ∃ completionId, observation w e = some (row.generation, completionId) ∧
        ∀ id, completionId = some id → row.markerBefore ≠ some id
  letters : handsOver w e = true → contextMutationPending w.journal = false

/-- No completion is observed that raised the revision before, unless it is still the last one or
would be passed over otherwise. -/
def keepsCompletions (w : World) (e : Event) : Bool :=
  match completionOf w e with
  | some completion => !(w.raised.contains completion && raises w.journal w.read completion)
  | none => true

/-! What a step may leave behind. -/

def Dispatched (rows : List ContextOperation) (operationId : String) : Prop :=
  ∃ row ∈ rows, row.operationId = operationId ∧ row.state ≠ .queued ∧
    row.state ≠ .rejected

def PointOk (w : World) : Point → Prop
  | .waiting active => active.state ≠ .queued → Dispatched w.journal.operations active.operationId
  | .looking active => Dispatched w.journal.operations active.operationId
  | .observing active _ => Dispatched w.journal.operations active.operationId
  | .doubting active => Dispatched w.journal.operations active.operationId
  | .compacting active => Dispatched w.journal.operations active.operationId ∧
      active.operationId ∉ w.compacted
  | _ => True

structure Sound (w : World) : Prop extends Serial w where
  valid : w.journal.valid = true
  ids : (w.journal.operations.map fun row => row.operationId).Nodup
  known : ∀ operationId ∈ w.compacted, Dispatched w.journal.operations operationId
  held : ∀ i task, w.tasks[i]? = some task → task.point.locked = true →
    w.admission = some (.pump i)
  points : ∀ task ∈ w.tasks, PointOk w task.point
  quiet : contextMutationPending w.journal = true →
    ∀ input, w.input = some input → input.phase = .accepted
  delivering : ∀ actions input, w.admission = some (.delivery actions) →
    .writeInput input ∈ actions → contextMutationPending w.journal = false
  rightful : ∀ completion ∈ w.raised, isCompletionId completion.id = true

section
variable {w v : World}

theorem sound_start : Sound startWorld := by
  refine ⟨⟨?_, List.nodup_nil, List.nodup_nil⟩, rfl, List.nodup_nil, ?_, ?_, ?_, ?_, ?_, ?_⟩
  · intro row hrow
    cases hrow
  · intro operationId hid
    cases hid
  · intro i task htask
    cases htask
  · intro task htask
    cases htask
  · intro _ input hinput
    cases hinput
  · intro actions input hadmission
    cases hadmission
  · intro completion hcompletion
    cases hcompletion

/-! What one written row leaves of the rows. -/

section
variable {rows rows' : List ContextOperation}

theorem Moves.ids (h : Moves rows rows') :
    rows'.map (fun row => row.operationId) = rows.map fun row => row.operationId := by
  cases h with
  | same => rfl
  | row hsplit _ hid _ _ _ => simp [hsplit, hid]

theorem Moves.final (h : Moves rows rows') {row : ContextOperation} (hrow : row ∈ rows)
    (hdone : unresolved row = false) : row ∈ rows' := by
  cases h with
  | same => exact hrow
  | row hsplit hbefore _ _ _ _ =>
    rw [hsplit] at hrow
    rcases List.mem_append.mp hrow with hpre | hrest
    · exact List.mem_append_left _ hpre
    · rcases List.mem_cons.mp hrest with rfl | hpost
      · rw [hdone] at hbefore
        cases hbefore
      · exact List.mem_append_right _ (List.mem_cons_of_mem _ hpost)

theorem Moves.cases_mem (h : Moves rows rows') {row : ContextOperation} (hrow : row ∈ rows') :
    row ∈ rows ∨ ∃ before ∈ rows, unresolved before = true ∧
      row.operationId = before.operationId := by
  cases h with
  | same => exact .inl hrow
  | @row pre post before after hsplit hbefore hid _ _ _ =>
    rw [hsplit]
    rcases List.mem_append.mp hrow with hpre | hrest
    · exact .inl (List.mem_append_left _ hpre)
    · rcases List.mem_cons.mp hrest with rfl | hpost
      · exact .inr ⟨before, List.mem_append_right _ List.mem_cons_self, hbefore, hid⟩
      · exact .inl (List.mem_append_right _ (List.mem_cons_of_mem _ hpost))

theorem Moves.pending (h : Moves rows rows') (hpending : rows'.any unresolved = true) :
    rows.any unresolved = true := by
  obtain ⟨row, hrow, hopen⟩ := List.any_eq_true.mp hpending
  rcases h.cases_mem hrow with hold | ⟨before, hbefore, hopen', -⟩
  · exact List.any_eq_true.mpr ⟨row, hold, hopen⟩
  · exact List.any_eq_true.mpr ⟨before, hbefore, hopen'⟩

theorem eq_of_ids (hids : (rows.map fun row => row.operationId).Nodup)
    {row other : ContextOperation} (hrow : row ∈ rows) (hother : other ∈ rows)
    (hid : row.operationId = other.operationId) : row = other :=
  List.inj_on_of_nodup_map hids hrow hother hid

theorem Moves.one (h : Moves rows rows') (hids : (rows.map fun row => row.operationId).Nodup)
    (hone : ∀ row ∈ rows, ∀ other ∈ rows, unresolved row = true → unresolved other = true →
      row = other) :
    ∀ row ∈ rows', ∀ other ∈ rows', unresolved row = true → unresolved other = true →
      row = other := by
  intro row hrow other hother hopen hopen'
  have hids' : (rows'.map fun row => row.operationId).Nodup := by
    rw [h.ids]
    exact hids
  refine eq_of_ids hids' hrow hother ?_
  rcases h.cases_mem hrow with hold | ⟨before, hbefore, hbefore_open, hid⟩
  · rcases h.cases_mem hother with hold' | ⟨before', hbefore', hbefore_open', hid'⟩
    · rw [hone row hold other hold' hopen hopen']
    · rw [hid', hone row hold before' hbefore' hopen hbefore_open']
  · rcases h.cases_mem hother with hold' | ⟨before', hbefore', hbefore_open', hid'⟩
    · rw [hid, hone before hbefore other hold' hbefore_open hopen']
    · rw [hid, hid', hone before hbefore before' hbefore' hbefore_open hbefore_open']

theorem Moves.dispatched (h : Moves rows rows') {operationId : String}
    (hdispatched : Dispatched rows operationId) : Dispatched rows' operationId := by
  obtain ⟨row, hrow, hid, hqueued, hrejected⟩ := hdispatched
  cases h with
  | same => exact ⟨row, hrow, hid, hqueued, hrejected⟩
  | @row pre post before after hsplit _ hsame _ hmoved hreject =>
    rw [hsplit] at hrow
    rcases List.mem_append.mp hrow with hpre | hrest
    · exact ⟨row, List.mem_append_left _ hpre, hid, hqueued, hrejected⟩
    · rcases List.mem_cons.mp hrest with rfl | hpost
      · refine ⟨after, List.mem_append_right _ List.mem_cons_self, hsame.trans hid, hmoved, ?_⟩
        intro hrej
        exact hqueued (hreject hrej)
      · exact ⟨row, List.mem_append_right _ (List.mem_cons_of_mem _ hpost), hid, hqueued,
          hrejected⟩

end

variable {journal : ContextJournal} {operationId : String} {row : ContextOperation}
  {f : ContextOperation → ContextOperation} {p : ContextOperation → Bool}
  {dateParse : String → Option Int} {task : ContextTask} {point : Point} {e : Event}

theorem amend_moves (hrow : journal.operation operationId = some row)
    (hopen : unresolved row = true) (hid : (f row).operationId = row.operationId)
    (hgen : (f row).generation = row.generation) (hmoved : (f row).state ≠ .queued)
    (hreject : (f row).state = .rejected → row.state = .queued) :
    Moves journal.operations (journal.amend operationId f).operations := by
  obtain ⟨-, pre, post, hsplit, hamend⟩ := amendFirst_some (f := f) hrow
  unfold ContextJournal.amend
  rw [hamend]
  exact .row hsplit hopen hid hgen hmoved hreject

theorem amendIf_moves (hopen : ∀ row, journal.operation operationId = some row → p row = true →
      unresolved row = true)
    (hid : ∀ row, (f row).operationId = row.operationId)
    (hgen : ∀ row, (f row).generation = row.generation)
    (hmoved : ∀ row, (f row).state ≠ .queued)
    (hreject : ∀ row, p row = true → (f row).state = .rejected → row.state = .queued) :
    Moves journal.operations (journal.amendIf operationId p f).operations := by
  unfold ContextJournal.amendIf
  split
  · rename_i hp
    obtain ⟨row, hrow, hprow⟩ := (Option.any_eq_true _ _).mp hp
    exact amend_moves hrow (hopen row hrow hprow) (hid row) (hgen row) (hmoved row)
      (hreject row hprow)
  · exact .same

theorem amendIf_valid (h : journal.valid = true)
    (hf : ∀ row, (f row).markerBefore = row.markerBefore) :
    (journal.amendIf operationId p f).valid = true := by
  unfold ContextJournal.amendIf
  split
  · simp only [ContextJournal.valid, Bool.and_eq_true] at h ⊢
    refine ⟨⟨h.1.1, ?_⟩, ?_⟩
    · simpa only [ContextJournal.amend, amendFirst_length] using h.1.2
    · refine amendFirst_all ?_ h.2
      intro row hrow
      rw [hf row]
      exact hrow
  · exact h

/-! The parts of a step. -/

theorem PointOk.rewrite (hmoves : Moves w.journal.operations journal.operations)
    {raised : List Completion}
    {point : Point} (h : PointOk w point) : PointOk { w with journal, raised } point := by
  cases point with
  | waiting active => exact fun hqueued => hmoves.dispatched (h hqueued)
  | looking active => exact hmoves.dispatched h
  | observing active marker => exact hmoves.dispatched h
  | doubting active => exact hmoves.dispatched h
  | compacting active => exact ⟨hmoves.dispatched h.1, h.2⟩
  | rejecting active => trivial
  | marking active => trivial
  | dispatching active marker => trivial
  | called active => trivial
  | settling active returned => trivial
  | ended => trivial

theorem Sound.rewrite (h : Sound w) {journal : ContextJournal} {raised : List Completion}
    (hmoves : Moves w.journal.operations journal.operations) (hvalid : journal.valid = true)
    (honce : raised.Nodup) (hrightful : ∀ completion ∈ raised, isCompletionId completion.id = true) :
    Sound { w with journal, raised } := by
  refine ⟨⟨?_, h.called, honce⟩, hvalid, ?_, ?_, h.held, ?_, ?_, ?_, hrightful⟩
  · exact hmoves.one h.ids h.one
  · rw [hmoves.ids]
    exact h.ids
  · intro operationId hid
    exact hmoves.dispatched (h.known operationId hid)
  · intro task htask
    exact (h.points task htask).rewrite hmoves
  · intro hpending
    exact h.quiet (hmoves.pending hpending)
  · intro actions input hadmission hmem
    have hnone := h.delivering actions input hadmission hmem
    by_contra hpending
    have hpending' : contextMutationPending journal = true := by simpa using hpending
    have hbefore := hmoves.pending hpending'
    unfold contextMutationPending at hnone
    rw [hnone] at hbefore
    cases hbefore

theorem Sound.amendIf (h : Sound w) {operationId : String} {p : ContextOperation → Bool}
    {f : ContextOperation → ContextOperation}
    (hmoves : Moves w.journal.operations (w.journal.amendIf operationId p f).operations)
    (hf : ∀ row, (f row).markerBefore = row.markerBefore) :
    Sound { w with journal := w.journal.amendIf operationId p f } :=
  h.rewrite hmoves (amendIf_valid h.valid hf) h.once h.rightful

/-- A completion that was not recorded before is observed. -/
theorem Sound.observed (h : Sound w) {generation : String} {completionId : Option String}
    (hnew : ∀ id, completionId = some id →
      ¬ (⟨generation, id⟩ ∈ w.raised ∧ raises w.journal w.read ⟨generation, id⟩ = true))
    (hobserved : observed w generation completionId = some v) :
    Sound v ∧ v.tasks = w.tasks ∧ v.admission = w.admission := by
  unfold Context.observed at hobserved
  split at hobserved
  · obtain rfl := Option.some.inj hobserved
    exact ⟨h, rfl, rfl⟩
  · rename_i journal hjournal
    split at hobserved
    · rename_i hvalid
      obtain rfl := Option.some.inj hobserved
      obtain ⟨rfl, -, -⟩ := observe_some hjournal
      refine ⟨?_, rfl, rfl⟩
      cases completionId with
      | none =>
        refine h.rewrite (raise_moves _ _ _) hvalid ?_ ?_
        · simpa using h.once
        · simpa using h.rightful
      | some id =>
        have hraises := raises_of_observe hjournal
        have hid : isCompletionId id = true := by
          simp only [ContextJournal.valid, raise, Bool.and_eq_true] at hvalid
          exact hvalid.1.1
        have hfresh : (⟨generation, id⟩ : Completion) ∉ w.raised :=
          fun hmem => hnew id rfl ⟨hmem, hraises⟩
        refine h.rewrite (raise_moves _ _ _) hvalid ?_ ?_
        · exact nodup_grow h.once hfresh
        · intro completion hmem
          rcases List.mem_append.mp hmem with hold | hlast
          · exact h.rightful completion hold
          · obtain rfl := List.mem_singleton.mp hlast
            exact hid
    · cases hobserved

theorem Sound.setPoint (h : Sound w) {i : Nat} {task : ContextTask} {point : Point}
    (hlocked : point.locked = true → w.admission = some (.pump i)) (hpoint : PointOk w point) :
    Sound (w.setPoint i task point) := by
  refine ⟨⟨h.one, h.called, h.once⟩, h.valid, h.ids, h.known, ?_, ?_, h.quiet, h.delivering,
    h.rightful⟩
  · intro j other hother hother_locked
    by_cases hj : i = j
    · subst hj
      have hset := List.mem_of_getElem? hother
      unfold World.setPoint at hother
      rw [List.getElem?_set] at hother
      split at hother
      · split at hother
        · obtain rfl := Option.some.inj hother
          exact hlocked hother_locked
        · cases hother
      · exact h.held i other hother hother_locked
    · unfold World.setPoint at hother
      rw [List.getElem?_set_ne hj] at hother
      exact h.held j other hother hother_locked
  · intro other hother
    rcases List.mem_or_eq_of_mem_set hother with hold | rfl
    · exact h.points other hold
    · exact hpoint

theorem Sound.started (h : Sound w) {generation : String} {active : ContextOperation}
    (hactive : w.journal.operations.find? unresolved = some active) :
    Sound { w with tasks := w.tasks ++ [⟨generation, .waiting active⟩] } := by
  have hmem := List.mem_of_find?_eq_some hactive
  refine ⟨⟨h.one, h.called, h.once⟩, h.valid, h.ids, h.known, ?_, ?_, h.quiet, h.delivering,
    h.rightful⟩
  · intro i task htask hlocked
    dsimp only at htask
    rw [List.getElem?_append] at htask
    split at htask
    · exact h.held i task htask hlocked
    · obtain rfl := List.mem_singleton.mp (List.mem_of_getElem? htask)
      cases hlocked
  · intro task htask
    rcases List.mem_append.mp htask with hold | hlast
    · exact h.points task hold
    · obtain rfl := List.mem_singleton.mp hlast
      intro hqueued
      refine ⟨active, hmem, rfl, hqueued, ?_⟩
      intro hrejected
      have hopen := List.find?_some hactive
      simp [unresolved, hrejected] at hopen

theorem Sound.locks (h : Sound w) {i : Nat} {task : ContextTask} {point : Point}
    (hnone : w.admission = none) (hpoint : PointOk w point) :
    Sound { w.setPoint i task point with admission := some (.pump i) } := by
  have hopen : ∀ (j : Nat) (other : ContextTask), w.tasks[j]? = some other →
      other.point.locked = false := by
    intro j other hother
    by_contra hlocked
    have hheld := h.held j other hother (by simpa using hlocked)
    rw [hnone] at hheld
    cases hheld
  refine ⟨⟨h.one, h.called, h.once⟩, h.valid, h.ids, h.known, ?_, ?_, h.quiet, ?_, h.rightful⟩
  · intro j other hother hlocked
    by_cases hj : i = j
    · rw [hj]
    · dsimp only [World.setPoint] at hother
      rw [List.getElem?_set_ne hj] at hother
      rw [hopen j other hother] at hlocked
      cases hlocked
  · intro other hother
    rcases List.mem_or_eq_of_mem_set hother with hold | rfl
    · exact h.points other hold
    · exact hpoint
  · intro actions input hadmission
    cases Option.some.inj hadmission

theorem Sound.finish (h : Sound w) {i : Nat} {task : ContextTask}
    (htask : w.tasks[i]? = some task) (hlocked : task.point.locked = true) :
    Sound (w.finish i task) := by
  have hmine := h.held i task htask hlocked
  have hset : Sound (w.setPoint i task .ended) := h.setPoint (fun hl => by cases hl) trivial
  refine ⟨⟨hset.one, hset.called, hset.once⟩, hset.valid, hset.ids, hset.known, ?_, hset.points,
    hset.quiet, ?_, hset.rightful⟩
  · intro j other hother hother_locked
    by_cases hj : i = j
    · subst hj
      have hi : i < w.tasks.length := (List.getElem?_eq_some_iff.mp htask).1
      unfold World.finish World.setPoint at hother
      rw [List.getElem?_set_self hi] at hother
      obtain rfl := Option.some.inj hother
      cases hother_locked
    · unfold World.finish World.setPoint at hother
      rw [List.getElem?_set_ne hj] at hother
      have hother_held := h.held j other hother hother_locked
      rw [hmine] at hother_held
      exact absurd (Holder.pump.inj (Option.some.inj hother_held)) hj
  · intro actions input hadmission
    cases hadmission

theorem free_none {holder : Option Holder} (h : Holder.free holder = true) : holder = none := by
  cases holder with
  | none => rfl
  | some held => cases h

theorem Sound.unlocked (h : Sound w) (hnone : ∀ i, w.admission ≠ some (.pump i)) :
    Sound { w with admission := none } := by
  refine ⟨⟨h.one, h.called, h.once⟩, h.valid, h.ids, h.known, ?_, h.points, h.quiet, ?_,
    h.rightful⟩
  · intro i task htask hlocked
    exact absurd (h.held i task htask hlocked) (hnone i)
  · intro actions input hadmission
    cases hadmission

theorem Sound.delivery (h : Sound w) (hnone : ∀ i, w.admission ≠ some (.pump i))
    {actions : List Action}
    (hwrites : ∀ input, .writeInput input ∈ actions → contextMutationPending w.journal = false) :
    Sound { w with admission := some (.delivery actions) } := by
  refine ⟨⟨h.one, h.called, h.once⟩, h.valid, h.ids, h.known, ?_, h.points, h.quiet, ?_,
    h.rightful⟩
  · intro i task htask hlocked
    exact absurd (h.held i task htask hlocked) (hnone i)
  · intro others input hadmission hmem
    obtain rfl := Holder.delivery.inj (Option.some.inj hadmission)
    exact hwrites input hmem

theorem Sound.withInput (h : Sound w) {input : Option RuntimeInput}
    (hquiet : contextMutationPending w.journal = true →
      ∀ letter, input = some letter → letter.phase = .accepted) : Sound { w with input } :=
  ⟨⟨h.one, h.called, h.once⟩, h.valid, h.ids, h.known, h.held, h.points, hquiet, h.delivering,
    h.rightful⟩

theorem Sound.notPending (h : Sound w) {phase : InputPhase} (hphase : w.inputPhase = some phase)
    (hne : phase ≠ .accepted) : contextMutationPending w.journal = false := by
  obtain ⟨input, hinput, rfl⟩ := Option.map_eq_some_iff.mp hphase
  by_contra hpending
  exact hne (h.quiet (by simpa using hpending) input hinput)

/-- A delivery pass that writes the mailbox read a journal without an unresolved operation. -/
theorem deliverLocked_pending {env : PassEnv} {recipientKey : String} {ledger : Ledger}
    {cursors : ChatCursors} {acked : Finset String} {mailbox : Option RuntimeInput}
    {input : RuntimeInput} (h : .writeInput input ∈
      (deliverLocked dateParse env recipientKey ledger cursors acked mailbox).1) :
    env.contextPending = false := by
  cases hpickup : cursors.pickups recipientKey with
  | some pickup =>
    obtain ⟨snapshot, -, -, -, hrepair⟩ := deliverLocked_pickup hpickup h
    obtain ⟨-, -, -, -, -, -, hcontext, -⟩ := repair_writes hrepair
    exact hcontext
  | none =>
    unfold deliverLocked at h
    simp only [hpickup] at h
    split at h
    · cases h
    · split at h
      · simp at h
      · split at h
        · simp at h
        · split at h
          · cases h
          · split at h
            · simp at h
            · rename_i hcontext
              simpa using hcontext

/-! A request is recorded while nothing is unresolved and no letter is in the mailbox. -/

variable {read : RuntimeRead} {blocked : Bool} {request : CompactRequest}
  {operation active : ContextOperation}

theorem compact_ok {journal' : ContextJournal} {input : Option RuntimeInput}
    (h : compactNativeContext journal read blocked input request = .ok (journal', operation)) :
    journal' = journal ∨
      (journal' = { journal with operations := journal.operations ++ [queuedOperation journal request] } ∧
        journal.operation request.operationId = none ∧ contextMutationPending journal = false ∧
        (∀ letter, input = some letter → letter.phase = .accepted) ∧
        journal.operations.length < maxOperations) := by
  unfold compactNativeContext at h
  split at h
  · split at h
    · cases h
    · exact .inl (congrArg Prod.fst (Except.ok.inj h)).symm
  · rename_i hnone
    split_ifs at h with hpending hrest hinput hcapacity
    refine .inr ⟨(congrArg Prod.fst (Except.ok.inj h)).symm, hnone, by simpa using hpending, ?_,
      by omega⟩
    rintro letter rfl
    have hboth : blocked = false ∧ letter.phase = .accepted := by simpa using hinput
    exact hboth.2

theorem Sound.compact (h : Sound w) {journal : ContextJournal} {blocked : Bool}
    {request : CompactRequest} {operation : ContextOperation} (hfree : w.admission = none)
    (hok : compactNativeContext w.journal w.read blocked w.input request = .ok (journal, operation)) :
    Sound { w with journal } := by
  rcases compact_ok hok with rfl | ⟨rfl, hnew, hpending, hinput, hlength⟩
  · exact h
  · have hresolved : ∀ row ∈ w.journal.operations, unresolved row = false := by
      intro row hrow
      by_contra hopen
      have : contextMutationPending w.journal = true :=
        List.any_eq_true.mpr ⟨row, hrow, by simpa using hopen⟩
      rw [this] at hpending
      cases hpending
    have hkept : ∀ operationId, Dispatched w.journal.operations operationId →
        Dispatched (w.journal.operations ++ [queuedOperation w.journal request]) operationId := by
      rintro operationId ⟨row, hrow, hid⟩
      exact ⟨row, List.mem_append_left _ hrow, hid⟩
    refine ⟨⟨?_, h.called, h.once⟩, ?_, ?_, ?_, h.held, ?_, fun _ => hinput, ?_, h.rightful⟩
    · intro row hrow other hother hopen hopen'
      rcases List.mem_append.mp hrow with hold | hlast
      · rw [hresolved row hold] at hopen
        cases hopen
      · rcases List.mem_append.mp hother with hold' | hlast'
        · rw [hresolved other hold'] at hopen'
          cases hopen'
        · rw [List.mem_singleton.mp hlast, List.mem_singleton.mp hlast']
    · have hvalid := h.valid
      simp only [ContextJournal.valid, Bool.and_eq_true, decide_eq_true_eq] at hvalid ⊢
      refine ⟨⟨hvalid.1.1, ?_⟩, ?_⟩
      · rw [List.length_append, List.length_singleton]
        omega
      · rw [List.all_append, hvalid.2]
        rfl
    · rw [List.map_append]
      apply nodup_grow h.ids
      intro hmem
      obtain ⟨row, hrow, hid⟩ := List.mem_map.mp hmem
      have hother := List.find?_eq_none.mp hnew row hrow
      exact hother (by simpa [named, queuedOperation] using hid)
    · intro operationId hid
      exact hkept operationId (h.known operationId hid)
    · intro task htask
      have hpoint := h.points task htask
      revert hpoint
      cases task.point with
      | waiting active => exact fun hpoint hqueued => hkept _ (hpoint hqueued)
      | looking active => exact hkept _
      | observing active marker => exact hkept _
      | doubting active => exact hkept _
      | compacting active => exact fun hpoint => ⟨hkept _ hpoint.1, hpoint.2⟩
      | rejecting active => exact fun _ => trivial
      | marking active => exact fun _ => trivial
      | dispatching active marker => exact fun _ => trivial
      | called active => exact fun _ => trivial
      | settling active returned => exact fun _ => trivial
      | ended => exact fun _ => trivial
    · intro actions input hadmission
      rw [hfree] at hadmission
      cases hadmission

/-! The writes of a pump task. -/

theorem Sound.taken_row (h : Sound w) {operationId : String}
    (hdispatched : Dispatched w.journal.operations operationId) {row : ContextOperation}
    (hrow : w.journal.operation operationId = some row) (hopen : row.state ≠ .completed) :
    unresolved row = true := by
  obtain ⟨other, hother, hid, -, hrejected⟩ := hdispatched
  have hname : row.operationId = operationId := by
    simpa [named] using List.find?_some hrow
  obtain rfl := eq_of_ids h.ids (List.mem_of_find?_eq_some hrow) hother (hname.trans hid.symm)
  simp [unresolved, hopen, hrejected]

theorem unresolved_of_state {state : OperationState} (hstate : row.state = state)
    (hcompleted : state ≠ .completed) (hrejected : state ≠ .rejected) :
    unresolved row = true := by
  simp [unresolved, hstate, hcompleted, hrejected]

theorem Sound.doubt_moves (h : Sound w) {active : ContextOperation}
    (hdispatched : Dispatched w.journal.operations active.operationId) :
    Moves w.journal.operations (w.journal.amendIf active.operationId
      (fun row => row.state != .completed) fun row => { row with state := .uncertain }).operations := by
  refine amendIf_moves ?_ (fun _ => rfl) (fun _ => rfl) (fun _ => OperationState.noConfusion)
    fun _ _ => OperationState.noConfusion
  intro row hrow hopen
  exact h.taken_row hdispatched hrow (by simpa using hopen)

theorem reject_moves (journal : ContextJournal) (operationId : String) :
    Moves journal.operations (journal.amendIf operationId (fun row => row.state == .queued)
      fun row => { row with state := .rejected }).operations := by
  refine amendIf_moves ?_ (fun _ => rfl) (fun _ => rfl) (fun _ => OperationState.noConfusion) ?_
  · intro row _ hqueued
    exact unresolved_of_state (by simpa using hqueued) OperationState.noConfusion
      OperationState.noConfusion
  · intro row hqueued _
    simpa using hqueued

theorem settle_moves (journal : ContextJournal) (operationId : String) (returned : Bool) :
    Moves journal.operations (journal.amendIf operationId (fun row => row.state == .dispatching)
      fun row => { row with state := if returned then .running else .uncertain }).operations := by
  refine amendIf_moves ?_ (fun _ => rfl) (fun _ => rfl) ?_ ?_
  · intro row _ hdispatching
    exact unresolved_of_state (by simpa using hdispatching) OperationState.noConfusion
      OperationState.noConfusion
  · intro row
    cases returned <;> exact OperationState.noConfusion
  · intro row _ hrejected
    cases returned <;> cases hrejected

theorem dispatch_moves (hrow : journal.operation operationId = some row)
    (hqueued : row.state = .queued)
    (marker : Option String) :
    Moves journal.operations (journal.amend operationId
        fun row => { row with state := .dispatching, markerBefore := marker }).operations ∧
      Dispatched (journal.amend operationId
        fun row => { row with state := .dispatching, markerBefore := marker }).operations
        operationId := by
  have hopen := unresolved_of_state hqueued OperationState.noConfusion OperationState.noConfusion
  refine ⟨amend_moves hrow hopen rfl rfl OperationState.noConfusion fun _ => hqueued, ?_⟩
  obtain ⟨hname, pre, post, -, hamend⟩ := amendFirst_some
    (f := fun row => { row with state := .dispatching, markerBefore := marker }) hrow
  refine ⟨{ row with state := .dispatching, markerBefore := marker }, ?_,
    by simpa [named] using hname, OperationState.noConfusion, OperationState.noConfusion⟩
  unfold ContextJournal.amend
  rw [hamend]
  exact List.mem_append_right _ List.mem_cons_self

theorem pumpWrite_sound (h : Sound w) {task : ContextTask} (htask : task ∈ w.tasks)
    (hnew : ∀ active marker, task.point = .observing active marker →
      ¬ (⟨active.generation, marker⟩ ∈ w.raised ∧
        raises w.journal w.read ⟨active.generation, marker⟩ = true))
    {point : Point} (hwrite : pumpWrite w task = some (v, point)) :
    Sound v ∧ v.tasks = w.tasks ∧ v.admission = w.admission ∧ PointOk v point := by
  have hpoint := h.points task htask
  unfold pumpWrite at hwrite
  split at hwrite
  · rename_i active marker htaken
    rw [htaken] at hpoint
    split at hwrite
    · rename_i u hobserved
      obtain ⟨rfl, rfl⟩ := Prod.mk.inj (Option.some.inj hwrite)
      have hfresh : ∀ id, some marker = some id → ¬ (⟨active.generation, id⟩ ∈ w.raised ∧
          raises w.journal w.read ⟨active.generation, id⟩ = true) := by
        intro id hid
        obtain rfl := Option.some.inj hid
        exact hnew active marker htaken
      obtain ⟨hsound, htasks, hadmission⟩ := h.observed hfresh hobserved
      exact ⟨hsound, htasks, hadmission, trivial⟩
    · obtain ⟨rfl, rfl⟩ := Prod.mk.inj (Option.some.inj hwrite)
      exact ⟨h, rfl, rfl, hpoint⟩
  · rename_i active htaken
    rw [htaken] at hpoint
    split at hwrite
    · obtain ⟨rfl, rfl⟩ := Prod.mk.inj (Option.some.inj hwrite)
      exact ⟨h, rfl, rfl, trivial⟩
    · obtain ⟨rfl, rfl⟩ := Prod.mk.inj (Option.some.inj hwrite)
      exact ⟨h.amendIf (h.doubt_moves hpoint) fun _ => rfl, rfl, rfl, trivial⟩
  · rename_i active htaken
    obtain ⟨rfl, rfl⟩ := Prod.mk.inj (Option.some.inj hwrite)
    exact ⟨h.amendIf (reject_moves _ _) fun _ => rfl, rfl, rfl, trivial⟩
  · rename_i active marker htaken
    split at hwrite
    · rename_i hqueued
      obtain ⟨row, hrow, hrow_queued⟩ := (Option.any_eq_true _ _).mp hqueued
      rw [beq_iff_eq] at hrow_queued
      dsimp only at hwrite
      split at hwrite
      · rename_i hvalid
        obtain ⟨rfl, rfl⟩ := Prod.mk.inj (Option.some.inj hwrite)
        obtain ⟨hmoves, hdispatched⟩ := dispatch_moves hrow hrow_queued marker
        refine ⟨h.rewrite hmoves hvalid h.once h.rightful, rfl, rfl, hdispatched, ?_⟩
        intro hcompacted
        obtain ⟨other, hother, hid, hnot_queued, -⟩ := h.known _ hcompacted
        have hname : row.operationId = active.operationId := by
          simpa [named] using List.find?_some hrow
        obtain rfl := eq_of_ids h.ids (List.mem_of_find?_eq_some hrow) hother
          (hname.trans hid.symm)
        exact hnot_queued hrow_queued
      · obtain ⟨rfl, rfl⟩ := Prod.mk.inj (Option.some.inj hwrite)
        exact ⟨h, rfl, rfl, trivial⟩
    · obtain ⟨rfl, rfl⟩ := Prod.mk.inj (Option.some.inj hwrite)
      exact ⟨h, rfl, rfl, trivial⟩
  · rename_i active returned htaken
    obtain ⟨rfl, rfl⟩ := Prod.mk.inj (Option.some.inj hwrite)
    exact ⟨h.amendIf (settle_moves _ _ _) fun _ => rfl, rfl, rfl, trivial⟩
  · cases hwrite

theorem pumpWrite_locked (hwrite : pumpWrite w task = some (v, point)) :
    task.point.locked = true := by
  unfold pumpWrite at hwrite
  cases hpoint : task.point with
  | observing active marker => rfl
  | doubting active => rfl
  | rejecting active => rfl
  | dispatching active marker => rfl
  | settling active returned => rfl
  | waiting active =>
    rw [hpoint] at hwrite
    cases hwrite
  | looking active =>
    rw [hpoint] at hwrite
    cases hwrite
  | marking active =>
    rw [hpoint] at hwrite
    cases hwrite
  | compacting active =>
    rw [hpoint] at hwrite
    cases hwrite
  | called active =>
    rw [hpoint] at hwrite
    cases hwrite
  | ended =>
    rw [hpoint] at hwrite
    cases hwrite

theorem admitted_ok (h : PointOk w (.waiting active)) : PointOk w (admitted task active read) := by
  unfold admitted
  split
  · rename_i hqueued
    exact h hqueued
  · split <;> trivial

theorem marked_ok {answer : Option (Option String)} (h : PointOk w (.looking active)) :
    PointOk w (marked active answer) := by
  unfold marked
  split
  · split
    · exact h
    · exact h
  · exact h

theorem thrown_cases {point' : Point} (h : thrown point = some point') :
    (∃ active marker, point = .observing active marker ∧ point' = .doubting active) ∨
      ∃ active, point = .settling active true ∧ point' = .settling active false := by
  unfold thrown at h
  split at h
  · exact .inl ⟨_, _, rfl, (Option.some.inj h).symm⟩
  · exact .inr ⟨_, rfl, (Option.some.inj h).symm⟩
  · cases h

theorem PointOk.withCompacted (h : PointOk w point)
    (hne : ∀ active, point ≠ .compacting active) (compacted : List String) :
    PointOk { w with compacted } point := by
  cases point with
  | compacting active => exact absurd rfl (hne active)
  | waiting active => exact h
  | looking active => exact h
  | observing active marker => exact h
  | doubting active => exact h
  | rejecting active => exact h
  | marking active => exact h
  | dispatching active marker => exact h
  | called active => exact h
  | settling active returned => exact h
  | ended => exact h

/-- The call of `api.compact`: no other task is about to compact, since this one has the lock. -/
theorem Sound.compacts (h : Sound w) {i : Nat} {task : ContextTask} {active : ContextOperation}
    (htask : w.tasks[i]? = some task) (hlocked : task.point.locked = true)
    (hpoint : PointOk w (.compacting active)) :
    Sound { w.setPoint i task (.called active) with
      compacted := w.compacted ++ [active.operationId] } := by
  have hset : Sound (w.setPoint i task (.called active)) :=
    h.setPoint (fun _ => h.held i task htask hlocked) trivial
  refine ⟨⟨h.one, ?_, h.once⟩, h.valid, h.ids, ?_, hset.held, ?_, h.quiet, h.delivering,
    h.rightful⟩
  · exact nodup_grow h.called hpoint.2
  · intro operationId hid
    rcases List.mem_append.mp hid with hold | hlast
    · exact h.known operationId hold
    · rw [List.mem_singleton.mp hlast]
      exact hpoint.1
  · intro other hother
    refine (hset.points other hother).withCompacted ?_ _
    intro again hagain
    obtain ⟨j, hj⟩ := List.getElem?_of_mem hother
    have hheld := hset.held j other hj (by rw [hagain]; rfl)
    rw [show (w.setPoint i task (.called active)).admission = w.admission from rfl,
      h.held i task htask hlocked] at hheld
    obtain rfl := Holder.pump.inj (Option.some.inj hheld)
    have hi : i < w.tasks.length := (List.getElem?_eq_some_iff.mp htask).1
    rw [show (w.setPoint i task (.called active)).tasks =
      w.tasks.set i { task with point := .called active } from rfl,
      List.getElem?_set_self hi] at hj
    obtain rfl := Option.some.inj hj
    cases hagain

theorem Sound.goesOn (h : Sound w) {i : Nat} {task : ContextTask} {point next : Point}
    (htask : w.tasks[i]? = some task) (htaken : task.point = point) (hlocked : point.locked = true)
    (hnext : PointOk w point → PointOk w next) : Sound (w.setPoint i task next) := by
  have hpoint := h.points task (List.mem_of_getElem? htask)
  rw [htaken] at hpoint
  refine h.setPoint (fun _ => h.held i task htask ?_) (hnext hpoint)
  rw [htaken]
  exact hlocked

theorem Sound.putInput (h : Sound w) (hquiet : contextMutationPending w.journal = false)
    (input : Option RuntimeInput) : Sound { w with input } := by
  refine h.withInput ?_
  intro hpending
  rw [hquiet] at hpending
  cases hpending

theorem keeps_new (hkeeps : keepsCompletions w e = true) {completion : Completion}
    (hcompletion : completionOf w e = some completion) :
    ¬ (completion ∈ w.raised ∧ raises w.journal w.read completion = true) := by
  rintro ⟨hmem, hraises⟩
  simp only [keepsCompletions, hcompletion, hraises, Bool.and_true, Bool.not_eq_true',
    List.contains_eq_mem, decide_eq_false_iff_not] at hkeeps
  exact hkeeps hmem

theorem completionOf_pumpWrites {i : Nat} (htask : w.tasks[i]? = some task)
    {active : ContextOperation} {marker : String} (hpoint : task.point = .observing active marker) :
    completionOf w (.pumpWrites i) = some ⟨active.generation, marker⟩ := by
  simp [completionOf, observation, htask, hpoint]

theorem step_sound (h : Sound w)
    (hkeeps : keepsCompletions w e = true) (hstep : step dateParse w e = some v) : Sound v := by
  cases e with
  | publish read =>
    obtain rfl := Option.some.inj hstep
    exact ⟨⟨h.one, h.called, h.once⟩, h.valid, h.ids, h.known, h.held, h.points, h.quiet,
      h.delivering, h.rightful⟩
  | compact request blocked =>
    simp only [step] at hstep
    split at hstep
    · rename_i hfree
      split at hstep
      · rename_i hok
        obtain rfl := Option.some.inj hstep
        exact h.compact (free_none hfree) hok
      · obtain rfl := Option.some.inj hstep
        exact h
    · cases hstep
  | observe generation completionId =>
    refine (h.observed ?_ hstep).1
    rintro id rfl
    exact keeps_new hkeeps rfl
  | pumpStarts generation =>
    simp only [step] at hstep
    split at hstep
    · rename_i active hactive
      obtain rfl := Option.some.inj hstep
      exact h.started hactive
    · obtain rfl := Option.some.inj hstep
      exact h
  | pumpLocks i =>
    simp only [step] at hstep
    split at hstep
    · rename_i task htask
      split at hstep
      · rename_i active hwaiting
        split at hstep
        · rename_i hfree
          obtain rfl := Option.some.inj hstep
          have hnone := free_none hfree
          have hpoint := h.points task (List.mem_of_getElem? htask)
          rw [hwaiting] at hpoint
          exact h.locks hnone (admitted_ok hpoint)
        · cases hstep
      · cases hstep
    · cases hstep
  | pumpReadsMarker i answer =>
    simp only [step] at hstep
    split at hstep
    · rename_i task htask
      split at hstep
      · rename_i active hlooking
        obtain rfl := Option.some.inj hstep
        exact h.goesOn htask hlooking rfl marked_ok
      · rename_i active hmarking
        split at hstep
        · obtain rfl := Option.some.inj hstep
          exact h.goesOn htask hmarking rfl fun _ => trivial
        · obtain rfl := Option.some.inj hstep
          have hlocked : task.point.locked = true := by
            rw [hmarking]
            rfl
          exact h.finish htask hlocked
      · cases hstep
    · cases hstep
  | pumpWrites i =>
    simp only [step] at hstep
    split at hstep
    · rename_i task htask
      obtain ⟨⟨u, point⟩, hwrite, rfl⟩ := Option.map_eq_some_iff.mp hstep
      have hlocked := pumpWrite_locked hwrite
      have hnew : ∀ active marker, task.point = .observing active marker →
          ¬ (⟨active.generation, marker⟩ ∈ w.raised ∧
            raises w.journal w.read ⟨active.generation, marker⟩ = true) := by
        intro active marker hobserving
        exact keeps_new hkeeps (completionOf_pumpWrites htask hobserving)
      obtain ⟨hsound, htasks, hadmission, hpoint⟩ :=
        pumpWrite_sound h (List.mem_of_getElem? htask) hnew hwrite
      have htask' : u.tasks[i]? = some task := by rw [htasks, htask]
      unfold World.goOn
      split
      · exact hsound.finish htask' hlocked
      · exact hsound.setPoint (fun _ => hsound.held i task htask' hlocked) hpoint
    · cases hstep
  | pumpThrows i =>
    simp only [step] at hstep
    split at hstep
    · rename_i task htask
      obtain ⟨point, hthrown, rfl⟩ := Option.map_eq_some_iff.mp hstep
      rcases thrown_cases hthrown with ⟨active, marker, htaken, rfl⟩ | ⟨active, htaken, rfl⟩
      · exact h.goesOn htask htaken rfl id
      · exact h.goesOn htask htaken rfl fun _ => trivial
    · cases hstep
  | pumpCompacts i =>
    simp only [step] at hstep
    split at hstep
    · rename_i task htask
      split at hstep
      · rename_i active hcompacting
        obtain rfl := Option.some.inj hstep
        have hpoint := h.points task (List.mem_of_getElem? htask)
        rw [hcompacting] at hpoint
        have hlocked : task.point.locked = true := by
          rw [hcompacting]
          rfl
        exact h.compacts htask hlocked hpoint
      · cases hstep
    · cases hstep
  | pumpReturns i returned =>
    simp only [step] at hstep
    split at hstep
    · rename_i task htask
      split at hstep
      · rename_i active hcalled
        obtain rfl := Option.some.inj hstep
        exact h.goesOn htask hcalled rfl fun _ => trivial
      · cases hstep
    · cases hstep
  | pumpStops i =>
    simp only [step] at hstep
    split at hstep
    · rename_i task htask
      split at hstep
      · rename_i hlocked
        obtain rfl := Option.some.inj hstep
        exact h.finish htask hlocked
      · obtain rfl := Option.some.inj hstep
        exact h.setPoint (fun hl => by cases hl) trivial
    · cases hstep
  | delivers env recipientKey ledger cursors acked =>
    simp only [step] at hstep
    split at hstep
    · rename_i hguard
      obtain rfl := Option.some.inj hstep
      rw [Bool.and_eq_true] at hguard
      have hnone := free_none hguard.1
      refine h.delivery (by simp [hnone]) ?_
      intro input hmem
      have hreads := hguard.2
      rw [readsWorld, Bool.and_eq_true, beq_iff_eq] at hreads
      rw [← hreads.1]
      exact deliverLocked_pending hmem
    · cases hstep
  | deliveryWrites =>
    simp only [step] at hstep
    split at hstep
    · rename_i input actions hadmission
      obtain rfl := Option.some.inj hstep
      have hnone : ∀ i, w.admission ≠ some (.pump i) := by simp [hadmission]
      have hpending := h.delivering _ input hadmission List.mem_cons_self
      have hinput : Sound { w with input := some input } := h.withInput (by simp [hpending])
      exact hinput.delivery hnone fun _ _ => hpending
    · rename_i action actions hadmission hother
      obtain rfl := Option.some.inj hstep
      have hnone : ∀ i, w.admission ≠ some (.pump i) := by simp [hother]
      refine h.delivery hnone ?_
      intro input hmem
      exact h.delivering _ input hother (List.mem_cons_of_mem _ hmem)
    · rename_i hadmission
      obtain rfl := Option.some.inj hstep
      exact h.unlocked (by simp [hadmission])
    · cases hstep
  | deliveryStops =>
    simp only [step] at hstep
    split at hstep
    · rename_i actions hadmission
      obtain rfl := Option.some.inj hstep
      exact h.unlocked (by simp [hadmission])
    · cases hstep
  | command input =>
    simp only [step] at hstep
    split at hstep
    · rename_i hguard
      obtain rfl := Option.some.inj hstep
      simp only [Bool.and_eq_true, Bool.not_eq_true'] at hguard
      exact h.putInput hguard.1.2 _
    · cases hstep
  | ownerTakes =>
    simp only [step] at hstep
    split at hstep
    · rename_i hphase
      obtain rfl := Option.some.inj hstep
      exact h.putInput (h.notPending hphase InputPhase.noConfusion) _
    · cases hstep
  | ownerSubmits =>
    simp only [step] at hstep
    split at hstep
    · obtain rfl := Option.some.inj hstep
      exact h
    · cases hstep
  | ownerSettles phase =>
    simp only [step] at hstep
    split at hstep
    · rename_i hphase
      obtain rfl := Option.some.inj hstep
      rcases hphase with hphase | hphase
      · exact h.putInput (h.notPending hphase InputPhase.noConfusion) _
      · exact h.putInput (h.notPending hphase InputPhase.noConfusion) _
    · cases hstep

/-! What one step does to operations and letters. -/

theorem completed_amendIf (hf : ∀ row, (f row).state ≠ .completed) {row : ContextOperation}
    (h : row ∈ (journal.amendIf operationId p f).operations) (hdone : row.state = .completed) :
    row ∈ journal.operations := by
  unfold ContextJournal.amendIf at h
  split at h
  · rcases mem_amendFirst h with hold | ⟨before, -, rfl⟩
    · exact hold
    · exact absurd hdone (hf before)
  · exact h

/-- The rows after the step: those resolved before are there, and the newly completed one was taken
and completed by the observed id. -/
structure Written (w : World) (seen : Option (String × Option String))
    (rows : List ContextOperation) : Prop where
  final : ∀ row ∈ w.journal.operations, unresolved row = false → row ∈ rows
  completes : ∀ row ∈ rows, row.state = .completed →
    row ∈ w.journal.operations ∨ ∃ before ∈ w.journal.operations,
      before.operationId = row.operationId ∧ before.markerBefore = row.markerBefore ∧
      taken before = true ∧ ∃ completionId, seen = some (row.generation, completionId) ∧
        ∀ id, completionId = some id → row.markerBefore ≠ some id

theorem written_same (w : World) (seen : Option (String × Option String)) :
    Written w seen w.journal.operations :=
  ⟨fun _ hrow _ => hrow, fun _ hrow _ => .inl hrow⟩

theorem observed_written {generation : String} {completionId : Option String}
    (hobserved : observed w generation completionId = some v) :
    Written w (some (generation, completionId)) v.journal.operations := by
  unfold observed at hobserved
  split at hobserved
  · obtain rfl := Option.some.inj hobserved
    exact written_same _ _
  · rename_i journal hjournal
    split at hobserved
    · obtain rfl := Option.some.inj hobserved
      obtain ⟨rfl, -, hmarker⟩ := observe_some hjournal
      refine ⟨fun row hrow hdone => (raise_moves _ _ _).final hrow hdone, ?_⟩
      intro row hrow hdone
      rcases mem_amendFirst hrow with hold | ⟨before, hfind, rfl⟩
      · exact .inl hold
      · have hsettled := List.find?_some hfind
        rw [settledBy, Bool.and_eq_true, beq_iff_eq] at hsettled
        refine .inr ⟨before, List.mem_of_find?_eq_some hfind, rfl, rfl, hsettled.2, completionId,
          ?_, hmarker before hfind⟩
        rw [hsettled.1]
    · cases hobserved

theorem pumpWrite_written (h : Sound w) {task : ContextTask} (htask : task ∈ w.tasks)
    {seen : Option (String × Option String)}
    (hseen : ∀ active marker, task.point = .observing active marker →
      seen = some (active.generation, some marker))
    {point : Point} (hwrite : pumpWrite w task = some (v, point)) :
    Written w seen v.journal.operations := by
  have hpoint := h.points task htask
  unfold pumpWrite at hwrite
  split at hwrite
  · rename_i active marker htaken
    rw [hseen active marker htaken]
    split at hwrite
    · rename_i u hobserved
      obtain ⟨rfl, -⟩ := Prod.mk.inj (Option.some.inj hwrite)
      exact observed_written hobserved
    · obtain ⟨rfl, -⟩ := Prod.mk.inj (Option.some.inj hwrite)
      exact written_same _ _
  · rename_i active htaken
    rw [htaken] at hpoint
    split at hwrite
    · obtain ⟨rfl, -⟩ := Prod.mk.inj (Option.some.inj hwrite)
      exact written_same _ _
    · obtain ⟨rfl, -⟩ := Prod.mk.inj (Option.some.inj hwrite)
      refine ⟨fun row hrow hdone => (h.doubt_moves hpoint).final hrow hdone, ?_⟩
      intro row hrow hdone
      exact .inl (completed_amendIf (fun _ => OperationState.noConfusion) hrow hdone)
  · obtain ⟨rfl, -⟩ := Prod.mk.inj (Option.some.inj hwrite)
    refine ⟨fun row hrow hdone => (reject_moves _ _).final hrow hdone, ?_⟩
    intro row hrow hdone
    exact .inl (completed_amendIf (fun _ => OperationState.noConfusion) hrow hdone)
  · rename_i active marker htaken
    split at hwrite
    · rename_i hqueued
      obtain ⟨row, hrow, hrow_queued⟩ := (Option.any_eq_true _ _).mp hqueued
      rw [beq_iff_eq] at hrow_queued
      dsimp only at hwrite
      split at hwrite
      · obtain ⟨rfl, -⟩ := Prod.mk.inj (Option.some.inj hwrite)
        refine ⟨fun other hother hdone =>
          (dispatch_moves hrow hrow_queued marker).1.final hother hdone, ?_⟩
        intro other hother hdone
        rcases mem_amendFirst hother with hold | ⟨before, -, rfl⟩
        · exact .inl hold
        · cases hdone
      · obtain ⟨rfl, -⟩ := Prod.mk.inj (Option.some.inj hwrite)
        exact written_same _ _
    · obtain ⟨rfl, -⟩ := Prod.mk.inj (Option.some.inj hwrite)
      exact written_same _ _
  · rename_i active returned htaken
    obtain ⟨rfl, -⟩ := Prod.mk.inj (Option.some.inj hwrite)
    refine ⟨fun row hrow hdone => (settle_moves _ _ _).final hrow hdone, ?_⟩
    intro row hrow hdone
    refine .inl (completed_amendIf ?_ hrow hdone)
    intro before
    cases returned <;> exact OperationState.noConfusion
  · cases hwrite

theorem compact_written
    (hok : compactNativeContext w.journal w.read blocked w.input request = .ok (journal, operation))
    (seen : Option (String × Option String)) : Written w seen journal.operations := by
  rcases compact_ok hok with rfl | ⟨rfl, -⟩
  · exact written_same _ _
  · refine ⟨fun row hrow _ => List.mem_append_left _ hrow, ?_⟩
    intro row hrow hdone
    rcases List.mem_append.mp hrow with hold | hlast
    · exact .inl hold
    · rw [List.mem_singleton.mp hlast] at hdone
      cases hdone

theorem step_journal (hcompact : ∀ request blocked, e ≠ .compact request blocked)
    (hobserve : ∀ generation completionId, e ≠ .observe generation completionId)
    (hwrites : ∀ i, e ≠ .pumpWrites i) (hstep : step dateParse w e = some v) :
    v.journal = w.journal := by
  cases e with
  | compact request blocked => exact absurd rfl (hcompact request blocked)
  | observe generation completionId => exact absurd rfl (hobserve generation completionId)
  | pumpWrites i => exact absurd rfl (hwrites i)
  | pumpThrows i =>
    simp only [step] at hstep
    split at hstep
    · obtain ⟨point, -, rfl⟩ := Option.map_eq_some_iff.mp hstep
      rfl
    · cases hstep
  | _ =>
    simp only [step] at hstep
    grind [World.setPoint, World.finish, World.setPhase]

theorem step_written (h : Sound w)
    (hstep : step dateParse w e = some v) : Written w (observation w e) v.journal.operations := by
  cases e with
  | compact request blocked =>
    simp only [step] at hstep
    split at hstep
    · split at hstep
      · rename_i hok
        obtain rfl := Option.some.inj hstep
        exact compact_written hok _
      · obtain rfl := Option.some.inj hstep
        exact written_same _ _
    · cases hstep
  | observe generation completionId => exact observed_written hstep
  | pumpWrites i =>
    simp only [step] at hstep
    split at hstep
    · rename_i task htask
      obtain ⟨⟨u, point⟩, hwrite, rfl⟩ := Option.map_eq_some_iff.mp hstep
      have hwritten : Written w (observation w (.pumpWrites i)) u.journal.operations := by
        refine pumpWrite_written h (List.mem_of_getElem? htask) ?_ hwrite
        intro active marker hpoint
        simp [observation, htask, hpoint]
      unfold World.goOn
      split <;> exact hwritten
    · cases hstep
  | _ =>
    rw [step_journal (by simp) (by simp) (by simp) hstep]
    exact written_same _ _

theorem step_letters (h : Sound w)
    (hstep : step dateParse w e = some v) (hhands : handsOver w e = true) :
    contextMutationPending w.journal = false := by
  cases e with
  | deliveryWrites =>
    simp only [handsOver] at hhands
    split at hhands
    · rename_i input actions hadmission
      exact h.delivering _ input hadmission List.mem_cons_self
    · cases hhands
  | ownerTakes =>
    simp only [step] at hstep
    split at hstep
    · rename_i hphase
      exact h.notPending hphase InputPhase.noConfusion
    · cases hstep
  | ownerSubmits =>
    simp only [step] at hstep
    split at hstep
    · rename_i hphase
      exact h.notPending hphase InputPhase.noConfusion
    · cases hstep
  | _ => cases hhands

theorem step_advances (h : Sound w)
    (hstep : step dateParse w e = some v) : Advances w e v :=
  ⟨(step_written h hstep).final, (step_written h hstep).completes, step_letters h hstep⟩

/-! A completion that is observed again raises the revision again. -/

theorem observed_again (h : Sound w) {completion : Completion} (hmem : completion ∈ w.raised)
    (hraises : raises w.journal w.read completion = true) :
    observed w completion.generation (some completion.id) =
      some (w.raise completion.generation (some completion.id)) := by
  have hvalid : (raise w.journal completion.generation (some completion.id)).valid = true :=
    raise_valid h.valid (h.rightful completion hmem)
  simp only [observed, observe_raises hraises, hvalid, if_true]

theorem raise_again {completion : Completion} (hmem : completion ∈ w.raised) :
    ¬ (w.raise completion.generation (some completion.id)).raised.Nodup := by
  intro honce
  change (w.raised ++ [completion]).Nodup at honce
  exact (List.nodup_append.mp honce).2.2 completion hmem completion List.mem_cons_self rfl

theorem broken_step (h : Sound w)
    (hbroken : ¬ keepsCompletions w e = true) (hstep : step dateParse w e = some v) :
    ¬ v.raised.Nodup := by
  unfold keepsCompletions at hbroken
  split at hbroken
  · rename_i completion hcompletion
    simp only [Bool.not_eq_true', Bool.not_eq_false, Bool.and_eq_true, List.contains_eq_mem,
      decide_eq_true_eq] at hbroken
    obtain ⟨hmem, hraises⟩ := hbroken
    have hagain := observed_again h hmem hraises
    cases e with
    | observe generation completionId =>
      cases completionId with
      | none => cases hcompletion
      | some id =>
        obtain rfl := Option.some.inj hcompletion
        have hv : some (w.raise generation (some id)) = some v := hagain.symm.trans hstep
        obtain rfl := Option.some.inj hv
        exact raise_again hmem
    | pumpWrites i =>
      simp only [step] at hstep
      split at hstep
      · rename_i task htask
        cases hpoint : task.point with
        | observing active marker =>
          rw [completionOf_pumpWrites htask hpoint] at hcompletion
          obtain rfl := Option.some.inj hcompletion
          simp only [pumpWrite, hpoint, hagain, Option.map_some] at hstep
          obtain rfl := Option.some.inj hstep
          exact raise_again hmem
        | _ => simp [completionOf, observation, htask, hpoint] at hcompletion
      · cases hstep
    | _ => cases hcompletion
  · exact absurd rfl hbroken

/-- In every state a run reaches at most one operation is unresolved, none was compacted twice, no
completion raised the revision twice, and every next step leaves resolved operations, completes one
by a new marker of its generation, and lets the letters wait for it: exactly when the run observes
no completion again behind another one. -/
theorem context_operations_are_serial (dateParse : String → Option Int) (es : List Event)
    (w : World) (hrun : run (step dateParse) startWorld es = some w) :
    (∀ v, Reached (step dateParse) startWorld es v →
      Serial v ∧ ∀ e u, step dateParse v e = some u → Advances v e u) ↔
      Along (step dateParse) (fun v e => keepsCompletions v e = true) startWorld es :=
  (along_iff_reached (fun _ _ _ hs hkeeps hstep => step_sound hs hkeeps hstep)
    (fun _ hs => ⟨hs.toSerial, fun _ _ hstep => step_advances hs hstep⟩)
    (fun _ _ _ hs hbroken hstep hboth => broken_step hs hbroken hstep hboth.1.once)
    hrun sound_start).symm

end

/-! A completion that a second owner observes on either side of the settling of an old operation. -/

def idleRead (generation : String) : RuntimeRead := ⟨true, some ⟨generation, ⟨.idle, none, true⟩, 0⟩⟩

/-- The request, and the pass of the owner that calls `api.compact`. -/
def compaction (operationId generation : String) (i : Nat) (marker : Option String) : List Event :=
  [.publish (idleRead generation), .compact ⟨operationId, generation⟩ false,
    .pumpStarts generation, .pumpLocks i, .pumpReadsMarker i (some marker), .pumpWrites i,
    .pumpCompacts i]

/-- Two compactions, the request of the first retried and its completion seen twice. -/
def twoCompactions : List Event :=
  compaction "first" "g" 0 none ++
    [.pumpReturns 0 true, .pumpWrites 0, .compact ⟨"first", "g"⟩ false, .observe "g" (some "x"),
      .observe "g" (some "x")] ++
    compaction "second" "g" 1 (some "x") ++
    [.pumpReturns 1 false, .pumpWrites 1, .pumpStarts "g", .pumpLocks 2,
      .pumpReadsMarker 2 (some (some "y")), .pumpWrites 2]

/-- The owner ends in its call; its successor observes a completion, settles the operation of the
ended generation by the same marker, and observes the completion again. -/
def completionSeenAgain : List Event :=
  compaction "first" "old" 0 none ++
    [.pumpStops 0, .publish (idleRead "new"), .observe "new" (some "x"), .pumpStarts "new",
      .pumpLocks 1, .pumpReadsMarker 1 (some (some "x")), .pumpWrites 1, .observe "new" (some "x")]

def noDate : String → Option Int := fun _ => none

theorem context_operations_are_serial_two :
    ∃ w, run (step noDate) startWorld twoCompactions = some w ∧
      w.journal.operations.map (fun row => (row.operationId, row.state)) =
        [("first", .completed), ("second", .completed)] ∧
      ∀ v, Reached (step noDate) startWorld twoCompactions v →
        Serial v ∧ ∀ e u, step noDate v e = some u → Advances v e u := by
  have hruns : ((run (step noDate) startWorld twoCompactions).any fun w =>
      decide (w.journal.operations.map (fun row => (row.operationId, row.state)) =
        [("first", .completed), ("second", .completed)])) = true := by decide
  obtain ⟨w, hrun, hw⟩ := (Option.any_eq_true _ _).mp hruns
  refine ⟨w, hrun, of_decide_eq_true hw, ?_⟩
  refine (context_operations_are_serial noDate twoCompactions w hrun).mpr ?_
  exact along_of_check (C := keepsCompletions) (by decide)

/-- The completion raised the revision twice in the new generation. -/
theorem completion_raises_again :
    ∃ w, run (step noDate) startWorld completionSeenAgain = some w ∧
      w.raised = [⟨"new", "x"⟩, ⟨"old", "x"⟩, ⟨"new", "x"⟩] ∧ w.journal.revision = 3 ∧
      ¬ Serial w := by
  have hruns : ((run (step noDate) startWorld completionSeenAgain).any fun w =>
      decide (w.raised = [⟨"new", "x"⟩, ⟨"old", "x"⟩, ⟨"new", "x"⟩] ∧ w.journal.revision = 3)) =
        true := by decide
  obtain ⟨w, hrun, hw⟩ := (Option.any_eq_true _ _).mp hruns
  obtain ⟨hraised, hrevision⟩ := of_decide_eq_true hw
  refine ⟨w, hrun, hraised, hrevision, ?_⟩
  intro hserial
  have honce := hserial.once
  rw [hraised] at honce
  exact absurd honce (by decide)

end Ccmux.Context
