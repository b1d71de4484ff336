/- Module: Ccmux/Context/Journal
   source: src/context/store.ts, src/context/service.ts, src/context/pump.ts
   digest: The journal of native context operations, and what a request or a completion does to it. -/

import Ccmux.Lib.Amend
import Ccmux.Runtime.Input
import Ccmux.Runtime.Mailbox

namespace Ccmux.Context

open Ccmux.Chat.Format (utf16Length)
open Ccmux.Lib.Amend
open Ccmux.Runtime.Input
open Ccmux.Runtime.Mailbox (AppError)

inductive OperationState where
  | queued | dispatching | running | completed | uncertain | rejected
  deriving DecidableEq, Repr

structure ContextOperation where
  operationId : String
  generation : String
  state : OperationState
  revision : Nat
  markerBefore : Option String
  deriving DecidableEq, Repr

structure Completion where
  generation : String
  id : String
  deriving DecidableEq, Repr

structure ContextJournal where
  revision : Nat := 0
  lastCompletion : Option Completion := none
  operations : List ContextOperation := []
  deriving DecidableEq, Repr

/-- `z.string().min(1).max(256)`, the schema of a marker. -/
def isMarker (id : String) : Bool := decide (1 ≤ utf16Length id ∧ utf16Length id ≤ 256)

def isCompletionId (id : String) : Bool := decide (1 ≤ utf16Length id ∧ utf16Length id ≤ 1024)

def maxOperations : Nat := 256

/-- `JournalSchema.parse` accepts the journal; every write of it passes here or throws. -/
def ContextJournal.valid (journal : ContextJournal) : Bool :=
  journal.lastCompletion.all (fun completion => isCompletionId completion.id) &&
    decide (journal.operations.length ≤ maxOperations) &&
    journal.operations.all fun row => row.markerBefore.all isMarker

/-- The operation is neither completed nor rejected. -/
def unresolved (row : ContextOperation) : Bool :=
  row.state != .completed && row.state != .rejected

/-- The owner took the operation and its completion was not observed. -/
def taken (row : ContextOperation) : Bool :=
  row.state == .dispatching || row.state == .running || row.state == .uncertain

def contextMutationPending (journal : ContextJournal) : Bool := journal.operations.any unresolved

/-- The rows of an operation; its id is the key. -/
def named (operationId : String) (row : ContextOperation) : Bool := row.operationId == operationId

def ContextJournal.operation (journal : ContextJournal) (operationId : String) :
    Option ContextOperation :=
  journal.operations.find? (named operationId)

def ContextJournal.amend (journal : ContextJournal) (operationId : String)
    (f : ContextOperation → ContextOperation) : ContextJournal :=
  { journal with operations := amendFirst (named operationId) f journal.operations }

/-- The part of a runtime snapshot that a context operation is judged by. -/
structure ContextSnapshot where
  generation : String
  native : NativeSnapshot
  pendingRequests : Nat
  deriving DecidableEq, Repr

/-- What `readManagedRuntimeStatus` returns. -/
structure RuntimeRead where
  live : Bool
  snapshot : Option ContextSnapshot
  deriving DecidableEq, Repr

/-- The runtime is live, idle, between turns, and asks for nothing. -/
def RuntimeRead.atRest (read : RuntimeRead) : Bool :=
  read.live && read.snapshot.any fun snapshot =>
    snapshot.native.state == .idle &&
      !snapshot.native.turn.any (fun turn => turn.status == .inProgress) &&
      snapshot.pendingRequests == 0

def RuntimeRead.generation (read : RuntimeRead) : Option String :=
  read.snapshot.map fun snapshot => snapshot.generation

structure CompactRequest where
  operationId : String
  generation : String
  deriving DecidableEq, Repr

def identityChanged : AppError :=
  ⟨"CONTEXT_CONFLICT", "Native context operation identity changed", 409⟩

def operationUnresolved : AppError :=
  ⟨"CONTEXT_BUSY", "A native context operation is unresolved", 409⟩

def notIdle : AppError := ⟨"CONTEXT_BUSY", "Native context is not idle", 409⟩

def inputPending : AppError := ⟨"CONTEXT_BUSY", "Native context has accepted input pending", 409⟩

def capacityReached : AppError :=
  ⟨"CONTEXT_CAPACITY", "Native context operation capacity reached", 409⟩

/-- The operation a new request is recorded as. -/
def queuedOperation (journal : ContextJournal) (request : CompactRequest) : ContextOperation :=
  ⟨request.operationId, request.generation, .queued, journal.revision, none⟩

/-- `compactNativeContext` under both locks; `blocked` says that letters wait for the session. -/
def compactNativeContext (journal : ContextJournal) (read : RuntimeRead) (blocked : Bool)
    (input : Option RuntimeInput) (request : CompactRequest) :
    Except AppError (ContextJournal × ContextOperation) :=
  match journal.operation request.operationId with
  | some prior =>
    if prior.generation ≠ request.generation then .error identityChanged else .ok (journal, prior)
  | none =>
    if contextMutationPending journal then .error operationUnresolved
    else if read.generation ≠ some request.generation ∨ !read.atRest then .error notIdle
    else if blocked || input.any fun input => input.phase != .accepted then .error inputPending
    else if maxOperations ≤ journal.operations.length then .error capacityReached
    else
      let operation := queuedOperation journal request
      .ok ({ journal with operations := journal.operations ++ [operation] }, operation)

/-- The operation that a completion of this generation settles. -/
def settledBy (generation : String) (row : ContextOperation) : Bool :=
  row.generation == generation && taken row

/-- The journal after a completion was observed, with the operation it settles. -/
def raise (journal : ContextJournal) (generation : String) (completionId : Option String) :
    ContextJournal :=
  let revision := journal.revision + 1
  { revision
    lastCompletion := match completionId with
      | some id => some ⟨generation, id⟩
      | none => journal.lastCompletion
    operations := amendFirst (settledBy generation)
      (fun row => { row with state := .completed, revision }) journal.operations }

/-- `observeContextCompletion`: the journal it persists, or none when it returns before. -/
def observeContextCompletion (journal : ContextJournal) (read : RuntimeRead) (generation : String)
    (completionId : Option String) : Option ContextJournal :=
  if completionId.any fun id => journal.lastCompletion == some ⟨generation, id⟩ then none
  else
    match journal.operations.find? (settledBy generation) with
    | some operation =>
      if completionId.isSome && completionId == operation.markerBefore then none
      else some (raise journal generation completionId)
    | none =>
      if completionId.isNone || read.generation != some generation then none
      else some (raise journal generation completionId)

/-! A write changes one row, and keeps its identity. -/

/-- One row was written: it was unresolved, keeps its identity, is queued no more, and is rejected
only when it was. -/
inductive Moves (rows : List ContextOperation) : List ContextOperation → Prop
  | same : Moves rows rows
  | row {pre post : List ContextOperation} {before after : ContextOperation} :
      rows = pre ++ before :: post → unresolved before = true →
      after.operationId = before.operationId → after.generation = before.generation →
      after.state ≠ .queued → (after.state = .rejected → before.state = .queued) →
      Moves rows (pre ++ after :: post)

theorem taken_unresolved {row : ContextOperation} (h : taken row = true) :
    unresolved row = true ∧ row.state ≠ .queued := by
  unfold taken at h
  unfold unresolved
  cases hs : row.state <;> simp_all

theorem raise_moves (journal : ContextJournal) (generation : String)
    (completionId : Option String) :
    Moves journal.operations (raise journal generation completionId).operations := by
  unfold raise
  cases hfind : journal.operations.find? (settledBy generation) with
  | none =>
    simp only [amendFirst_none hfind]
    exact .same
  | some row =>
    obtain ⟨hrow, pre, post, hsplit, hamend⟩ := amendFirst_some
      (f := fun row => { row with state := .completed, revision := journal.revision + 1 }) hfind
    simp only [hamend]
    rw [settledBy, Bool.and_eq_true] at hrow
    exact .row hsplit (taken_unresolved hrow.2).1 rfl rfl OperationState.noConfusion
      (fun h => OperationState.noConfusion h)

variable {journal : ContextJournal} {read : RuntimeRead} {generation : String}

variable {journal' : ContextJournal} {id : String}

/-- What an observation persists is the raised journal, and why it was not skipped. -/
theorem observe_some {completionId : Option String}
    (h : observeContextCompletion journal read generation completionId = some journal') :
    journal' = raise journal generation completionId ∧
      (∀ id, completionId = some id → journal.lastCompletion ≠ some ⟨generation, id⟩) ∧
      ∀ operation, journal.operations.find? (settledBy generation) = some operation →
        ∀ id, completionId = some id → operation.markerBefore ≠ some id := by
  unfold observeContextCompletion at h
  split at h
  · cases h
  · rename_i hlast
    have hnew : ∀ id, completionId = some id → journal.lastCompletion ≠ some ⟨generation, id⟩ := by
      rintro id rfl
      simpa using hlast
    split at h
    · rename_i operation hfind
      split at h
      · cases h
      · rename_i hmarker
        refine ⟨(Option.some.inj h).symm, hnew, ?_⟩
        intro other hother id hid hsame
        rw [hfind] at hother
        obtain rfl := Option.some.inj hother
        subst hid
        exact hmarker (by simp [hsame])
    · rename_i hfind
      split at h
      · cases h
      · refine ⟨(Option.some.inj h).symm, hnew, ?_⟩
        intro other hother
        rw [hfind] at hother
        cases hother

/-- The id observed names neither the last completion nor, where an operation waits for one, the
marker before it; where none waits, the live generation is the observed one. -/
def raises (journal : ContextJournal) (read : RuntimeRead) (completion : Completion) : Bool :=
  journal.lastCompletion != some completion &&
    match journal.operations.find? (settledBy completion.generation) with
    | some operation => operation.markerBefore != some completion.id
    | none => read.generation == some completion.generation

theorem observe_raises {completion : Completion} (h : raises journal read completion = true) :
    observeContextCompletion journal read completion.generation (some completion.id) =
      some (raise journal completion.generation (some completion.id)) := by
  rw [raises, Bool.and_eq_true, bne_iff_ne] at h
  obtain ⟨hlast, hrest⟩ := h
  unfold observeContextCompletion
  rw [if_neg (by simpa using hlast)]
  split at hrest
  · rename_i operation hfind
    have hne : (some completion.id == operation.markerBefore) = false := by
      rw [beq_eq_false_iff_ne]
      exact (bne_iff_ne.mp hrest).symm
    simp only [hne, Bool.and_false, Bool.false_eq_true, if_false]
  · have hgen : (read.generation != some completion.generation) = false := by
      rw [beq_iff_eq] at hrest
      simp [hrest]
    simp only [hgen, Option.isNone_some, Bool.or_false, Bool.false_eq_true, if_false]

theorem raises_of_observe
    (h : observeContextCompletion journal read generation (some id) = some journal') :
    raises journal read ⟨generation, id⟩ = true := by
  obtain ⟨-, hlast, hmarker⟩ := observe_some h
  rw [raises, Bool.and_eq_true, bne_iff_ne]
  refine ⟨hlast id rfl, ?_⟩
  cases hfind : journal.operations.find? (settledBy generation) with
  | some operation => simpa using hmarker operation hfind id rfl
  | none =>
    unfold observeContextCompletion at h
    rw [hfind, if_neg (by simpa using hlast id rfl)] at h
    by_contra hne
    have hgen : (read.generation != some generation) = true := by simpa using hne
    simp [hgen] at h

theorem raise_valid (h : journal.valid = true) (hid : isCompletionId id = true) :
    (raise journal generation (some id)).valid = true := by
  simp only [ContextJournal.valid, Bool.and_eq_true, decide_eq_true_eq, List.all_eq_true] at h ⊢
  obtain ⟨⟨-, hlength⟩, hrows⟩ := h
  cases hfind : journal.operations.find? (settledBy generation) with
  | none =>
    simp only [raise, amendFirst_none hfind]
    exact ⟨⟨hid, hlength⟩, hrows⟩
  | some row =>
    obtain ⟨-, pre, post, hsplit, hamend⟩ := amendFirst_some
      (f := fun row => { row with state := .completed, revision := journal.revision + 1 }) hfind
    simp only [raise, hamend]
    rw [hsplit] at hlength hrows
    refine ⟨⟨hid, by simpa using hlength⟩, ?_⟩
    intro other hother
    rcases List.mem_append.mp hother with hpre | hpost
    · exact hrows other (List.mem_append_left _ hpre)
    · rcases List.mem_cons.mp hpost with rfl | hpost
      · exact hrows row (List.mem_append_right _ List.mem_cons_self)
      · exact hrows other (List.mem_append_right _ (List.mem_cons_of_mem _ hpost))

end Ccmux.Context
