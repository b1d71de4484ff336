/- Module: Ccmux/Control/CreateReceipts
   source: src/control/createReceipts.ts, src/context/fork.ts, src/control/lifecycle.ts
   digest: The receipt of a create request, and what it is compared with. -/

import Ccmux.Session.Registry

namespace Ccmux.Control.CreateReceipts

open Ccmux.Chat.Identity (AgentKind ManagedPeer)
open Ccmux.Registry

structure NativeForkSource where
  target : ManagedPeer
  registration : String
  generation : String
  nativeId : String
  turnId : Option String
  selection : Option Metadata
  deriving DecidableEq, Repr

/-- A create request with its workspace, launch and policy resolved: what a retry has to repeat.
`runtime` is absent for Codex. -/
structure Canonical where
  name : String
  workspace : String
  flags : List String
  runtime : Option AgentKind
  envFile : Option String
  launchRecipe : Option Metadata
  modelSelection : Option Metadata
  initialization : Option String
  applicationPolicy : Option Metadata
  delegation : Option Metadata
  delegationRequest : Option Metadata
  mode : Option RuntimeMode
  forkSource : Option NativeForkSource
  deriving DecidableEq, Repr

/-- The digest of a request's stable JSON. No two requests share one. -/
structure Fingerprint where
  stableJson : Canonical
  deriving DecidableEq, Repr

def fingerprint (canonical : Canonical) : Fingerprint := ⟨canonical⟩

inductive CreateStatus where
  | pending | complete | failed
  deriving DecidableEq, Repr

structure CreateRow extends Canonical where
  requestId : String
  fingerprint : Fingerprint
  generation : String
  status : CreateStatus
  threadId : Option String
  deriving DecidableEq, Repr

def capacity : Nat := 256

def pendingRow (requestId generation : String) (canonical : Canonical) : CreateRow :=
  { canonical with
    requestId := requestId
    fingerprint := fingerprint canonical
    generation := generation
    status := .pending
    threadId := none }

def receiptOf (rows : List CreateRow) (requestId : String) : Option CreateRow :=
  rows.find? fun item => item.requestId == requestId

/-- A write of the receipts that changes the one of this request. -/
def updateReceipt (rows : List CreateRow) (requestId : String) (change : CreateRow → CreateRow) :
    List CreateRow :=
  rows.map fun item => if item.requestId == requestId then change item else item

def CreateRow.failed (row : CreateRow) : CreateRow := { row with status := .failed }

def CreateRow.completed (threadId : String) (row : CreateRow) : CreateRow :=
  { row with status := .complete, threadId := some threadId }

def matchingSession (sessions : List Session) (row : CreateRow) : Option Session :=
  sessions.find? fun session =>
    session.name == row.name && session.registrationGeneration == some row.generation

def CreateRow.agent (row : CreateRow) : AgentKind := row.runtime.getD .codex

/-- What `create` is given, as the fields the session will have. -/
def CreateRow.fields (row : CreateRow) : SessionFields :=
  { name := row.name
    dir := row.workspace
    agent := row.agent
    flags := row.flags
    runtime := some (resolveRuntimeMode row.agent row.mode)
    delegation := row.delegation
    initialization := row.initialization
    envFile := row.envFile
    launchRecipe := row.launchRecipe
    modelSelection := row.modelSelection
    applicationPolicy := row.applicationPolicy
    nativeSession := none }

/-- The session is the one the receipt describes. -/
def describes (row : CreateRow) (session : Session) : Bool :=
  session.initialization == row.initialization && session.agent == row.agent &&
    session.dir == row.workspace && (row.threadId.isNone || row.threadId == some session.uuid) &&
    session.flags == row.flags && session.delegation == row.delegation &&
    session.envFile == row.envFile && session.launchRecipe == row.launchRecipe &&
    session.modelSelection == row.modelSelection && session.applicationPolicy == row.applicationPolicy

inductive ForkState where
  | reserved | dispatching | accepted | uncertain
  deriving DecidableEq, Repr

structure NativeForkIntent where
  destination : String
  source : NativeForkSource
  state : ForkState
  deriving DecidableEq, Repr

def readNativeForkIntent (intents : List NativeForkIntent) (generation : String) :
    Option NativeForkIntent :=
  intents.find? fun intent => intent.destination == generation

/-- `none` is a throw. -/
def prepareNativeFork (intents : List NativeForkIntent) (generation : String)
    (source : NativeForkSource) : Option (List NativeForkIntent) :=
  match readNativeForkIntent intents generation with
  | some prior => if prior.source = source then some intents else none
  | none => some (intents ++ [⟨generation, source, .reserved⟩])

/-- What `admitNativeFork` writes while the destination forks its source. -/
def forkMoves : ForkState → ForkState → Bool
  | .reserved, .dispatching | .dispatching, .accepted | .dispatching, .uncertain => true
  | _, _ => false

section
variable {rows : List CreateRow} {row found : CreateRow} {requestId : String}

@[simp] theorem pendingRow_requestId (generation : String) (canonical : Canonical) :
    (pendingRow requestId generation canonical).requestId = requestId := rfl

@[simp] theorem pendingRow_generation (generation : String) (canonical : Canonical) :
    (pendingRow requestId generation canonical).generation = generation := rfl

@[simp] theorem pendingRow_fingerprint (generation : String) (canonical : Canonical) :
    (pendingRow requestId generation canonical).fingerprint = fingerprint canonical := rfl

@[simp] theorem pendingRow_status (generation : String) (canonical : Canonical) :
    (pendingRow requestId generation canonical).status = .pending := rfl

@[simp] theorem fields_name : row.fields.name = row.name := rfl

theorem receiptOf_some (h : receiptOf rows requestId = some row) :
    row ∈ rows ∧ row.requestId = requestId := by
  refine ⟨List.mem_of_find?_eq_some h, ?_⟩
  have hid := List.find?_some h
  simpa using hid

theorem receiptOf_none : receiptOf rows requestId = none ↔ ∀ row ∈ rows, row.requestId ≠ requestId := by
  simp [receiptOf]

variable {sessions : List Session} {session : Session}

theorem matchingSession_some (h : matchingSession sessions row = some session) :
    session ∈ sessions ∧
      session.name = row.name ∧ session.registrationGeneration = some row.generation := by
  refine ⟨List.mem_of_find?_eq_some h, ?_⟩
  have hfound := List.find?_some h
  simpa using hfound

theorem matchingSession_none (h : matchingSession sessions row = none)
    {session : Session} (hmem : session ∈ sessions) (hname : session.name = row.name) :
    session.registrationGeneration ≠ some row.generation := by
  have hall := List.find?_eq_none.mp h session hmem
  simpa [hname] using hall

theorem describes_threadId (h : describes row session = true) :
    row.threadId = none ∨ row.threadId = some session.uuid := by
  simp only [describes, Bool.and_eq_true, Bool.or_eq_true, beq_iff_eq, Option.isNone_iff_eq_none] at h
  exact h.1.1.1.1.1.1.2

variable {change : CreateRow → CreateRow}

theorem mem_updateReceipt (h : found ∈ updateReceipt rows requestId change) :
    (found ∈ rows ∧ found.requestId ≠ requestId) ∨
      ∃ row ∈ rows, row.requestId = requestId ∧ found = change row := by
  obtain ⟨row, hrow, heq⟩ := List.mem_map.mp h
  by_cases hid : row.requestId = requestId
  · rw [if_pos (by simpa using hid)] at heq
    exact Or.inr ⟨row, hrow, hid, heq.symm⟩
  · rw [if_neg (by simpa using hid)] at heq
    exact Or.inl ⟨heq ▸ hrow, heq ▸ hid⟩

theorem updateReceipt_other (hrow : row ∈ rows)
    (hid : row.requestId ≠ requestId) : row ∈ updateReceipt rows requestId change :=
  List.mem_map.mpr ⟨row, hrow, if_neg (by simpa using hid)⟩

theorem updateReceipt_self {change : CreateRow → CreateRow} (hrow : row ∈ rows)
    (hid : row.requestId = requestId) : change row ∈ updateReceipt rows requestId change :=
  List.mem_map.mpr ⟨row, hrow, if_pos (by simpa using hid)⟩

theorem map_updateReceipt {α : Type} {key : CreateRow → α} (h : ∀ row, key (change row) = key row) :
    (updateReceipt rows requestId change).map key = rows.map key := by
  rw [updateReceipt, List.map_map]
  apply List.map_congr_left
  intro row _
  show key (if row.requestId == requestId then change row else row) = key row
  split
  · exact h row
  · rfl

end

end Ccmux.Control.CreateReceipts
