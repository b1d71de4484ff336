/- Module: Ccmux/Session/Registry
   source: src/session/registry.ts, src/session/pending.ts, src/runtime/modes.ts
   digest: The registered sessions and the pending launches, and what may be done to them. -/

import Ccmux.Chat.Identity

namespace Ccmux.Registry

open Ccmux.Chat.Identity (AgentKind ManagedPeer)

inductive RuntimeMode where
  | tui | appServer | native
  deriving DecidableEq, Repr

/-- The mode in which an agent speaks the runtime's own protocol. -/
def nativeMode : AgentKind → RuntimeMode
  | .codex => .appServer
  | .claude | .opencode | .custom => .native

/-- What a create through the control plane means when the caller does not say. -/
def fallbackMode : AgentKind → RuntimeMode
  | .claude => .tui
  | .codex => .appServer
  | .opencode | .custom => .native

/-- The modes that a create through the control plane can produce. -/
def creatableModes : AgentKind → List RuntimeMode
  | .claude => [.tui, .native]
  | .codex => [.appServer]
  | .opencode | .custom => [.native]

def resolveRuntimeMode (agent : AgentKind) (requested : Option RuntimeMode) : RuntimeMode :=
  match requested with
  | none => fallbackMode agent
  | some mode =>
    if (creatableModes agent).length < 2 then fallbackMode agent
    else if mode ∈ creatableModes agent then mode
    else fallbackMode agent

/-- What the host describes in its own schemas (a launch recipe, a model selection, a policy, a
delegation), as its stable JSON. -/
abbrev Metadata := String

structure NativeSession where
  runtime : AgentKind
  id : String
  deriving DecidableEq, Repr

structure SessionFields where
  name : String
  dir : String
  agent : AgentKind
  flags : List String
  runtime : Option RuntimeMode
  delegation : Option Metadata
  initialization : Option String
  envFile : Option String
  launchRecipe : Option Metadata
  modelSelection : Option Metadata
  applicationPolicy : Option Metadata
  nativeSession : Option NativeSession
  deriving DecidableEq, Repr

structure Session extends SessionFields where
  uuid : String
  registrationGeneration : Option String
  deriving DecidableEq, Repr

def hasNativeRuntime (fields : SessionFields) : Bool :=
  fields.runtime == some (nativeMode fields.agent)

/-- `managedPeer`: how a session is addressed. -/
def managedPeer (rcPrefix : String) (s : Session) : ManagedPeer :=
  ⟨rcPrefix, s.agent, s.name, s.uuid⟩

inductive NativeBootstrapOperation where
  | create | adopt | fork
  deriving DecidableEq, Repr

inductive PendingStatus where
  | pending | blocked
  deriving DecidableEq, Repr

/-- A launch that has no conversation yet. A `promoted` row is read as a session, so it is none of
these. -/
structure PendingSession where
  generation : String
  operation : NativeBootstrapOperation
  session : SessionFields
  status : PendingStatus
  deriving DecidableEq, Repr

structure Rows where
  sessions : List Session
  pending : List PendingSession

def findSession (sessions : List Session) (name : String) : Option Session :=
  sessions.find? fun s => s.name == name

def pendingNamed (pending : List PendingSession) (name : String) : Bool :=
  pending.any fun item => item.session.name == name

/-- `none` is a throw. -/
def appendSession (r : Rows) (s : Session) : Option Rows :=
  if (findSession r.sessions s.name).isSome then none
  else if pendingNamed r.pending s.name then none
  else if r.sessions.any (fun item => item.uuid == s.uuid) then none
  else some { r with sessions := r.sessions ++ [s] }

/-- `updateSession`, with the change as the fields the row has after it. -/
def updateSession (r : Rows) (name : String) (fields : SessionFields) : Rows :=
  { r with sessions := r.sessions.map fun s =>
      if s.name == name then { s with toSessionFields := { fields with name := s.name } } else s }

/-- `none` is a throw. -/
def updateSessionUuid (r : Rows) (name uuid : String) : Option Rows :=
  if (findSession r.sessions name).isNone then some r
  else if r.sessions.any (fun item => item.name != name && item.uuid == uuid) then none
  else
    let changed := r.sessions.map fun s => if s.name == name then { s with uuid := uuid } else s
    some { r with sessions := changed }

def removeSession (r : Rows) (name : String) : Rows :=
  { r with sessions := r.sessions.filter fun s => s.name != name }

def removeSessionIfUuid (r : Rows) (name uuid : String) : Rows :=
  match findSession r.sessions name with
  | some target => if target.uuid == uuid then removeSession r name else r
  | none => r

def removeSessionIfGeneration (r : Rows) (name generation : String) : Rows :=
  match findSession r.sessions name with
  | some target =>
    if target.registrationGeneration == some generation then removeSession r name else r
  | none => r

/-- `none` is a throw. -/
def reservePendingSession (r : Rows) (pending : PendingSession) : Option Rows :=
  if (findSession r.sessions pending.session.name).isSome then none
  else if pendingNamed r.pending pending.session.name then none
  else some { r with pending := r.pending ++ [pending] }

def markPendingBlocked (r : Rows) (generation : String) : Rows :=
  { r with pending := r.pending.map fun item =>
      if item.generation == generation then { item with status := .blocked } else item }

def removePendingSession (r : Rows) (generation : String) : Rows :=
  { r with pending := r.pending.filter fun item => item.generation != generation }

/-- The session that a pending launch becomes. -/
def promoted (p : PendingSession) (uuid : String) (nativeSession : Option NativeSession) : Session :=
  { p.session with
    nativeSession := nativeSession.or p.session.nativeSession
    uuid := uuid
    registrationGeneration := some p.generation }

/-- `none` is a throw. -/
def promotePendingSession (r : Rows) (generation uuid : String)
    (nativeSession : Option NativeSession) : Option (Rows × Session) :=
  match r.pending.find? fun item => item.generation == generation && item.status == .pending with
  | none => none
  | some target =>
    if (findSession r.sessions target.session.name).isSome then none
    else if r.sessions.any (fun item => item.uuid == uuid) then none
    else if nativeSession.isSome && r.sessions.any (fun item => item.nativeSession == nativeSession)
    then none
    else
      let ready := promoted target uuid nativeSession
      some (⟨r.sessions ++ [ready], r.pending.filter fun item => item.generation != generation⟩,
        ready)

section
variable {r after : Rows} {s t : Session} {p : PendingSession} {name uuid generation : String}

theorem findSession_mem (h : findSession r.sessions name = some s) :
    s ∈ r.sessions ∧ s.name = name := by
  refine ⟨List.mem_of_find?_eq_some h, ?_⟩
  have hname := List.find?_some h
  simpa using hname

theorem findSession_none : findSession r.sessions name = none ↔ ∀ s ∈ r.sessions, s.name ≠ name := by
  simp [findSession]

theorem pendingNamed_false : pendingNamed r.pending name = false ↔
    ∀ p ∈ r.pending, p.session.name ≠ name := by
  simp [pendingNamed]

theorem appendSession_some (h : appendSession r s = some after) :
    (∀ t ∈ r.sessions, t.name ≠ s.name) ∧ (∀ p ∈ r.pending, p.session.name ≠ s.name) ∧
      after = { r with sessions := r.sessions ++ [s] } := by
  unfold appendSession at h
  by_cases hname : (findSession r.sessions s.name).isSome
  · simp [hname] at h
  · by_cases hpending : pendingNamed r.pending s.name = true
    · simp [hname, hpending] at h
    · by_cases huuid : (r.sessions.any fun item => item.uuid == s.uuid) = true
      · rw [if_neg hname, if_neg hpending, if_pos huuid] at h
        cases h
      · rw [if_neg hname, if_neg hpending, if_neg huuid] at h
        refine ⟨?_, ?_, (Option.some.inj h).symm⟩
        · apply findSession_none.mp
          simpa using hname
        · apply pendingNamed_false.mp
          simpa using hpending

theorem appendSession_uuid (h : appendSession r s = some after) : ∀ t ∈ r.sessions, t.uuid ≠ s.uuid := by
  unfold appendSession at h
  split at h
  · cases h
  · split at h
    · cases h
    · split at h
      · cases h
      · rename_i huuid
        simpa using huuid

theorem reservePendingSession_some (h : reservePendingSession r p = some after) :
    (∀ t ∈ r.sessions, t.name ≠ p.session.name) ∧
      (∀ q ∈ r.pending, q.session.name ≠ p.session.name) ∧
      after = { r with pending := r.pending ++ [p] } := by
  unfold reservePendingSession at h
  by_cases hname : (findSession r.sessions p.session.name).isSome
  · simp [hname] at h
  · by_cases hpending : pendingNamed r.pending p.session.name = true
    · simp [hname, hpending] at h
    · rw [if_neg hname, if_neg hpending] at h
      refine ⟨?_, ?_, (Option.some.inj h).symm⟩
      · apply findSession_none.mp
        simpa using hname
      · apply pendingNamed_false.mp
        simpa using hpending

variable {native : Option NativeSession}

/-- What a promotion does: the row of this generation becomes a session, whose name was free. -/
theorem promotePendingSession_some
    (h : promotePendingSession r generation uuid native = some (after, s)) :
    ∃ p ∈ r.pending, p.generation = generation ∧ s = promoted p uuid native ∧
      (∀ t ∈ r.sessions, t.name ≠ p.session.name) ∧ after.sessions = r.sessions ++ [s] ∧
      after.pending = r.pending.filter fun item => item.generation != generation := by
  unfold promotePendingSession at h
  cases hfind : r.pending.find? fun item =>
      item.generation == generation && item.status == .pending with
  | none => simp [hfind] at h
  | some target =>
    have hmem := List.mem_of_find?_eq_some hfind
    have hgeneration := List.find?_some hfind
    simp only [Bool.and_eq_true, beq_iff_eq] at hgeneration
    simp only [hfind] at h
    by_cases hname : (findSession r.sessions target.session.name).isSome
    · simp [hname] at h
    · rw [if_neg hname] at h
      split at h
      · cases h
      · split at h
        · cases h
        · simp only [Option.some.injEq, Prod.mk.injEq] at h
          obtain ⟨rfl, rfl⟩ := h
          refine ⟨target, hmem, hgeneration.1, rfl, ?_, rfl, rfl⟩
          apply findSession_none.mp
          simpa using hname

theorem promotePendingSession_uuid
    (h : promotePendingSession r generation uuid native = some (after, s)) :
    ∀ t ∈ r.sessions, t.uuid ≠ uuid := by
  unfold promotePendingSession at h
  split at h
  · cases h
  · split at h
    · cases h
    · split at h
      · cases h
      · rename_i huuid
        simpa using huuid

@[simp] theorem promoted_generation (native : Option NativeSession) :
    (promoted p uuid native).registrationGeneration = some p.generation := rfl

@[simp] theorem promoted_name (native : Option NativeSession) :
    (promoted p uuid native).name = p.session.name := rfl

@[simp] theorem removeSession_pending : (removeSession r name).pending = r.pending := rfl

theorem mem_removeSession : s ∈ (removeSession r name).sessions ↔ s ∈ r.sessions ∧ s.name ≠ name := by
  simp [removeSession]

theorem removeSessionIfUuid_cases : removeSessionIfUuid r name uuid = r ∨
    (removeSessionIfUuid r name uuid = removeSession r name ∧
      ∃ s ∈ r.sessions, s.name = name ∧ s.uuid = uuid) := by
  unfold removeSessionIfUuid
  cases hfind : findSession r.sessions name with
  | none => exact Or.inl rfl
  | some target =>
    by_cases huuid : target.uuid = uuid
    · refine Or.inr ⟨by simp [huuid], target, (findSession_mem hfind).1, (findSession_mem hfind).2, huuid⟩
    · exact Or.inl (by simp [huuid])

theorem removeSessionIfGeneration_cases : removeSessionIfGeneration r name generation = r ∨
    (removeSessionIfGeneration r name generation = removeSession r name ∧
      ∃ s ∈ r.sessions, s.name = name ∧ s.registrationGeneration = some generation) := by
  unfold removeSessionIfGeneration
  cases hfind : findSession r.sessions name with
  | none => exact Or.inl rfl
  | some target =>
    by_cases hgeneration : target.registrationGeneration = some generation
    · refine Or.inr ⟨by simp [hgeneration], target, (findSession_mem hfind).1,
        (findSession_mem hfind).2, hgeneration⟩
    · exact Or.inl (by simp [hgeneration])

end

end Ccmux.Registry
