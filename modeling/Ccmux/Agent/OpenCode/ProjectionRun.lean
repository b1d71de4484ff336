/- Module: Ccmux/Agent/OpenCode/ProjectionRun
   source: src/agent/opencode/projection.ts
   digest: In every state of a run the requests that wait, the state and the running turn agree and
     the snapshot fits, if no turn starts over open requests and each event finds room. -/

import Ccmux.Agent.OpenCode.Projection
import Mathlib

namespace Ccmux.Agent.OpenCode.Owned

open Ccmux.Agent.Codex.Owned (NativeState TurnStatus EventKind)
open Ccmux.Lib.JsonText

variable {b : Builtins}

/-! ### What is to hold -/

def isWaiting (state : NativeState) : Bool := state == .waitingApproval || state == .waitingInput

/-- Each open request is of the turn that is running. -/
def Current (v : Snapshot) : Prop := ∀ request ∈ v.pendingRequests, ∃ turn, v.turn = some turn ∧
  turn.id = request.turnId ∧ turn.status = .inProgress

structure Agree (v : Snapshot) : Prop where
  waiting : v.connected = true → (isWaiting v.state = true ↔ v.pendingRequests ≠ [])
  current : Current v

structure Holds (b : Builtins) (v : Snapshot) : Prop extends Agree v where
  budget : bytes b v ≤ maxBytes

/-! ### Where a call leaves room -/

/-- The bytes that recording an event writes. -/
def eventCost (b : Builtins) (v : Snapshot) (kind : EventKind) : Nat :=
  byteLength (eventText b (touchEvent b v kind)) + (if v.events = [] then 0 else 1) +
    byteLength (toString (v.sequence + 1)) + byteLength (quote (b.clock (v.sequence + 1)).1) +
    byteLength (quote (b.clock (v.sequence + 1)).2)

/-- The bytes that recording an event takes away: what it replaces, and an event pushed out. -/
def freed (b : Builtins) (v : Snapshot) : Nat :=
  byteLength (toString v.sequence) + byteLength (quote v.observedAt) +
    byteLength (quote v.expiresAt) +
    match v.events with
    | first :: _ =>
      if maxEvents ≤ v.events.length then byteLength (eventText b first) + 1 else 0
    | [] => 0

def HasRoom (b : Builtins) (v : Snapshot) (kind : EventKind) : Prop :=
  bytes b v + eventCost b v kind ≤ maxBytes + freed b v

instance (v : Snapshot) (kind : EventKind) : Decidable (HasRoom b v kind) :=
  inferInstanceAs (Decidable (_ ≤ _))

/-- What a message or an evidence writes without recording it: the text before, and the new one. -/
def rewrites (p : Projection) : Input → Option (String × String)
  | .event (.message m) | .message m _ =>
    match m.parentID, p.value.turn with
    | some parent, some turn =>
      if p.own m.sessionID ∧ m.role = .assistant ∧ turn.id = parent then
        (selectionOf m parent).map fun selection =>
          (orNull selectionText p.value.nativeSelection, selectionText selection)
      else none
    | _, _ => none
  | .policyEvidence evidence =>
    match p.value.applicationPolicy with
    | some known =>
      if known.digest = evidence.digest then some (policyText known, policyText evidence) else none
    | none => none
  | _ => none

def startsTurn (p : Projection) : Input → Option String
  | .start messageId _ => some messageId
  | .event (.message m) | .message m _ => messageStarts p m
  | _ => none

/-- A step that starts no turn over open requests, and writes nothing that it has no room for. -/
structure Fits (b : Builtins) (p : Projection) (input : Input) : Prop where
  start : ∀ id, startsTurn p input = some id →
    ∀ request ∈ p.value.pendingRequests, request.turnId = id ∧ p.value.connected = false
  append : (outcome b p input).thrown = false
  event : ∀ kind, (outcome b p input).last = some kind →
    HasRoom b (outcome b p input).projection.value kind
  write : (outcome b p input).last = none → ∀ old new, rewrites p input = some (old, new) →
    bytes b p.value + byteLength new ≤ maxBytes + byteLength old

/-! ### The size of a snapshot -/

theorem events_touch (events : List NativeEvent) (event : NativeEvent) :
    byteLength (array ((shiftEvents (events ++ [event])).map (eventText b))) +
      (match events with
      | first :: _ => if maxEvents ≤ events.length then byteLength (eventText b first) + 1 else 0
      | [] => 0) =
    byteLength (array (events.map (eventText b))) + byteLength (eventText b event) +
      (if events = [] then 0 else 1) := by
  cases events with
  | nil =>
    have hshift : shiftEvents ([] ++ [event]) = [event] := rfl
    rw [hshift]
    simp only [byteLength_array, List.map_cons, List.map_nil, List.sum_cons, List.sum_nil,
      List.length_cons, List.length_nil, if_true]
    omega
  | cons first rest =>
    by_cases hfull : maxEvents ≤ rest.length + 1
    · have hshift : shiftEvents (first :: rest ++ [event]) = rest ++ [event] := by
        have hlong : maxEvents < (first :: rest ++ [event]).length := by
          simp only [List.length_append, List.length_cons, List.length_nil]
          omega
        rw [shiftEvents, if_pos hlong]
        rfl
      rw [hshift]
      simp only [if_pos hfull, byteLength_array, List.map_append, List.map_cons, List.map_nil,
        List.sum_append, List.sum_cons, List.sum_nil, List.length_append, List.length_cons,
        List.length_nil, List.length_map, reduceCtorEq, if_false]
      omega
    · have hshift : shiftEvents (first :: rest ++ [event]) = first :: rest ++ [event] := by
        have hshort : ¬ maxEvents < (first :: rest ++ [event]).length := by
          simp only [List.length_append, List.length_cons, List.length_nil]
          omega
        rw [shiftEvents, if_neg hshort]
      rw [hshift]
      simp only [if_neg hfull, byteLength_array, List.map_append, List.map_cons, List.map_nil,
        List.sum_append, List.sum_cons, List.sum_nil, List.length_append, List.length_cons,
        List.length_nil, List.length_map, reduceCtorEq, if_false]
      omega

theorem bytes_touch (v : Snapshot) (kind : EventKind) :
    bytes b (touchValue b v kind) + freed b v = bytes b v + eventCost b v kind := by
  have hevents := @events_touch b v.events (touchEvent b v kind)
  simp only [bytes, snapshotText, touchValue, freed, eventCost, byteLength_object,
    byteLength_field, List.map_append, List.map_cons, List.sum_append, List.sum_cons,
    List.length_append, List.length_cons]
  omega

theorem bytes_select (v : Snapshot) (selection : Option NativeSelection) :
    bytes b { v with nativeSelection := selection } +
        byteLength (orNull selectionText v.nativeSelection) =
      bytes b v + byteLength (orNull selectionText selection) := by
  simp only [bytes, snapshotText, byteLength_object, byteLength_field, List.map_append,
    List.map_cons, List.sum_append, List.sum_cons, List.length_append, List.length_cons]
  omega

theorem bytes_policy {v : Snapshot} {known : PolicyEvidence}
    (hknown : v.applicationPolicy = some known) (evidence : PolicyEvidence) :
    bytes b { v with applicationPolicy := some evidence } + byteLength (policyText known) =
      bytes b v + byteLength (policyText evidence) := by
  simp only [bytes, snapshotText, hknown, policyFields, Option.map_some, Option.toList_some,
    byteLength_object, byteLength_field, List.map_append, List.map_cons, List.map_nil,
    List.sum_append, List.sum_cons, List.sum_nil, List.length_append, List.length_cons,
    List.length_nil]
  omega

theorem HasRoom.touch {v : Snapshot} {kind : EventKind} (h : HasRoom b v kind) :
    bytes b (touchValue b v kind) ≤ maxBytes := by
  have hbytes := @bytes_touch b v kind
  unfold HasRoom at h
  omega

/-! ### What the writes leave alone -/

def core (v : Snapshot) : Bool × NativeState × Option NativeTurn × List NativePendingRequest :=
  (v.connected, v.state, v.turn, v.pendingRequests)

theorem Current.of_core {v w : Snapshot} (h : Current v) (hcore : core w = core v) : Current w := by
  obtain ⟨-, hrest⟩ := Prod.mk.inj hcore
  obtain ⟨-, hrest⟩ := Prod.mk.inj hrest
  obtain ⟨hturn, hpending⟩ := Prod.mk.inj hrest
  intro request hrequest
  rw [hpending] at hrequest
  rw [hturn]
  exact h request hrequest

theorem Agree.of_core {v w : Snapshot} (h : Agree v) (hcore : core w = core v) : Agree w := by
  obtain ⟨hconnected, hrest⟩ := Prod.mk.inj hcore
  obtain ⟨hstate, hrest⟩ := Prod.mk.inj hrest
  obtain ⟨-, hpending⟩ := Prod.mk.inj hrest
  refine ⟨?_, h.current.of_core hcore⟩
  rw [hconnected, hstate, hpending]
  exact h.waiting

@[simp] theorem core_touch (p : Projection) (kind : EventKind) :
    core (p.touch b kind).value = core p.value := rfl

theorem core_settled (o : Outcome) : core (o.settled b).value = core o.projection.value := by
  unfold Outcome.settled
  split
  · rfl
  · split
    · rfl
    · rfl

variable {p : Projection} {id : String} {m : OpenCodeMessage}

theorem append_spec {item : NativeItem} (hthrown : (append b p item).thrown = false) :
    core (append b p item).projection.value = core p.value ∧
      (append b p item).last = some .state := by
  unfold append at hthrown ⊢
  dsimp only at hthrown ⊢
  split
  · exact ⟨rfl, rfl⟩
  · rename_i hnone
    rw [hnone] at hthrown
    cases hthrown

theorem next_thrown {o : Outcome} {f : Projection → Outcome} (h : (o.next b f).thrown = false) :
    o.thrown = false ∧ (f (o.settled b)).thrown = false ∧ o.next b f = f (o.settled b) := by
  unfold Outcome.next at h ⊢
  split
  · rename_i hthrown
    rw [if_pos hthrown, hthrown] at h
    cases h
  · rename_i hthrown
    rw [if_neg hthrown] at h
    exact ⟨by simpa using hthrown, h, rfl⟩

theorem core_append_settled {item : NativeItem} (hthrown : (append b p item).thrown = false) :
    core ((append b p item).settled b).value = core p.value := by
  rw [core_settled]
  exact (append_spec hthrown).1

/-! ### Each call keeps the agreement -/

theorem core_start {instant : Int} (hthrown : (start b p id instant).thrown = false) :
    core (start b p id instant).projection.value =
      (p.value.connected, .working, some ⟨id, .inProgress, instant⟩, p.value.pendingRequests) := by
  unfold start at hthrown ⊢
  obtain ⟨happend, _, hnext⟩ := next_thrown hthrown
  rw [hnext]
  exact core_append_settled happend

theorem agree_start {instant : Int}
    (hopen : ∀ request ∈ p.value.pendingRequests, request.turnId = id ∧ p.value.connected = false)
    (hthrown : (start b p id instant).thrown = false) :
    Agree (start b p id instant).projection.value := by
  have hcore := core_start hthrown
  obtain ⟨hconnected, hrest⟩ := Prod.mk.inj hcore
  obtain ⟨hstate, hrest⟩ := Prod.mk.inj hrest
  obtain ⟨hturn, hpending⟩ := Prod.mk.inj hrest
  refine ⟨?_, ?_⟩
  · rw [hconnected, hstate, hpending]
    intro hup
    have hnone : p.value.pendingRequests = [] := by
      refine List.eq_nil_iff_forall_not_mem.mpr fun request hrequest => ?_
      rw [(hopen request hrequest).2] at hup
      cases hup
    simp [hnone, isWaiting]
  · intro request hrequest
    rw [hpending] at hrequest
    exact ⟨_, hturn, (hopen request hrequest).1.symm, rfl⟩

theorem isWaiting_asked (asked : Asked) : isWaiting asked.waiting = true := by
  cases asked <;> rfl

theorem isWaiting_statusState (v : Snapshot) (s : Status) :
    isWaiting (statusState v s) = true ↔ v.pendingRequests ≠ [] := by
  unfold statusState
  cases v.pendingRequests with
  | nil =>
    by_cases hbusy : s ≠ .idle
    · simp [hbusy, isWaiting]
    · by_cases hturn : (v.turn.any fun turn => turn.status = .inProgress) = true
      · simp [hbusy, hturn, isWaiting]
      · simp [hbusy, hturn, isWaiting]
  | cons request rest => simp [isWaiting_asked]

theorem agree_status (h : Agree p.value) (s : Status) (revision : Nat) :
    Agree (status p s revision).projection.value := by
  unfold status
  split
  · exact h
  · exact ⟨fun _ => isWaiting_statusState p.value s, h.current⟩

theorem agree_status_now (h : Current p.value) (s : Status) :
    Agree (status p s p.revision).projection.value := by
  unfold status
  rw [if_neg (by simp)]
  exact ⟨fun _ => isWaiting_statusState p.value s, h⟩

theorem status_keeps (p : Projection) (s : Status) (revision : Nat) :
    (status p s revision).projection.value.turn = p.value.turn ∧
      (status p s revision).projection.value.pendingRequests = p.value.pendingRequests ∧
      (status p s revision).thrown = false := by
  unfold status
  split
  · exact ⟨rfl, rfl, rfl⟩
  · exact ⟨rfl, rfl, rfl⟩

theorem resolve_cases (p : Projection) (id : String) :
    resolve b p id = { projection := p } ∧ (∀ request ∈ p.value.pendingRequests,
        request.requestId ≠ id) ∨
      ∃ settled item, resolve b p id = (append b settled item).next b (fun p =>
          status p (if p.value.turn.any fun turn => turn.status = .inProgress then .busy else .idle)
            p.revision) ∧
        settled.value.turn = p.value.turn ∧
        settled.value.pendingRequests =
          p.value.pendingRequests.filter fun request => request.requestId ≠ id := by
  unfold resolve
  split
  · rename_i hnone
    refine Or.inl ⟨rfl, fun request hrequest => ?_⟩
    have hother := List.find?_eq_none.mp hnone request hrequest
    simpa using hother
  · exact Or.inr ⟨_, _, rfl, rfl, rfl⟩

theorem resolve_spec (hthrown : (resolve b p id).thrown = false) :
    (resolve b p id).projection.value.turn = p.value.turn ∧
      (resolve b p id).projection.value.pendingRequests =
        p.value.pendingRequests.filter fun request => request.requestId ≠ id := by
  rcases @resolve_cases b p id with ⟨hsame, hother⟩ | ⟨settled, item, hresolve, hturn, hpending⟩
  · rw [hsame]
    refine ⟨rfl, ?_⟩
    symm
    rw [List.filter_eq_self]
    exact fun request hrequest => by simpa using hother request hrequest
  · rw [hresolve] at hthrown ⊢
    obtain ⟨happend, _, hnext⟩ := next_thrown hthrown
    have hcore := core_append_settled happend
    obtain ⟨-, hrest⟩ := Prod.mk.inj hcore
    obtain ⟨-, hrest⟩ := Prod.mk.inj hrest
    obtain ⟨hturn', hpending'⟩ := Prod.mk.inj hrest
    rw [hnext]
    refine ⟨?_, ?_⟩
    · rw [(status_keeps _ _ _).1, hturn', hturn]
    · rw [(status_keeps _ _ _).2.1, hpending', hpending]

theorem agree_resolve (h : Agree p.value)
    (hthrown : (resolve b p id).thrown = false) : Agree (resolve b p id).projection.value := by
  rcases @resolve_cases b p id with ⟨hsame, _⟩ | ⟨settled, item, hresolve, hturn, hpending⟩
  · rw [hsame]
    exact h
  · rw [hresolve] at hthrown ⊢
    obtain ⟨happend, _, hnext⟩ := next_thrown hthrown
    have hcurrent : Current settled.value := by
      intro request hrequest
      rw [hpending] at hrequest
      rw [hturn]
      exact h.current request (List.mem_of_mem_filter hrequest)
    rw [hnext]
    exact agree_status_now (hcurrent.of_core (core_append_settled happend)) _

theorem agree_pending {request : NativePendingRequest} (h : Agree p.value)
    (hturn : ∃ turn, p.value.turn = some turn ∧ turn.id = request.turnId ∧
      turn.status = .inProgress)
    (hthrown : (pending b p request).thrown = false) : Agree (pending b p request).projection.value := by
  unfold pending at hthrown ⊢
  split
  · exact h
  · rename_i hnew
    rw [if_neg hnew] at hthrown
    split
    · exact h
    · rename_i hroom
      rw [if_neg hroom] at hthrown
      refine Agree.of_core ?_ (append_spec hthrown).1
      refine ⟨fun _ => ?_, ?_⟩
      · simp [isWaiting_asked]
      · intro other hother
        rcases List.mem_append.mp hother with hold | hself
        · exact h.current other hold
        · rw [List.mem_singleton.mp hself]
          exact hturn

theorem runningTurnOf_spec {sessionID turnId : String} {tool : Option ToolCall}
    (h : runningTurnOf p sessionID tool = some turnId) :
    ∃ turn, p.value.turn = some turn ∧ turn.id = turnId ∧ turn.status = .inProgress := by
  unfold runningTurnOf at h
  split at h
  · rename_i turn hturn
    split at h
    · cases h
    · rename_i hrunning
      rw [not_or] at hrunning
      split at h
      · cases h
      · exact ⟨turn, hturn, Option.some.inj h, not_not.mp hrunning.2⟩
  · cases h

theorem agree_permission {request : OpenCodePermission} {instant : String} (h : Agree p.value)
    (hthrown : (permission b p request instant).thrown = false) :
    Agree (permission b p request instant).projection.value := by
  unfold permission at hthrown ⊢
  split
  · rename_i turnId hturn
    simp only [hturn] at hthrown
    exact agree_pending h (runningTurnOf_spec hturn) hthrown
  · exact h

theorem agree_question {request : OpenCodeQuestion} {instant : String} (h : Agree p.value)
    (hthrown : (question b p request instant).thrown = false) :
    Agree (question b p request instant).projection.value := by
  unfold question at hthrown ⊢
  split
  · rename_i turnId hturn
    simp only [hturn] at hthrown
    exact agree_pending h (runningTurnOf_spec hturn) hthrown
  · exact h

theorem agree_part {value : OpenCodePart} (h : Agree p.value)
    (hthrown : (part b p value).thrown = false) : Agree (part b p value).projection.value := by
  unfold part at hthrown ⊢
  split
  · rename_i turnId hparent
    simp only [hparent] at hthrown
    split
    · exact h
    · rename_i hown
      rw [if_neg hown] at hthrown
      split
      · rename_i item hitem
        simp only [hitem] at hthrown
        exact h.of_core (append_spec hthrown).1
      · exact h
  · exact h

theorem agree_delta {d : OpenCodeDelta} (h : Agree p.value)
    (hthrown : (delta b p d).thrown = false) : Agree (delta b p d).projection.value := by
  unfold delta at hthrown ⊢
  split
  · exact h
  · rename_i hown
    rw [if_neg hown] at hthrown
    dsimp only at hthrown ⊢
    split
    · rename_i item hitem
      simp only [hitem] at hthrown
      split
      · rename_i hkind
        rw [if_pos hkind] at hthrown
        exact h.of_core (append_spec hthrown).1
      · exact h
    · exact h

theorem resolveAll_thrown {requests : List NativePendingRequest} {o : Outcome}
    (h : (resolveAll b o requests).thrown = false) : o.thrown = false := by
  induction requests generalizing o with
  | nil => exact h
  | cons request rest ih => exact (next_thrown (ih h)).1

theorem pending_settled (o : Outcome) :
    (o.settled b).value.pendingRequests = o.projection.value.pendingRequests := by
  have hcore := @core_settled b o
  simp only [core, Prod.mk.injEq] at hcore
  exact hcore.2.2.2

theorem resolveAll_pending {requests : List NativePendingRequest} {o : Outcome}
    (h : (resolveAll b o requests).thrown = false) :
    ∀ request ∈ ((resolveAll b o requests).settled b).value.pendingRequests,
      request ∈ (o.settled b).value.pendingRequests ∧
        ∀ gone ∈ requests, request.requestId ≠ gone.requestId := by
  induction requests generalizing o with
  | nil => exact fun request hrequest => ⟨hrequest, by simp⟩
  | cons first rest ih =>
    intro request hrequest
    obtain ⟨hkept, hother⟩ := ih h request hrequest
    obtain ⟨_, hthrown, hnext⟩ := @next_thrown b o (fun p => resolve b p first.requestId)
      (resolveAll_thrown h)
    have hfirst : request ∈ ((resolve b (o.settled b) first.requestId).settled b).value.pendingRequests := by
      rw [← hnext]
      exact hkept
    rw [pending_settled, (resolve_spec hthrown).2, List.mem_filter] at hfirst
    refine ⟨hfirst.1, fun gone hgone => ?_⟩
    rcases List.mem_cons.mp hgone with rfl | hgone
    · simpa using hfirst.2
    · exact hother gone hgone

theorem endTurn_pending {parent : String} {outcome : TurnStatus}
    (hown : ∀ request ∈ p.value.pendingRequests, request.turnId = parent)
    (hthrown : (endTurn b p parent outcome).thrown = false) :
    ((endTurn b p parent outcome).settled b).value.pendingRequests = [] := by
  refine List.eq_nil_iff_forall_not_mem.mpr fun request hrequest => ?_
  obtain ⟨hold, hother⟩ := resolveAll_pending hthrown request hrequest
  refine hother request ?_ rfl
  rw [List.mem_filter]
  exact ⟨hold, by simpa using hown request hold⟩

theorem core_conclude {parent : String} {outcome : TurnStatus}
    (hthrown : (conclude b p m parent outcome).thrown = false) :
    core (conclude b p m parent outcome).projection.value =
      (p.value.connected, .idle, p.value.turn, p.value.pendingRequests) := by
  unfold conclude at hthrown ⊢
  obtain ⟨happend, _, hnext⟩ := next_thrown hthrown
  rw [hnext]
  exact core_append_settled happend

/-- The end of a turn leaves no request open and the session idle. -/
theorem agree_terminal {parent : String} {outcome : TurnStatus}
    (hown : ∀ request ∈ p.value.pendingRequests, request.turnId = parent)
    (hthrown : (terminal b p m parent outcome).thrown = false) :
    Agree (terminal b p m parent outcome).projection.value := by
  unfold terminal at hthrown ⊢
  obtain ⟨hsettled, hend, hnext⟩ := next_thrown hthrown
  obtain ⟨hused, hall, hended⟩ := next_thrown hsettled
  rw [hended] at hend
  rw [hnext, hended]
  have hkept : ∀ used : Outcome, core used.projection.value = core p.value →
      ∀ request ∈ (used.settled b).value.pendingRequests, request.turnId = parent := by
    intro used hcore request hrequest
    simp only [core, Prod.mk.injEq] at hcore
    rw [pending_settled, hcore.2.2.2] at hrequest
    exact hown request hrequest
  have hnone := endTurn_pending (hkept _ (by
    cases htokens : m.tokens with
    | none => rfl
    | some tokens =>
      rw [htokens] at hused
      exact (append_spec hused).1)) hall
  have hcore := core_conclude hend
  simp only [core, Prod.mk.injEq] at hcore
  obtain ⟨_, hstate, _, hpending⟩ := hcore
  rw [hnone] at hpending
  refine ⟨fun _ => ?_, ?_⟩
  · rw [hstate, hpending]
    simp [isWaiting]
  · intro request hrequest
    rw [hpending] at hrequest
    cases hrequest

theorem core_known (p : Projection) (m : OpenCodeMessage) (parent : String) :
    core (select (remember p m parent) m parent).value = core p.value := rfl

theorem agree_message {complete : Bool} (h : Agree p.value)
    (hopen : ∀ id, messageStarts p m = some id →
      ∀ request ∈ p.value.pendingRequests, request.turnId = id ∧ p.value.connected = false)
    (hthrown : (message b p m complete).thrown = false) :
    Agree (message b p m complete).projection.value := by
  unfold message at hthrown ⊢
  split
  · exact h
  · rename_i hown
    rw [if_neg hown] at hthrown
    split
    · rename_i huser
      simp only [huser] at hthrown
      split
      · rename_i id hstarts
        simp only [hstarts] at hthrown
        exact agree_start (hopen id hstarts) hthrown
      · exact h
    · rename_i hassistant
      simp only [hassistant] at hthrown
      split
      · rename_i parent turn hparent hturn
        simp only [hparent, hturn] at hthrown
        split
        · exact h
        · rename_i hsame
          rw [if_neg hsame] at hthrown
          have hknown : Agree (select (remember p m parent) m parent).value :=
            h.of_core (core_known p m parent)
          split
          · rename_i outcome hterminal
            simp only [hterminal] at hthrown
            split
            · exact hknown
            · rename_i hrunning
              rw [if_neg hrunning] at hthrown
              refine agree_terminal ?_ hthrown
              intro request hrequest
              obtain ⟨other, hother, hid, _⟩ := hknown.current request hrequest
              have hvalue : (select (remember p m parent) m parent).value.turn = some turn := hturn
              rw [hvalue] at hother
              rw [← hid, ← Option.some.inj hother]
              exact not_not.mp hsame
          · exact hknown
      · exact h

theorem agree_outcome {input : Input} (h : Agree p.value)
    (hopen : ∀ id, startsTurn p input = some id →
      ∀ request ∈ p.value.pendingRequests, request.turnId = id ∧ p.value.connected = false)
    (hthrown : (outcome b p input).thrown = false) : Agree (outcome b p input).projection.value := by
  have hrevision : Agree ({ p with revision := p.revision + 1 } : Projection).value := h
  cases input with
  | event e =>
    cases e with
    | message m => exact agree_message hrevision hopen hthrown
    | part value => exact agree_part hrevision hthrown
    | delta d => exact agree_delta hrevision hthrown
    | status sessionID s =>
      simp only [outcome, event]
      split
      · exact agree_status hrevision s _
      · exact h
    | permission request instant => exact agree_permission hrevision hthrown
    | question request instant => exact agree_question hrevision hthrown
    | replied sessionID requestID =>
      simp only [outcome, event] at hthrown ⊢
      split
      · rename_i hown
        rw [if_pos hown] at hthrown
        exact agree_resolve hrevision hthrown
      · exact h
    | other => exact h
  | message m complete => exact agree_message h hopen hthrown
  | part value => exact agree_part h hthrown
  | permission request instant => exact agree_permission h hthrown
  | question request instant => exact agree_question h hthrown
  | status s revision => exact agree_status h s revision
  | start id instant => exact agree_start (hopen id rfl) hthrown
  | resolve id => exact agree_resolve h hthrown
  | unavailable reason =>
    refine ⟨fun hup => ?_, h.current⟩
    cases hup
  | policyEvidence evidence =>
    simp only [outcome, policyEvidence]
    split
    · exact h.of_core rfl
    · exact h

/-! ### Each call keeps to the budget -/

/-- A call that records no event at its end has written nothing. -/
def Quiet (o : Outcome) (v : Snapshot) : Prop := o.last = none → o.projection.value = v

theorem quiet_append {item : NativeItem} (hthrown : (append b p item).thrown = false)
    (v : Snapshot) : Quiet (append b p item) v := by
  intro hlast
  rw [(append_spec hthrown).2] at hlast
  cases hlast

theorem last_start {instant : Int} (hthrown : (start b p id instant).thrown = false) :
    (start b p id instant).last = some .turnStart := by
  unfold start at hthrown ⊢
  rw [(next_thrown hthrown).2.2]

theorem last_terminal {parent : String} {outcome : TurnStatus}
    (hthrown : (terminal b p m parent outcome).thrown = false) :
    (terminal b p m parent outcome).last = some .turnEnd := by
  unfold terminal at hthrown ⊢
  obtain ⟨_, hend, hnext⟩ := next_thrown hthrown
  rw [hnext]
  unfold conclude at hend ⊢
  rw [(next_thrown hend).2.2]

theorem quiet_status (p : Projection) (s : Status) (revision : Nat) :
    Quiet (status p s revision) p.value := by
  unfold status
  split
  · exact fun _ => rfl
  · intro hlast
    cases hlast

theorem quiet_resolve (hthrown : (resolve b p id).thrown = false) :
    Quiet (resolve b p id) p.value := by
  rcases @resolve_cases b p id with ⟨hsame, _⟩ | ⟨settled, item, hresolve, _, _⟩
  · rw [hsame]
    exact fun _ => rfl
  · rw [hresolve] at hthrown ⊢
    rw [(next_thrown hthrown).2.2]
    intro hlast
    unfold status at hlast
    rw [if_neg (by simp)] at hlast
    cases hlast

theorem quiet_pending {request : NativePendingRequest}
    (hthrown : (pending b p request).thrown = false) : Quiet (pending b p request) p.value := by
  unfold pending at hthrown ⊢
  split
  · exact fun _ => rfl
  · rename_i hnew
    rw [if_neg hnew] at hthrown
    split
    · exact fun _ => rfl
    · rename_i hroom
      rw [if_neg hroom] at hthrown
      exact quiet_append hthrown _

theorem quiet_permission {request : OpenCodePermission} {instant : String}
    (hthrown : (permission b p request instant).thrown = false) :
    Quiet (permission b p request instant) p.value := by
  unfold permission at hthrown ⊢
  split
  · rename_i turnId hturn
    simp only [hturn] at hthrown
    exact quiet_pending hthrown
  · exact fun _ => rfl

theorem quiet_question {request : OpenCodeQuestion} {instant : String}
    (hthrown : (question b p request instant).thrown = false) :
    Quiet (question b p request instant) p.value := by
  unfold question at hthrown ⊢
  split
  · rename_i turnId hturn
    simp only [hturn] at hthrown
    exact quiet_pending hthrown
  · exact fun _ => rfl

theorem quiet_part {value : OpenCodePart} (hthrown : (part b p value).thrown = false) :
    Quiet (part b p value) p.value := by
  unfold part at hthrown ⊢
  split
  · rename_i turnId hparent
    simp only [hparent] at hthrown
    split
    · exact fun _ => rfl
    · rename_i hown
      rw [if_neg hown] at hthrown
      split
      · rename_i item hitem
        simp only [hitem] at hthrown
        exact quiet_append hthrown _
      · exact fun _ => rfl
  · exact fun _ => rfl

theorem quiet_delta {d : OpenCodeDelta} (hthrown : (delta b p d).thrown = false) :
    Quiet (delta b p d) p.value := by
  unfold delta at hthrown ⊢
  split
  · exact fun _ => rfl
  · rename_i hown
    rw [if_neg hown] at hthrown
    dsimp only at hthrown ⊢
    split
    · rename_i item hitem
      simp only [hitem] at hthrown
      split
      · rename_i hkind
        rw [if_pos hkind] at hthrown
        exact quiet_append hthrown _
      · exact fun _ => rfl
    · exact fun _ => rfl

/-- A message that records no event has at most named a model. -/
theorem quiet_message {complete : Bool} (hthrown : (message b p m complete).thrown = false)
    (hlast : (message b p m complete).last = none) :
    (message b p m complete).projection.value = p.value ∨
      ∃ selection, rewrites p (.message m complete) =
          some (orNull selectionText p.value.nativeSelection, selectionText selection) ∧
        (message b p m complete).projection.value =
          { p.value with nativeSelection := some selection } := by
  unfold message at hthrown hlast ⊢
  split
  · exact Or.inl rfl
  · rename_i hown
    rw [if_neg hown] at hthrown hlast
    split
    · rename_i huser
      simp only [huser] at hthrown hlast
      split
      · rename_i id hstarts
        simp only [hstarts] at hthrown hlast
        rw [last_start hthrown] at hlast
        cases hlast
      · exact Or.inl rfl
    · rename_i hassistant
      simp only [hassistant] at hthrown hlast
      split
      · rename_i parent turn hparent hturn
        simp only [hparent, hturn] at hthrown hlast
        split
        · exact Or.inl rfl
        · rename_i hsame
          rw [if_neg hsame] at hthrown hlast
          have hknown : (select (remember p m parent) m parent).value = p.value ∨
              ∃ selection, rewrites p (.message m complete) =
                  some (orNull selectionText p.value.nativeSelection, selectionText selection) ∧
                (select (remember p m parent) m parent).value =
                  { p.value with nativeSelection := some selection } := by
            cases hselection : selectionOf m parent with
            | none =>
              refine Or.inl ?_
              simp [select, remember, hselection]
            | some selection =>
              refine Or.inr ⟨selection, ?_, ?_⟩
              · rw [Bool.not_eq_false] at hown
                rw [not_not] at hsame
                simp [rewrites, hparent, hturn, hown, hassistant, hsame, hselection]
              · simp [select, remember, hselection]
          split
          · rename_i outcome hterminal
            simp only [hterminal] at hthrown hlast
            split
            · exact hknown
            · rename_i hrunning
              rw [if_neg hrunning] at hthrown hlast
              rw [last_terminal hthrown] at hlast
              cases hlast
          · exact hknown
      · exact Or.inl rfl

theorem bytes_message {p : Projection} {m : OpenCodeMessage} {complete : Bool}
    (h : bytes b p.value ≤ maxBytes)
    (hwrite : ∀ old new, rewrites p (.message m complete) = some (old, new) →
      bytes b p.value + byteLength new ≤ maxBytes + byteLength old)
    (hthrown : (message b p m complete).thrown = false) (hlast : (message b p m complete).last = none) :
    bytes b (message b p m complete).projection.value ≤ maxBytes := by
  rcases quiet_message hthrown hlast with hsame | ⟨selection, hrewrites, hvalue⟩
  · rw [hsame]
    exact h
  · have hroom := hwrite _ _ hrewrites
    have hbytes := @bytes_select b p.value (some selection)
    have htext : orNull selectionText (some selection) = selectionText selection := rfl
    rw [htext] at hbytes
    rw [hvalue]
    dsimp only
    omega

/-- A call that records no event at its end keeps to the budget. -/
theorem bytes_quiet {input : Input} (h : bytes b p.value ≤ maxBytes)
    (hfits : Fits b p input) (hlast : (outcome b p input).last = none) :
    bytes b (outcome b p input).projection.value ≤ maxBytes := by
  have hthrown := hfits.append
  have hwrite := hfits.write hlast
  have hquiet : ∀ {o : Outcome}, Quiet o p.value → o.last = none →
      bytes b o.projection.value ≤ maxBytes := by
    intro o ho hnone
    rw [ho hnone]
    exact h
  cases input with
  | event e =>
    cases e with
    | message m =>
      exact @bytes_message b { p with revision := p.revision + 1 } m true h hwrite hthrown hlast
    | part value => exact hquiet (quiet_part hthrown) hlast
    | delta d => exact hquiet (quiet_delta hthrown) hlast
    | status sessionID s =>
      simp only [outcome, event] at hlast ⊢
      split at hlast
      · rename_i hown
        rw [if_pos hown]
        exact hquiet (quiet_status { p with revision := p.revision + 1 } s _) hlast
      · rename_i hown
        rw [if_neg hown]
        exact h
    | permission request instant => exact hquiet (quiet_permission hthrown) hlast
    | question request instant => exact hquiet (quiet_question hthrown) hlast
    | replied sessionID requestID =>
      simp only [outcome, event] at hthrown hlast ⊢
      split at hlast
      · rename_i hown
        rw [if_pos hown] at hthrown ⊢
        exact hquiet (quiet_resolve hthrown) hlast
      · rename_i hown
        rw [if_neg hown]
        exact h
    | other => exact h
  | message m complete => exact bytes_message h hwrite hthrown hlast
  | part value => exact hquiet (quiet_part hthrown) hlast
  | permission request instant => exact hquiet (quiet_permission hthrown) hlast
  | question request instant => exact hquiet (quiet_question hthrown) hlast
  | status s revision => exact hquiet (quiet_status p s revision) hlast
  | start id instant =>
    have hstart : (outcome b p (.start id instant)).last = some .turnStart := last_start hthrown
    rw [hstart] at hlast
    cases hlast
  | resolve id => exact hquiet (quiet_resolve hthrown) hlast
  | unavailable reason => cases hlast
  | policyEvidence evidence =>
    simp only [outcome, policyEvidence] at hlast ⊢
    split
    · rename_i hdigest
      obtain ⟨known, hknown, hsame⟩ := Option.map_eq_some_iff.mp hdigest
      have hroom := hwrite (policyText known) (policyText evidence) (by
        simp only [rewrites, hknown]
        rw [if_pos hsame])
      have hbytes := @bytes_policy b p.value known hknown evidence
      dsimp only
      omega
    · exact h

/-! ### Steps and runs -/

theorem holds_step {input : Input} (h : Holds b p.value)
    (hfits : Fits b p input) : Holds b (step b p input).value := by
  have hagree := agree_outcome h.toAgree hfits.start hfits.append
  refine ⟨hagree.of_core (core_settled _), ?_⟩
  unfold step Outcome.settled
  rw [if_neg (by rw [hfits.append]; simp)]
  cases hlast : (outcome b p input).last with
  | none => exact bytes_quiet h.budget hfits hlast
  | some kind => exact (hfits.event kind hlast).touch

theorem holds_created {identity : Identity} {now : String} {policy : Option PolicyEvidence}
    (hbytes : bytes b (created identity now policy).value ≤ maxBytes) :
    Holds b (created identity now policy).value := by
  refine ⟨⟨fun hup => ?_, ?_⟩, hbytes⟩
  · cases hup
  · intro request hrequest
    cases hrequest

/-- Every record has the same instant, and texts are cut by characters. -/
def plainBuiltins : Builtins where
  clock _ := ("2026-01-01T00:00:00.000Z", "2026-01-01T00:00:05.000Z")
  itemAt _ := "2026-01-01T00:00:00.000Z"
  iso _ := "2026-01-01T00:00:00.000Z"
  slice text n := String.ofList (text.toList.take n)
  sliceEnd text n := String.ofList (text.toList.drop (text.length - n))
  isResource _ := true

def session : Projection := created ⟨"ses_1", [], []⟩ "2026-01-01T00:00:00.000Z" none

def userMessage (id : String) (instant : Int) : Input :=
  .event (.message { id, sessionID := "ses_1", role := .user, created := instant })

def editRequest : Input :=
  .event (.permission { id := "per_1", sessionID := "ses_1", permission := "edit" }
    "2026-01-01T00:00:01.000Z")

end Ccmux.Agent.OpenCode.Owned
