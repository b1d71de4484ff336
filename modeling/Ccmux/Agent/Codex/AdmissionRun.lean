/- Module: Ccmux/Agent/Codex/AdmissionRun
   source: src/agent/codex/owned/connection.ts, src/agent/codex/owned/projection.ts
   digest: When the replay of a backlog shows what a live projection of the same arrivals shows. -/

import Ccmux.Agent.Codex.Admission

namespace Ccmux.Agent.Codex.Owned

open Ccmux.Lib.Machine

structure Untouched (p q : Projection) : Prop where
  threadId : q.threadId = p.threadId
  revision : q.revision = p.revision
  connected : q.connected = p.connected
  reason : q.reason = p.reason
  turn : q.turn = p.turn
  sequence : q.sequence = p.sequence
  events : q.events = p.events
  submittedRequests : q.submittedRequests = p.submittedRequests
  nativeSelection : q.nativeSelection = p.nativeSelection

/-- A request was taken: it is open, its state stands, and its item is the latest. -/
structure Opened (p : Projection) : Prop where
  pending : p.pendingRequests ≠ []
  waiting : p.state = .waitingApproval ∨ p.state = .waitingInput
  latest : ∃ item, p.nativeItems.getLast? = some item ∧ item.stage = .requested

/-- What the events alone leave: no request, and events numbered up to the sequence. -/
structure Quiet (p : Projection) : Prop where
  pending : p.pendingRequests = []
  submitted : p.submittedRequests = []
  numbered : ∀ e ∈ p.events, e.sequence ≤ p.sequence

/-- The part of a projection that statuses and turns write, taken from another one. -/
@[grind =]
def rebase (p q : Projection) : Projection :=
  { p with
    revision := q.revision
    connected := q.connected
    reason := q.reason
    turn := q.turn
    sequence := q.sequence
    events := q.events
    nativeSelection := q.nativeSelection }

section
variable {b : Builtins} {p q r : Projection} {rs : List CodexRpcRequest} {r₀ : CodexRpcRequest}
variable {e : CodexRpcEvent} {item : NativeItem} {st : NativeState}

variable {α : Type} {n : Nat} {threadId : String}

theorem getLast?_keepLast {items : List α} {last : α} (hn : 0 < n) :
    (keepLast n (items ++ [last])).getLast? = some last := by
  unfold keepLast
  have hlength : (items ++ [last]).length = items.length + 1 := by simp
  rw [List.getLast?_drop, if_neg (by omega), List.getLast?_append_of_ne_nil _ (by simp)]
  rfl

theorem getLast?_shedItems (items : List NativeItem) :
    (shedItems b items).getLast? = items.getLast? := by
  fun_induction shedItems b items with
  | case1 first second rest hbytes ih => rw [ih, List.getLast?_cons_cons]
  | case2 => rfl
  | case3 => rfl

theorem appendNative_last : (appendNative b p item).nativeItems.getLast? = some item := by
  unfold appendNative
  rw [getLast?_shedItems, getLast?_keepLast (by decide)]

theorem accepted_congr (hthread : q.threadId = p.threadId)
    (hpending : q.pendingRequests = p.pendingRequests)
    (hsubmitted : q.submittedRequests = p.submittedRequests) :
    accepted b q r₀ = accepted b p r₀ := by
  simp only [accepted, hthread, hpending, hsubmitted]

theorem Untouched.refl : Untouched p p := ⟨rfl, rfl, rfl, rfl, rfl, rfl, rfl, rfl, rfl⟩

theorem Untouched.trans (h : Untouched p q) (h' : Untouched q r) : Untouched p r where
  threadId := h'.threadId.trans h.threadId
  revision := h'.revision.trans h.revision
  connected := h'.connected.trans h.connected
  reason := h'.reason.trans h.reason
  turn := h'.turn.trans h.turn
  sequence := h'.sequence.trans h.sequence
  events := h'.events.trans h.events
  submittedRequests := h'.submittedRequests.trans h.submittedRequests
  nativeSelection := h'.nativeSelection.trans h.nativeSelection

theorem request_untouched : Untouched p (request b p r₀) := by
  unfold request
  split
  · exact .refl
  · exact ⟨rfl, rfl, rfl, rfl, rfl, rfl, rfl, rfl, rfl⟩

theorem requests_untouched : Untouched p (rs.foldl (request b) p) := by
  induction rs generalizing p with
  | nil => exact .refl
  | cons r₀ rs ih => exact (request_untouched).trans ih

theorem keepLast_ne_nil {items : List α} {last : α} (hn : 0 < n) :
    keepLast n (items ++ [last]) ≠ [] := by
  intro hnil
  have hlast := @getLast?_keepLast _ n items last hn
  rw [hnil] at hlast
  cases hlast

theorem request_opened {pending : NativePendingRequest} (h : accepted b p r₀ = some pending) :
    Opened (request b p r₀) := by
  unfold request
  rw [h]
  refine ⟨?_, ?_, _, appendNative_last, rfl⟩
  · exact keepLast_ne_nil (show 0 < maxPending by decide)
  · cases hasked : pending.asked with
    | approval kind reason decisions startedAtMs => exact .inl (by simp [appendNative, hasked, Asked.waiting])
    | input questions => exact .inr (by simp [appendNative, hasked, Asked.waiting])

theorem Opened.request (h : Opened p) : Opened (request b p r₀) := by
  cases haccepted : accepted b p r₀ with
  | none =>
    have hsame : Owned.request b p r₀ = p := by simp only [Owned.request, haccepted]
    rw [hsame]
    exact h
  | some pending => exact request_opened haccepted

theorem Opened.requests (h : Opened p) : Opened (rs.foldl (Owned.request b) p) := by
  induction rs generalizing p with
  | nil => exact h
  | cons r₀ rs ih => exact ih h.request

theorem requests_opened (hthread : q.threadId = p.threadId)
    (hpending : q.pendingRequests = p.pendingRequests)
    (hsubmitted : q.submittedRequests = p.submittedRequests) :
    (rs.foldl (request b) p = p ∧ rs.foldl (request b) q = q) ∨
      (Opened (rs.foldl (request b) p) ∧ Opened (rs.foldl (request b) q)) := by
  induction rs with
  | nil => exact .inl ⟨rfl, rfl⟩
  | cons r₀ rs ih =>
    have hsame := @accepted_congr b p q r₀ hthread hpending hsubmitted
    cases haccepted : accepted b p r₀ with
    | none =>
      rw [haccepted] at hsame
      have hp : request b p r₀ = p := by simp only [request, haccepted]
      have hq : request b q r₀ = q := by simp only [request, hsame]
      rw [List.foldl_cons, List.foldl_cons, hp, hq]
      exact ih
    | some pending =>
      rw [haccepted] at hsame
      exact .inr ⟨(request_opened haccepted).requests, (request_opened hsame).requests⟩

theorem request_rebase : request b (rebase p q) r₀ = rebase (request b p r₀) q := by
  have hsame : accepted b (rebase p q) r₀ = accepted b p r₀ := accepted_congr rfl rfl rfl
  unfold request
  rw [hsame]
  cases accepted b p r₀ with
  | none => rfl
  | some pending => simp only [rebase, appendNative]

theorem requests_rebase :
    rs.foldl (request b) (rebase p q) = rebase (rs.foldl (request b) p) q := by
  induction rs generalizing p with
  | nil => rfl
  | cons r₀ rs ih => rw [List.foldl_cons, List.foldl_cons, request_rebase, ih]

theorem requests_state (h : Opened (rs.foldl (request b) p)) (hquiet : p.pendingRequests = []) :
    rs.foldl (request b) { p with state := st } = rs.foldl (request b) p := by
  induction rs with
  | nil => exact absurd hquiet h.pending
  | cons r₀ rs ih =>
    have hsame : accepted b { p with state := st } r₀ = accepted b p r₀ :=
      accepted_congr rfl rfl rfl
    cases haccepted : accepted b p r₀ with
    | none =>
      rw [haccepted] at hsame
      have hp : request b p r₀ = p := by simp only [request, haccepted]
      have hq : request b { p with state := st } r₀ = { p with state := st } := by
        simp only [request, hsame]
      rw [List.foldl_cons, hp] at h
      rw [List.foldl_cons, List.foldl_cons, hp, hq]
      exact ih h
    | some pending =>
      rw [haccepted] at hsame
      have hjoin : request b { p with state := st } r₀ = request b p r₀ := by
        simp only [request, haccepted, hsame]
      rw [List.foldl_cons, List.foldl_cons, hjoin]

/-- An inert event writes at most the selection. -/
theorem event_inert (h : inert b p e = true) (hsubmitted : p.submittedRequests = []) :
    event b p e =
      { p with nativeSelection :=
          (codexSelectionEvent e p.threadId p.nativeSelection).or p.nativeSelection } := by
  unfold event
  cases hselection : codexSelectionEvent e p.threadId p.nativeSelection with
  | some selection => rfl
  | none =>
    rw [Option.none_or]
    cases e with
    | status threadId status =>
      simp only [inert, decide_eq_true_eq] at h
      simp only [ne_eq, h, not_false_eq_true, if_true]
    | turn started threadId id status =>
      simp only [inert] at h
      simp only [h, if_true]
    | item started threadId turnId item =>
      simp only [inert, decide_eq_true_eq] at h
      simp only [projectNativeEvent, ne_eq, h, not_false_eq_true, if_true]
    | tokenUsage threadId turnId total =>
      simp only [inert, decide_eq_true_eq] at h
      simp only [projectNativeEvent, ne_eq, h, not_false_eq_true, if_true]
    | resolved threadId requestId =>
      simp only [inert, Bool.or_eq_true, decide_eq_true_eq] at h
      by_cases hthread : threadId = p.threadId
      · have hnone := h.resolve_left (not_not.mpr hthread)
        rw [Option.isNone_iff_eq_none] at hnone
        have hnot : findRequest p.submittedRequests (publicRequestId b requestId) = none := by
          rw [hsubmitted]
          rfl
        simp only [resolvedRequestId, hthread, if_true, resolveRequest, hnone, hnot, Option.or_none]
      · simp only [resolvedRequestId, hthread, if_false]
    | settings _ _ _ _ _ | rerouted _ _ _ | delta _ _ | unreadable _ | malformed _ => rfl

theorem applyStatus_untouched (p : Projection) (status : NativeStatus) :
    (applyStatus p status).threadId = p.threadId ∧
      (applyStatus p status).pendingRequests = p.pendingRequests ∧
      (applyStatus p status).submittedRequests = p.submittedRequests := by
  unfold applyStatus
  dsimp only
  split <;> exact ⟨rfl, rfl, rfl⟩

theorem event_threadId : (event b p e).threadId = p.threadId := by
  unfold event
  split
  · rfl
  · split
    · split
      · rfl
      · exact (applyStatus_untouched _ _).1
    · split
      · rfl
      · dsimp only
        split <;> rfl
    · split
      · rfl
      · unfold resolveRequest
        split <;> rfl
    · split <;> rfl
    · split <;> rfl
    · rfl

theorem numbered_append {kind : EventKind} (h : ∀ e ∈ p.events, e.sequence ≤ p.sequence) :
    ∀ e ∈ (p.append kind).events, e.sequence ≤ (p.append kind).sequence := by
  intro e he
  simp only [Projection.append, keepLast] at he
  simp only [Projection.append]
  rcases List.mem_append.mp (List.mem_of_mem_drop he) with he | he
  · exact Nat.le_succ_of_le (h e he)
  · obtain rfl := List.mem_singleton.mp he
    exact Nat.le_refl _

variable {status : NativeStatus}

theorem quiet_applyStatus (h : Quiet p) : Quiet (applyStatus p status) := by
  obtain ⟨_, hpending, hsubmitted⟩ := applyStatus_untouched p status
  refine ⟨hpending.trans h.pending, hsubmitted.trans h.submitted, ?_⟩
  unfold applyStatus
  dsimp only
  split
  · exact numbered_append h.numbered
  · exact h.numbered

theorem quiet_native (h : Quiet p) : Quiet (appendNative b p item) :=
  ⟨h.pending, h.submitted, h.numbered⟩

/-- Without a request there is nothing to resolve. -/
theorem quiet_event (h : Quiet p) : Quiet (event b p e) := by
  unfold event
  split
  · exact ⟨h.pending, h.submitted, h.numbered⟩
  · split
    · split
      · exact h
      · exact quiet_applyStatus ⟨h.pending, h.submitted, h.numbered⟩
    · split
      · exact h
      · rename_i started threadId id status _ _
        have hmoved : Quiet (applyTurn p started id status) :=
          ⟨h.pending, h.submitted, numbered_append h.numbered⟩
        dsimp only
        split
        · exact hmoved
        · exact quiet_native hmoved
    · split
      · exact h
      · unfold resolveRequest
        rw [h.pending, h.submitted]
        exact h
    · split
      · exact h
      · exact quiet_native h
    · split
      · exact h
      · exact quiet_native h
    · exact h

theorem quiet_events {es : List CodexRpcEvent} (h : Quiet p) : Quiet (es.foldl (event b) p) := by
  induction es generalizing p with
  | nil => exact h
  | cons e es ih => exact ih (quiet_event h)

/-- The parts that a status writes, where the open request has set the state already. -/
theorem applyStatus_rebase (h : Untouched p q)
    (hstate : (nativeTurnState status).1 = q.state)
    (hchanged : p.connected = false ∨ p.reason ≠ (nativeTurnState status).2 ∨ p.state = q.state) :
    applyStatus { q with revision := q.revision + 1 } status =
      rebase q (applyStatus { p with revision := p.revision + 1 } status) := by
  have hsame : (q.state ≠ (nativeTurnState status).1 ∨ q.reason ≠ (nativeTurnState status).2 ∨
      q.connected = false) ↔ (p.state ≠ (nativeTurnState status).1 ∨
        p.reason ≠ (nativeTurnState status).2 ∨ p.connected = false) := by
    rw [hstate, h.reason, h.connected]
    constructor
    · rintro (hne | hother)
      · exact absurd rfl hne
      · exact .inr hother
    · rintro (hne | hother)
      · rcases hchanged with hc | hc | hc
        · exact .inr (.inr hc)
        · exact .inr (.inl hc)
        · exact absurd hc hne
      · exact .inr hother
  unfold applyStatus
  dsimp only
  by_cases hp : p.state ≠ (nativeTurnState status).1 ∨ p.reason ≠ (nativeTurnState status).2 ∨
      p.connected = false
  · rw [if_pos hp, if_pos (hsame.mpr hp)]
    simp only [rebase, Projection.append, hstate, h.revision, h.turn, h.sequence, h.events,
      h.nativeSelection]
  · rw [if_neg hp, if_neg (fun hq => hp (hsame.mp hq))]
    simp only [rebase, hstate, h.revision, h.turn, h.sequence, h.events, h.nativeSelection]

theorem requests_applyStatus (hquiet : Quiet p)
    (hopened : Opened (rs.foldl (request b) p)) :
    rs.foldl (request b) (applyStatus { p with revision := p.revision + 1 } status) =
      rebase (rs.foldl (request b) p)
        (applyStatus { p with revision := p.revision + 1 } status) := by
  have hshape : applyStatus { p with revision := p.revision + 1 } status =
      rebase { p with state := (nativeTurnState status).1 }
        (applyStatus { p with revision := p.revision + 1 } status) := by
    unfold applyStatus
    dsimp only
    split <;> simp only [rebase, Projection.append]
  rw [hshape, requests_rebase, requests_state hopened hquiet.pending]
  rfl

theorem selectionEvent_congr (h : Untouched p q) :
    codexSelectionEvent e q.threadId q.nativeSelection =
      codexSelectionEvent e p.threadId p.nativeSelection := by
  rw [h.threadId, h.nativeSelection]

theorem inert_quiet (h : Untouched p q) (hquiet : Quiet p) (hinert : inert b q e = true) :
    inert b p e = true := by
  cases e with
  | status threadId status => simpa only [inert, h.threadId] using hinert
  | turn started threadId id status =>
    simpa only [inert, turnIgnored, h.threadId, h.turn] using hinert
  | item started threadId turnId item => simpa only [inert, h.threadId] using hinert
  | tokenUsage threadId turnId total => simpa only [inert, h.threadId] using hinert
  | resolved threadId requestId =>
    simp only [inert, findRequest, hquiet.pending, List.find?_nil, Option.isNone_none, Bool.or_true]
  | settings _ _ _ _ _ | rerouted _ _ _ | delta _ _ | unreadable _ | malformed _ => rfl

/-- What each event does to the replay and to the live projection, where the condition holds. -/
theorem event_commutes (hquiet : Quiet p) (hq : rs.foldl (request b) p = q)
    (hkeeps : q.pendingRequests.isEmpty = true ∨ inert b q e = true ∨
      repeatsWaiting q p.state e = true) :
    rs.foldl (request b) (event b p e) = event b q e := by
  have huntouched : Untouched p q := hq ▸ requests_untouched
  have hsubmitted : q.submittedRequests = [] := huntouched.submittedRequests.trans hquiet.submitted
  have hevent : Quiet (event b p e) := quiet_event hquiet
  rcases @requests_opened b p (event b p e) rs event_threadId
    (hevent.pending.trans hquiet.pending.symm) (hevent.submitted.trans hquiet.submitted.symm) with
    ⟨hp, he⟩ | ⟨hp, he⟩
  · rw [he, ← hq, hp]
  · rw [hq] at hp
    rcases hkeeps with hempty | hinert | hrepeats
    · exact absurd (List.isEmpty_iff.mp hempty) hp.pending
    · rw [event_inert hinert hsubmitted, event_inert (inert_quiet huntouched hquiet hinert)
        hquiet.submitted, selectionEvent_congr huntouched]
      generalize hselection :
        (codexSelectionEvent e p.threadId p.nativeSelection).or p.nativeSelection = selection
      have hshape : { p with nativeSelection := selection } =
          rebase p { p with nativeSelection := selection } := rfl
      rw [hshape, requests_rebase, hq, huntouched.nativeSelection, hselection]
      simp only [rebase, ← huntouched.revision, ← huntouched.connected, ← huntouched.reason,
        ← huntouched.turn, ← huntouched.sequence, ← huntouched.events]
    · cases e with
      | status threadId status =>
        simp only [repeatsWaiting, Bool.and_eq_true, Bool.or_eq_true, Bool.not_eq_true',
          decide_eq_true_eq] at hrepeats
        obtain ⟨hstate, hcases⟩ := hrepeats
        by_cases hthread : threadId = p.threadId
        · have hchanged : p.connected = false ∨ p.reason ≠ (nativeTurnState status).2 ∨
              p.state = q.state := by
            rw [huntouched.connected, huntouched.reason] at hcases
            tauto
          have hpe : event b p (.status threadId status) =
              applyStatus { p with revision := p.revision + 1 } status := by
            simp only [event, codexSelectionEvent, ne_eq, hthread, not_true_eq_false, if_false]
          have hqe : event b q (.status threadId status) =
              applyStatus { q with revision := q.revision + 1 } status := by
            simp only [event, codexSelectionEvent, ne_eq, hthread, huntouched.threadId,
              not_true_eq_false, if_false]
          have hopened : Opened (rs.foldl (request b) p) := hq.symm ▸ hp
          rw [hpe, hqe, requests_applyStatus hquiet hopened, hq,
            applyStatus_rebase huntouched hstate hchanged]
        · have hpe : event b p (.status threadId status) = p := by
            simp only [event, codexSelectionEvent, ne_eq, hthread, not_false_eq_true, if_true]
          have hqe : event b q (.status threadId status) = q := by
            simp only [event, codexSelectionEvent, ne_eq, huntouched.threadId, hthread,
              not_false_eq_true, if_true]
          rw [hpe, hqe, hq]
      | settings _ _ _ _ _ | rerouted _ _ _ | turn _ _ _ _ | item _ _ _ _ | tokenUsage _ _ _
      | resolved _ _ | delta _ _ | unreadable _ | malformed _ => cases hrepeats

theorem differs_of_latest (hp : Opened p) (hlast : q.nativeItems.getLast? = some item)
    (hstage : item.stage ≠ .requested) : ¬ Same p q := by
  intro hsame
  obtain ⟨latest, hlatest, hrequested⟩ := hp.latest
  rw [hsame.nativeItems, hlast] at hlatest
  obtain rfl := Option.some.inj hlatest
  exact hstage hrequested

theorem differs_of_state (hp : Opened p) (hwaiting : q.state ≠ .waitingApproval)
    (hinput : q.state ≠ .waitingInput) : ¬ Same p q := by
  intro hsame
  rcases hp.waiting with hstate | hstate
  · exact hwaiting (hsame.state.symm.trans hstate)
  · exact hinput (hsame.state.symm.trans hstate)

/-- An event that is resolved after its request leaves the replay a request more. -/
theorem differs_of_resolved {requestId : RpcId} (hquiet : Quiet p)
    (hq : rs.foldl (request b) p = q) (hactive : inert b q (.resolved threadId requestId) = false) :
    ¬ Same (rs.foldl (request b) (event b p (.resolved threadId requestId)))
      (event b q (.resolved threadId requestId)) := by
  have huntouched : Untouched p q := hq ▸ requests_untouched
  simp only [inert, Bool.or_eq_false_iff, decide_eq_false_iff_not, ne_eq, not_not,
    Option.isNone_eq_false_iff] at hactive
  obtain ⟨hthread, hfound⟩ := hactive
  obtain ⟨pending, hpending⟩ := Option.isSome_iff_exists.mp hfound
  have hquietEvent : event b p (.resolved threadId requestId) = p := by
    have hnone : inert b p (.resolved threadId requestId) = true := by
      simp only [inert, findRequest, hquiet.pending, List.find?_nil, Option.isNone_none,
        Bool.or_true]
    rw [event_inert hnone hquiet.submitted]
    rfl
  have hid : pending.requestId = publicRequestId b requestId := by
    have hmatch := List.find?_some hpending
    simpa using hmatch
  have hgone : pending ∉ (event b q (.resolved threadId requestId)).pendingRequests := by
    simp only [event, codexSelectionEvent, resolvedRequestId, hthread, if_true, resolveRequest,
      hpending, Option.some_or, settleRequest, appendNative]
    intro hmem
    simpa using (List.mem_filter.mp hmem).2
  intro hsame
  rw [hquietEvent, hq] at hsame
  exact hgone (hsame.pendingRequests ▸ List.mem_of_find?_eq_some hpending)

theorem differs_of_status (hquiet : Quiet p)
    (hq : rs.foldl (request b) p = q) (hopened : Opened q)
    (hactive : inert b q (.status threadId status) = false)
    (hother : repeatsWaiting q p.state (.status threadId status) = false) :
    ¬ Same (rs.foldl (request b) (event b p (.status threadId status)))
      (event b q (.status threadId status)) := by
  have huntouched : Untouched p q := hq ▸ requests_untouched
  simp only [inert, decide_eq_false_iff_not, ne_eq, not_not] at hactive
  have hthread : threadId = p.threadId := hactive.trans huntouched.threadId
  have hpe : event b p (.status threadId status) =
      applyStatus { p with revision := p.revision + 1 } status := by
    simp only [event, codexSelectionEvent, ne_eq, hthread, not_true_eq_false, if_false]
  have hqe : event b q (.status threadId status) =
      applyStatus { q with revision := q.revision + 1 } status := by
    simp only [event, codexSelectionEvent, ne_eq, hactive, not_true_eq_false, if_false]
  rw [hpe, hqe, requests_applyStatus hquiet (hq.symm ▸ hopened), hq]
  intro hsame
  have hset : (applyStatus { q with revision := q.revision + 1 } status).state =
      (nativeTurnState status).1 := by
    unfold applyStatus
    dsimp only
    split <;> simp only [Projection.append]
  have hstate : q.state = (nativeTurnState status).1 := hsame.state.trans hset
  simp only [repeatsWaiting, hstate, decide_true, Bool.true_and, Bool.or_eq_false_iff,
    Bool.not_eq_false', decide_eq_false_iff_not, ne_eq, not_not] at hother
  obtain ⟨⟨hconnected, hreason⟩, hbefore⟩ := hother
  -- The live projection records nothing, and the replay records the change to the waiting state.
  have hlive : (applyStatus { q with revision := q.revision + 1 } status).events = q.events := by
    unfold applyStatus
    dsimp only
    rw [if_neg (by simp [hstate, hreason, hconnected])]
  have hreplayed : (applyStatus { p with revision := p.revision + 1 } status).events =
      keepLast maxEvents (p.events ++ [⟨p.sequence + 1, .state, (nativeTurnState status).1,
        p.turn⟩]) := by
    unfold applyStatus
    dsimp only
    rw [if_pos (.inl hbefore)]
    simp only [Projection.append]
  have hevents := hsame.events
  simp only [rebase] at hevents
  rw [hlive, hreplayed, huntouched.events] at hevents
  have hlast := @getLast?_keepLast _ maxEvents p.events
    (⟨p.sequence + 1, .state, (nativeTurnState status).1, p.turn⟩ : NativeEvent) (by decide)
  rw [hevents] at hlast
  have hnumbered := hquiet.numbered _ (List.mem_of_getLast? hlast)
  dsimp only at hnumbered
  omega

/-- Where the condition fails, the replay shows something else. -/
theorem event_differs (hquiet : Quiet p) (hq : rs.foldl (request b) p = q)
    (hpending : q.pendingRequests ≠ []) (hactive : inert b q e = false)
    (hother : repeatsWaiting q p.state e = false) :
    ¬ Same (rs.foldl (request b) (event b p e)) (event b q e) := by
  have huntouched : Untouched p q := hq ▸ requests_untouched
  have hevent : Quiet (event b p e) := quiet_event hquiet
  obtain ⟨hq', he⟩ : Opened q ∧ Opened (rs.foldl (request b) (event b p e)) := by
    rcases @requests_opened b p (event b p e) rs event_threadId
      (hevent.pending.trans hquiet.pending.symm)
      (hevent.submitted.trans hquiet.submitted.symm) with ⟨hsame, _⟩ | ⟨hp, he⟩
    · rw [hq] at hsame
      rw [hsame] at hpending
      exact absurd hquiet.pending hpending
    · exact ⟨hq ▸ hp, he⟩
  cases e with
  | status threadId status => exact differs_of_status hquiet hq hq' hactive hother
  | resolved threadId requestId => exact differs_of_resolved hquiet hq hactive
  | turn started threadId id status =>
    have htaken : turnIgnored q started threadId id status = false := hactive
    cases started with
    | true =>
      have hworking : (event b q (.turn true threadId id status)).state = .working := by
        simp only [event, codexSelectionEvent, htaken, Bool.false_eq_true, if_false,
          projectNativeEvent, applyTurn, Projection.append, if_true]
      refine differs_of_state he ?_ ?_ <;> rw [hworking] <;> exact NativeState.noConfusion
    | false =>
      have hthread : threadId = q.threadId := by
        simp only [turnIgnored, Bool.or_eq_false_iff, decide_eq_false_iff_not, ne_eq,
          not_not] at htaken
        exact htaken.1.1
      subst hthread
      have hlive : event b q (.turn false q.threadId id status) =
          appendNative b (applyTurn q false id status)
            { sequence := q.nativeSequence + 1, kind := .terminal, stage := .completed,
              nativeId := id, turnId := some id, status := some (b.slice status.text 64) } := by
        simp only [event, codexSelectionEvent, htaken, Bool.false_eq_true, if_false,
          projectNativeEvent, applyTurn, Projection.append, ne_eq, not_true_eq_false]
      rw [hlive]
      exact differs_of_latest he appendNative_last ItemStage.noConfusion
  | item started threadId turnId native =>
    simp only [inert, decide_eq_false_iff_not, ne_eq, not_not] at hactive
    simp only [event, codexSelectionEvent, projectNativeEvent, hactive, ne_eq, not_true_eq_false,
      if_false] at he ⊢
    refine differs_of_latest he appendNative_last ?_
    cases started <;> exact ItemStage.noConfusion
  | tokenUsage threadId turnId total =>
    simp only [inert, decide_eq_false_iff_not, ne_eq, not_not] at hactive
    simp only [event, codexSelectionEvent, projectNativeEvent, hactive, ne_eq, not_true_eq_false,
      if_false] at he ⊢
    exact differs_of_latest he appendNative_last ItemStage.noConfusion
  | settings _ _ _ _ _ | rerouted _ _ _ | delta _ _ | unreadable _ | malformed _ => cases hactive

theorem event_delta (h : isDelta e = true) : event b p e = p := by
  cases e with
  | delta threadId text => rfl
  | settings _ _ _ _ _ | rerouted _ _ _ | status _ _ | turn _ _ _ _ | item _ _ _ _
  | tokenUsage _ _ _ | resolved _ _ | unreadable _ | malformed _ => cases h

theorem events_filter (es : List CodexRpcEvent) :
    (es.filter fun e => !isDelta e).foldl (event b) p = es.foldl (event b) p := by
  induction es generalizing p with
  | nil => rfl
  | cons e es ih =>
    cases hdelta : isDelta e with
    | true =>
      rw [List.filter_cons_of_neg (by simp [hdelta]), List.foldl_cons, event_delta hdelta, ih]
    | false => rw [List.filter_cons_of_pos (by simp [hdelta]), List.foldl_cons, List.foldl_cons, ih]

theorem filter_eraseP (es : List CodexRpcEvent) :
    ((es.eraseP isDelta).filter fun e => !isDelta e) = es.filter fun e => !isDelta e := by
  induction es with
  | nil => rfl
  | cons e es ih =>
    cases hdelta : isDelta e with
    | true => rw [List.eraseP_cons_of_pos hdelta, List.filter_cons_of_neg (by simp [hdelta])]
    | false =>
      rw [List.eraseP_cons_of_neg (by simp [hdelta]), List.filter_cons_of_pos (by simp [hdelta]),
        List.filter_cons_of_pos (by simp [hdelta]), ih]

end

section
variable {b : Builtins} {sizes : Sizes} {p : Projection} {w v : World} {a : Arrival}
variable {backlog after : AdmissionBacklog} {e : CodexRpcEvent} {size fuel : Nat}

/-- What a change of the backlog keeps: the requests, the events that are no deltas, and the count
of the events that it held or shed. -/
structure Kept (backlog after : AdmissionBacklog) (more : List CodexRpcEvent) : Prop where
  requests : after.requests = backlog.requests
  events : (after.events.filter fun e => !isDelta e) =
    (backlog.events ++ more).filter fun e => !isDelta e
  counted : after.omitted + after.events.length =
    backlog.omitted + (backlog.events ++ more).length

theorem kept_shedDeltas : Kept backlog (shedDeltas sizes size fuel backlog) [] := by
  induction fuel generalizing backlog with
  | zero => exact ⟨rfl, by rw [List.append_nil]; rfl, by rw [List.append_nil]; rfl⟩
  | succ fuel ih =>
    unfold shedDeltas
    split
    · split
      · exact ⟨rfl, by rw [List.append_nil], by rw [List.append_nil]⟩
      · rename_i removed hfind
        have hnext := @ih { backlog with
          events := backlog.events.eraseP isDelta
          bytes := backlog.bytes - sizes.event removed
          omitted := backlog.omitted + 1 }
        have hlength : (backlog.events.eraseP isDelta).length + 1 = backlog.events.length := by
          have hmem := List.mem_of_find?_eq_some hfind
          have hpos := List.length_pos_of_mem hmem
          rw [List.length_eraseP_of_mem hmem (List.find?_some hfind)]
          omega
        refine ⟨hnext.requests, ?_, ?_⟩
        · rw [hnext.events, List.append_nil, List.append_nil]
          exact filter_eraseP backlog.events
        · rw [hnext.counted, List.append_nil, List.append_nil]
          dsimp only
          omega
    · exact ⟨rfl, by rw [List.append_nil], by rw [List.append_nil]⟩

theorem kept_event (h : backlog.event sizes e = some after) : Kept backlog after [e] := by
  unfold AdmissionBacklog.event at h
  dsimp only at h
  generalize hleft : shedDeltas sizes (sizes.event e) backlog.events.length backlog = left at h
  have hkept : Kept backlog left [] := hleft ▸ kept_shedDeltas
  have hevents := hkept.events
  have hcounted := hkept.counted
  rw [List.append_nil] at hevents hcounted
  split at h
  · rw [← Option.some.inj h]
    refine ⟨hkept.requests, ?_, ?_⟩
    · rw [List.filter_append, List.filter_append, hevents]
    · simp only [List.length_append]
      omega
  · split at h
    · rename_i hdelta
      rw [← Option.some.inj h]
      refine ⟨hkept.requests, ?_, ?_⟩
      · rw [List.filter_append, List.filter_cons_of_neg (by simp [hdelta]), List.filter_nil,
          List.append_nil]
        exact hevents
      · simp only [List.length_append, List.length_singleton]
        omega
    · cases h

/-- What the backlog holds of the arrivals, whatever they were. -/
structure Held (w : World) : Prop where
  events : (w.backlog.events.filter fun e => !isDelta e) = w.arrived.filter fun e => !isDelta e
  counted : w.backlog.omitted + w.backlog.events.length = w.arrived.length
  readable : ∀ e ∈ w.arrived, throws e = false

theorem held_step (h : Held w) (hstep : step b sizes w a = some v) : Held v := by
  cases a with
  | event e =>
    simp only [step] at hstep
    split at hstep
    · cases hstep
    · rename_i hreadable
      obtain ⟨backlog, hbacklog, rfl⟩ := Option.map_eq_some_iff.mp hstep
      have hkept := kept_event hbacklog
      refine ⟨?_, ?_, ?_⟩
      · rw [hkept.events, List.filter_append, h.events, ← List.filter_append]
      · have hcounted := hkept.counted
        have hbefore := h.counted
        simp only [List.length_append] at hcounted ⊢
        omega
      · intro other hother
        rcases List.mem_append.mp hother with hother | hother
        · exact h.readable other hother
        · rw [List.mem_singleton.mp hother]
          exact Bool.not_eq_true _ ▸ hreadable
  | request r =>
    obtain ⟨backlog, hbacklog, rfl⟩ := Option.map_eq_some_iff.mp hstep
    unfold AdmissionBacklog.request at hbacklog
    dsimp only at hbacklog
    split at hbacklog
    · cases hbacklog
    · rw [← Option.some.inj hbacklog]
      exact ⟨h.events, h.counted, h.readable⟩

theorem replay_eq (h : Held w) : replay b p w.backlog =
    some (w.backlog.requests.foldl (request b) (w.arrived.foldl (event b) p)) := by
  have hreadable : w.backlog.events.any throws = false := by
    rw [List.any_eq_false]
    intro e he hthrows
    have hkept : e ∈ w.backlog.events.filter fun e => !isDelta e := by
      refine List.mem_filter.mpr ⟨he, ?_⟩
      cases e <;> first | rfl | cases hthrows
    rw [h.events] at hkept
    rw [h.readable e (List.mem_filter.mp hkept).1] at hthrows
    cases hthrows
  unfold replay
  rw [hreadable, if_neg Bool.false_ne_true, ← events_filter w.backlog.events, h.events,
    events_filter]

@[grind =]
def Matches (b : Builtins) (p : Projection) (w : World) : Prop :=
  w.backlog.requests.foldl (request b) (w.arrived.foldl (event b) p) = w.live

theorem matches_step (hquiet : Quiet p) (hheld : Held w) (h : Matches b p w)
    (hkeeps : keeps b p w a = true) (hstep : step b sizes w a = some v) : Matches b p v := by
  unfold Matches at h ⊢
  cases a with
  | event e =>
    simp only [step] at hstep
    split at hstep
    · cases hstep
    · obtain ⟨backlog, hbacklog, rfl⟩ := Option.map_eq_some_iff.mp hstep
      dsimp only
      rw [(kept_event hbacklog).requests, List.foldl_append]
      simp only [keeps, Bool.or_eq_true, or_assoc] at hkeeps
      rw [← events_filter w.backlog.events, hheld.events, events_filter] at hkeeps
      exact event_commutes (quiet_events hquiet) h hkeeps
  | request r =>
    obtain ⟨backlog, hbacklog, rfl⟩ := Option.map_eq_some_iff.mp hstep
    unfold AdmissionBacklog.request at hbacklog
    dsimp only at hbacklog
    split at hbacklog
    · cases hbacklog
    · rw [← Option.some.inj hbacklog]
      dsimp only
      rw [List.foldl_append, h]
      rfl

theorem differs_step (hquiet : Quiet p) (hheld : Held w) (h : Matches b p w)
    (hbreaks : ¬ keeps b p w a = true) (hstep : step b sizes w a = some v) :
    ¬ Same (v.backlog.requests.foldl (request b) (v.arrived.foldl (event b) p)) v.live := by
  unfold Matches at h
  cases a with
  | event e =>
    simp only [step] at hstep
    split at hstep
    · cases hstep
    · obtain ⟨backlog, hbacklog, rfl⟩ := Option.map_eq_some_iff.mp hstep
      dsimp only
      rw [(kept_event hbacklog).requests, List.foldl_append]
      simp only [keeps, Bool.not_eq_true, Bool.or_eq_false_iff] at hbreaks
      rw [← events_filter w.backlog.events, hheld.events, events_filter] at hbreaks
      obtain ⟨⟨hpending, hactive⟩, hother⟩ := hbreaks
      refine event_differs (quiet_events hquiet) h ?_ hactive hother
      rw [← List.isEmpty_eq_false_iff]
      exact hpending
  | request r => exact absurd rfl hbreaks

end

section
variable {b : Builtins} {sizes : Sizes} {threadId : String} {selection : Option NativeSelection}
variable {es : List Arrival} {w : World}

/-- The projection of a connection that is just being admitted. -/
def startProjection (threadId : String) (selection : Option NativeSelection) : Projection :=
  { threadId, nativeSelection := selection }

theorem quiet_start : Quiet (startProjection threadId selection) := by
  refine ⟨rfl, rfl, ?_⟩
  intro e he
  cases he

theorem held_start {live : Projection} : Held { live } := by
  refine ⟨rfl, rfl, ?_⟩
  intro e he
  cases he

/-- Over any arrivals that the window holds, the replay shows what the live projection shows at
every moment exactly when no event changes anything while a request is open, but for a status of
the state which that request has set; and no event is lost but for deltas, which are counted. -/
theorem replay_matches_live
    (hrun : run (step b sizes) { live := startProjection threadId selection } es = some w) :
    (Along (step b sizes) (fun u a => keeps b (startProjection threadId selection) u a = true)
        { live := startProjection threadId selection } es ↔
      ∀ u, Reached (step b sizes) { live := startProjection threadId selection } es u →
        ∃ shown, replay b (startProjection threadId selection) u.backlog = some shown ∧
          Same shown u.live) ∧
    (w.backlog.events.filter fun e => !isDelta e) = (w.arrived.filter fun e => !isDelta e) ∧
    w.backlog.omitted + w.backlog.events.length = w.arrived.length := by
  have hheld : Held w := run_invariant (fun _ _ _ h ht => held_step h ht) hrun held_start
  refine ⟨?_, hheld.events, hheld.counted⟩
  refine along_iff_reached
    (I := fun u => Held u ∧ Matches b (startProjection threadId selection) u) ?_ ?_ ?_ hrun
    ⟨held_start, rfl⟩
  · intro s a t h hkeeps ht
    exact ⟨held_step h.1 ht, matches_step quiet_start h.1 h.2 hkeeps ht⟩
  · intro u h
    refine ⟨u.live, ?_, rfl, rfl, rfl, rfl, rfl⟩
    rw [replay_eq h.1, h.2]
  · rintro s a t h hbreaks ht ⟨shown, hshown, hsame⟩
    rw [replay_eq (held_step h.1 ht)] at hshown
    rw [← Option.some.inj hshown] at hsame
    exact differs_step quiet_start h.1 h.2 hbreaks ht hsame

end

/-- Texts are short, and every message is of one length. -/
def exampleBuiltins : Builtins := ⟨fun value _ => value, fun _ => 0⟩

def exampleSizes : Sizes := ⟨fun _ => 100, fun _ => 100⟩

def exampleApproval : CodexRpcRequest :=
  .approval .command (.number 7) "thread" "turn" "item" none none []

/-- A thread is resumed that waits for an approval: its request comes again before its status. -/
def resumedWaiting : List Arrival :=
  [.event (.item true "thread" "turn" ⟨"item", "commandExecution", none, none, none, none⟩),
   .request exampleApproval, .event (.delta "thread" "text"),
   .event (.status "thread" (.active true false))]

theorem replay_matches_live_resumedWaiting :
    ∃ w, run (step exampleBuiltins exampleSizes) { live := startProjection "thread" none }
        resumedWaiting = some w ∧ w.live.pendingRequests.length = 1 ∧
      ∀ u, Reached (step exampleBuiltins exampleSizes) { live := startProjection "thread" none }
          resumedWaiting u →
        ∃ shown, replay exampleBuiltins (startProjection "thread" none) u.backlog = some shown ∧
          Same shown u.live := by
  have hruns : ((run (step exampleBuiltins exampleSizes)
      { live := startProjection "thread" none } resumedWaiting).any fun w =>
        decide (w.live.pendingRequests.length = 1)) = true := by decide
  obtain ⟨w, hrun, hw⟩ := (Option.any_eq_true _ _).mp hruns
  refine ⟨w, hrun, of_decide_eq_true hw, (replay_matches_live hrun).1.mp ?_⟩
  exact along_of_check (C := keeps exampleBuiltins (startProjection "thread" none))
    (by decide)

/-- The provider resolves its request before the connection is admitted. -/
def resolvedEarly : List Arrival :=
  [.request exampleApproval, .event (.resolved "thread" (.number 7))]

/-- The replay leaves the resolved request open. -/
theorem replay_reopens_request :
    ∃ w, run (step exampleBuiltins exampleSizes) { live := startProjection "thread" none }
        resolvedEarly = some w ∧ w.live.pendingRequests = [] ∧
      ∃ shown, replay exampleBuiltins (startProjection "thread" none) w.backlog = some shown ∧
        shown.pendingRequests.length = 1 ∧ ¬ Same shown w.live := by
  have hruns : ((run (step exampleBuiltins exampleSizes)
      { live := startProjection "thread" none } resolvedEarly).any fun w =>
        decide (w.live.pendingRequests = []) &&
          (replay exampleBuiltins (startProjection "thread" none) w.backlog).any fun shown =>
            decide (shown.pendingRequests.length = 1)) = true := by decide
  obtain ⟨w, hrun, hw⟩ := (Option.any_eq_true _ _).mp hruns
  rw [Bool.and_eq_true] at hw
  obtain ⟨shown, hshown, hlength⟩ := (Option.any_eq_true _ _).mp hw.2
  have hone := of_decide_eq_true hlength
  refine ⟨w, hrun, of_decide_eq_true hw.1, shown, hshown, hone, ?_⟩
  intro hsame
  rw [hsame.pendingRequests, of_decide_eq_true hw.1] at hone
  cases hone

end Ccmux.Agent.Codex.Owned
