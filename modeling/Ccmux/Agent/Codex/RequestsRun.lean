/- Module: Ccmux/Agent/Codex/RequestsRun
   source: src/agent/codex/owned/projection.ts, src/runtime/projectionSchema.ts
   digest: Over every sequence of calls: open requests stay answerable, snapshots parse, and the
     event and item lists are consecutive. -/

import Mathlib
import Ccmux.Agent.Codex.Requests

namespace Ccmux.Agent.Codex.Owned

open Ccmux.Chat.Format (utf16Length)
open Ccmux.Lib.Machine Ccmux.Lib.Window

/-- What every call keeps of the projection, as long as the provider's values fit. -/
structure Orderly (b : Builtins) (p : Projection) : Prop where
  schema : SnapshotSchema p
  events : IsRun NativeEvent.sequence p.sequence p.events
  items : IsRun NativeItem.sequence p.nativeSequence p.nativeItems
  room : p.pendingRequests.length ≤ maxPending
  distinct : (p.pendingRequests.map NativePendingRequest.requestId).Nodup
  named : ∀ r ∈ p.pendingRequests, r.requestId = publicRequestId b r.rpcId
  submitted : ∀ r ∈ p.submittedRequests, nativePendingRequestSchema r = true

/-- Every request that waits is on the list. -/
structure Listed (b : Builtins) (d : Desk) : Prop where
  orderly : Orderly b d.shown
  open_ : ∀ r ∈ d.unsettled, r ∈ d.shown.pendingRequests

/-- A desk as it should be: each waiting request is open and found under its id, the snapshot
parses, and both lists are consecutive up to their counters. -/
structure Sound (d : Desk) : Prop where
  answerable : ∀ r ∈ d.unsettled, r ∈ d.shown.pendingRequests ∧
    findRequest d.shown.pendingRequests r.requestId = some r
  schema : SnapshotSchema d.shown
  events : IsRun NativeEvent.sequence d.shown.sequence d.shown.events
  items : IsRun NativeItem.sequence d.shown.nativeSequence d.shown.nativeItems

def Grows (p q : Projection) : Prop :=
  p.sequence ≤ q.sequence ∧ p.nativeSequence ≤ q.nativeSequence

theorem sized_iff {low high : Nat} {text : String} :
    sized low high text = true ↔ low ≤ utf16Length text ∧ utf16Length text ≤ high := by
  unfold sized
  exact decide_eq_true_iff

variable {α : Type}

theorem length_keepLast (n : Nat) (items : List α) :
    (keepLast n items).length ≤ n := by
  unfold keepLast
  rw [List.length_drop]
  omega

theorem sized_tool (asked : Asked) : asked.tool.all (sized 0 128) = true := by
  cases asked with
  | approval kind _ _ _ =>
    have hkind : sized 0 128 kind.text = true := by cases kind <;> decide
    exact hkind
  | input _ => rfl

variable {n : Nat} {items : List α} {x : α}

theorem mem_of_mem_keepLast (h : x ∈ keepLast n items) :
    x ∈ items :=
  List.mem_of_mem_drop h

theorem mem_keepLast_push {new : α} (hx : x ∈ items)
    (hcount : items.length ≤ n) (hroom : items.length < n ∨ items.head? ≠ some x) :
    x ∈ keepLast n (items ++ [new]) := by
  unfold keepLast
  rw [List.length_append, List.length_singleton]
  cases items with
  | nil => cases hx
  | cons oldest rest =>
    rw [List.length_cons] at hcount hroom ⊢
    have hdrop : rest.length + 1 + 1 - n = 0 ∨ rest.length + 1 + 1 - n = 1 := by omega
    rcases hdrop with hkeep | hcut
    · rw [hkeep, List.drop_zero]
      exact List.mem_append_left _ hx
    · rw [hcut, List.cons_append, List.drop_one, List.tail_cons]
      rcases List.mem_cons.mp hx with rfl | hrest
      · rcases hroom with hfree | holdest
        · omega
        · exact absurd rfl holdest
      · exact List.mem_append_left _ hrest

theorem shedItems_eq_drop (b : Builtins) (items : List NativeItem) :
    ∃ n, shedItems b items = items.drop n := by
  induction items using shedItems.induct b with
  | case1 first second rest hlarge ih =>
    obtain ⟨n, hn⟩ := ih
    refine ⟨n + 1, ?_⟩
    rw [shedItems, if_pos hlarge, hn, List.drop_succ_cons]
  | case2 first second rest hfits =>
    refine ⟨0, ?_⟩
    rw [shedItems, if_neg hfits, List.drop_zero]
  | case3 items hshort =>
    refine ⟨0, ?_⟩
    rw [List.drop_zero]
    unfold shedItems
    split
    · exact absurd rfl (hshort _ _ _)
    · rfl

section
variable {b : Builtins} {p q : Projection}

theorem orderly_append {kind : EventKind} (h : Orderly b p) : Orderly b (p.append kind) := by
  obtain ⟨entry, hentry, hsequence, hturn⟩ : ∃ entry : NativeEvent,
      (p.append kind).events = keepLast maxEvents (p.events ++ [entry]) ∧
        entry.sequence = p.sequence + 1 ∧ entry.turn = p.turn :=
    ⟨{ sequence := p.sequence + 1, kind, state := p.state, turn := p.turn },
      by simp only [Projection.append], rfl, rfl⟩
  have hvalid : ∀ e ∈ (p.append kind).events, nativeEventSchema e = true := by
    intro e he
    rw [hentry] at he
    have hmember := mem_of_mem_keepLast he
    rcases List.mem_append.mp hmember with hold | hnew
    · exact h.schema.events e hold
    · obtain rfl := List.mem_singleton.mp hnew
      have hshown := h.schema.turn
      simp only [nativeEventSchema, hsequence, hturn, hshown, Bool.and_true, decide_eq_true_eq]
      omega
  have hcount : (p.append kind).events.length ≤ maxEvents := by
    rw [hentry]
    exact length_keepLast _ _
  have hrun : IsRun NativeEvent.sequence (p.append kind).sequence (p.append kind).events := by
    rw [hentry]
    exact (h.events.push hsequence).drop _
  exact
    { h with
      schema := { h.schema with eventCount := hcount, events := hvalid }
      events := hrun }

variable {item : NativeItem} {pending : NativePendingRequest} {requestId : String}
  {r : CodexRpcRequest} {e : CodexRpcEvent} {d : Desk}

theorem orderly_appendNative (h : Orderly b p)
    (hsequence : item.sequence = p.nativeSequence + 1) (hitem : nativeItemSchema item = true) :
    Orderly b (appendNative b p item) := by
  obtain ⟨n, hn⟩ := shedItems_eq_drop b (keepLast maxNativeItems (p.nativeItems ++ [item]))
  have hitems : (appendNative b p item).nativeItems =
      (keepLast maxNativeItems (p.nativeItems ++ [item])).drop n := by
    simp only [appendNative, hn]
  have hcount : (appendNative b p item).nativeItems.length ≤ maxNativeItems := by
    rw [hitems, List.length_drop]
    exact Nat.le_trans (Nat.sub_le _ _) (length_keepLast _ _)
  have hvalid : ∀ kept ∈ (appendNative b p item).nativeItems, nativeItemSchema kept = true := by
    intro kept hkept
    rw [hitems] at hkept
    have hmember := mem_of_mem_keepLast (List.mem_of_mem_drop hkept)
    rcases List.mem_append.mp hmember with hold | hnew
    · exact h.schema.items kept hold
    · obtain rfl := List.mem_singleton.mp hnew
      exact hitem
  have hrun : IsRun NativeItem.sequence (appendNative b p item).nativeSequence
      (appendNative b p item).nativeItems := by
    have hpushed := ((h.items.push hsequence).drop
      ((p.nativeItems ++ [item]).length - maxNativeItems)).drop n
    rw [hitems]
    have hcounter : (appendNative b p item).nativeSequence = p.nativeSequence + 1 := hsequence
    rw [hcounter]
    exact hpushed
  exact
    { h with
      schema := { h.schema with itemCount := hcount, items := hvalid }
      items := hrun }

theorem Orderly.restate (h : Orderly b p) (revision : Nat) (connected : Bool) (state : NativeState)
    {reason : Option String} {turn : Option NativeTurn}
    (hreason : reason.all (sized 0 256) = true) (hturn : turn.all nativeTurnSchema = true) :
    Orderly b { p with revision, connected, state, reason, turn } :=
  { h with schema := { h.schema with reason := hreason, turn := hturn } }

theorem Orderly.reopen (h : Orderly b p) (state : NativeState)
    {open_ submitted : List NativePendingRequest} (hroom : open_.length ≤ maxPending)
    (hdistinct : (open_.map NativePendingRequest.requestId).Nodup)
    (hnamed : ∀ r ∈ open_, r.requestId = publicRequestId b r.rpcId)
    (hvalid : ∀ r ∈ open_, nativePendingRequestSchema r = true)
    (hsubmitted : ∀ r ∈ submitted, nativePendingRequestSchema r = true) :
    Orderly b
      { p with pendingRequests := open_, submittedRequests := submitted, state } :=
  { h with
    schema := { h.schema with pendingCount := Nat.le_trans hroom (by decide), pending := hvalid }
    room := hroom
    distinct := hdistinct
    named := hnamed
    submitted := hsubmitted }

theorem Orderly.select (h : Orderly b p) {selection : NativeSelection}
    (hselection : nativeSelectionEvidenceSchema selection = true) :
    Orderly b { p with nativeSelection := some selection } :=
  { h with schema := { h.schema with selection := hselection } }

theorem sized_reason (status : NativeStatus) :
    (nativeTurnState status).2.all (sized 0 256) = true := by
  cases status with
  | notLoaded | systemError | unsupported => decide
  | idle | active _ _ => rfl

variable {status : NativeStatus} {threadId : String}

theorem orderly_applyStatus (h : Orderly b p) :
    Orderly b (applyStatus p status) := by
  have happlied := h.restate p.revision true (nativeTurnState status).1 (sized_reason status)
    h.schema.turn
  unfold applyStatus
  dsimp only
  split
  · exact orderly_append happlied
  · exact happlied

theorem orderly_applyTurn {started : Bool} {id : String} {status : TurnStatus} (h : Orderly b p)
    (hid : sized 1 256 id = true) : Orderly b (applyTurn p started id status) := by
  have hreason :
      (if status = .failed then some "turn-failed" else none).all (sized 0 256) = true := by
    split
    · decide
    · rfl
  exact orderly_append (h.restate (p.revision + 1) true _ hreason hid)

theorem orderly_unavailable {reason : String} (h : Orderly b p)
    (hreason : sized 0 256 reason = true) : Orderly b (unavailable p reason) := by
  have hsome : (some reason).all (sized 0 256) = true := hreason
  exact orderly_append (h.restate (p.revision + 1) false .unknown hsome h.schema.turn)

theorem orderly_restoreTurn {turn : Option NativeTurn} (h : Orderly b p)
    (hturn : turn.all nativeTurnSchema = true) : Orderly b (restoreTurn p turn) := by
  refine h.restate p.revision p.connected p.state h.schema.reason ?_
  cases turn with
  | none => rfl
  | some turn => exact hturn

theorem orderly_settle {stage : ItemStage} (h : Orderly b p)
    (hpending : nativePendingRequestSchema pending = true) :
    Orderly b (settleRequest b p pending stage) := by
  have hless := List.filter_sublist (p := fun item : NativePendingRequest =>
    decide (item.requestId ≠ pending.requestId)) (l := p.pendingRequests)
  have hsettled := h.reopen
    (if (p.pendingRequests.filter fun item => item.requestId ≠ pending.requestId).isEmpty ∧
        p.turn.any (·.status = .inProgress) then .working else p.state)
    (Nat.le_trans hless.length_le h.room) ((hless.map _).nodup h.distinct)
    (fun r hr => h.named r (hless.mem hr)) (fun r hr => h.schema.pending r (hless.mem hr))
    h.submitted
  unfold nativePendingRequestSchema at hpending
  simp only [Bool.and_eq_true] at hpending
  obtain ⟨⟨⟨hid, hturn⟩, hitem⟩, -⟩ := hpending
  have htool := sized_tool pending.asked
  refine orderly_appendNative hsettled rfl ?_
  simp only [nativeItemSchema, Option.all_some, Option.all_none, hid, hturn, hitem, htool,
    Bool.and_true, decide_eq_true_eq]
  omega

theorem mem_of_findRequest {requests : List NativePendingRequest}
    (h : findRequest requests requestId = some pending) :
    pending ∈ requests ∧ pending.requestId = requestId := by
  unfold findRequest at h
  exact ⟨List.mem_of_find?_eq_some h, by simpa using List.find?_some h⟩

theorem orderly_resolve (h : Orderly b p) :
    Orderly b (resolveRequest b p requestId) := by
  unfold resolveRequest
  split
  · exact h
  · rename_i pending hfound
    have hpending : nativePendingRequestSchema pending = true := by
      rcases Option.or_eq_some_iff.mp hfound with hshown | ⟨-, hsubmitted⟩
      · exact h.schema.pending pending (mem_of_findRequest hshown).1
      · exact h.submitted pending (mem_of_findRequest hsubmitted).1
    have hrest : ∀ r ∈ p.submittedRequests.filter fun item => item.requestId ≠ requestId,
        nativePendingRequestSchema r = true :=
      fun r hr => h.submitted r (List.mem_filter.mp hr).1
    have hless := h.reopen p.state h.room h.distinct h.named h.schema.pending hrest
    exact orderly_settle hless hpending

theorem orderly_submit (h : Orderly b p) :
    Orderly b (submitRequest b p requestId) := by
  unfold submitRequest
  split
  · exact h
  · rename_i pending hfound
    have hpending := h.schema.pending pending (mem_of_findRequest hfound).1
    have hsubmitted : ∀ r ∈ p.submittedRequests.filter (fun item => item.requestId ≠ requestId) ++
        [pending], nativePendingRequestSchema r = true := by
      intro r hr
      rcases List.mem_append.mp hr with hold | hnew
      · exact h.submitted r (List.mem_filter.mp hold).1
      · obtain rfl := List.mem_singleton.mp hnew
        exact hpending
    have hmore := h.reopen p.state h.room h.distinct h.named h.schema.pending hsubmitted
    exact orderly_settle hmore hpending

/-- `slice(0, n)` has at most `n` units, and no fewer than the text has. -/
def Slices (b : Builtins) : Prop :=
  ∀ text n, utf16Length (b.slice text n) = min n (utf16Length text)

theorem sized_slice (hslice : Slices b) {n high : Nat} (hn : n ≤ high) (text : String) :
    sized 0 high (b.slice text n) = true := by
  have hlength := hslice text n
  rw [sized_iff]
  omega

theorem sized_clip (hslice : Slices b) {n high : Nat} (hn : n ≤ high) (text : Option String) :
    (text.map fun value => b.slice value n).all (sized 0 high) = true := by
  cases text with
  | none => rfl
  | some text => exact sized_slice hslice hn text

theorem sized_itemOf (hslice : Slices b) (item : CodexItem) :
    (itemOf b item).2.1.all (sized 0 8192) = true ∧
      (itemOf b item).2.2.all (sized 0 128) = true := by
  unfold itemOf
  dsimp only
  split
  · exact ⟨sized_clip hslice (by omega) _, rfl⟩
  · split
    · exact ⟨sized_clip hslice (by omega) _, rfl⟩
    · split
      · exact ⟨sized_clip hslice (by omega) _, rfl⟩
      · exact ⟨rfl, sized_slice hslice (by omega) _⟩

theorem orderly_item (hslice : Slices b) {started : Bool} {threadId turnId : String}
    {item : CodexItem} (h : Orderly b p) (hturn : sized 1 256 turnId = true)
    (hid : sized 1 256 item.id = true) (hstatus : item.status.all (sized 0 64) = true) :
    Orderly b (event b p (.item started threadId turnId item)) := by
  obtain ⟨htext, htool⟩ := sized_itemOf hslice item
  simp only [event, codexSelectionEvent, projectNativeEvent]
  by_cases hthread : threadId = p.threadId
  · rw [if_neg (not_not.mpr hthread)]
    refine orderly_appendNative h rfl ?_
    simp only [nativeItemSchema, Option.all_some, Option.all_none, hturn, hid, hstatus, htext,
      htool, Bool.and_true, decide_eq_true_eq]
    omega
  · rw [if_pos hthread]
    exact h

theorem orderly_usage {turnId : String} {total : NativeUsage} (h : Orderly b p)
    (hturn : sized 1 256 turnId = true) :
    Orderly b (event b p (.tokenUsage threadId turnId total)) := by
  simp only [event, codexSelectionEvent, projectNativeEvent]
  by_cases hthread : threadId = p.threadId
  · rw [if_neg (not_not.mpr hthread)]
    refine orderly_appendNative h rfl ?_
    simp only [nativeItemSchema, Option.all_some, Option.all_none, hturn, Bool.and_true,
      decide_eq_true_eq]
    omega
  · rw [if_pos hthread]
    exact h

theorem orderly_turn (hslice : Slices b) {started : Bool} {threadId id : String}
    {status : TurnStatus} (h : Orderly b p) (hid : sized 1 256 id = true) :
    Orderly b (event b p (.turn started threadId id status)) := by
  simp only [event, codexSelectionEvent]
  split
  · exact h
  · have happlied : Orderly b (applyTurn p started id status) := orderly_applyTurn h hid
    split
    · exact happlied
    · rename_i native hnative
      cases started with
      | true => cases hnative
      | false =>
        simp only [projectNativeEvent] at hnative
        split at hnative
        · cases hnative
        · obtain rfl := Option.some.inj hnative
          have hstatus := sized_slice hslice (Nat.le_refl 64) status.text
          refine orderly_appendNative happlied rfl ?_
          simp only [nativeItemSchema, Option.all_some, Option.all_none, hid, hstatus,
            Bool.and_true, decide_eq_true_eq]
          omega

theorem orderly_observe (hslice : Slices b) {d : Desk} {e : CodexRpcEvent}
    (h : Orderly b d.shown) (hfits : fits b d (.event e) = true) :
    Orderly b (observe b d.shown e) := by
  unfold observe
  split
  · rename_i selection hselection
    split
    · rename_i hschema
      have hset : event b d.shown e = { d.shown with nativeSelection := some selection } := by
        simp only [event, hselection]
      rw [hset]
      exact h.select hschema
    · exact h
  · rename_i hselection
    cases e with
    | settings threadId provider model mode effort => simpa only [event, hselection] using h
    | rerouted threadId turnId toModel => simpa only [event, hselection] using h
    | status threadId status =>
      simp only [event, codexSelectionEvent]
      split
      · exact h
      · exact orderly_applyStatus (h.restate _ _ _ h.schema.reason h.schema.turn)
    | turn started threadId id status =>
      dsimp only
      split
      · rename_i hid
        exact orderly_turn hslice h hid
      · exact h
    | item started threadId turnId item =>
      simp only [fits, Bool.or_eq_true, Bool.and_eq_true, decide_eq_true_eq] at hfits
      rcases hfits with hother | ⟨⟨hturn, hid⟩, hstatus⟩
      · simpa only [event, codexSelectionEvent, projectNativeEvent, if_pos hother] using h
      · exact orderly_item hslice h hturn hid hstatus
    | tokenUsage threadId turnId total =>
      simp only [fits, Bool.or_eq_true, decide_eq_true_eq] at hfits
      rcases hfits with hother | hturn
      · simpa only [event, codexSelectionEvent, projectNativeEvent, if_pos hother] using h
      · exact orderly_usage h hturn
    | resolved threadId requestId =>
      simp only [event, codexSelectionEvent]
      split
      · exact h
      · exact orderly_resolve h
    | delta _ _ | unreadable _ | malformed _ => simpa only [event, codexSelectionEvent] using h

theorem utf16Length_tagged (tag rest : String) (htag : utf16Length tag = 2) :
    2 ≤ utf16Length (tag ++ rest) := by
  rw [Ccmux.Chat.Format.utf16Length_append, htag]
  omega

theorem sized_publicRequestId (hslice : Slices b) (id : RpcId) :
    sized 1 256 (publicRequestId b id) = true := by
  have hcut : ∀ text, 2 ≤ utf16Length text → sized 1 256 (b.slice text 256) = true := by
    intro text htext
    have hlength := hslice text 256
    rw [sized_iff]
    omega
  cases id with
  | number n => exact hcut _ (utf16Length_tagged "n:" _ (by decide))
  | string text => exact hcut _ (utf16Length_tagged "s:" _ (by decide))

theorem decisions_length (available : List String) :
    ([Decision.accept, .acceptForSession, .decline, .cancel].filter fun value =>
      available.isEmpty || available.contains value.text).length ≤ 4 :=
  List.length_filter_le _ _

theorem clippedQuestion (hslice : Slices b) {question : NativeQuestion}
    (hid : sized 1 256 question.id = true) :
    nativeQuestionSchema
      { question with
        header := b.slice question.header 128
        question := b.slice question.question 1024
        options := question.options.map fun options =>
          (options.take 8).map fun option =>
            { label := b.slice option.label 128
              description := b.slice option.description 256 } } = true := by
  simp only [nativeQuestionSchema, hid, Bool.true_and,
    sized_slice hslice (by omega : 128 ≤ 256) question.header,
    sized_slice hslice (by omega : 1024 ≤ 2048) question.question]
  cases question.options with
  | none => rfl
  | some options =>
    rw [Option.map_some, Option.all_some, Bool.and_eq_true]
    constructor
    · rw [decide_eq_true_eq, List.length_map, List.length_take]
      omega
    · rw [List.all_eq_true]
      intro option hoption
      obtain ⟨source, -, rfl⟩ := List.mem_map.mp hoption
      rw [Bool.and_eq_true]
      exact ⟨sized_slice hslice (by omega) _, sized_slice hslice (by omega) _⟩

/-- A request that is read and fits is published as its schema wants it, under the id that its
own id gives. -/
theorem received_valid (hslice : Slices b) {r : CodexRpcRequest} {pending : NativePendingRequest}
    (hreceived : received b p r = some pending) (hfits : requestFits r = true) :
    nativePendingRequestSchema pending = true := by
  cases r with
  | approval kind id threadId turnId itemId reason startedAtMs available =>
    simp only [received, projectNativeRequest] at hreceived
    split at hreceived
    · cases hreceived
    · obtain rfl := Option.some.inj hreceived
      simp only [requestFits, Bool.and_eq_true] at hfits
      obtain ⟨⟨hturn, hitem⟩, hstarted⟩ := hfits
      have hdecisions := decisions_length available
      simp only [nativePendingRequestSchema, askedSchema, hturn, hitem, hstarted, hdecisions,
        sized_publicRequestId hslice id, decide_true, Bool.and_true, Bool.true_and]
      exact sized_clip hslice (Nat.le_refl _) reason
  | userInput id threadId turnId itemId questions =>
    simp only [received, projectNativeRequest] at hreceived
    split at hreceived
    · rename_i hcount
      split at hreceived
      · cases hreceived
      · obtain rfl := Option.some.inj hreceived
        simp only [requestFits, Bool.and_eq_true, List.all_eq_true] at hfits
        obtain ⟨⟨hturn, hitem⟩, hquestions⟩ := hfits
        simp only [nativePendingRequestSchema, askedSchema, hturn, hitem,
          sized_publicRequestId hslice id, Bool.and_true, Bool.true_and, Bool.and_eq_true,
          decide_eq_true_eq, List.length_map, List.all_eq_true]
        refine ⟨by omega, ?_⟩
        intro shown hshown
        obtain ⟨question, hquestion, rfl⟩ := List.mem_map.mp hshown
        exact clippedQuestion hslice (hquestions question hquestion)
    · cases hreceived
  | other id => cases hreceived

theorem received_named (hreceived : received b p r = some pending) :
    projectNativeRequest b r p.threadId = some pending ∧
      pending.requestId = publicRequestId b pending.rpcId := by
  cases r with
  | approval kind id threadId turnId itemId reason startedAtMs available =>
    simp only [received] at hreceived
    refine ⟨hreceived, ?_⟩
    simp only [projectNativeRequest] at hreceived
    split at hreceived
    · cases hreceived
    · obtain rfl := Option.some.inj hreceived
      rfl
  | userInput id threadId turnId itemId questions =>
    simp only [received] at hreceived
    split at hreceived
    · refine ⟨hreceived, ?_⟩
      simp only [projectNativeRequest] at hreceived
      split at hreceived
      · cases hreceived
      · obtain rfl := Option.some.inj hreceived
        rfl
    · cases hreceived
  | other id => cases hreceived

theorem accepted_eq_some :
    accepted b p r = some pending ↔ projectNativeRequest b r p.threadId = some pending ∧
      (∀ known ∈ p.pendingRequests, known.requestId ≠ pending.requestId) ∧
      ∀ known ∈ p.submittedRequests, known.requestId ≠ pending.requestId := by
  unfold accepted
  simp only [Option.filter_eq_some_iff, Bool.and_eq_true, Bool.not_eq_true', List.any_eq_false,
    decide_eq_true_eq, ne_eq]

theorem request_pending (h : accepted b p r = some pending) :
    (request b p r).pendingRequests = keepLast maxPending (p.pendingRequests ++ [pending]) := by
  simp only [request, h, appendNative]

theorem orderly_request (hslice : Slices b) {r : CodexRpcRequest} {pending : NativePendingRequest}
    (h : Orderly b p) (haccepted : accepted b p r = some pending)
    (hreceived : received b p r = some pending) (hfits : requestFits r = true) :
    Orderly b (request b p r) := by
  have hvalid := received_valid hslice hreceived hfits
  obtain ⟨-, hnamed⟩ := received_named hreceived
  obtain ⟨-, hnew, -⟩ := accepted_eq_some.mp haccepted
  have hless : (keepLast maxPending (p.pendingRequests ++ [pending])).Sublist
      (p.pendingRequests ++ [pending]) := List.drop_sublist _ _
  have hdistinct : ((p.pendingRequests ++ [pending]).map NativePendingRequest.requestId).Nodup := by
    rw [List.map_append, List.map_singleton]
    refine nodup_grow h.distinct ?_
    intro hmember
    obtain ⟨known, hknown, hsame⟩ := List.mem_map.mp hmember
    exact hnew known hknown hsame
  have hall : ∀ known ∈ p.pendingRequests ++ [pending],
      known.requestId = publicRequestId b known.rpcId ∧
        nativePendingRequestSchema known = true := by
    intro known hknown
    rcases List.mem_append.mp hknown with hold | hlast
    · exact ⟨h.named known hold, h.schema.pending known hold⟩
    · obtain rfl := List.mem_singleton.mp hlast
      exact ⟨hnamed, hvalid⟩
  have hopened := h.reopen pending.asked.waiting (length_keepLast maxPending _)
    ((hless.map _).nodup hdistinct) (fun known hknown => (hall known (hless.mem hknown)).1)
    (fun known hknown => (hall known (hless.mem hknown)).2) h.submitted
  have hshape : nativePendingRequestSchema pending = true := hvalid
  unfold nativePendingRequestSchema at hshape
  simp only [Bool.and_eq_true] at hshape
  obtain ⟨⟨⟨hid, hturn⟩, hitem⟩, hasked⟩ := hshape
  have htool := sized_tool pending.asked
  have htext : pending.asked.reason.all (sized 0 8192) = true := by
    cases hask : pending.asked with
    | approval kind reason _ _ =>
      rw [hask] at hasked
      simp only [askedSchema, Bool.and_eq_true] at hasked
      cases reason with
      | none => rfl
      | some reason =>
        have hreason := sized_iff.mp hasked.1.1
        exact sized_iff.mpr (by omega)
    | input _ => rfl
  simp only [request, haccepted]
  refine orderly_appendNative hopened rfl ?_
  simp only [nativeItemSchema, Option.all_some, Option.all_none, hid, hturn, hitem, htool, htext,
    Bool.and_true, decide_eq_true_eq]
  omega

theorem isDate_of_isDatetime {ms : Int} (h : isDatetime ms = true) : isDate ms = true := by
  simp only [isDatetime, isDate, decide_eq_true_eq] at h ⊢
  omega

/-- A request whose start is an instant does not throw. -/
theorem receive_eq_request (hreceived : received b p r = some pending)
    (hfits : requestFits r = true) :
    receive b p r = request b p r := by
  unfold receive
  rw [hreceived]
  dsimp only
  split
  · rename_i kind reason decisions ms hasked
    have hms : isDatetime ms = true := by
      cases r with
      | approval kind id threadId turnId itemId reason startedAtMs available =>
        simp only [received, projectNativeRequest] at hreceived
        split at hreceived
        · cases hreceived
        · obtain rfl := Option.some.inj hreceived
          obtain ⟨-, -, -, rfl⟩ := Asked.approval.inj hasked
          simp only [requestFits, Option.all_some, Bool.and_eq_true] at hfits
          exact hfits.2
      | userInput id threadId turnId itemId questions =>
        simp only [received, projectNativeRequest] at hreceived
        split at hreceived
        · split at hreceived
          · cases hreceived
          · obtain rfl := Option.some.inj hreceived
            cases hasked
        · cases hreceived
      | other id => cases hreceived
    rw [if_pos (isDate_of_isDatetime hms)]
  · rfl

theorem receive_known (h : accepted b p r = none) :
    receive b p r = p := by
  have hrequest : request b p r = p := by
    unfold request
    rw [h]
  unfold receive
  split
  · rfl
  · split
    · split
      · exact hrequest
      · rfl
    · exact hrequest

theorem resolve_keeps {r : NativePendingRequest} (hr : r ∈ p.pendingRequests)
    (hother : r.requestId ≠ requestId) :
    r ∈ (resolveRequest b p requestId).pendingRequests := by
  unfold resolveRequest
  split
  · exact hr
  · rename_i pending hfound
    have hid : pending.requestId = requestId := by
      rcases Option.or_eq_some_iff.mp hfound with hshown | ⟨-, hsubmitted⟩
      · exact (mem_of_findRequest hshown).2
      · exact (mem_of_findRequest hsubmitted).2
    simp only [settleRequest, appendNative]
    exact List.mem_filter.mpr ⟨hr, by simpa [hid] using hother⟩

theorem event_pending (h : ∀ threadId id, e ≠ .resolved threadId id) :
    (event b p e).pendingRequests = p.pendingRequests := by
  unfold event
  split
  · rfl
  · split
    · split
      · rfl
      · exact (applyStatus_untouched _ _).2.1
    · split
      · rfl
      · dsimp only
        split <;> rfl
    · exact absurd rfl (h _ _)
    · split <;> rfl
    · split <;> rfl
    · rfl

theorem observe_eq_or (e : CodexRpcEvent) : observe b p e = event b p e ∨ observe b p e = p := by
  unfold observe
  split
  · split
    · exact .inl rfl
    · exact .inr rfl
  · split
    · split
      · exact .inl rfl
      · exact .inr rfl
    · exact .inl rfl

theorem Grows.refl : Grows p p := ⟨Nat.le_refl _, Nat.le_refl _⟩

theorem Grows.trans {r : Projection} (h : Grows p q) (h' : Grows q r) : Grows p r :=
  ⟨Nat.le_trans h.1 h'.1, Nat.le_trans h.2 h'.2⟩

theorem grows_native (h : item.sequence = p.nativeSequence + 1) :
    Grows p (appendNative b p item) := by
  refine ⟨Nat.le_refl _, ?_⟩
  have hcounter : (appendNative b p item).nativeSequence = item.sequence := rfl
  omega

theorem projectNativeEvent_sequence {n : Nat} (h : projectNativeEvent b e threadId n = some item) :
    item.sequence = n := by
  unfold projectNativeEvent at h
  split at h
  · split at h
    · cases h
    · obtain rfl := Option.some.inj h
      rfl
  · split at h
    · cases h
    · obtain rfl := Option.some.inj h
      rfl
  · split at h
    · cases h
    · obtain rfl := Option.some.inj h
      rfl
  · cases h

theorem grows_applyStatus : Grows p (applyStatus p status) := by
  unfold applyStatus
  dsimp only
  split
  · exact ⟨Nat.le_succ _, Nat.le_refl _⟩
  · exact Grows.refl

theorem grows_event : Grows p (event b p e) := by
  unfold event
  split
  · exact Grows.refl
  · split
    · split
      · exact Grows.refl
      · rename_i threadId status _
        have hrevised : Grows p { p with revision := p.revision + 1 } := Grows.refl
        exact hrevised.trans grows_applyStatus
    · split
      · exact Grows.refl
      · rename_i started threadId id status _ _
        have happlied : Grows p (applyTurn p started id status) :=
          ⟨Nat.le_succ _, Nat.le_refl _⟩
        dsimp only
        split
        · exact happlied
        · rename_i native hnative
          exact happlied.trans (grows_native (projectNativeEvent_sequence hnative))
    · split
      · exact Grows.refl
      · unfold resolveRequest
        split
        · exact Grows.refl
        · exact ⟨Nat.le_refl _, Nat.le_succ _⟩
    · split
      · exact Grows.refl
      · rename_i native hnative
        exact grows_native (projectNativeEvent_sequence hnative)
    · split
      · exact Grows.refl
      · rename_i native hnative
        exact grows_native (projectNativeEvent_sequence hnative)
    · exact Grows.refl

theorem grows_request : Grows p (request b p r) := by
  unfold request
  split
  · exact Grows.refl
  · exact ⟨Nat.le_refl _, Nat.le_succ _⟩

theorem grows_receive : Grows p (receive b p r) := by
  unfold receive
  split
  · exact Grows.refl
  · split
    · split
      · exact grows_request
      · exact Grows.refl
    · exact grows_request

theorem grows_call {c : Call} : Grows p (call b p c) := by
  cases c with
  | event e =>
    rcases observe_eq_or (b := b) (p := p) e with h | h
    · simpa only [call, h] using grows_event
    · simpa only [call, h] using Grows.refl
  | request r => exact grows_receive
  | submit requestId =>
    simp only [call, submitRequest]
    split
    · exact Grows.refl
    · exact ⟨Nat.le_refl _, Nat.le_succ _⟩
  | reconcile status revision =>
    simp only [call, reconcile]
    split
    · exact Grows.refl
    · exact grows_applyStatus
  | restoreTurn turn =>
    simp only [call]
    split <;> exact Grows.refl
  | selection selection =>
    simp only [call]
    split <;> exact Grows.refl
  | unavailable reason => exact ⟨Nat.le_succ _, Nat.le_refl _⟩

theorem waited_before {r : NativePendingRequest} (h : r ∈ stillUnsettled b d (.event e)) :
    r ∈ d.unsettled := by
  unfold stillUnsettled at h
  split at h
  · rename_i hrequest
    cases hrequest
  · rename_i hsubmit
    cases hsubmit
  · split at h
    · exact (List.mem_filter.mp h).1
    · exact h
  · split at h
    · exact (List.mem_filter.mp h).1
    · exact h
  · exact h

theorem listed_event (hslice : Slices b) {d : Desk} {e : CodexRpcEvent} (h : Listed b d)
    (hfits : fits b d (.event e) = true) :
    Listed b { shown := observe b d.shown e, unsettled := stillUnsettled b d (.event e) } := by
  refine ⟨orderly_observe hslice h.orderly hfits, ?_⟩
  intro r hr
  dsimp only at hr ⊢
  have hshown := h.open_ r (waited_before hr)
  rcases observe_eq_or (b := b) (p := d.shown) e with hobserve | hobserve
  · rw [hobserve]
    by_cases hresolved : ∃ threadId id, e = .resolved threadId id
    · obtain ⟨threadId, id, rfl⟩ := hresolved
      simp only [event, codexSelectionEvent, resolvedRequestId]
      by_cases hthread : threadId = d.shown.threadId
      · rw [if_pos hthread]
        refine resolve_keeps hshown ?_
        -- Under the id that is resolved there is no other request.
        intro hsame
        simp only [stillUnsettled, if_pos hthread] at hr
        obtain ⟨hwaiting, hother⟩ := List.mem_filter.mp hr
        simp only [fits, hthread, ne_eq, not_true_eq_false, decide_false, Bool.false_or,
          List.all_eq_true, Bool.or_eq_true, decide_eq_true_eq] at hfits
        rcases hfits r hwaiting with hdiffers | hown
        · exact hdiffers hsame
        · simp [hown] at hother
      · rw [if_neg hthread]
        exact hshown
    · rw [event_pending fun threadId id he => hresolved ⟨threadId, id, he⟩]
      exact hshown
  · rw [hobserve]
    exact hshown

theorem listed_request (hslice : Slices b) {d : Desk} {r : CodexRpcRequest} (h : Listed b d)
    (hfits : fits b d (.request r) = true) :
    Listed b { shown := receive b d.shown r, unsettled := stillUnsettled b d (.request r) } := by
  cases hreceived : received b d.shown r with
  | none =>
    have hshown : receive b d.shown r = d.shown := by simp only [receive, hreceived]
    simp only [stillUnsettled, hreceived, hshown]
    exact ⟨h.orderly, h.open_⟩
  | some pending =>
    obtain ⟨hproject, hnamed⟩ := received_named hreceived
    by_cases hknown : (d.unsettled.any fun known => known.rpcId = pending.rpcId) = true
    · -- The provider asks again what it has asked already.
      have htaken : accepted b d.shown r = none := by
        rw [Option.eq_none_iff_forall_ne_some]
        intro other hother
        obtain ⟨hprojected, hnew, -⟩ := accepted_eq_some.mp hother
        obtain rfl := Option.some.inj (hproject.symm.trans hprojected)
        obtain ⟨known, hmember, hsame⟩ := List.any_eq_true.mp hknown
        have hopen := h.open_ known hmember
        refine hnew known hopen ?_
        rw [h.orderly.named known hopen, hnamed, of_decide_eq_true hsame]
      simp only [stillUnsettled, hreceived, hknown, if_true, receive_known htaken]
      exact ⟨h.orderly, h.open_⟩
    · simp only [fits, hreceived, hknown, Bool.false_or, Bool.and_eq_true, hasRoom] at hfits
      obtain ⟨⟨hrequest, haccepted⟩, hroom⟩ := hfits
      obtain ⟨other, hother⟩ := Option.isSome_iff_exists.mp haccepted
      obtain rfl := Option.some.inj (hproject.symm.trans (accepted_eq_some.mp hother).1)
      simp only [stillUnsettled, hreceived, hknown, receive_eq_request hreceived hrequest]
      refine ⟨orderly_request hslice h.orderly hother hreceived hrequest, ?_⟩
      intro waiting hwaiting
      dsimp only at hwaiting ⊢
      rw [request_pending hother]
      rcases List.mem_append.mp hwaiting with hold | hnew
      · refine mem_keepLast_push (h.open_ waiting hold) h.orderly.room ?_
        rw [Bool.or_eq_true, decide_eq_true_eq] at hroom
        refine hroom.imp_right ?_
        intro holdest hhead
        simp [hhead, hold] at holdest
      · obtain rfl := List.mem_singleton.mp hnew
        refine List.mem_of_getLast? (getLast?_keepLast ?_)
        decide

theorem listed_submit (h : Listed b d) :
    Listed b { shown := submitRequest b d.shown requestId,
               unsettled := stillUnsettled b d (.submit requestId) } := by
  refine ⟨orderly_submit h.orderly, ?_⟩
  intro r hr
  cases hfound : findRequest d.shown.pendingRequests requestId with
  | none =>
    simp only [stillUnsettled, hfound] at hr
    simp only [submitRequest, hfound]
    exact h.open_ r hr
  | some answered =>
    simp only [stillUnsettled, hfound] at hr
    obtain ⟨hwaiting, hother⟩ := List.mem_filter.mp hr
    have hshown := h.open_ r hwaiting
    simp only [submitRequest, hfound, settleRequest, appendNative]
    refine List.mem_filter.mpr ⟨hshown, ?_⟩
    rw [decide_eq_true_eq]
    intro hsame
    have hequal : r = answered :=
      List.inj_on_of_nodup_map h.orderly.distinct hshown (mem_of_findRequest hfound).1 hsame
    simp [hequal] at hother

/-- One call keeps every waiting request on the list. -/
theorem listed_take (hslice : Slices b) {d d' : Desk} {c : Call} (h : Listed b d)
    (hfits : fits b d c = true) (htake : take b d c = some d') : Listed b d' := by
  obtain rfl := Option.some.inj htake
  cases c with
  | event e => exact listed_event hslice h hfits
  | request r => exact listed_request hslice h hfits
  | submit requestId => exact listed_submit h
  | reconcile status revision =>
    simp only [call, reconcile, stillUnsettled]
    split
    · exact h
    · refine ⟨orderly_applyStatus h.orderly, ?_⟩
      dsimp only
      rw [(applyStatus_untouched _ _).2.1]
      exact h.open_
  | restoreTurn turn =>
    simp only [call, stillUnsettled]
    split
    · rename_i hturn
      exact ⟨orderly_restoreTurn h.orderly hturn, h.open_⟩
    · exact h
  | selection selection =>
    simp only [call, stillUnsettled]
    split
    · rename_i hselection
      exact ⟨h.orderly.select hselection, h.open_⟩
    · exact h
  | unavailable reason => exact ⟨orderly_unavailable h.orderly hfits, h.open_⟩

theorem Listed.sound (h : Listed b d) : Sound d := by
  refine ⟨?_, h.orderly.schema, h.orderly.events, h.orderly.items⟩
  intro r hr
  have hshown := h.open_ r hr
  refine ⟨hshown, ?_⟩
  cases hfind : findRequest d.shown.pendingRequests r.requestId with
  | none =>
    have hnone := List.find?_eq_none.mp hfind r hshown
    simp at hnone
  | some found =>
    obtain ⟨hmember, hsame⟩ := mem_of_findRequest hfind
    rw [List.inj_on_of_nodup_map h.orderly.distinct hmember hshown hsame]

theorem sized_starting : (some "starting").all (sized 0 256) = true := by decide

theorem listed_start (threadId : String) :
    Listed b { shown := startProjection threadId none } := by
  have hschema : SnapshotSchema (startProjection threadId none) :=
    { reason := sized_starting
      turn := rfl
      eventCount := Nat.zero_le _
      events := by simp [startProjection]
      itemCount := Nat.zero_le _
      items := by simp [startProjection]
      pendingCount := Nat.zero_le _
      pending := by simp [startProjection]
      selection := rfl }
  refine ⟨⟨hschema, isRun_nil, isRun_nil, Nat.zero_le _, List.nodup_nil, ?_, ?_⟩, ?_⟩
  · simp [startProjection]
  · simp [startProjection]
  · simp

end

def units (c : Char) : Nat := if c.val < 0x10000 then 1 else 2

/-- `slice(0, n)`; half of a pair that is cut shows as U+FFFD. -/
def sliceChars : Nat → List Char → List Char
  | _, [] => []
  | n, c :: rest =>
    if units c ≤ n then c :: sliceChars (n - units c) rest
    else if n = 0 then [] else ['\uFFFD']

def sliceBuiltins : Builtins :=
  { slice := fun text n => String.ofList (sliceChars n text.toList), itemsBytes := fun _ => 0 }

theorem sliceChars_length (n : Nat) (text : List Char) :
    ((sliceChars n text).map units).sum = min n (text.map units).sum := by
  induction text generalizing n with
  | nil => simp [sliceChars]
  | cons c rest ih =>
    have hunits : 1 ≤ units c ∧ units c ≤ 2 := by
      unfold units
      split <;> omega
    have hmark : ([('\uFFFD' : Char)].map units).sum = 1 := by decide
    simp only [sliceChars]
    split
    · simp only [List.map_cons, List.sum_cons, ih]
      omega
    · split
      · simp only [List.map_nil, List.sum_nil]
        omega
      · rw [hmark, List.map_cons, List.sum_cons]
        omega

theorem slices_sliceBuiltins : Slices sliceBuiltins := by
  intro text n
  simp only [sliceBuiltins, utf16Length, String.toList_ofList]
  exact sliceChars_length n text.toList

def approval (n : Int) : Call :=
  .request (.approval .command (.number n) "thread" "turn" "item" none (some 1700000000000) [])

/-- Two approvals are asked for; one of them is answered and then resolved. -/
def answeredInTurn : List Call :=
  [.event (.turn true "thread" "turn" .inProgress), approval 1, approval 2, .submit "n:1",
    .event (.resolved "thread" (.number 1)), .event (.turn false "thread" "turn" .completed)]

end Ccmux.Agent.Codex.Owned
