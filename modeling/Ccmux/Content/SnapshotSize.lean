/- Module: Ccmux/Content/SnapshotSize
   source: src/content/buffer.ts, src/content/store.ts (flush), src/content/schema.ts,
     src/chat/identitySchema.ts (ManagedPeerSchema)
   digest: How large the counters of a run grow, the size of the snapshot that is written, and the
     runs after which it fits its schema. -/

import Ccmux.Chat.Framing
import Ccmux.Content.Limits

namespace Ccmux.Content.SnapshotSize

open Ccmux.Lib.Machine
open Ccmux.Lib.Utf16
open Ccmux.Lib.JsonTree (units jsonSize jsonSize_arr jsonSize_obj jsonSize_ofNat_le fieldSize
  isPoint_of_mem)
open Ccmux.Content.Text
open Ccmux.Content.Buffer
open Ccmux.Content.BufferRun
open Ccmux.Content.Limits

/-- `Number.MAX_SAFE_INTEGER`: up to here the counters are exact. -/
def maxSafeInteger : Nat := 2 ^ 53 - 1

/-- How far one operation can move a counter. -/
def eventWork : Event → Nat
  | .text _ _ _ input _ _ => input.length + 3
  | .noteOmitted records => records
  | _ => 2

def workOf (events : List Event) : Nat := (events.map eventWork).sum

/-- `ManagedPeerSchema`, and the rest of what the constructor puts into the snapshot. -/
def headerFits (h : Header) : Bool :=
  Chat.Framing.isMachine h.machine.toList &&
    ["claude", "codex", "opencode", "custom"].contains h.agent &&
    Chat.Framing.isSessionName h.session.toList && Chat.Framing.isUuid h.threadId.toList &&
    h.registrationGeneration.all (fun uuid => Chat.Framing.isUuid uuid.toList) &&
    isBounded 256 h.nativeId && Chat.Framing.isUuid h.generation.toList

/-! ### The counters -/

structure Counts (work : Nat) (s : ContentBuffer) : Prop where
  sequence : s.value.sequence ≤ work
  omitted : s.value.omittedRecords + s.value.records.length + s.states.length ≤ work
  pending : ∀ entry ∈ s.pendingSurrogates, entry.2.length ≤ 1

section
variable {z : Sizes} {s t : ContentBuffer} {work more : Nat}

theorem shedRecords_count (records : List ContentRecord) (bytes dt omitted : Nat) :
    (shedRecords z records bytes dt omitted).omittedRecords +
      (shedRecords z records bytes dt omitted).records.length = omitted + records.length := by
  induction records generalizing bytes dt omitted with
  | nil => rfl
  | cons removed rest ih =>
    rw [shedRecords]
    split
    · rw [ih, List.length_cons]
      omega
    · rfl

theorem push_count (s : ContentBuffer) (input : ContentRecord) :
    (push z s input).1.value.omittedRecords + (push z s input).1.value.records.length =
      s.value.omittedRecords + s.value.records.length + 1 := by
  have hcount := shedRecords_count (z := z) (s.value.records ++ [(push z s input).2])
    (s.replayBytes + (z.record (push z s input).2 + 1)) s.value.droppedThrough
    s.value.omittedRecords
  rw [List.length_append, List.length_singleton, ← Nat.add_assoc] at hcount
  exact hcount

/-- A text adds as many records as it has chunks. -/
theorem pushChunks_count (draft : ContentRecord) (complete : Bool) (chunks : List Units)
    (operation : TextOperation) (offset : Nat) (s : ContentBuffer) :
    (pushChunks z draft complete chunks operation offset s).1.value.sequence =
        s.value.sequence + chunks.length ∧
      (pushChunks z draft complete chunks operation offset s).1.value.omittedRecords +
          (pushChunks z draft complete chunks operation offset s).1.value.records.length =
        s.value.omittedRecords + s.value.records.length + chunks.length ∧
      (pushChunks z draft complete chunks operation offset s).1.pendingSurrogates =
        s.pendingSurrogates := by
  induction chunks generalizing operation offset s with
  | nil => exact ⟨rfl, rfl, rfl⟩
  | cons chunk rest ih =>
    rw [pushChunks]
    obtain ⟨hsequence, hcount, hpending⟩ := ih .append (offset + byteLength chunk) (push z s
      { draft with
        operation := operation.record
        offsetBytes := offset
        text := some chunk
        totalBytes := offset + byteLength chunk
        complete := complete && rest.isEmpty }).1
    refine ⟨hsequence.trans ?_, hcount.trans ?_, hpending⟩
    · rw [List.length_cons]
      show s.value.sequence + 1 + rest.length = s.value.sequence + (rest.length + 1)
      omega
    · rw [push_count, List.length_cons]
      omega

theorem put_length (rows : List ContentRecord) (row : ContentRecord) :
    (put rows row).length ≤ rows.length + 1 := by
  rw [put, List.length_append, List.length_singleton]
  exact Nat.succ_le_succ (List.length_filter_le _ rows)

theorem dropStates_counts (turns : Nat) (s : ContentBuffer) (h : Counts work s) :
    Counts work (dropStates z turns s) := by
  induction turns generalizing s with
  | zero => exact h
  | succ turns ih =>
    rw [dropStates]
    split
    · cases hcandidate : (s.states.find? fun item => !protectedItem item).or s.states.head? with
      | none => exact h
      | some candidate =>
        have hmem : candidate ∈ s.states := by
          rcases Option.or_eq_some_iff.mp hcandidate with hfound | ⟨-, hhead⟩
          · exact List.mem_of_find?_eq_some hfound
          · exact List.mem_of_head? hhead
        have hless : (s.states.filter fun item => item.key != candidate.key).length <
            s.states.length :=
          List.length_filter_lt_length_iff_exists.mpr ⟨candidate, hmem, by simp⟩
        have homitted := h.omitted
        refine ih _ ⟨h.sequence, ?_, ?_⟩
        · dsimp only
          omega
        · intro entry hentry
          exact h.pending entry (List.mem_of_mem_filter hentry)
    · exact h

theorem Counts.mono (h : Counts work s) (hmore : work ≤ more) : Counts more s :=
  ⟨h.sequence.trans hmore, h.omitted.trans hmore, h.pending⟩

theorem chunkPoints_length (maxBytes : Nat) (ps : List Units) (hps : ∀ point ∈ ps, point ≠ [])
    (chunk : Units) (size : Nat) :
    (chunkPoints maxBytes ps chunk size).length ≤ chunk.length + ps.flatten.length := by
  induction ps generalizing chunk size with
  | nil =>
    rw [chunkPoints]
    split
    · exact Nat.zero_le _
    · next hchunk =>
      have hlength := List.length_pos_iff.mpr hchunk
      rw [List.length_singleton]
      omega
  | cons point rest ih =>
    have hrest := ih fun other hother => hps other (List.mem_cons_of_mem _ hother)
    rw [chunkPoints, List.flatten_cons, List.length_append]
    split
    · next hfull =>
      have hlength := List.length_pos_iff.mpr hfull.2
      have htail := hrest point (pointBytes point)
      rw [List.length_cons]
      omega
    · have htail := hrest (chunk ++ point) (size + pointBytes point)
      rw [List.length_append] at htail
      omega

theorem chunks_length (text : Units) :
    (if textChunks text contentEventBytes = [] then [[]]
      else textChunks text contentEventBytes).length ≤ text.length + 1 := by
  split
  · exact Nat.succ_le_succ (Nat.zero_le _)
  · have hpoints : ∀ point ∈ points text, point ≠ [] := by
      intro point hpoint
      rcases isPoint_of_mem hpoint with ⟨c, rfl⟩ | ⟨a, b, rfl, -, -⟩
      · exact List.cons_ne_nil _ _
      · exact List.cons_ne_nil _ _
    have hlength := chunkPoints_length contentEventBytes (points text) hpoints [] 0
    rw [flatten_points, List.length_nil, Nat.zero_add] at hlength
    exact Nat.le_succ_of_le hlength

theorem boundStates_counts (h : Counts work s) : Counts work (boundStates z s) := by
  have hdropped := dropStates_counts (z := z) s.states.length s h
  exact ⟨hdropped.sequence, hdropped.omitted, hdropped.pending⟩

theorem writeText_counts (h : Counts work s) (prior : Option ContentRecord) (kind : Kind)
    (turnId itemId : String) (text : Units) (operation : TextOperation) (complete : Bool) :
    Counts (work + (text.length + 2))
      (writeText z s prior kind turnId itemId text operation complete) := by
  have hchunks := chunks_length text
  unfold writeText
  dsimp only
  generalize (if textChunks text contentEventBytes = [] then [[]]
    else textChunks text contentEventBytes) = chunks at hchunks ⊢
  generalize ContentRecord.mk _ _ _ _ _ _ _ _ _ _ _ _ _ _ = draft
  generalize (if operation = .append then (prior.map ContentRecord.totalBytes).getD 0 else 0) = first
  obtain ⟨hsequence, hcount, hpending⟩ :=
    pushChunks_count (z := z) draft complete chunks operation first s
  obtain ⟨hstates, -, -⟩ := pushChunks_rest (z := z) draft complete chunks operation first s
  rcases hpush : pushChunks z draft complete chunks operation first s with ⟨t, offset⟩
  rw [hpush] at hsequence hcount hpending hstates
  dsimp only at hsequence hcount hpending hstates ⊢
  have hbefore := h.sequence
  have homitted := h.omitted
  have hwaiting : ∀ entry ∈ t.pendingSurrogates, entry.2.length ≤ 1 := by
    rw [hpending]
    exact h.pending
  cases t.value.records.getLast? with
  | none =>
    refine ⟨?_, ?_, hwaiting⟩
    · dsimp only
      omega
    · dsimp only
      rw [hstates]
      omega
  | some record =>
    refine boundStates_counts ?_
    rw [rememberPosition_eq]
    refine ⟨?_, ?_, hwaiting⟩
    · dsimp only
      omega
    · dsimp only
      refine (Nat.add_le_add_left (put_length t.states _) _).trans ?_
      rw [hstates]
      omega

theorem held_length (h : Counts work s) (key : Key) :
    (((s.pendingSurrogates.find? fun entry => entry.1 == key).map Prod.snd).getD []).length ≤ 1 := by
  cases hfind : s.pendingSurrogates.find? fun entry => entry.1 == key with
  | none => exact Nat.zero_le 1
  | some entry => exact h.pending entry (List.mem_of_find?_eq_some hfind)

theorem text_counts (h : Counts work s) (kind : Kind) (turnId itemId : String) (input : Units)
    (operation : TextOperation) (complete : Bool) :
    Counts (work + (input.length + 3)) (text z s kind turnId itemId input operation complete).1 := by
  have hkept : Counts work { s with
      pendingSurrogates := s.pendingSurrogates.filter fun entry =>
        entry.1 != (some turnId, itemId) } :=
    ⟨h.sequence, h.omitted, fun entry hentry => h.pending entry (List.mem_of_mem_filter hentry)⟩
  have hwhole : (if operation = .append then
      ((s.pendingSurrogates.find? fun entry => entry.1 == (some turnId, itemId)).map
        Prod.snd).getD [] ++ input else input).length ≤ input.length + 1 := by
    have hheld := held_length h (some turnId, itemId)
    split
    · rw [List.length_append]
      omega
    · exact Nat.le_succ _
  unfold text
  dsimp only
  split
  · exact h.mono (Nat.le_add_right _ _)
  · generalize (if operation = .append then
      ((s.pendingSurrogates.find? fun entry => entry.1 == (some turnId, itemId)).map
        Prod.snd).getD [] ++ input else input) = whole at hwhole ⊢
    split
    · exact hkept.mono (Nat.le_add_right _ _)
    · have hwritten : (if (!complete && endsHigh whole) = true then whole.dropLast
          else whole).length ≤ whole.length := by
        split
        · rw [List.length_dropLast]
          exact Nat.sub_le _ _
        · exact Nat.le_refl _
      generalize (if (!complete && endsHigh whole) = true then whole.dropLast
        else whole) = written at hwritten ⊢
      generalize hwaiting : (if (!complete && endsHigh whole) = true then
          ({ s with pendingSurrogates := _ } : ContentBuffer)
        else _) = waiting
      have hcounts : Counts work waiting := by
        subst hwaiting
        split
        · refine ⟨h.sequence, h.omitted, fun entry hentry => ?_⟩
          rcases List.mem_append.mp hentry with hold | hnew
          · exact hkept.pending entry hold
          · rw [List.mem_singleton.mp hnew, List.length_drop]
            omega
        · exact hkept
      have hquiet := hcounts.mono (Nat.le_add_right work (input.length + 3))
      split
      · exact hquiet
      · split
        · exact hquiet
        · exact (writeText_counts hcounts _ kind turnId itemId written operation complete).mono
            (by omega)

theorem counts_lifecycle (h : Counts work s) (input : ContentRecord)
    (positions : List ContentRecord) :
    Counts (work + 2) (boundStates z { (push z s input).1 with
      states := put (push z s input).1.states (push z s input).2, positions }) := by
  have hbefore := h.sequence
  have homitted := h.omitted
  have hcount := push_count (z := z) s input
  have hput := put_length s.states (push z s input).2
  refine boundStates_counts ⟨Nat.succ_le_of_lt (Nat.lt_succ_of_lt (Nat.lt_succ_of_le hbefore)), ?_,
    h.pending⟩
  show (push z s input).1.value.omittedRecords + (push z s input).1.value.records.length +
    (put s.states (push z s input).2).length ≤ work + 2
  omega

theorem lifecycle_counts (h : Counts work s) (kind : Kind) (turnId : Option String)
    (itemId : String) (status : Option String) (text : Option Units) :
    Counts (work + 2) (lifecycle z s kind turnId itemId status text) := by
  unfold lifecycle
  dsimp only
  split
  · exact h.mono (Nat.le_add_right _ _)
  · exact counts_lifecycle h _ s.positions

theorem tool_counts (h : Counts work s) (turnId itemId : String) (observation : ToolObservation) :
    Counts (work + 2) (tool z s turnId itemId observation).1 := by
  have hquiet := h.mono (Nat.le_add_right work 2)
  unfold tool
  dsimp only
  generalize ToolObservation.mk _ _ _ _ _ = merged
  split
  · exact hquiet
  · split
    · exact hquiet
    · split
      · exact hquiet
      · dsimp only
        rw [rememberPosition_eq]
        exact counts_lifecycle h _ _

theorem resetContext_counts (h : Counts work s) : Counts (work + 2) (resetContext s) := by
  have hbefore := h.sequence
  have homitted := h.omitted
  refine ⟨?_, ?_, fun _ hentry => (List.not_mem_nil hentry).elim⟩
  · show s.value.sequence + 1 ≤ work + 2
    omega
  · show s.value.omittedRecords + s.value.records.length + 0 + 0 ≤ work + 2
    omega

variable {rule : Rule} {w w' : World}

theorem step_counts (h : Counts work w.buffer) {e : Event}
    (hstep : step z rule w e = some w') : Counts (work + eventWork e) w'.buffer := by
  have hsequence := h.sequence
  have homitted := h.omitted
  cases e with
  | text kind turnId itemId input operation complete =>
    obtain rfl := Option.some.inj hstep
    exact text_counts h kind turnId itemId input operation complete
  | lifecycle kind turnId itemId status text =>
    obtain rfl := Option.some.inj hstep
    exact lifecycle_counts h kind turnId itemId status text
  | tool turnId itemId observation =>
    obtain rfl := Option.some.inj hstep
    exact tool_counts h turnId itemId observation
  | noteOmitted records =>
    obtain rfl := Option.some.inj hstep
    refine ⟨hsequence.trans (Nat.le_add_right _ _), ?_, h.pending⟩
    show w.buffer.value.omittedRecords + records + w.buffer.value.records.length +
      w.buffer.states.length ≤ work + records
    omega
  | unavailable =>
    obtain rfl := Option.some.inj hstep
    exact ⟨hsequence.trans (Nat.le_add_right _ _), homitted.trans (Nat.le_add_right _ _), h.pending⟩
  | resetContext =>
    obtain rfl := Option.some.inj hstep
    exact resetContext_counts h
  | poll =>
    obtain rfl := Option.some.inj hstep
    exact h.mono (Nat.le_add_right _ _)

theorem run_counts {events : List Event} (hrun : run (step z rule) w events = some w')
    (h : Counts work w.buffer) :
    Counts (work + workOf events) w'.buffer := by
  induction events generalizing w work with
  | nil =>
    obtain rfl := Option.some.inj hrun
    exact h
  | cons e rest ih =>
    obtain ⟨next, hstep, hrest⟩ := run_cons.mp hrun
    have hafter := ih hrest (step_counts h hstep)
    rwa [Nat.add_assoc] at hafter

end

/-! ### The size of what is written -/

section
variable {at_ : Nat → String}

theorem records_size {s : ContentBuffer} {strict : Prop} (h : Ring (sizes at_) strict s) :
    jsonSize (.arr (s.value.records.map (recordJson at_))) ≤ contentReplayBytes + 2 := by
  have hsmall := h.small
  have hsum : (s.value.records.map fun record => (sizes at_).record record + 1).sum =
      (s.value.records.map fun record => jsonSize (recordJson at_ record)).sum +
        s.value.records.length := by
    induction s.value.records with
    | nil => rfl
    | cons record rest ih =>
      rw [List.map_cons, List.sum_cons, ih, List.map_cons, List.sum_cons, List.length_cons]
      simp only [sizes]
      omega
  have haccount := h.account.symm.trans_le hsmall
  rw [hsum] at haccount
  rw [jsonSize_arr, List.map_map, List.length_map]
  show (s.value.records.map fun record => jsonSize (recordJson at_ record)).sum + _ + 2 ≤ _
  omega

theorem natural_size {n : Nat} (h : n ≤ maxSafeInteger) : jsonSize (natural n) ≤ 16 :=
  jsonSize_ofNat_le (by decide) (Nat.lt_of_le_of_lt h (by decide))

theorem availability_size (status : Availability) :
    jsonSize (string (Availability.text status)) ≤ 13 := by
  cases status <;> decide

/-- The header, the counters, the ring and the baseline. -/
theorem snapshotJson_size {h : Header} {value : ContentSnapshot}
    (hsequence : value.sequence ≤ maxSafeInteger) (hdropped : value.droppedThrough ≤ maxSafeInteger)
    (hboundary : value.contextBoundary ≤ maxSafeInteger)
    (homitted : value.omittedRecords ≤ maxSafeInteger) :
    jsonSize (snapshotJson at_ h value) ≤ jsonSize (.obj h.fields) + 177 +
      jsonSize (.arr (value.records.map (recordJson at_))) +
      jsonSize (.arr (value.baseline.map (recordJson at_))) := by
  have h1 := natural_size hsequence
  have h2 := natural_size hdropped
  have h3 := natural_size hboundary
  have h4 := natural_size homitted
  have h5 := availability_size value.status
  have hnames : byteLength (Lib.JsonTree.quote (units "sequence")) = 10 ∧
      byteLength (Lib.JsonTree.quote (units "droppedThrough")) = 16 ∧
      byteLength (Lib.JsonTree.quote (units "contextBoundary")) = 17 ∧
      byteLength (Lib.JsonTree.quote (units "omittedRecords")) = 16 ∧
      byteLength (Lib.JsonTree.quote (units "status")) = 8 ∧
      byteLength (Lib.JsonTree.quote (units "records")) = 9 ∧
      byteLength (Lib.JsonTree.quote (units "baseline")) = 10 := by decide
  obtain ⟨n1, n2, n3, n4, n5, n6, n7⟩ := hnames
  rw [snapshotJson, jsonSize_obj, jsonSize_obj, List.map_append, List.map_append, List.sum_append,
    List.sum_append, List.length_append, List.length_append]
  have hfields : h.fields.length = 5 := rfl
  simp only [countFields, List.map_cons, List.map_nil, List.sum_cons, List.sum_nil, List.length_cons,
    List.length_nil, fieldSize, n1, n2, n3, n4, n5, n6, n7, hfields]
  omega

end

/-! ### Whole runs -/

variable {strict : Prop}

theorem within_start {z : Sizes} (hempty : z.states [] ≤ contentBaselineBytes)
    (generation : String) : Within z strict (start generation).buffer where
  ring :=
    { numbered := rfl
      counted := rfl
      boundary := Nat.zero_le 0
      account := rfl
      few := Nat.zero_le contentMaxRecords
      small := Nat.zero_le contentReplayBytes
      rows := fun _ hrecord => (List.not_mem_nil hrecord).elim }
  items :=
    { states := fun _ hitem => (List.not_mem_nil hitem).elim
      positions := fun _ hrow => (List.not_mem_nil hrow).elim }
  published := rfl
  few := Nat.zero_le contentMaxItems
  small := hempty

theorem run_keeps {at_ : Nat → String} {rule : Rule} {generation : String} {events : List Event}
    {w : World} (hrun : run (step (sizes at_) rule) (start generation) events = some w)
    (hevents : strict → ∀ e ∈ events, eventFits e = true) : Within (sizes at_) strict w.buffer := by
  have hempty : (sizes at_).states [] ≤ contentBaselineBytes := by
    show jsonSize (.arr []) ≤ contentBaselineBytes
    decide
  have halong : Along (step (sizes at_) rule) (fun _ e => strict → eventFits e = true)
      (start generation) events :=
    along_of_forall (fun e he _ hstrict => hevents hstrict e he) _
  exact run_invariant_along (fun _ _ _ h he hstep => step_within hempty h he hstep) hrun halong
    (within_start hempty generation)

/-- `ContentSnapshotSchema` -/
def contentFits (h : Header) (value : ContentSnapshot) : Bool := headerFits h && snapshotFits value

/-- After every sequence of operations the byte account is the sum over the records that are kept,
their numbers are all those after `droppedThrough`, and the limits hold. What is written takes at
most 512 KiB, if the names of the session leave room for it and the counters stay exact; it fits the
schema if the session and the identifiers, the status and the tool of each operation did. -/
theorem run_within {at_ : Nat → String} {h : Header} {events : List Event} {w : World}
    (hrun : run (step (sizes at_) takeRecord) (start h.generation) events = some w) :
    (w.buffer.replayBytes =
        (w.buffer.value.records.map fun record => jsonSize (recordJson at_ record) + 1).sum ∧
      w.buffer.replayBytes ≤ contentReplayBytes ∧
      w.buffer.value.droppedThrough ≤ w.buffer.value.sequence ∧
      w.buffer.value.records.map ContentRecord.sequence =
        List.range' (w.buffer.value.droppedThrough + 1)
          (w.buffer.value.sequence - w.buffer.value.droppedThrough) ∧
      w.buffer.value.records.length ≤ contentMaxRecords ∧
      w.buffer.value.baseline.length ≤ contentMaxItems) ∧
    (workOf events ≤ maxSafeInteger → jsonSize (.obj h.fields) + 179 ≤ 128 * 1024 →
      jsonSize (snapshotJson at_ h w.buffer.value) ≤ contentFileMaxBytes) ∧
    (headerFits h = true → (∀ e ∈ events, eventFits e = true) →
      contentFits h w.buffer.value = true) := by
  have hwithin : Within (sizes at_) False w.buffer := run_keeps hrun nofun
  have hring := hwithin.ring
  have hcounted := hring.counted
  have hlength : w.buffer.value.records.length =
      w.buffer.value.sequence - w.buffer.value.droppedThrough := by omega
  have hbaseline : w.buffer.value.baseline.length ≤ contentMaxItems := by
    rw [hwithin.published]
    exact hwithin.few
  refine ⟨⟨hring.account, hring.small, by omega, hlength ▸ hring.numbered, hring.few, hbaseline⟩,
    ?_, ?_⟩
  · intro hwork hheader
    have hcounts : Counts (0 + workOf events) w.buffer := run_counts hrun
      ⟨Nat.zero_le 0, Nat.zero_le 0, fun _ hentry => (List.not_mem_nil hentry).elim⟩
    rw [Nat.zero_add] at hcounts
    have hsequence := hcounts.sequence.trans hwork
    have homitted := hcounts.omitted.trans hwork
    have hsize := @snapshotJson_size at_ h w.buffer.value hsequence (by omega)
      (hring.boundary.trans hsequence) (by omega)
    have hrecords := records_size hring
    have hstates : jsonSize (.arr (w.buffer.value.baseline.map (recordJson at_))) ≤
        contentBaselineBytes := by
      rw [hwithin.published]
      exact hwithin.small
    refine hsize.trans ?_
    simp only [contentReplayBytes, contentBaselineBytes, contentFileMaxBytes] at *
    omega
  · intro hheader hevents
    have hstrict : Within (sizes at_) True w.buffer := run_keeps hrun fun _ => hevents
    have hrecords : w.buffer.value.records.all recordFits = true :=
      List.all_eq_true.mpr fun record hrecord => (hstrict.ring.rows record hrecord).fits trivial
    have hitems : w.buffer.value.baseline.all recordFits = true := by
      rw [hstrict.published]
      exact List.all_eq_true.mpr fun item hitem => (hstrict.items.states item hitem).fits trivial
    rw [contentFits, hheader, snapshotFits, decide_eq_true hring.few, decide_eq_true hbaseline,
      hrecords, hitems]
    rfl

def noon : Nat → String := fun _ => "2026-01-01T12:00:00.000Z"

def someHeader : Header where
  machine := "studio"
  agent := "codex"
  session := "reviewer"
  threadId := "6f1d2a34-5b6c-4d7e-8f90-a1b2c3d4e5f6"
  registrationGeneration := none
  nativeId := "thread-1"
  generation := "0b1c2d3e-4f5a-4b6c-9d7e-8f9a0b1c2d3e"

def someWork : List Event :=
  [.text .assistant "turn-1" "item-1" [104, 105] .append false,
    .tool "turn-1" "call-1" ⟨some "call-1", some "shell", .completed, .succeeded, some 0⟩,
    .lifecycle .terminal (some "turn-1") "turn-1:terminal" (some "completed") none]

theorem run_within_someWork :
    ∃ w, run (step (sizes noon) takeRecord) (start someHeader.generation) someWork = some w ∧
      contentFits someHeader w.buffer.value = true ∧
      jsonSize (snapshotJson noon someHeader w.buffer.value) ≤ contentFileMaxBytes :=
  ⟨_, rfl, (@run_within noon someHeader someWork _ rfl).2.2 (by decide) (by decide),
    (@run_within noon someHeader someWork _ rfl).2.1 (by decide) (by decide +kernel)⟩

/-- A summary of an item whose name is within the schema's bound, and the name of its part is not. -/
def longId : String := String.ofList (List.replicate 250 'i') ++ ":summary:0"

theorem long_item_breaks_schema :
    ∃ w, run (step (sizes noon) takeRecord) (start someHeader.generation)
        [.text .reasoningSummary "turn-1" longId [104] .append false] = some w ∧
      contentFits someHeader w.buffer.value = false :=
  ⟨_, rfl, by decide +kernel⟩

end Ccmux.Content.SnapshotSize
