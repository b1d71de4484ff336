/- Module: Ccmux/Content/Limits
   source: src/content/buffer.ts, src/content/schema.ts, src/content/toolSchema.ts,
     src/content/store.ts (flush)
   digest: The account of the record ring, the numbers in it, and the size and schema of the snapshot
     that is written, over every run of operations. -/

import Mathlib
import Ccmux.Content.BufferRun
import Ccmux.Lib.CodePoints

namespace Ccmux.Content.Limits

open Ccmux.Lib.Machine
open Ccmux.Lib.Utf16
open Ccmux.Lib.JsonTree (Json Numeral units jsonSize)
open Ccmux.Content.Text
open Ccmux.Content.Buffer
open Ccmux.Content.BufferRun

def contentFileMaxBytes : Nat := 512 * 1024

/-! ### The JSON of a snapshot -/

def utf16 (text : String) : Units := text.toList.flatMap Lib.CodePoints.charUnits

def string (text : String) : Json := .str (utf16 text)

def natural (n : Nat) : Json := .num (Numeral.ofNat n)

def nullable {α : Type} (json : α → Json) : Option α → Json
  | none => .null
  | some value => json value

def Kind.text : Kind → String
  | .assistant => "assistant"
  | .reasoningSummary => "reasoning-summary"
  | .tool => "tool"
  | .usage => "usage"
  | .request => "request"
  | .terminal => "terminal"

def Operation.text : Operation → String
  | .append => "append"
  | .replace => "replace"
  | .lifecycle => "lifecycle"

def ToolOutcome.text : ToolOutcome → String
  | .unknown => "unknown"
  | .succeeded => "succeeded"
  | .failed => "failed"
  | .interrupted => "interrupted"
  | .declined => "declined"

def Availability.text : Availability → String
  | .live => "live"
  | .unavailable => "unavailable"

def toolJson (tool : ToolObservation) : Json :=
  .obj [(units "callId", nullable string tool.callId), (units "name", nullable string tool.name),
    (units "lifecycle", string tool.lifecycle.text),
    (units "outcome", string (ToolOutcome.text tool.outcome)),
    (units "exitCode", nullable (fun code => .num (Numeral.ofInt code)) tool.exitCode)]

section
variable (at_ : Nat → String)

/-- `at_` is the time at which the record with a number was made. -/
def recordJson (record : ContentRecord) : Json :=
  .obj [(units "sequence", natural record.sequence), (units "at", string (at_ record.sequence)),
    (units "kind", string (Kind.text record.kind)),
    (units "operation", string (Operation.text record.operation)),
    (units "turnId", nullable string record.turnId), (units "itemId", string record.itemId),
    (units "revision", natural record.revision),
    (units "offsetBytes", natural record.offsetBytes),
    (units "prefixKnown", .bool record.prefixKnown), (units "text", nullable .str record.text),
    (units "totalBytes", natural record.totalBytes),
    (units "omittedBytes", natural record.omittedBytes),
    (units "complete", .bool record.complete), (units "status", nullable string record.status),
    (units "tool", nullable toolJson record.tool)]

/-- `jsonSize` of a record, and of the states. -/
def sizes : Sizes where
  record := fun record => jsonSize (recordJson at_ record)
  states := fun items => jsonSize (.arr (items.map (recordJson at_)))

end

/-- What the constructor takes of the machine and the session. -/
structure Header where
  machine : String
  agent : String
  session : String
  threadId : String
  registrationGeneration : Option String
  nativeId : String
  generation : String

def Header.fields (h : Header) : List (Units × Json) :=
  [(units "protocol", natural 1),
    (units "target", .obj [(units "kind", string "managed"), (units "source", string "ccmux"),
      (units "machine", string h.machine), (units "agent", string h.agent),
      (units "session", string h.session), (units "threadId", string h.threadId)]),
    (units "registrationGeneration", nullable string h.registrationGeneration),
    (units "nativeId", string h.nativeId), (units "generation", string h.generation)]

def countFields (value : ContentSnapshot) : List (Units × Json) :=
  [(units "sequence", natural value.sequence),
    (units "droppedThrough", natural value.droppedThrough),
    (units "contextBoundary", natural value.contextBoundary),
    (units "omittedRecords", natural value.omittedRecords),
    (units "status", string (Availability.text value.status))]

/-- What `flush` writes. -/
def snapshotJson (at_ : Nat → String) (h : Header) (value : ContentSnapshot) : Json :=
  .obj (h.fields ++ (countFields value ++
    [(units "records", .arr (value.records.map (recordJson at_))),
      (units "baseline", .arr (value.baseline.map (recordJson at_)))]))

/-! ### The schema -/

/-- `z.string().min(1).max(max)` -/
def isBounded (max : Nat) (text : String) : Bool :=
  1 ≤ (utf16 text).length && (utf16 text).length ≤ max

/-- `ToolObservationSchema` -/
def toolFits (tool : ToolObservation) : Bool :=
  tool.callId.all (isBounded 256) && tool.name.all (isBounded 128) &&
    (tool.lifecycle == .completed || (tool.outcome == .unknown && tool.exitCode == none))

/-- `ContentRecordSchema`: what of it is no matter of types. -/
@[grind =]
def recordFits (record : ContentRecord) : Bool :=
  record.turnId.all (isBounded 256) && isBounded 256 record.itemId && 1 ≤ record.revision &&
    record.status.all (fun status => (utf16 status).length ≤ 128) && record.tool.all toolFits

/-- `ContentSnapshotSchema` -/
def snapshotFits (value : ContentSnapshot) : Bool :=
  value.records.length ≤ contentMaxRecords && value.records.all recordFits &&
    value.baseline.length ≤ contentMaxItems && value.baseline.all recordFits

/-- What a caller gives: identifiers, a status and a tool observation within the schema's bounds. -/
@[grind =]
def eventFits : Event → Bool
  | .text _ turnId itemId _ _ _ => isBounded 256 turnId && isBounded 256 itemId
  | .lifecycle _ turnId itemId status _ =>
    turnId.all (isBounded 256) && isBounded 256 itemId &&
      status.all fun status => (utf16 status).length ≤ 128
  | .tool turnId itemId observation =>
    isBounded 256 turnId && isBounded 256 itemId && toolFits observation
  | _ => true

/-! ### What the operations keep -/

section
variable {z : Sizes} {strict : Prop}

/-- A record that is published: its place and its text make up its bytes, and it fits the schema if
what was given did. -/
structure Row (strict : Prop) (record : ContentRecord) : Prop where
  places : record.offsetBytes + byteLength (record.text.getD []) = record.totalBytes
  fits : strict → recordFits record = true

/-- The ring: consecutive numbers, an exact account, and no more than the limits. -/
structure Ring (z : Sizes) (strict : Prop) (s : ContentBuffer) : Prop where
  numbered : s.value.records.map ContentRecord.sequence =
    List.range' (s.value.droppedThrough + 1) s.value.records.length
  counted : s.value.droppedThrough + s.value.records.length = s.value.sequence
  boundary : s.value.contextBoundary ≤ s.value.sequence
  account : s.replayBytes = (s.value.records.map fun record => z.record record + 1).sum
  few : s.value.records.length ≤ contentMaxRecords
  small : s.replayBytes ≤ contentReplayBytes
  rows : ∀ record ∈ s.value.records, Row strict record

structure Items (strict : Prop) (s : ContentBuffer) : Prop where
  states : ∀ item ∈ s.states, Row strict item
  positions : ∀ row ∈ s.positions, row.text = none ∧ (strict → recordFits row = true)

structure Within (z : Sizes) (strict : Prop) (s : ContentBuffer) : Prop where
  ring : Ring z strict s
  items : Items strict s
  published : s.value.baseline = s.states
  few : s.states.length ≤ contentMaxItems
  small : z.states s.states ≤ contentBaselineBytes

theorem shedRecords_account (records : List ContentRecord) {bytes : Nat} (dt omitted : Nat)
    (h : bytes = (records.map fun record => z.record record + 1).sum) :
    (shedRecords z records bytes dt omitted).replayBytes =
        ((shedRecords z records bytes dt omitted).records.map fun record => z.record record + 1).sum ∧
      (shedRecords z records bytes dt omitted).records.length ≤ contentMaxRecords ∧
      (shedRecords z records bytes dt omitted).replayBytes ≤ contentReplayBytes := by
  induction records generalizing bytes dt omitted with
  | nil =>
    subst h
    exact ⟨rfl, Nat.zero_le _, Nat.zero_le _⟩
  | cons removed rest ih =>
    rw [shedRecords]
    split
    · refine ih removed.sequence (omitted + 1) ?_
      rw [h, List.map_cons, List.sum_cons, Nat.add_sub_cancel_left]
    · next hlimits =>
      rw [not_or, Nat.not_lt, Nat.not_lt] at hlimits
      exact ⟨h, hlimits.1, hlimits.2⟩

variable {s t : ContentBuffer}

theorem push_ring (h : Ring z strict s) {input : ContentRecord}
    (hinput : Row strict input) : Ring z strict (push z s input).1 ∧
      Row strict (push z s input).2 := by
  have hrow : Row strict { input with sequence := s.value.sequence + 1 } :=
    ⟨hinput.places, hinput.fits⟩
  refine ⟨?_, hrow⟩
  have hnumbered : (s.value.records ++ [{ input with sequence := s.value.sequence + 1 }]).map
      ContentRecord.sequence = List.range' (s.value.droppedThrough + 1)
        (s.value.records ++ [{ input with sequence := s.value.sequence + 1 }]).length := by
    have hcounted := h.counted
    rw [List.map_append, h.numbered, List.length_append, List.length_singleton, List.range'_concat,
      List.map_singleton, Nat.one_mul]
    congr 2
    dsimp only
    omega
  have haccount : s.replayBytes + (z.record { input with sequence := s.value.sequence + 1 } + 1) =
      ((s.value.records ++ [{ input with sequence := s.value.sequence + 1 }]).map
        fun record => z.record record + 1).sum := by
    rw [List.map_append, List.sum_append, ← h.account]
    simp
  obtain ⟨k, hk, hrecords, hdropped⟩ := shedRecords_drop z _ _ _ s.value.omittedRecords hnumbered
  obtain ⟨hexact, hfew, hsmall⟩ := shedRecords_account _ s.value.droppedThrough
    s.value.omittedRecords haccount
  have hcounted := h.counted
  rw [List.length_append, List.length_singleton] at hk
  refine ⟨?_, ?_, Nat.le_succ_of_le h.boundary, hexact, hfew, hsmall, ?_⟩
  · show (shedRecords z _ _ _ _).records.map _ =
      List.range' ((shedRecords z _ _ _ _).droppedThrough + 1) (shedRecords z _ _ _ _).records.length
    rw [hrecords, hdropped, List.map_drop, hnumbered, List.drop_range', Nat.mul_one,
      List.length_drop]
    congr 1
    omega
  · show (shedRecords z _ _ _ _).droppedThrough + (shedRecords z _ _ _ _).records.length =
      s.value.sequence + 1
    rw [hrecords, hdropped, List.length_drop, List.length_append, List.length_singleton]
    omega
  · intro record hrecord
    have hmem : record ∈ s.value.records ++ [{ input with sequence := s.value.sequence + 1 }] := by
      have hdrop : record ∈ (s.value.records ++
          [{ input with sequence := s.value.sequence + 1 }]).drop k := hrecords ▸ hrecord
      exact List.mem_of_mem_drop hdrop
    rcases List.mem_append.mp hmem with hold | hnew
    · exact h.rows record hold
    · rw [List.mem_singleton.mp hnew]
      exact hrow

theorem pushChunks_ring (h : Ring z strict s) {draft : ContentRecord}
    (hdraft : strict → recordFits draft = true) (complete : Bool) (chunks : List Units)
    (operation : TextOperation) (offset : Nat) :
    Ring z strict (pushChunks z draft complete chunks operation offset s).1 ∧
      (pushChunks z draft complete chunks operation offset s).2 =
        offset + (chunks.map byteLength).sum := by
  induction chunks generalizing operation offset s with
  | nil => exact ⟨h, rfl⟩
  | cons chunk rest ih =>
    have hrow : Row strict { draft with
        operation := operation.record
        offsetBytes := offset
        text := some chunk
        totalBytes := offset + byteLength chunk
        complete := complete && rest.isEmpty } := ⟨rfl, hdraft⟩
    obtain ⟨hring, hoffset⟩ := ih (push_ring h hrow).1 .append (offset + byteLength chunk)
    rw [pushChunks]
    refine ⟨hring, hoffset.trans ?_⟩
    rw [List.map_cons, List.sum_cons, Nat.add_assoc]

/-- The kept tail of a text takes no more bytes than the text. -/
theorem textTail_bytes (text : Units) (maxBytes : Nat) :
    byteLength (textTail text maxBytes).text ≤ byteLength text := by
  rw [textTail]
  split
  · exact Nat.le_refl _
  · dsimp only
    have hbytes : ∀ point : Units, pointBytes (replaceLone point) = pointBytes point := by
      intro point
      unfold replaceLone
      split
      · next c =>
        split
        · next hlone =>
          simp only [isHigh, isLow, Bool.or_eq_true, decide_eq_true_eq] at hlone
          simp only [pointBytes]
          rw [if_neg (by omega), if_neg (by omega), if_neg (by omega), if_neg (by omega)]
        · rfl
      · rfl
    have hkept : ∀ ps : List Units, bytesOf (ps.map replaceLone) = bytesOf ps := by
      intro ps
      rw [bytesOf, List.map_map, bytesOf]
      exact congrArg List.sum (List.map_congr_left fun point _ => hbytes point)
    obtain ⟨gone, hsplit⟩ := dropPoints_suffix maxBytes (points text)
    have hsum := congrArg bytesOf hsplit
    rw [byteLength, List.flatMap_def, points_of_settled (dropPoints_settled maxBytes), hkept,
      byteLength]
    simp only [bytesOf, List.map_append, List.sum_append] at hsum ⊢
    omega

theorem byteLength_flatten_le (chunks : List Units) :
    byteLength chunks.flatten ≤ (chunks.map byteLength).sum := by
  induction chunks with
  | nil => exact Nat.le_refl _
  | cons chunk rest ih =>
    rw [List.flatten_cons, List.map_cons, List.sum_cons]
    exact (byteLength_append_le chunk rest.flatten).trans (Nat.add_le_add_left ih _)

/-- The loop of `boundStates` ends within the limits and leaves the ring alone. -/
theorem dropStates_limits (hempty : z.states [] ≤ contentBaselineBytes) (turns : Nat)
    (s : ContentBuffer) (hturns : s.states.length ≤ turns) :
    (dropStates z turns s).states.length ≤ contentMaxItems ∧
      z.states (dropStates z turns s).states ≤ contentBaselineBytes := by
  induction turns generalizing s with
  | zero =>
    have hnil : s.states = [] := List.length_eq_zero_iff.mp (Nat.le_zero.mp hturns)
    rw [dropStates, hnil]
    exact ⟨Nat.zero_le _, hempty⟩
  | succ turns ih =>
    rw [dropStates]
    split
    · next hlimits =>
      cases hcandidate : (s.states.find? fun item => !protectedItem item).or s.states.head? with
      | none =>
        have hnil : s.states = [] := by
          rw [Option.or_eq_none_iff, List.head?_eq_none_iff] at hcandidate
          exact hcandidate.2
        rw [hnil] at hlimits
        rcases hlimits with hmany | hlarge
        · exact absurd hmany (Nat.not_lt_zero _)
        · exact absurd hempty (Nat.not_le.mpr hlarge)
      | some candidate =>
        have hmem : candidate ∈ s.states := by
          rcases Option.or_eq_some_iff.mp hcandidate with hfound | ⟨-, hhead⟩
          · exact List.mem_of_find?_eq_some hfound
          · exact List.mem_of_head? hhead
        refine ih _ ?_
        have hfewer : (s.states.filter fun item => item.key != candidate.key).length <
            s.states.length := by
          refine List.length_filter_lt_length_iff_exists.mpr ⟨candidate, hmem, ?_⟩
          simp
        exact Nat.le_of_lt_succ (hfewer.trans_le hturns)
    · next hlimits =>
      rw [not_or, Nat.not_lt, Nat.not_lt] at hlimits
      exact hlimits

theorem dropStates_replayBytes (turns : Nat) (s : ContentBuffer) :
    (dropStates z turns s).replayBytes = s.replayBytes := by
  induction turns generalizing s with
  | zero => rfl
  | succ turns ih =>
    rw [dropStates]
    split
    · cases (s.states.find? fun item => !protectedItem item).or s.states.head? with
      | none => rfl
      | some candidate => exact ih _
    · rfl

theorem Ring.congr (h : Ring z strict s) (hring : SameRing s t)
    (hbytes : t.replayBytes = s.replayBytes) : Ring z strict t := by
  obtain ⟨hnumbered, hcounted, hboundary, haccount, hfew, hsmall, hrows⟩ := h
  rw [SameRing] at hring
  refine ⟨?_, ?_, ?_, ?_, ?_, ?_, ?_⟩
  · rw [hring]
    exact hnumbered
  · rw [hring]
    exact hcounted
  · rw [hring]
    exact hboundary
  · rw [hbytes, hring]
    exact haccount
  · rw [hring]
    exact hfew
  · rw [hbytes]
    exact hsmall
  · rw [hring]
    exact hrows

theorem boundStates_within (hempty : z.states [] ≤ contentBaselineBytes) {s : ContentBuffer}
    (hring : Ring z strict s) (hitems : Items strict s) : Within z strict (boundStates z s) := by
  obtain ⟨hkept, hpositions, hsame⟩ := dropStates_drops z s.states.length s
  obtain ⟨hfew, hsmall⟩ := dropStates_limits hempty s.states.length s (Nat.le_refl _)
  refine ⟨hring.congr ?_ (dropStates_replayBytes _ s), ⟨?_, ?_⟩, rfl, hfew, hsmall⟩
  · rw [SameRing, boundStates, hsame]
  · intro item hitem
    exact hitems.states item (hkept.subset hitem)
  · intro row hrow
    exact hitems.positions row (hpositions ▸ hrow)

theorem within_quiet (h : Within z strict s) (hring : SameRing s t)
    (hbytes : t.replayBytes = s.replayBytes) (hbaseline : t.value.baseline = s.value.baseline)
    (hstates : t.states = s.states) (hpositions : t.positions = s.positions) :
    Within z strict t := by
  refine ⟨h.ring.congr hring hbytes, ⟨?_, ?_⟩, ?_, ?_, ?_⟩
  · rw [hstates]
    exact h.items.states
  · rw [hpositions]
    exact h.items.positions
  · rw [hbaseline, hstates]
    exact h.published
  · rw [hstates]
    exact h.few
  · rw [hstates]
    exact h.small

theorem items_put (h : Items strict s) (hstates : t.states = s.states)
    (hpositions : t.positions = s.positions) {item : ContentRecord} (hitem : Row strict item) :
    Items strict { t with states := put t.states item } := by
  refine ⟨?_, ?_⟩
  · intro other hother
    rcases mem_put hother with rfl | ⟨hmem, -⟩
    · exact hitem
    · exact h.states other (hstates ▸ hmem)
  · intro row hrow
    exact h.positions row (hpositions ▸ hrow)

theorem positions_kept (s : ContentBuffer) (record : ContentRecord)
    (h : ∀ row ∈ s.positions, row.text = none ∧ (strict → recordFits row = true))
    (hrecord : strict → recordFits record = true) :
    ∀ row ∈ (rememberPosition s record).positions,
      row.text = none ∧ (strict → recordFits row = true) := by
  intro row hrow
  have hput : row ∈ put s.positions { record with text := none } := by
    unfold rememberPosition at hrow
    dsimp only at hrow
    exact List.mem_of_mem_drop hrow
  rcases mem_put hput with rfl | ⟨hmem, -⟩
  · exact ⟨rfl, hrecord⟩
  · exact h row hmem

theorem items_remember (h : Items strict s) {record : ContentRecord}
    (hrecord : strict → recordFits record = true) :
    Items strict (rememberPosition s record) := by
  refine ⟨?_, positions_kept s record h.positions hrecord⟩
  rw [rememberPosition_eq]
  exact h.states

theorem prior_row (h : Items strict s) {key : Key} {prior : ContentRecord}
    (hprior : (find key s.states).or (find key s.positions) = some prior) :
    byteLength (prior.text.getD []) ≤ prior.totalBytes ∧ (strict → recordFits prior = true) := by
  rcases Option.or_eq_some_iff.mp hprior with hstate | ⟨-, hposition⟩
  · have hrow := h.states prior (find_key hstate).1
    refine ⟨?_, hrow.fits⟩
    have hplaces := hrow.places
    omega
  · obtain ⟨htext, hfits⟩ := h.positions prior (find_key hposition).1
    rw [htext]
    exact ⟨Nat.zero_le _, hfits⟩

theorem recordFits_revision {record : ContentRecord} (h : recordFits record = true) :
    1 ≤ record.revision := by
  simp only [recordFits, Bool.and_eq_true, decide_eq_true_eq] at h
  exact h.1.1.2

/-! ### One operation -/

theorem writeText_within (hempty : z.states [] ≤ contentBaselineBytes) {s : ContentBuffer}
    (h : Within z strict s) (kind : Kind) {turnId itemId : String}
    (hids : strict → (isBounded 256 turnId && isBounded 256 itemId) = true) (text : Units)
    (operation : TextOperation) (complete : Bool) :
    Within z strict (writeText z s
      ((find (some turnId, itemId) s.states).or (find (some turnId, itemId) s.positions))
      kind turnId itemId text operation complete) := by
  have hprior : ∀ prior,
      (find (some turnId, itemId) s.states).or (find (some turnId, itemId) s.positions) =
        some prior → byteLength (prior.text.getD []) ≤ prior.totalBytes ∧
          (strict → recordFits prior = true) := fun _ => prior_row h.items
  unfold writeText
  dsimp only
  generalize (find (some turnId, itemId) s.states).or (find (some turnId, itemId) s.positions) = prior
    at hprior ⊢
  have hflatten := (chunks_written text).2
  generalize (if textChunks text contentEventBytes = [] then [[]]
    else textChunks text contentEventBytes) = chunks at hflatten ⊢
  generalize hdraft : ContentRecord.mk _ _ _ _ _ _ _ _ _ _ _ _ _ _ = draft
  have hfits : strict → recordFits draft = true := by
    intro hstrict
    have hbounded := hids hstrict
    have hrevision : 1 ≤ draft.revision := by
      subst hdraft
      dsimp only
      cases hcase : prior with
      | none => split <;> simp
      | some row =>
        have hrow := recordFits_revision ((hprior row hcase).2 hstrict)
        split
        · simp
        · simpa using hrow
    subst hdraft
    simp only [Bool.and_eq_true] at hbounded
    simp only [recordFits, Bool.and_eq_true, decide_eq_true_eq, Option.all_some, Option.all_none]
    exact ⟨⟨⟨⟨hbounded.1, hbounded.2⟩, hrevision⟩, trivial⟩, trivial⟩
  clear hdraft
  have hreach : byteLength (if operation = .append then
      (prior.bind ContentRecord.text).getD [] ++ text else text) ≤
        (if operation = .append then (prior.map ContentRecord.totalBytes).getD 0 else 0) +
          (chunks.map byteLength).sum := by
    have hchunks := byteLength_flatten_le chunks
    rw [hflatten] at hchunks
    by_cases happend : operation = .append
    · rw [if_pos happend, if_pos happend]
      refine (byteLength_append_le _ text).trans (Nat.add_le_add ?_ hchunks)
      cases hcase : prior with
      | none => exact Nat.le_refl _
      | some row => exact (hprior row hcase).1
    · rw [if_neg happend, if_neg happend, Nat.zero_add]
      exact hchunks
  generalize (if operation = .append then (prior.bind ContentRecord.text).getD [] ++ text
    else text) = whole at hreach ⊢
  generalize (if operation = .append then (prior.map ContentRecord.totalBytes).getD 0 else 0) = first
    at hreach ⊢
  generalize (operation == .replace || first == 0 || prior.any ContentRecord.prefixKnown) = known
  obtain ⟨hring, hoffset⟩ := pushChunks_ring h.ring hfits complete chunks operation first
  obtain ⟨hstates, hpositions, hbaseline⟩ :=
    pushChunks_rest (z := z) draft complete chunks operation first s
  rcases hpush : pushChunks z draft complete chunks operation first s with ⟨t, offset⟩
  rw [hpush] at hring hoffset hstates hpositions hbaseline
  dsimp only at hring hoffset hstates hpositions hbaseline ⊢
  cases hrecord : t.value.records.getLast? with
  | none =>
    refine ⟨hring, ⟨?_, ?_⟩, ?_, ?_, ?_⟩
    · exact hstates ▸ h.items.states
    · exact hpositions ▸ h.items.positions
    · dsimp only
      rw [hbaseline, hstates]
      exact h.published
    · exact hstates ▸ h.few
    · exact hstates ▸ h.small
  | some record =>
    have hrow : Row strict record := hring.rows record (List.mem_of_getLast? hrecord)
    have htail : byteLength (textTail whole contentItemBytes).text ≤ offset := by
      have hbytes := textTail_bytes whole contentItemBytes
      omega
    generalize (textTail whole contentItemBytes).text = tail at htail ⊢
    have hitem : Row strict (baselineItem record tail offset known complete) := by
      refine ⟨?_, hrow.fits⟩
      show offset - byteLength tail + byteLength tail = offset
      exact Nat.sub_add_cancel htail
    have hput := items_put h.items hstates hpositions hitem
    have hkept : Items strict (rememberPosition { t with
        states := put t.states (baselineItem record tail offset known complete) }
        { record with complete }) := items_remember hput hrow.fits
    refine boundStates_within hempty ?_ hkept
    rw [rememberPosition_eq]
    exact ⟨hring.numbered, hring.counted, hring.boundary, hring.account, hring.few, hring.small,
      hring.rows⟩

theorem text_within (hempty : z.states [] ≤ contentBaselineBytes) {s : ContentBuffer}
    (h : Within z strict s) (kind : Kind) {turnId itemId : String}
    (hids : strict → (isBounded 256 turnId && isBounded 256 itemId) = true) (input : Units)
    (operation : TextOperation) (complete : Bool) :
    Within z strict (text z s kind turnId itemId input operation complete).1 := by
  have hpending {pending : List (Key × Units)} :
      Within z strict { s with pendingSurrogates := pending } :=
    within_quiet h rfl rfl rfl rfl rfl
  unfold text
  dsimp only
  split
  · exact h
  · generalize (if operation = .append then
      ((s.pendingSurrogates.find? fun entry => entry.1 == (some turnId, itemId)).map
        Prod.snd).getD [] ++ input else input) = whole
    split
    · exact hpending
    · generalize (if (!complete && endsHigh whole) = true then whole.dropLast
        else whole) = written
      generalize hwaiting : (if (!complete && endsHigh whole) = true then
          ({ s with pendingSurrogates := _ } : ContentBuffer)
        else _) = waiting
      have hsame : ∃ pending, waiting = { s with pendingSurrogates := pending } := by
        subst hwaiting
        split
        · exact ⟨_, rfl⟩
        · exact ⟨_, rfl⟩
      obtain ⟨pending, rfl⟩ := hsame
      split
      · exact hpending
      · split
        · exact hpending
        · have hheld : Within z strict { s with pendingSurrogates := pending } := hpending
          exact writeText_within hempty hheld kind hids written operation complete

theorem within_lifecycle (hempty : z.states [] ≤ contentBaselineBytes) {s : ContentBuffer}
    (h : Within z strict s) {input : ContentRecord} (hinput : Row strict input)
    {positions : List ContentRecord}
    (hpositions : ∀ row ∈ positions, row.text = none ∧ (strict → recordFits row = true)) :
    Within z strict (boundStates z { (push z s input).1 with
      states := put (push z s input).1.states (push z s input).2, positions }) := by
  obtain ⟨hring, hrow⟩ := push_ring h.ring hinput
  have hput := items_put h.items (t := (push z s input).1) rfl rfl hrow
  refine boundStates_within hempty ?_ ⟨hput.states, hpositions⟩
  exact ⟨hring.numbered, hring.counted, hring.boundary, hring.account, hring.few, hring.small,
    hring.rows⟩

theorem lifecycle_within (hempty : z.states [] ≤ contentBaselineBytes) {s : ContentBuffer}
    (h : Within z strict s) (kind : Kind) {turnId : Option String} {itemId : String}
    {status : Option String} (hids : strict → (turnId.all (isBounded 256) && isBounded 256 itemId &&
      status.all fun status => (utf16 status).length ≤ 128) = true) (text : Option Units) :
    Within z strict (lifecycle z s kind turnId itemId status text) := by
  unfold lifecycle
  dsimp only
  split
  · exact h
  · refine within_lifecycle hempty h ⟨?_, ?_⟩ h.items.positions
    · cases text with
      | none => rfl
      | some text => exact Nat.zero_add _
    · intro hstrict
      have hbounded := hids hstrict
      simp only [Bool.and_eq_true] at hbounded
      simp only [recordFits, Bool.and_eq_true, decide_eq_true_eq, Option.all_none]
      exact ⟨⟨⟨⟨hbounded.1.1, hbounded.1.2⟩, Nat.le_add_left 1 _⟩, hbounded.2⟩, trivial⟩

/-- What was merged of two observations that fit the schema fits it. -/
theorem toolFits_merge {observation : ToolObservation} (h : toolFits observation = true)
    {before : Option ToolObservation} (hbefore : before.all toolFits = true)
    (hkept : ¬ (before.any (fun row => row.lifecycle == .completed) &&
      observation.lifecycle != .completed) = true) :
    toolFits
      { callId := observation.callId.or (before.bind ToolObservation.callId)
        name := observation.name.or (before.bind ToolObservation.name)
        lifecycle := observation.lifecycle
        outcome := if observation.outcome = .unknown then
            (before.map ToolObservation.outcome).getD .unknown
          else observation.outcome
        exitCode := observation.exitCode.or (before.bind ToolObservation.exitCode) } = true := by
  cases before with
  | none =>
    simp only [toolFits, Option.bind_none, Option.or_none, Option.map_none, Option.getD_none]
      at h ⊢
    by_cases hunknown : observation.outcome = .unknown
    · rw [if_pos hunknown]
      rw [hunknown] at h
      exact h
    · rw [if_neg hunknown]
      exact h
  | some row =>
    rw [Option.all_some] at hbefore
    simp only [toolFits, Bool.and_eq_true, Bool.or_eq_true, beq_iff_eq] at h hbefore ⊢
    obtain ⟨⟨hcall, hname⟩, houtcome⟩ := h
    obtain ⟨⟨hcall', hname'⟩, houtcome'⟩ := hbefore
    have hor : ∀ {α : Type} {p : α → Bool} {x y : Option α}, x.all p = true → y.all p = true →
        (x.or y).all p = true := by
      intro α p x y hx hy
      cases x with
      | none => exact hy
      | some _ => exact hx
    refine ⟨⟨hor hcall hcall', hor hname hname'⟩, ?_⟩
    by_cases hcompleted : observation.lifecycle = .completed
    · exact Or.inl hcompleted
    · -- an observation that is not the last follows none that was
      have hopen : row.lifecycle ≠ .completed := by
        intro hdone
        exact hkept (by simp [hdone, hcompleted])
      obtain ⟨hunknown, hcode⟩ := houtcome.resolve_left hcompleted
      obtain ⟨hunknown', hcode'⟩ := houtcome'.resolve_left hopen
      right
      simp [hunknown, hcode, hunknown', hcode']

theorem tool_within (hempty : z.states [] ≤ contentBaselineBytes) {s : ContentBuffer}
    (h : Within z strict s) {turnId itemId : String} {observation : ToolObservation}
    (hids : strict → (isBounded 256 turnId && isBounded 256 itemId && toolFits observation) = true) :
    Within z strict (tool z s turnId itemId observation).1 := by
  have hprior : ∀ prior,
      (find (some turnId, itemId) s.states).or (find (some turnId, itemId) s.positions) =
        some prior → strict → recordFits prior = true :=
    fun _ hfound => (prior_row h.items hfound).2
  unfold tool
  dsimp only
  generalize (find (some turnId, itemId) s.states).or (find (some turnId, itemId) s.positions) = prior
    at hprior ⊢
  split
  · exact h
  · next hkept =>
    generalize hmerged : ToolObservation.mk _ _ _ _ _ = merged
    split
    · exact h
    · split
      · exact h
      · have hinput : ∀ revision, 1 ≤ revision → Row strict
            { kind := .tool, operation := .lifecycle, turnId := some turnId, itemId, revision,
              text := none, totalBytes := 0, complete := observation.lifecycle == .completed,
              status := some observation.lifecycle.text, tool := some merged } := by
          intro revision hrevision
          refine ⟨rfl, fun hstrict => ?_⟩
          have hbounded := hids hstrict
          simp only [Bool.and_eq_true] at hbounded
          have hbefore : (prior.bind ContentRecord.tool).all toolFits = true := by
            cases hcase : prior with
            | none => rfl
            | some row =>
              have hfits := hprior row hcase hstrict
              simp only [recordFits, Bool.and_eq_true] at hfits
              exact hfits.2
          have htool : toolFits merged = true := by
            rw [← hmerged]
            exact toolFits_merge hbounded.2 hbefore hkept
          have hstatus : (utf16 observation.lifecycle.text).length ≤ 128 := by
            cases observation.lifecycle <;> decide
          simp only [recordFits, Bool.and_eq_true, decide_eq_true_eq, Option.all_some]
          exact ⟨⟨⟨⟨hbounded.1.1, hbounded.1.2⟩, hrevision⟩, hstatus⟩, htool⟩
        dsimp only
        rw [rememberPosition_eq]
        have hrow := hinput ((prior.map ContentRecord.revision).getD 0 + 1) (Nat.le_add_left 1 _)
        refine within_lifecycle hempty h hrow ?_
        exact positions_kept _ _ h.items.positions hrow.fits

theorem resetContext_within (hempty : z.states [] ≤ contentBaselineBytes) (s : ContentBuffer) :
    Within z strict (resetContext s) where
  ring :=
    { numbered := rfl
      counted := rfl
      boundary := Nat.le_refl (s.value.sequence + 1)
      account := rfl
      few := Nat.zero_le contentMaxRecords
      small := Nat.zero_le contentReplayBytes
      rows := fun _ hrecord => (List.not_mem_nil hrecord).elim }
  items :=
    { states := fun _ hitem => (List.not_mem_nil hitem).elim
      positions := fun _ hrow => (List.not_mem_nil hrow).elim }
  published := rfl
  few := Nat.zero_le contentMaxItems
  small := hempty

theorem step_within (hempty : z.states [] ≤ contentBaselineBytes) {rule : Rule} {w w' : World}
    (h : Within z strict w.buffer) {e : Event} (he : strict → eventFits e = true)
    (hstep : step z rule w e = some w') : Within z strict w'.buffer := by
  cases e with
  | text kind turnId itemId input operation complete =>
    obtain rfl := Option.some.inj hstep
    exact text_within hempty h kind he input operation complete
  | lifecycle kind turnId itemId status text =>
    obtain rfl := Option.some.inj hstep
    exact lifecycle_within hempty h kind he text
  | tool turnId itemId observation =>
    obtain rfl := Option.some.inj hstep
    exact tool_within hempty h he
  | noteOmitted records =>
    obtain rfl := Option.some.inj hstep
    exact within_quiet h rfl rfl rfl rfl rfl
  | unavailable =>
    obtain rfl := Option.some.inj hstep
    exact within_quiet h rfl rfl rfl rfl rfl
  | resetContext =>
    obtain rfl := Option.some.inj hstep
    exact resetContext_within hempty w.buffer
  | poll =>
    obtain rfl := Option.some.inj hstep
    exact h

end

end Ccmux.Content.Limits
