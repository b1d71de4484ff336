/- Module: Ccmux/Content/BufferRun
   source: src/content/buffer.ts, src/content/read.ts
   digest: A reader that polls at any time holds the items of the bounded baseline. -/

import Ccmux.Content.Buffer
import Ccmux.Lib.Machine
import Mathlib

namespace Ccmux.Content.BufferRun

open Ccmux.Lib.Machine
open Ccmux.Lib.Utf16
open Ccmux.Content.Text
open Ccmux.Content.Buffer

structure ItemView where
  text : Units
  totalBytes : Nat
  status : Option String
  tool : Option ToolObservation
  deriving DecidableEq, Repr

abbrev View := Key → Option ItemView

/-- How a reader takes a record of an item it holds so far. -/
abbrev Rule := ContentRecord → Option ItemView → ItemView

def heldText (seen : Option ItemView) : Units := (seen.map ItemView.text).getD []

/-- Every record says the size, the status and the tool; a lifecycle record may carry a text. -/
def takeRecord : Rule := fun record seen =>
  { text := match record.operation with
      | .append => heldText seen ++ record.text.getD []
      | .replace => record.text.getD []
      | .lifecycle => record.text.getD (heldText seen)
    totalBytes := record.totalBytes
    status := record.status
    tool := record.tool }

/-- A lifecycle record sets the size, the status and the tool only. -/
def takeStatus : Rule := fun record seen =>
  match record.operation with
  | .lifecycle => { takeRecord record seen with text := heldText seen }
  | _ => takeRecord record seen

def ofBaseline (items : List ContentRecord) : View := fun key =>
  (find key items).map fun item =>
    { text := item.text.getD [], totalBytes := item.totalBytes, status := item.status
      tool := item.tool }

structure Reader where
  view : View := fun _ => none
  cursor : Option ContentCursor := none

section
variable (rule : Rule)

def View.apply (view : View) (record : ContentRecord) : View :=
  Function.update view record.key (some (rule record (view record.key)))

def View.applyAll (view : View) (records : List ContentRecord) : View :=
  records.foldl (View.apply rule) view

def Reader.poll (reader : Reader) (snapshot : ContentSnapshot) : Reader :=
  let frame := contentFrame snapshot reader.cursor
  { view := if frame.reset = none then reader.view.applyAll rule frame.records
      else ofBaseline frame.baseline
    cursor := some { generation := frame.generation, sequence := frame.sequence } }

end

inductive Event where
  | text (kind : Kind) (turnId itemId : String) (input : Units) (operation : TextOperation)
      (complete : Bool)
  | lifecycle (kind : Kind) (turnId : Option String) (itemId : String) (status : Option String)
      (text : Option Units)
  | tool (turnId itemId : String) (observation : ToolObservation)
  | noteOmitted (records : Nat)
  | unavailable
  | resetContext
  | poll

structure World where
  buffer : ContentBuffer
  reader : Reader := {}

def start (generation : String) : World := { buffer := ContentBuffer.create generation }

section
variable (z : Sizes) (rule : Rule)

def step (w : World) : Event → Option World
  | .text kind turnId itemId input operation complete =>
    some { w with buffer := (text z w.buffer kind turnId itemId input operation complete).1 }
  | .lifecycle kind turnId itemId status text =>
    some { w with buffer := lifecycle z w.buffer kind turnId itemId status text }
  | .tool turnId itemId observation =>
    some { w with buffer := (tool z w.buffer turnId itemId observation).1 }
  | .noteOmitted records => some { w with buffer := noteOmitted w.buffer records }
  | .unavailable => some { w with buffer := unavailable w.buffer }
  | .resetContext => some { w with buffer := resetContext w.buffer }
  | .poll => some { w with reader := w.reader.poll rule w.buffer.value }

end

/-- The text that `text` writes: with the half that waited, and without one that waits now. -/
def writtenText (s : ContentBuffer) (key : Key) (input : Units) (operation : TextOperation)
    (complete : Bool) : Units :=
  let held := (s.pendingSurrogates.find? fun entry => entry.1 == key).map Prod.snd
  let whole := if operation = .append then held.getD [] ++ input else input
  if !complete && endsHigh whole then whole.dropLast else whole

/-- No text is left in the middle of a pair: two first halves in a row, or a last one that no
second half follows, are in no well-formed text. -/
def isTidy (w : World) : Event → Bool
  | .text _ turnId itemId input operation complete =>
    !endsHigh (writtenText w.buffer (some turnId, itemId) input operation complete)
  | .lifecycle _ _ _ _ text => !endsHigh (text.getD [])
  | _ => true

/-- What the operations keep: consecutive numbers, one state an item, and texts that end whole. -/
structure Sound (s : ContentBuffer) : Prop where
  numbered : s.value.records.map ContentRecord.sequence =
    List.range' (s.value.droppedThrough + 1) s.value.records.length
  counted : s.value.droppedThrough + s.value.records.length = s.value.sequence
  keys : (s.states.map ContentRecord.key).Nodup
  tidy : ∀ item ∈ s.states, endsHigh (item.text.getD []) = false
  positions : ∀ row ∈ s.positions, row.text = none

/-- The reader's item against the one of the baseline. -/
structure Matches (item : ContentRecord) (seen : ItemView) : Prop where
  text : IsTail (item.text.getD []) seen.text
  totalBytes : seen.totalBytes = item.totalBytes
  status : seen.status = item.status
  tool : seen.tool = item.tool

structure Covers (view : View) (items : List ContentRecord) : Prop where
  matches_ : ∀ item ∈ items, ∃ seen, view item.key = some seen ∧ Matches item seen
  tidy : ∀ key, endsHigh (heldText (view key)) = false

@[grind =]
def unread (s : ContentBuffer) (sequence : Nat) : List ContentRecord :=
  s.value.records.filter fun item => decide (sequence < item.sequence)

/-- What a stretch of operations does to the record ring, for a reader whose place is kept. -/
structure Reads (s t : ContentBuffer) (news : List ContentRecord) : Prop where
  generation : t.value.generation = s.value.generation
  context : t.value.contextBoundary = s.value.contextBoundary
  sequence : s.value.sequence ≤ t.value.sequence
  dropped : s.value.droppedThrough ≤ t.value.droppedThrough
  unread : ∀ c ≤ s.value.sequence, t.value.droppedThrough ≤ c →
    unread t c = unread s c ++ news

/-! ### The ring of records -/

theorem shedRecords_drop (z : Sizes) (records : List ContentRecord) (bytes dt omitted : Nat)
    (h : records.map ContentRecord.sequence = List.range' (dt + 1) records.length) :
    ∃ k ≤ records.length,
      (shedRecords z records bytes dt omitted).records = records.drop k ∧
      (shedRecords z records bytes dt omitted).droppedThrough = dt + k := by
  induction records generalizing bytes dt omitted with
  | nil => exact ⟨0, Nat.le_refl 0, rfl, rfl⟩
  | cons removed rest ih =>
    rw [shedRecords]
    split
    · rw [List.map_cons, List.length_cons, List.range'_succ] at h
      obtain ⟨hfirst, hrest⟩ := List.cons.inj h
      rw [hfirst]
      obtain ⟨k, hk, hrecords, hdropped⟩ :=
        ih (bytes - (z.record removed + 1)) (dt + 1) (omitted + 1) hrest
      refine ⟨k + 1, Nat.succ_le_succ hk, hrecords, ?_⟩
      rw [hdropped]
      omega
    · exact ⟨0, Nat.zero_le _, rfl, rfl⟩

theorem filter_numbered (records : List ContentRecord) (dt c : Nat) (hc : dt ≤ c)
    (h : records.map ContentRecord.sequence = List.range' (dt + 1) records.length) :
    (records.filter fun item => decide (c < item.sequence)) = records.drop (c - dt) := by
  induction records generalizing dt with
  | nil => simp
  | cons first rest ih =>
    have hall := h
    rw [List.map_cons, List.length_cons, List.range'_succ] at h
    obtain ⟨hfirst, hrest⟩ := List.cons.inj h
    rcases Nat.eq_or_lt_of_le hc with rfl | hlt
    · rw [Nat.sub_self, List.drop_zero, List.filter_eq_self]
      intro item hitem
      have hmem : item.sequence ∈ List.range' (dt + 1) (first :: rest).length :=
        hall ▸ List.mem_map_of_mem hitem
      have hle := (List.mem_range'_1.mp hmem).1
      exact decide_eq_true hle
    · have hskip : ¬ c < first.sequence := by omega
      have hplace : c - dt = (c - (dt + 1)) + 1 := by omega
      rw [List.filter_cons_of_neg (by simpa using hskip), ih (dt + 1) hlt hrest, hplace,
        List.drop_succ_cons]

theorem unread_of_sound {s : ContentBuffer} (h : Sound s) {c : Nat}
    (hc : s.value.droppedThrough ≤ c) :
    unread s c = s.value.records.drop (c - s.value.droppedThrough) :=
  filter_numbered s.value.records s.value.droppedThrough c hc h.numbered

section
variable {z : Sizes} {s t u : ContentBuffer} {news more : List ContentRecord}

theorem Reads.trans (hst : Reads s t news) (htu : Reads t u more) : Reads s u (news ++ more) where
  generation := htu.generation.trans hst.generation
  context := htu.context.trans hst.context
  sequence := hst.sequence.trans htu.sequence
  dropped := hst.dropped.trans htu.dropped
  unread := by
    intro c hc hkept
    rw [htu.unread c (hc.trans hst.sequence) hkept, hst.unread c hc (htu.dropped.trans hkept),
      List.append_assoc]

/-- The snapshot differs in nothing that a kept reader gets. -/
def SameRing (s t : ContentBuffer) : Prop :=
  t.value = { s.value with
    omittedRecords := t.value.omittedRecords
    status := t.value.status
    baseline := t.value.baseline }

theorem SameRing.reads (h : SameRing s t) : Reads s t [] where
  generation := by rw [h]
  context := by rw [h]
  sequence := by rw [h]
  dropped := by rw [h]
  unread := by
    intro c _ _
    rw [List.append_nil, unread, unread, h]

theorem numbered_push (h : Sound s) (input : ContentRecord) :
    (s.value.records ++ [(push z s input).2]).map ContentRecord.sequence =
      List.range' (s.value.droppedThrough + 1) (s.value.records.length + 1) := by
  have hnew : (push z s input).2.sequence = s.value.droppedThrough + 1 + s.value.records.length := by
    have hcounted := h.counted
    have hvalue : (push z s input).2.sequence = s.value.sequence + 1 := rfl
    omega
  rw [List.map_append, h.numbered, List.range'_concat, List.map_singleton, hnew, Nat.one_mul]

theorem push_ring (h : Sound s) (input : ContentRecord) :
    ∃ k ≤ s.value.records.length + 1,
      (push z s input).1.value.records = (s.value.records ++ [(push z s input).2]).drop k ∧
      (push z s input).1.value.droppedThrough = s.value.droppedThrough + k := by
  have hdrop := shedRecords_drop z (s.value.records ++ [(push z s input).2])
    (s.replayBytes + (z.record (push z s input).2 + 1)) s.value.droppedThrough
    s.value.omittedRecords
  rw [List.length_append, List.length_singleton] at hdrop
  exact hdrop (numbered_push h input)

theorem push_sound (h : Sound s) (input : ContentRecord) : Sound (push z s input).1 := by
  obtain ⟨k, hk, hrecords, hdropped⟩ := push_ring h input
  have hcounted := h.counted
  have hlength : (push z s input).1.value.records.length = s.value.records.length + 1 - k := by
    rw [hrecords, List.length_drop, List.length_append, List.length_singleton]
  have hsequence : (push z s input).1.value.sequence = s.value.sequence + 1 := rfl
  refine ⟨?_, ?_, h.keys, h.tidy, h.positions⟩
  · rw [hlength, hrecords, hdropped, List.map_drop, numbered_push h, List.drop_range', Nat.mul_one]
    congr 1
    omega
  · rw [hlength, hdropped, hsequence]
    omega

theorem push_reads (h : Sound s) (input : ContentRecord) :
    Reads s (push z s input).1 [(push z s input).2] := by
  obtain ⟨k, hk, hrecords, hdropped⟩ := push_ring h input
  refine ⟨rfl, rfl, Nat.le_succ _, ?_, ?_⟩
  · rw [hdropped]
    exact Nat.le_add_right _ _
  · intro c hc hkept
    have hcounted := h.counted
    rw [hdropped] at hkept
    rw [unread_of_sound (push_sound h input) (hdropped ▸ hkept), unread_of_sound h (by omega),
      hrecords, hdropped, List.drop_drop]
    have hplace : k + (c - (s.value.droppedThrough + k)) = c - s.value.droppedThrough := by omega
    rw [hplace, List.drop_append_of_le_length (by omega)]

theorem push_last (h : Sound s) (input : ContentRecord) :
    (push z s input).1.value.records.getLast? = none ∨
      (push z s input).1.value.records.getLast? = some (push z s input).2 := by
  obtain ⟨k, hk, hrecords, -⟩ := push_ring h input
  rw [hrecords]
  rcases Nat.eq_or_lt_of_le hk with rfl | hlt
  · left
    rw [List.drop_eq_nil_of_le (by simp)]
    rfl
  · right
    rw [List.drop_append_of_le_length (Nat.le_of_lt_succ hlt), List.getLast?_append]
    rfl

/-! ### One text operation -/

theorem pushChunks_rest (draft : ContentRecord) (complete : Bool) (chunks : List Units)
    (operation : TextOperation) (offset : Nat) (s : ContentBuffer) :
    (pushChunks z draft complete chunks operation offset s).1.states = s.states ∧
      (pushChunks z draft complete chunks operation offset s).1.positions = s.positions ∧
      (pushChunks z draft complete chunks operation offset s).1.value.baseline =
        s.value.baseline := by
  induction chunks generalizing operation offset s with
  | nil => exact ⟨rfl, rfl, rfl⟩
  | cons chunk rest ih => exact ih _ _ _

theorem pushChunks_last (h : Sound s) (draft : ContentRecord) (complete : Bool)
    (chunks : List Units) (operation : TextOperation) (offset : Nat) (hchunks : chunks ≠ []) :
    ∀ record,
      (pushChunks z draft complete chunks operation offset s).1.value.records.getLast? =
        some record →
      record.key = draft.key ∧ record.status = draft.status ∧ record.tool = draft.tool := by
  induction chunks generalizing operation offset s with
  | nil => exact absurd rfl hchunks
  | cons chunk rest ih =>
    intro record hrecord
    rw [pushChunks] at hrecord
    by_cases hrest : rest = []
    · subst hrest
      rcases push_last h _ with hnone | hlast
      · rw [pushChunks, hnone] at hrecord
        cases hrecord
      · rw [pushChunks, hlast] at hrecord
        obtain rfl := Option.some.inj hrecord
        exact ⟨rfl, rfl, rfl⟩
    · exact ih (push_sound h _) _ _ hrest record hrecord

def withText (draft : ContentRecord) (text : Units) (offset : Nat) (view : View) : View :=
  Function.update view draft.key
    (some { text, totalBytes := offset, status := draft.status, tool := draft.tool })

/-- What the first record of the text continues. -/
def baseText (operation : TextOperation) (before : Units) : Units :=
  if operation = .append then before else []

theorem pushChunks_reads (h : Sound s) (draft : ContentRecord) (complete : Bool)
    (chunks : List Units) (operation : TextOperation) (offset : Nat) (hchunks : chunks ≠ []) :
    Sound (pushChunks z draft complete chunks operation offset s).1 ∧
      ∃ news ≠ [], Reads s (pushChunks z draft complete chunks operation offset s).1 news ∧
        ∀ view : View, view.applyAll takeRecord news =
          withText draft (baseText operation (heldText (view draft.key)) ++ chunks.flatten)
            (pushChunks z draft complete chunks operation offset s).2 view := by
  induction chunks generalizing operation offset s with
  | nil => exact absurd rfl hchunks
  | cons chunk rest ih =>
    rw [pushChunks]
    generalize hinput : ({ draft with
      operation := operation.record
      offsetBytes := offset
      text := some chunk
      totalBytes := offset + byteLength chunk
      complete := complete && rest.isEmpty } : ContentRecord) = input
    have hfirst (view : View) : view.apply takeRecord (push z s input).2 =
        withText draft (baseText operation (heldText (view draft.key)) ++ chunk)
          (offset + byteLength chunk) view := by
      subst hinput
      cases operation <;> rfl
    by_cases hrest : rest = []
    · subst hrest
      refine ⟨push_sound h input, [(push z s input).2], List.cons_ne_nil _ _,
        push_reads h input, ?_⟩
      intro view
      rw [List.flatten_singleton]
      exact hfirst view
    · obtain ⟨hsound, news, -, hreads, hview⟩ :=
        ih (push_sound h input) .append (offset + byteLength chunk) hrest
      refine ⟨hsound, (push z s input).2 :: news, List.cons_ne_nil _ _,
        (push_reads h input).trans hreads, ?_⟩
      intro view
      have hcons : view.applyAll takeRecord ((push z s input).2 :: news) =
          (view.apply takeRecord (push z s input).2).applyAll takeRecord news := rfl
      rw [hcons, hview, hfirst, withText, withText, withText, Function.update_idem,
        Function.update_self, List.flatten_cons, ← List.append_assoc]
      rfl

/-! ### The items of the baseline -/

variable {rows : List ContentRecord}

theorem keys_put (h : (rows.map ContentRecord.key).Nodup)
    (row : ContentRecord) : ((put rows row).map ContentRecord.key).Nodup := by
  rw [put, List.map_append, List.map_singleton]
  refine List.nodup_append.mpr ⟨(List.filter_sublist.map _).nodup h, List.nodup_singleton _, ?_⟩
  intro key hkey other hother hequal
  obtain ⟨kept, hkept, rfl⟩ := List.mem_map.mp hkey
  obtain rfl := List.mem_singleton.mp hother
  have hdiffers := (List.mem_filter.mp hkept).2
  rw [hequal, bne_self_eq_false] at hdiffers
  cases hdiffers

theorem mem_put {row other : ContentRecord} (h : other ∈ put rows row) :
    other = row ∨ (other ∈ rows ∧ other.key ≠ row.key) := by
  rcases List.mem_append.mp h with h | h
  · obtain ⟨hmem, hdiffers⟩ := List.mem_filter.mp h
    exact .inr ⟨hmem, bne_iff_ne.mp hdiffers⟩
  · exact .inl (List.mem_singleton.mp h)

theorem find_key {key : Key} {row : ContentRecord} (h : find key rows = some row) :
    row ∈ rows ∧ row.key = key := by
  rw [find] at h
  exact ⟨List.mem_of_find?_eq_some h, by simpa using List.find?_some h⟩

theorem find_of_mem (h : (rows.map ContentRecord.key).Nodup)
    {row : ContentRecord} (hrow : row ∈ rows) : find row.key rows = some row := by
  cases hfind : find row.key rows with
  | none =>
    have hnot := List.find?_eq_none.mp hfind row hrow
    exact absurd (beq_self_eq_true _) hnot
  | some other =>
    obtain ⟨hother, hkey⟩ := find_key hfind
    rw [List.inj_on_of_nodup_map h hother hrow hkey]

theorem dropStates_drops (z : Sizes) (turns : Nat) (s : ContentBuffer) :
    (dropStates z turns s).states.Sublist s.states ∧
      (dropStates z turns s).positions = s.positions ∧ SameRing s (dropStates z turns s) := by
  induction turns generalizing s with
  | zero => exact ⟨List.Sublist.refl _, rfl, rfl⟩
  | succ turns ih =>
    rw [dropStates]
    split
    · cases (s.states.find? fun item => !protectedItem item).or s.states.head? with
      | none => exact ⟨List.Sublist.refl _, rfl, rfl⟩
      | some candidate =>
        obtain ⟨hstates, hpositions, hring⟩ := ih { s with
          states := s.states.filter fun item => item.key != candidate.key
          pendingSurrogates := s.pendingSurrogates.filter fun entry => entry.1 != candidate.key
          value := { s.value with omittedRecords := s.value.omittedRecords + 1 } }
        refine ⟨hstates.trans List.filter_sublist, hpositions, ?_⟩
        rw [SameRing, hring]
    · exact ⟨List.Sublist.refl _, rfl, rfl⟩

theorem Covers.sublist {view : View} {items kept : List ContentRecord} (h : Covers view items)
    (hkept : kept.Sublist items) : Covers view kept where
  matches_ := fun item hitem => h.matches_ item (hkept.subset hitem)
  tidy := h.tidy

theorem Covers.put {view : View} {items : List ContentRecord} (h : Covers view items)
    {item : ContentRecord} {seen : ItemView} (hitem : Matches item seen)
    (htidy : endsHigh seen.text = false) :
    Covers (Function.update view item.key (some seen)) (put items item) where
  matches_ := by
    intro other hother
    rcases mem_put hother with rfl | ⟨hmem, hkey⟩
    · exact ⟨seen, Function.update_self _ _ _, hitem⟩
    · rw [Function.update_of_ne hkey]
      exact h.matches_ other hmem
  tidy := by
    intro key
    by_cases hkey : key = item.key
    · subst hkey
      rw [Function.update_self]
      exact htidy
    · rw [Function.update_of_ne hkey]
      exact h.tidy key

theorem Sound.congr (h : Sound s) (hring : SameRing s t)
    (hkeys : (t.states.map ContentRecord.key).Nodup)
    (htidy : ∀ item ∈ t.states, endsHigh (item.text.getD []) = false)
    (hpositions : ∀ row ∈ t.positions, row.text = none) : Sound t where
  numbered := by
    rw [hring]
    exact h.numbered
  counted := by
    rw [hring]
    exact h.counted
  keys := hkeys
  tidy := htidy
  positions := hpositions

/-- A kept reader that has the items before has them after. -/
def Follows (s t : ContentBuffer) : Prop :=
  ∃ news, Reads s t news ∧ (t.value.droppedThrough ≤ s.value.sequence →
    ∀ view, Covers view s.states → Covers (view.applyAll takeRecord news) t.states)

def Published (s : ContentBuffer) : Prop := s.value.baseline = s.states

structure Works (s t : ContentBuffer) : Prop where
  sound : Sound t
  published : Published t
  follows : Follows s t

theorem works_quiet (h : Sound s) (hpublished : Published s) (hring : SameRing s t)
    (hbaseline : t.value.baseline = s.value.baseline) (hstates : t.states = s.states)
    (hpositions : t.positions = s.positions) : Works s t where
  sound := h.congr hring (hstates ▸ h.keys) (hstates ▸ h.tidy) (hpositions ▸ h.positions)
  published := by rw [Published, hbaseline, hstates, hpublished]
  follows := ⟨[], hring.reads, fun _ view hview => hstates ▸ hview⟩

/-- The records of an operation, its new item and the bounding of the items. -/
theorem works_put (hreads : Reads s t news) (hsound : Sound t) (hstates : t.states = s.states)
    {item : ContentRecord} (hitem : endsHigh (item.text.getD []) = false)
    {positions : List ContentRecord} (hpositions : ∀ row ∈ positions, row.text = none)
    (hview : ∀ view, Covers view s.states → ∃ seen,
      view.applyAll takeRecord news = Function.update view item.key (some seen) ∧
        Matches item seen ∧ endsHigh seen.text = false) :
    Works s (boundStates z { t with states := put t.states item, positions }) := by
  obtain ⟨hkept, hsame, hring⟩ := dropStates_drops z (put t.states item).length
    { t with states := put t.states item, positions }
  have hbound : SameRing t (boundStates z { t with states := put t.states item, positions }) := by
    rw [SameRing, boundStates, hring]
  have htidy : ∀ other ∈ put t.states item, endsHigh (other.text.getD []) = false := by
    intro other hother
    rcases mem_put hother with rfl | ⟨hmem, -⟩
    · exact hitem
    · exact hsound.tidy other hmem
  refine ⟨hsound.congr hbound ((hkept.map _).nodup (keys_put hsound.keys item))
    (fun other hother => htidy other (hkept.subset hother)) ?_, rfl, news ++ [],
    hreads.trans hbound.reads, ?_⟩
  · intro row hrow
    have hkept' := hsame.subst (motive := fun rows => row ∈ rows) hrow
    exact hpositions row hkept'
  · intro _ view hcovers
    obtain ⟨seen, happly, hmatches, hseen⟩ := hview view hcovers
    rw [List.append_nil, happly]
    exact ((hstates ▸ hcovers).put hmatches hseen).sublist hkept

theorem rememberPosition_eq (s : ContentBuffer) (record : ContentRecord) :
    rememberPosition s record = { s with positions := (rememberPosition s record).positions } := by
  unfold rememberPosition
  dsimp only

theorem positions_remembered (h : ∀ row ∈ s.positions, row.text = none) (record : ContentRecord) :
    ∀ row ∈ (rememberPosition s record).positions, row.text = none := by
  intro row hrow
  unfold rememberPosition at hrow
  dsimp only at hrow
  rcases mem_put (List.mem_of_mem_drop hrow) with rfl | ⟨hmem, -⟩
  · rfl
  · exact h row hmem

theorem priorText_tail (h : Sound s) {view : View} (hview : Covers view s.states) (key : Key) :
    IsTail ((((find key s.states).or (find key s.positions)).bind ContentRecord.text).getD [])
        (heldText (view key)) := by
  cases hstate : find key s.states with
  | some row =>
    obtain ⟨hrow, rfl⟩ := find_key hstate
    obtain ⟨seen, hseen, hmatches⟩ := hview.matches_ row hrow
    rw [hseen]
    exact hmatches.text
  | none =>
    cases hposition : find key s.positions with
    | none => exact isTail_nil _
    | some row =>
      have htext := h.positions row (find_key hposition).1
      rw [Option.none_or, Option.bind_some, htext]
      exact isTail_nil _

theorem priorText_tidy (h : Sound s) (key : Key) :
    endsHigh ((((find key s.states).or (find key s.positions)).bind ContentRecord.text).getD []) =
      false := by
  cases hstate : find key s.states with
  | some row => exact h.tidy row (find_key hstate).1
  | none =>
    cases hposition : find key s.positions with
    | none => rfl
    | some row =>
      have htext := h.positions row (find_key hposition).1
      rw [Option.none_or, Option.bind_some, htext]
      rfl

theorem endsHigh_join {left right : Units} (hleft : endsHigh left = false)
    (hright : endsHigh right = false) : endsHigh (left ++ right) = false := by
  by_cases hnil : right = []
  · rw [hnil, List.append_nil]
    exact hleft
  · rw [endsHigh_append hnil]
    exact hright

theorem baseText_tail {before after : Units} (operation : TextOperation) (h : IsTail before after) :
    IsTail (baseText operation before) (baseText operation after) := by
  cases operation with
  | append => exact h
  | replace => exact isTail_nil _

theorem baseText_tidy {before : Units} (operation : TextOperation)
    (h : endsHigh before = false) : endsHigh (baseText operation before) = false := by
  cases operation with
  | append => exact h
  | replace => rfl

theorem chunks_written (text : Units) :
    (if textChunks text contentEventBytes = [] then [[]] else textChunks text contentEventBytes) ≠ []
      ∧ (if textChunks text contentEventBytes = [] then [[]]
        else textChunks text contentEventBytes).flatten = text := by
  have hflatten := textChunks_flatten text contentEventBytes
  split
  · next hnil =>
    rw [hnil] at hflatten
    exact ⟨List.cons_ne_nil _ _, hflatten⟩
  · next hchunks => exact ⟨hchunks, hflatten⟩

theorem writeText_works (h : Sound s) (hpublished : Published s) (kind : Kind)
    (turnId itemId : String) {text : Units} (htext : endsHigh text = false)
    (operation : TextOperation) (complete : Bool) :
    Works s (writeText z s
      ((find (some turnId, itemId) s.states).or (find (some turnId, itemId) s.positions))
      kind turnId itemId text operation complete) := by
  obtain ⟨hchunks, hflatten⟩ := chunks_written text
  have hprior := fun (view : View) (hview : Covers view s.states) =>
    priorText_tail h hview (some turnId, itemId)
  have hpriorTidy := priorText_tidy h (some turnId, itemId)
  unfold writeText
  dsimp only
  generalize (find (some turnId, itemId) s.states).or (find (some turnId, itemId) s.positions) = prior
    at hprior hpriorTidy ⊢
  generalize (if textChunks text contentEventBytes = [] then [[]]
    else textChunks text contentEventBytes) = chunks at hchunks hflatten ⊢
  generalize hdraft : ContentRecord.mk _ _ _ _ _ _ _ _ _ _ _ _ _ _ = draft
  have hkey : draft.key = (some turnId, itemId) := by
    subst hdraft
    rfl
  clear hdraft
  generalize (if operation = .append then (prior.map ContentRecord.totalBytes).getD 0 else 0) = first
  generalize (operation == .replace || first == 0 || prior.any ContentRecord.prefixKnown) = known
  obtain ⟨hsound, news, hnews, hreads, hview⟩ :=
    pushChunks_reads (z := z) h draft complete chunks operation first hchunks
  obtain ⟨hstates, hpositions, hbaseline⟩ :=
    pushChunks_rest (z := z) draft complete chunks operation first s
  have hlast := pushChunks_last (z := z) h draft complete chunks operation first hchunks
  rcases hpush : pushChunks z draft complete chunks operation first s with ⟨t, offset⟩
  rw [hpush] at hsound hreads hview hstates hpositions hbaseline hlast
  dsimp only at hsound hreads hview hstates hpositions hbaseline hlast ⊢
  cases hrecord : t.value.records.getLast? with
  | none =>
    -- the new records are gone as well, so no reader was kept
    refine ⟨hsound, ?_, news, hreads, ?_⟩
    · rw [Published, hbaseline, hstates, hpublished]
    · intro hkept view hcovers
      have hempty := hreads.unread s.value.sequence (Nat.le_refl _) hkept
      rw [unread, List.getLast?_eq_none_iff.mp hrecord] at hempty
      exact absurd (List.append_eq_nil_iff.mp hempty.symm).2 hnews
  | some record =>
    obtain ⟨hrow, hstatus, htool⟩ := hlast record hrecord
    have htail : (if operation = .append then (prior.bind ContentRecord.text).getD [] ++ text
        else text) = baseText operation ((prior.bind ContentRecord.text).getD []) ++ text := by
      cases operation <;> rfl
    have hbase := baseText_tidy operation hpriorTidy
    rw [htail]
    have hend := textTail_isTail
      (baseText operation ((prior.bind ContentRecord.text).getD []) ++ text) contentItemBytes
    have hendTidy := textTail_endsHigh contentItemBytes (endsHigh_join hbase htext)
    generalize (textTail (baseText operation ((prior.bind ContentRecord.text).getD []) ++ text)
      contentItemBytes).text = tail at hend hendTidy ⊢
    have hitem : endsHigh ((baselineItem record tail offset known complete).text.getD []) = false :=
      hendTidy
    dsimp only
    rw [rememberPosition_eq]
    refine works_put hreads hsound hstates hitem (positions_remembered hsound.positions _) ?_
    intro view hcovers
    have hheld := baseText_tidy operation (hcovers.tidy draft.key)
    refine ⟨_, (hview view).trans (congrArg (Function.update view · _) hrow.symm),
      ⟨?_, rfl, hstatus.symm, htool.symm⟩, ?_⟩
    · rw [hflatten]
      have hjoin := (baseText_tail operation (hprior view hcovers)).append text hbase
        (hkey ▸ hheld)
      rw [hkey]
      exact hend.trans hjoin
    · rw [hflatten]
      exact endsHigh_join hheld htext

theorem Works.before (h : Works t u) (hring : SameRing s t) (hstates : t.states = s.states) :
    Works s u := by
  obtain ⟨news, hreads, hcovers⟩ := h.follows
  refine ⟨h.sound, h.published, [] ++ news, hring.reads.trans hreads, ?_⟩
  intro hkept view hview
  have hsequence : t.value.sequence = s.value.sequence := by rw [hring]
  exact hcovers (hsequence ▸ hkept) view (hstates ▸ hview)

theorem text_works (h : Sound s) (hpublished : Published s) (kind : Kind) (turnId itemId : String)
    (input : Units) (operation : TextOperation) (complete : Bool)
    (htidy : endsHigh (writtenText s (some turnId, itemId) input operation complete) = false) :
    Works s (text z s kind turnId itemId input operation complete).1 := by
  have hquiet {pending : List (Key × Units)} : Works s { s with pendingSurrogates := pending } :=
    works_quiet h hpublished rfl rfl rfl rfl
  unfold writtenText at htidy
  dsimp only at htidy
  unfold text
  dsimp only
  split
  · exact works_quiet h hpublished rfl rfl rfl rfl
  · generalize (if operation = .append then
      ((s.pendingSurrogates.find? fun entry => entry.1 == (some turnId, itemId)).map
        Prod.snd).getD [] ++ input else input) = whole at htidy ⊢
    split
    · exact hquiet
    · generalize hwritten : (if (!complete && endsHigh whole) = true then whole.dropLast
        else whole) = written at htidy ⊢
      generalize hwaiting : (if (!complete && endsHigh whole) = true then
          ({ s with pendingSurrogates := _ } : ContentBuffer)
        else _) = waiting
      have hsame : ∃ pending, waiting = { s with pendingSurrogates := pending } := by
        subst hwaiting
        split
        · exact ⟨_, rfl⟩
        · exact ⟨_, rfl⟩
      obtain ⟨pending, rfl⟩ := hsame
      split
      · exact hquiet
      · split
        · exact hquiet
        · have hheld : Works s { s with pendingSurrogates := pending } := hquiet
          have hworks := writeText_works (z := z) hheld.sound hheld.published kind turnId itemId
            htidy operation complete
          exact hworks.before rfl rfl

/-- A record with a lifecycle, which is its item as well. -/
theorem works_lifecycle (h : Sound s) {input : ContentRecord}
    (hoperation : input.operation = .lifecycle) (htext : endsHigh (input.text.getD []) = false)
    {positions : List ContentRecord} (hpositions : ∀ row ∈ positions, row.text = none) :
    Works s (boundStates z { (push z s input).1 with
      states := put (push z s input).1.states (push z s input).2, positions }) := by
  have hitem : endsHigh ((push z s input).2.text.getD []) = false := htext
  refine works_put (push_reads h input) (push_sound h input) rfl hitem hpositions ?_
  intro view hcovers
  have hheld := hcovers.tidy (push z s input).2.key
  have htaken : (takeRecord (push z s input).2 (view (push z s input).2.key)).text =
      input.text.getD (heldText (view (push z s input).2.key)) := by
    simp only [takeRecord, push, hoperation]
  refine ⟨_, rfl, ⟨?_, rfl, rfl, rfl⟩, ?_⟩
  · rw [htaken]
    cases htextof : input.text with
    | none =>
      have hnone : (push z s input).2.text = none := htextof
      rw [hnone]
      exact isTail_nil _
    | some written =>
      have hsome : (push z s input).2.text = some written := htextof
      rw [hsome]
      exact isTail_refl _
  · rw [htaken]
    cases htextof : input.text with
    | none => exact hheld
    | some written =>
      rw [htextof] at htext
      exact htext

theorem lifecycle_works (h : Sound s) (hpublished : Published s) (kind : Kind)
    (turnId : Option String) (itemId : String) (status : Option String) (text : Option Units)
    (htidy : endsHigh (text.getD []) = false) :
    Works s (lifecycle z s kind turnId itemId status text) := by
  unfold lifecycle
  dsimp only
  split
  · exact works_quiet h hpublished rfl rfl rfl rfl
  · exact works_lifecycle h rfl htidy h.positions

theorem tool_works (h : Sound s) (hpublished : Published s) (turnId itemId : String)
    (observation : ToolObservation) : Works s (tool z s turnId itemId observation).1 := by
  have hquiet : Works s s := works_quiet h hpublished rfl rfl rfl rfl
  unfold tool
  dsimp only
  generalize ToolObservation.mk _ _ _ _ _ = merged
  split
  · exact hquiet
  · split
    · exact hquiet
    · split
      · exact hquiet
      · dsimp only
        rw [rememberPosition_eq]
        exact works_lifecycle h rfl rfl (positions_remembered h.positions _)

theorem noteOmitted_works (h : Sound s) (hpublished : Published s) (records : Nat) :
    Works s (noteOmitted s records) :=
  works_quiet h hpublished rfl rfl rfl rfl

theorem unavailable_works (h : Sound s) (hpublished : Published s) : Works s (unavailable s) :=
  works_quiet h hpublished rfl rfl rfl rfl

theorem resetContext_sound (s : ContentBuffer) : Sound (resetContext s) :=
  ⟨rfl, rfl, List.nodup_nil, fun _ h => (List.not_mem_nil h).elim,
    fun _ h => (List.not_mem_nil h).elim⟩

end

/-! ### Polls -/

/-- What holds between the buffer and a reader at any time: a reader whose place is kept comes to
the items of the baseline by the records after it. -/
structure Tracked (w : World) : Prop where
  sound : Sound w.buffer
  published : Published w.buffer
  past : ∀ c, w.reader.cursor = some c → c.sequence ≤ w.buffer.value.sequence
  kept : ∀ c, w.reader.cursor = some c →
    w.buffer.value.contextBoundary ≤ c.sequence → w.buffer.value.droppedThrough ≤ c.sequence →
    Covers (w.reader.view.applyAll takeRecord (unread w.buffer c.sequence)) w.buffer.states

section
variable {z : Sizes} {w : World} {t : ContentBuffer}

theorem tracked_start (generation : String) : Tracked (start generation) :=
  ⟨⟨rfl, rfl, List.nodup_nil, fun _ h => (List.not_mem_nil h).elim,
    fun _ h => (List.not_mem_nil h).elim⟩, rfl, nofun, nofun⟩

theorem tracked_works (h : Tracked w) (hworks : Works w.buffer t) :
    Tracked { w with buffer := t } := by
  obtain ⟨news, hreads, hcovers⟩ := hworks.follows
  refine ⟨hworks.sound, hworks.published, ?_, ?_⟩
  · intro c hcursor
    exact (h.past c hcursor).trans hreads.sequence
  · intro c hcursor hboundary hkept
    have hpast := h.past c hcursor
    dsimp only at hboundary hkept ⊢
    rw [hreads.context] at hboundary
    rw [hreads.unread c.sequence hpast hkept, View.applyAll, List.foldl_append]
    exact hcovers (hkept.trans hpast) _ (h.kept c hcursor hboundary (hreads.dropped.trans hkept))

theorem tracked_resetContext (h : Tracked w) : Tracked { w with buffer := resetContext w.buffer } := by
  refine ⟨resetContext_sound w.buffer, rfl, ?_, ?_⟩
  · intro c hcursor
    exact Nat.le_succ_of_le (h.past c hcursor)
  · intro c hcursor hboundary _
    exact absurd (Nat.lt_of_succ_le hboundary) (Nat.not_lt.mpr (h.past c hcursor))

theorem resetFor_none {snapshot : ContentSnapshot} {cursor : Option ContentCursor}
    (h : resetFor snapshot cursor = none) :
    ∃ c, cursor = some c ∧ snapshot.contextBoundary ≤ c.sequence ∧
      snapshot.droppedThrough ≤ c.sequence ∧ c.sequence ≤ snapshot.sequence := by
  cases cursor with
  | none => cases h
  | some c =>
    refine ⟨c, rfl, ?_⟩
    simp only [resetFor] at h
    split at h
    · cases h
    · split at h
      · cases h
      · next hboundary =>
        split at h
        · cases h
        · next hgap =>
          rw [not_or] at hgap
          exact ⟨Nat.le_of_not_lt hboundary, Nat.le_of_not_lt hgap.1, Nat.le_of_not_lt hgap.2⟩

theorem ofBaseline_covers {s : ContentBuffer} (h : Sound s) :
    Covers (ofBaseline s.states) s.states where
  matches_ := by
    intro item hitem
    rw [ofBaseline, find_of_mem h.keys hitem]
    exact ⟨_, rfl, isTail_refl _, rfl, rfl, rfl⟩
  tidy := by
    intro key
    rw [ofBaseline]
    cases hfind : find key s.states with
    | none => rfl
    | some item => exact h.tidy item (find_key hfind).1

theorem poll_covers (h : Tracked w) :
    Covers (w.reader.poll takeRecord w.buffer.value).view w.buffer.states := by
  unfold Reader.poll contentFrame
  dsimp only
  split
  · next hreset =>
    obtain ⟨c, hcursor, hboundary, hkept, -⟩ := resetFor_none hreset
    rw [hcursor]
    exact h.kept c hcursor hboundary hkept
  · rw [h.published]
    exact ofBaseline_covers h.sound

theorem unread_end {s : ContentBuffer} (h : Sound s) : unread s s.value.sequence = [] := by
  have hcounted := h.counted
  rw [unread_of_sound h (by omega)]
  exact List.drop_eq_nil_of_le (by omega)

theorem tracked_poll (h : Tracked w) :
    Tracked { w with reader := w.reader.poll takeRecord w.buffer.value } := by
  refine ⟨h.sound, h.published, ?_, ?_⟩
  · intro c hcursor
    obtain rfl := Option.some.inj hcursor
    exact Nat.le_refl _
  · intro c hcursor _ _
    obtain rfl := Option.some.inj hcursor
    have hend : unread w.buffer (contentFrame w.buffer.value w.reader.cursor).sequence = [] :=
      unread_end h.sound
    dsimp only
    rw [hend]
    exact poll_covers h

theorem tracked_step (h : Tracked w) {e : Event} (htidy : isTidy w e = true) {w' : World}
    (hstep : step z takeRecord w e = some w') : Tracked w' := by
  have hs := h.sound
  have hp := h.published
  cases e with
  | text kind turnId itemId input operation complete =>
    obtain rfl := Option.some.inj hstep
    have hwritten : endsHigh (writtenText w.buffer (some turnId, itemId) input operation complete) =
        false := by simpa [isTidy] using htidy
    exact tracked_works h (text_works hs hp kind turnId itemId input operation complete hwritten)
  | lifecycle kind turnId itemId status text =>
    obtain rfl := Option.some.inj hstep
    have htext : endsHigh (text.getD []) = false := by simpa [isTidy] using htidy
    exact tracked_works h (lifecycle_works hs hp kind turnId itemId status text htext)
  | tool turnId itemId observation =>
    obtain rfl := Option.some.inj hstep
    exact tracked_works h (tool_works hs hp turnId itemId observation)
  | noteOmitted records =>
    obtain rfl := Option.some.inj hstep
    exact tracked_works h (noteOmitted_works hs hp records)
  | unavailable =>
    obtain rfl := Option.some.inj hstep
    exact tracked_works h (unavailable_works hs hp)
  | resetContext =>
    obtain rfl := Option.some.inj hstep
    exact tracked_resetContext h
  | poll =>
    obtain rfl := Option.some.inj hstep
    exact tracked_poll h

theorem frame_numbers (h : Tracked w) {c : ContentCursor} (hcursor : w.reader.cursor = some c)
    (hreset : (contentFrame w.buffer.value w.reader.cursor).reset = none) :
    (contentFrame w.buffer.value w.reader.cursor).records.map ContentRecord.sequence =
      List.range' (c.sequence + 1) (w.buffer.value.sequence - c.sequence) := by
  obtain ⟨c', hcursor', -, hkept, hpast⟩ := resetFor_none hreset
  obtain rfl := Option.some.inj (hcursor.symm.trans hcursor')
  have hrecords : (contentFrame w.buffer.value w.reader.cursor).records =
      unread w.buffer c.sequence := by
    unfold contentFrame at hreset ⊢
    dsimp only at hreset ⊢
    rw [if_pos hreset, hcursor]
    rfl
  have hcounted := h.sound.counted
  rw [hrecords, unread_of_sound h.sound hkept, List.map_drop, h.sound.numbered, List.drop_range']
  congr 1
  · omega
  · omega

end

/-- For every sequence of operations on texts that are cut at most inside a pair, and every reader
that polls at any times with its last place: after a poll the reader has each item of the baseline,
with its size, status and tool, and its text ends in that of the item, up to a lone half that was
cut off and lost; without such a half it ends in exactly that text. A frame without a reset has
every record since the last frame. -/
theorem reader_has_baseline {z : Sizes} {generation : String} {events : List Event} {w : World}
    (hrun : run (step z takeRecord) (start generation) events = some w)
    (htidy : Along (step z takeRecord) (fun w e => isTidy w e = true) (start generation) events) :
    (∀ item ∈ w.buffer.value.baseline, ∃ seen,
      (w.reader.poll takeRecord w.buffer.value).view item.key = some seen ∧
        toWellFormed (item.text.getD []) <:+ toWellFormed seen.text ∧
        (isWhole seen.text = true → item.text.getD [] <:+ seen.text) ∧
        seen.totalBytes = item.totalBytes ∧ seen.status = item.status ∧ seen.tool = item.tool) ∧
      ∀ c, w.reader.cursor = some c →
        (contentFrame w.buffer.value w.reader.cursor).reset = none →
        (contentFrame w.buffer.value w.reader.cursor).records.map ContentRecord.sequence =
          List.range' (c.sequence + 1) (w.buffer.value.sequence - c.sequence) := by
  have htracked : Tracked w :=
    run_invariant_along (fun _ _ _ h htidy hstep => tracked_step h htidy hstep) hrun htidy
      (tracked_start generation)
  refine ⟨?_, fun c hcursor hreset => frame_numbers htracked hcursor hreset⟩
  intro item hitem
  rw [htracked.published] at hitem
  obtain ⟨seen, hseen, hmatches⟩ := (poll_covers htracked).matches_ item hitem
  exact ⟨seen, hseen, hmatches.text.wellFormed, hmatches.text.suffix, hmatches.totalBytes,
    hmatches.status, hmatches.tool⟩

/-- The records that are kept are the last ones of a count without gaps, and no item has two states,
whatever the buffer has dropped for its bytes. -/
theorem records_are_counted {z : Sizes} {generation : String} {events : List Event} {w : World}
    (hrun : run (step z takeRecord) (start generation) events = some w)
    (htidy : Along (step z takeRecord) (fun w e => isTidy w e = true) (start generation) events) :
    w.buffer.value.records.map ContentRecord.sequence =
        List.range' (w.buffer.value.droppedThrough + 1) w.buffer.value.records.length ∧
      w.buffer.value.droppedThrough + w.buffer.value.records.length = w.buffer.value.sequence ∧
        (w.buffer.states.map ContentRecord.key).Nodup := by
  have hsound : Sound w.buffer :=
    (run_invariant_along (fun _ _ _ h htidy hstep => tracked_step h htidy hstep) hrun htidy
      (tracked_start generation)).sound
  exact ⟨hsound.numbered, hsound.counted, hsound.keys⟩

def oneByte : Sizes := { record := fun _ => 1, states := fun _ => 1 }

/-- A pair that comes in two halves, and a poll between them. -/
def splitPair : List Event :=
  [.poll, .text .assistant "t" "i" [104, 0xD83D] .append false, .poll,
    .text .assistant "t" "i" [0xDE42] .append false]

theorem reader_has_baseline_splitPair :
    ∃ w, run (step oneByte takeRecord) (start "g") splitPair = some w ∧
      (∀ item ∈ w.buffer.value.baseline, ∃ seen,
        (w.reader.poll takeRecord w.buffer.value).view item.key = some seen ∧
          toWellFormed (item.text.getD []) <:+ toWellFormed seen.text ∧
          (isWhole seen.text = true → item.text.getD [] <:+ seen.text) ∧
          seen.totalBytes = item.totalBytes ∧ seen.status = item.status ∧
          seen.tool = item.tool) ∧
        ∀ c, w.reader.cursor = some c →
          (contentFrame w.buffer.value w.reader.cursor).reset = none →
          (contentFrame w.buffer.value w.reader.cursor).records.map ContentRecord.sequence =
            List.range' (c.sequence + 1) (w.buffer.value.sequence - c.sequence) := by
  have htidy : Along (step oneByte takeRecord) (fun w e => isTidy w e = true) (start "g")
      splitPair := along_of_check (by decide)
  refine ⟨_, rfl, reader_has_baseline ?_ htidy⟩
  rfl

theorem records_are_counted_splitPair :
    ∃ w, run (step oneByte takeRecord) (start "g") splitPair = some w ∧
      w.buffer.value.droppedThrough + w.buffer.value.records.length = w.buffer.value.sequence := by
  have htidy : Along (step oneByte takeRecord) (fun w e => isTidy w e = true) (start "g")
      splitPair := along_of_check (by decide)
  refine ⟨_, rfl, (records_are_counted ?_ htidy).2.1⟩
  rfl

/-- A request carries its text in a lifecycle record: a reader that takes only the status and the
tool from such a record never has it. -/
theorem status_alone_lacks_text :
    ∃ w, run (step oneByte takeStatus) (start "g")
        [.poll, .lifecycle .request none "r" (some "pending") (some [111, 107])] = some w ∧
      ∃ item ∈ w.buffer.value.baseline, ∀ seen,
        (w.reader.poll takeStatus w.buffer.value).view item.key = some seen →
        ¬ item.text.getD [] <:+ seen.text := by
  refine ⟨_, rfl, _, List.mem_singleton_self _, ?_⟩
  intro seen hseen
  obtain rfl := Option.some.inj hseen
  decide

end Ccmux.Content.BufferRun
