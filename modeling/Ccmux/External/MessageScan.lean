/- Module: Ccmux/External/MessageScan
   source: src/external/message.ts, src/external/messageSchema.ts
   digest: One pass over a Codex history for one message, in the chunks a file or a decompressor
     hands on, and what the cuts between the chunks can hide. -/

import Ccmux.Lib.Pieces
import Ccmux.Lib.Text
import Ccmux.Chat.Format
import Ccmux.Transcript.Index

namespace Ccmux.External.MessageScan

open Ccmux.Chat.Format (utf16Length)
open Ccmux.Lib.Pieces
open Ccmux.Lib.Text (Chars firstMatch stripPrefix)
open Ccmux.Transcript.Index (asciiBuiltins)
open Ccmux.Transcript.Normalize (Json Builtins str field)

abbrev Bytes := List UInt8

/-- `EXTERNAL_MESSAGE_LIMITS.recordBytes`. -/
def recordBytes : Nat := 4 * 1024 * 1024

/-- `EXTERNAL_MESSAGE_LIMITS.turns`. -/
def maxTurns : Nat := 100000

def newline : UInt8 := 10

def bytesOf (text : String) : Bytes := text.toUTF8.data.toList

/-- `buffer.includes(part)`. -/
def includes (buffer part : Bytes) : Bool := decide (part <:+: buffer)

/-! ### Who submitted a message -/

inductive Position where
  | turnOpening | midTurn
  deriving DecidableEq, Repr

inductive Verdict where
  | person | notPerson | unverifiable
  deriving DecidableEq, Repr

structure Authorship where
  verdict : Verdict
  trigger : Option String
  position : Position
  reason : String
  deriving DecidableEq, Repr

/-- `PERSON_TRIGGERS`. -/
def personTriggers : List String := ["composer", "edit_user_message", "remote_android", "remote_ios"]

/-- `NON_PERSON_TRIGGERS`. -/
def nonPersonTriggers : List String :=
  ["app_tool_send_message", "automation_heartbeat_scheduled", "goal", "app_update_resume",
    "resume_interrupted_task"]

/-- The attribution speaks only for the input that opened the turn. -/
def attributeAuthorship (trigger : Option String) (position : Position) : Authorship :=
  match position, trigger with
  | .midTurn, _ =>
    { verdict := .unverifiable, trigger, position,
      reason := "input added to a running turn carries no attribution of its own" }
  | .turnOpening, none =>
    { verdict := .unverifiable, trigger, position, reason := "the turn has no recorded trigger" }
  | .turnOpening, some name =>
    if name ∈ personTriggers then
      { verdict := .person, trigger, position, reason := "a person started the turn it opened" }
    else if name ∈ nonPersonTriggers then
      { verdict := .notPerson, trigger, position,
        reason := "an agent, an automation or the client started the turn" }
    else
      { verdict := .unverifiable, trigger, position,
        reason := "the turn trigger does not identify who submitted the input" }

/-! ### The records -/

/-- A field that may be absent; the outer `none` is a value the schema refuses. -/
def optionalText : Option Json → Option (Option String)
  | none => some none
  | some (.str text) => some (some text)
  | some _ => none

/-- The fields of a value that is an object, and no array. -/
def object : Option Json → Option Json
  | some (.obj fields) => some (.obj fields)
  | _ => none

structure Part where
  type : String
  text : Option String

structure ItemRecord where
  timestamp : Option String
  threadId : String
  turnId : String
  itemType : String
  itemId : String
  clientId : Option String
  content : Option (List Part)

structure TurnStart where
  turnId : String
  trigger : Option String

def partOf (value : Json) : Option Part := do
  let part ← object (some value)
  let type ← str (field (some part) "type")
  let text ← optionalText (field (some part) "text")
  some { type, text }

def contentOf : Option Json → Option (Option (List Part))
  | none => some none
  | some (.arr parts) => (parts.mapM partOf).map some
  | some _ => none

/-- The payload of a record of this kind. -/
def payloadOf (value : Option Json) (type kind : String) : Option Json := do
  let record ← object value
  let payload ← object (field (some record) "payload")
  if str (field (some record) "type") = some type ∧
      str (field (some payload) "type") = some kind then some payload else none

/-- `ItemRecordSchema.safeParse`. -/
def itemRecord (value : Option Json) : Option ItemRecord := do
  let payload ← payloadOf value "event_msg" "item_completed"
  let timestamp ← optionalText (field value "timestamp")
  let threadId ← str (field (some payload) "thread_id")
  let turnId ← str (field (some payload) "turn_id")
  let item ← object (field (some payload) "item")
  let itemType ← str (field (some item) "type")
  let itemId ← str (field (some item) "id")
  let clientId ← optionalText (field (some item) "client_id")
  let content ← contentOf (field (some item) "content")
  some { timestamp, threadId, turnId, itemType, itemId, clientId, content }

/-- `turn_attribution?.turn_trigger`. -/
def triggerOf : Option Json → Option (Option String)
  | none => some none
  | some value => do
    let attribution ← object (some value)
    match ← optionalText (field (some attribution) "turn_trigger") with
    | none => some none
    | some trigger => if utf16Length trigger ≤ 64 then some (some trigger) else none

/-- `TurnStartSchema.safeParse`. -/
def turnStart (value : Option Json) : Option TurnStart := do
  let payload ← payloadOf value "event_msg" "task_started"
  let turnId ← str (field (some payload) "turn_id")
  let trigger ← triggerOf (field (some payload) "turn_attribution")
  some { turnId, trigger }

/-- `SessionMetaSchema.safeParse`, of which only the thread is used. -/
def sessionMeta (value : Option Json) : Option String := do
  let record ← object value
  let payload ← object (field (some record) "payload")
  if str (field (some record) "type") = some "session_meta" then str (field (some payload) "id")
  else none

/-- `TURN_ID` at the head of a text. -/
def turnIdAt (text : Chars) : Option String := do
  let rest ← stripPrefix "\"turn_id\":\"".toList text
  let id := String.ofList (rest.takeWhile fun c => c != '"')
  if 1 ≤ utf16Length id ∧ utf16Length id ≤ 128 ∧
      (rest.dropWhile fun c => c != '"').head? = some '"' then some id else none

/-! ### What the records say of the message -/

inductive Metadata where
  | unseen | thread | other
  deriving DecidableEq, Repr

structure Found where
  id : String
  clientId : Option String
  turnId : String
  recordedAt : Option String
  text : String
  images : Nat
  textBytes : Nat
  foreignParts : Bool
  authorship : Authorship
  deriving DecidableEq, Repr

/-- What `record` reads and writes: the state without `oversizedMatch`, and the turns. -/
structure Reading where
  metadata : Metadata
  itemsSeen : Bool
  found : Option Found
  ambiguous : Bool
  notUserInput : Bool
  turns : List (String × Option String)
  turnsWithInput : List String
  deriving DecidableEq, Repr

def Reading.start : Reading :=
  { metadata := .unseen, itemsSeen := false, found := none, ambiguous := false,
    notUserInput := false, turns := [], turnsWithInput := [] }

/-- `turns.set(turnId, trigger)`. -/
def setTurn (turnId : String) (trigger : Option String) :
    List (String × Option String) → List (String × Option String)
  | [] => [(turnId, trigger)]
  | (id, old) :: rest =>
    if id = turnId then (id, trigger) :: rest else (id, old) :: setTurn turnId trigger rest

/-- `turnsWithInput.add(turnId)`. -/
def addTurn (turnId : String) (turns : List String) : List String :=
  if turnId ∈ turns then turns else turns ++ [turnId]

structure Gathered where
  text : String
  images : Nat
  foreignParts : Bool

def gather (g : Gathered) (part : Part) : Gathered :=
  match part.text with
  | some text =>
    if part.type = "text" then { g with text := g.text ++ text }
    else if part.type ∈ ["image", "local_image"] then { g with images := g.images + 1 }
    else { g with foreignParts := true }
  | none =>
    if part.type ∈ ["image", "local_image"] then { g with images := g.images + 1 }
    else { g with foreignParts := true }

section
variable (b : Builtins) (threadId messageId : String)

/-- `parse`; a throw reads as `null`, which no schema takes. -/
def parse (buffer : Bytes) : Option Json := b.parseJson (b.utf8 buffer)

/-- A completed item that is the message. -/
def candidateOf (r : Reading) (item : ItemRecord) : Found :=
  let g := (item.content.getD []).foldl gather ⟨"", 0, false⟩
  let position := if item.turnId ∈ r.turnsWithInput then Position.midTurn else .turnOpening
  { id := item.itemId
    clientId := item.clientId
    turnId := item.turnId
    recordedAt := item.timestamp.bind b.isoTime
    text := g.text
    images := g.images
    textBytes := g.text.utf8ByteSize
    foreignParts := g.foreignParts
    authorship := attributeAuthorship ((r.turns.lookup item.turnId).getD none) position }

/-- A record of a completed item that mentions the message. -/
def mentioned (r : Reading) (item : ItemRecord) : Reading :=
  if item.itemId ≠ messageId then
    if item.itemType = "UserMessage" then
      { r with turnsWithInput := addTurn item.turnId r.turnsWithInput }
    else r
  else if item.threadId ≠ threadId then r
  else if item.itemType ≠ "UserMessage" then { r with notUserInput := true }
  else
    let candidate := candidateOf b r item
    let r := { r with turnsWithInput := addTurn item.turnId r.turnsWithInput }
    match r.found with
    | none => { r with found := some candidate }
    | some found =>
      if found.text ≠ candidate.text ∨ found.turnId ≠ candidate.turnId then
        { r with ambiguous := true }
      else r

/-- A completed item that does not mention the message: only its turn matters, and the turn id
precedes the item. -/
def unmentioned (r : Reading) (buffer : Bytes) : Reading :=
  if includes buffer (bytesOf "\"UserMessage\"") then
    match firstMatch turnIdAt (b.utf8 (buffer.take 1024)).toList with
    | some turn => { r with turnsWithInput := addTurn turn r.turnsWithInput }
    | none => r
  else r

def record (r : Reading) (buffer : Bytes) : Reading :=
  if r.metadata = .unseen then
    let same := sessionMeta (parse b buffer) = some threadId
    { r with metadata := if same then .thread else .other }
  else if includes buffer (bytesOf "\"task_started\"") then
    match turnStart (parse b buffer) with
    | some start =>
      if r.turns.length < maxTurns then { r with turns := setTurn start.turnId start.trigger r.turns }
      else r
    | none => r
  else if !includes buffer (bytesOf "\"item_completed\"") then r
  else
    let r := { r with itemsSeen := true }
    if !includes buffer (bytesOf messageId) then unmentioned b r buffer
    else
      match itemRecord (parse b buffer) with
      | some item => mentioned b threadId messageId r item
      | none => r

/-! ### The chunks -/

structure Scanner where
  reading : Reading
  oversizedMatch : Bool
  line : List Bytes
  lineBytes : Nat
  oversized : Bool
  tail : Bytes
  deriving DecidableEq, Repr

def Scanner.start : Scanner :=
  { reading := .start, oversizedMatch := false, line := [], lineBytes := 0, oversized := false,
    tail := [] }

/-- A piece of a chunk, up to a newline or the chunk's end. -/
def addPiece (sc : Scanner) (piece : Bytes) : Scanner :=
  let needle := bytesOf messageId
  if sc.oversized then
    -- the kept end is that of this piece alone, however short the piece is
    { sc with
      oversizedMatch := sc.oversizedMatch || includes (sc.tail ++ piece) needle
      tail := lastOf needle.length piece }
  else if sc.lineBytes + piece.length > recordBytes then
    let held := sc.line.flatten ++ piece
    { sc with
      oversized := true
      oversizedMatch := sc.oversizedMatch || includes held needle
      tail := lastOf needle.length held
      line := []
      lineBytes := 0 }
  else { sc with line := sc.line ++ [piece], lineBytes := sc.lineBytes + piece.length }

def endLine (sc : Scanner) : Scanner :=
  { sc with
    reading := if sc.oversized then sc.reading
      else record b threadId messageId sc.reading sc.line.flatten
    line := []
    lineBytes := 0
    oversized := false
    tail := [] }

/-- The loop over the newlines of a chunk. -/
def consume (sc : Scanner) (chunk : Bytes) : Scanner :=
  feed (addPiece messageId) (endLine b threadId messageId) sc (chunk.splitOn newline)

def scan (chunks : List Bytes) : Scanner := chunks.foldl (consume b threadId messageId) .start

/-! ### What the scan reads, by records -/

/-- A record within the limit is read, a longer one is passed over. -/
def readRecord (r : Reading) (buffer : Bytes) : Reading :=
  if buffer.length ≤ recordBytes then record b threadId messageId r buffer else r

def readRecords (records : List Bytes) : Reading :=
  records.foldl (readRecord b threadId messageId) .start

/-- The scanner inside the record that has not been ended. -/
@[grind =]
def OpenOk (sc : Scanner) (pieces : List Bytes) : Prop :=
  match passing recordBytes [] pieces with
  | none => sc.oversized = false ∧ sc.line = pieces ∧ sc.lineBytes = pieces.flatten.length
  | some (held, rest) =>
    sc.oversized = true ∧ sc.tail = lastOf (bytesOf messageId).length (rest.getLast?.getD held)

/-- The scanner and the pieces of the records it has seen. -/
structure Follows (sc : Scanner) (r : Records UInt8) : Prop where
  reading : sc.reading = readRecords b threadId messageId (r.whole.map List.flatten)
  oversizedMatch : sc.oversizedMatch = true ↔
    ∃ pieces ∈ r.all, Seen recordBytes (bytesOf messageId) pieces
  inRecord : OpenOk messageId sc r.rest

variable {b threadId messageId} {sc : Scanner} {r : Records UInt8}

variable {part : Bytes}

theorem exists_all_add {piece : Bytes} :
    (∃ pieces ∈ (r.add piece).all, Seen recordBytes part pieces) ↔
      (∃ pieces ∈ r.whole, Seen recordBytes part pieces) ∨
        Seen recordBytes part (r.rest ++ [piece]) := by
  simp [Records.add, Records.all, or_and_right, exists_or]

theorem exists_all :
    (∃ pieces ∈ r.all, Seen recordBytes part pieces) ↔
      (∃ pieces ∈ r.whole, Seen recordBytes part pieces) ∨ Seen recordBytes part r.rest := by
  simp [Records.all, or_and_right, exists_or]

theorem not_seen_of_passing {pieces : List Bytes} (h : passing recordBytes [] pieces = none) :
    ¬ Seen recordBytes part pieces := by
  rintro ⟨held, rest, hpassing, _⟩
  rw [h] at hpassing
  cases hpassing

theorem Follows.addPiece (h : Follows b threadId messageId sc r) (piece : Bytes) :
    Follows b threadId messageId (addPiece messageId sc piece) (r.add piece) := by
  have hmatch := h.oversizedMatch
  have hopen := h.inRecord
  rw [exists_all] at hmatch
  rw [OpenOk] at hopen
  cases hpassing : passing recordBytes [] r.rest with
  | some found =>
    obtain ⟨held, rest⟩ := found
    rw [hpassing] at hopen
    obtain ⟨hover, htail⟩ := hopen
    have hnext := passing_append_some hpassing piece
    rw [MessageScan.addPiece, if_pos hover]
    refine ⟨h.reading, ?_, ?_⟩
    · rw [exists_all_add, seen_append_some hpassing, ← or_assoc, ← hmatch, ← htail]
      simp [includes]
    · simp [OpenOk, Records.add, hnext, hover]
  | none =>
    rw [hpassing] at hopen
    obtain ⟨hover, hline, hbytes⟩ := hopen
    have hnext := passing_append_none hpassing piece
    have hseen := @seen_append_none _ _ (bytesOf messageId) _ hpassing piece
    rw [List.nil_append] at hnext
    have hold : sc.oversizedMatch = true ↔
        ∃ pieces ∈ r.whole, Seen recordBytes (bytesOf messageId) pieces := by
      rw [hmatch]
      exact or_iff_left (not_seen_of_passing hpassing)
    rw [MessageScan.addPiece, if_neg (by simp [hover])]
    by_cases hlong : recordBytes < (r.rest.flatten ++ piece).length
    · rw [if_pos hlong] at hnext
      have hbound : sc.lineBytes + piece.length > recordBytes := by
        rw [hbytes, ← List.length_append]
        exact hlong
      rw [if_pos hbound]
      refine ⟨h.reading, ?_, ?_⟩
      · rw [exists_all_add, hseen, ← hold, hline]
        simp only [includes, Bool.or_eq_true, decide_eq_true_eq, hlong, true_and]
      · simp [OpenOk, Records.add, hnext, hline]
    · rw [if_neg hlong] at hnext
      have hbound : ¬ sc.lineBytes + piece.length > recordBytes := by
        rw [hbytes, ← List.length_append]
        exact hlong
      rw [if_neg hbound]
      refine ⟨h.reading, ?_, ?_⟩
      · rw [exists_all_add, hseen, ← hold]
        exact (or_iff_left fun hno => hlong hno.1).symm
      · simp [OpenOk, Records.add, hnext, hline, hbytes, hover]

theorem Follows.endLine (h : Follows b threadId messageId sc r) :
    Follows b threadId messageId (endLine b threadId messageId sc) r.close := by
  have hopen := h.inRecord
  rw [OpenOk] at hopen
  refine ⟨?_, ?_, ?_⟩
  · rw [MessageScan.endLine, Records.close, List.map_append, readRecords, List.foldl_append,
      ← readRecords, ← h.reading, List.map_singleton, List.foldl_cons, List.foldl_nil, readRecord]
    cases hpassing : passing recordBytes [] r.rest with
    | some found =>
      obtain ⟨held, rest⟩ := found
      rw [hpassing] at hopen
      obtain ⟨hsame, hlong⟩ := passing_some hpassing
      rw [List.nil_append] at hsame
      have hnot : ¬ r.rest.flatten.length ≤ recordBytes := by
        rw [hsame, List.length_append]
        omega
      simp only [hopen.1, if_true, if_neg hnot]
    | none =>
      rw [hpassing] at hopen
      have hshort : r.rest.flatten.length ≤ recordBytes := by
        have hle := passing_none (Nat.zero_le recordBytes) hpassing
        rwa [List.nil_append] at hle
      simp only [hopen.1, Bool.false_eq_true, if_false, hopen.2.1, if_pos hshort]
  · have hmatch := h.oversizedMatch
    have hempty : ¬ Seen recordBytes (bytesOf messageId) [] := not_seen_nil
    rw [exists_all] at hmatch ⊢
    rw [MessageScan.endLine, hmatch, Records.close]
    simp [hempty, or_and_right, exists_or]
  · simp [OpenOk, MessageScan.endLine, Records.close, passing]

variable (b threadId messageId)

theorem follows_start : Follows b threadId messageId .start ⟨[], []⟩ := by
  refine ⟨rfl, ?_, ?_⟩
  · simp [Scanner.start, Records.all, not_seen_nil]
  · simp [OpenOk, Scanner.start, passing]

theorem follows_scan (chunks : List Bytes) :
    Follows b threadId messageId (scan b threadId messageId chunks) (recordsOf newline chunks) := by
  have hloop : ∀ (chunks : List Bytes) (sc : Scanner) (r : Records UInt8),
      Follows b threadId messageId sc r →
      Follows b threadId messageId (chunks.foldl (consume b threadId messageId) sc)
        (chunks.foldl
          (fun r chunk => feed Records.add Records.close r (chunk.splitOn newline)) r) := by
    intro chunks
    induction chunks with
    | nil => exact fun _ _ h => h
    | cons chunk rest ih =>
      intro sc r h
      refine ih _ _ (feed_rel ?_ ?_ h (chunk.splitOn newline))
      · exact fun _ _ piece hfollows => hfollows.addPiece piece
      · exact fun _ _ hfollows => hfollows.endLine
  exact hloop chunks _ _ (follows_start b threadId messageId)

/-! ### Every cut into chunks -/

structure State where
  reading : Reading
  oversizedMatch : Bool
  deriving DecidableEq, Repr

def Scanner.state (sc : Scanner) : State := ⟨sc.reading, sc.oversizedMatch⟩

/-- A record over the limit, ended or not, has the message id in it. -/
def LongRecordHolds (history : Bytes) : Prop :=
  ∃ text ∈ history.splitOn newline, recordBytes < text.length ∧ bytesOf messageId <:+: text

/-- The chunks leave what the whole history leaves, and the oversized match is exact. -/
def ScansAsOne (chunks : List Bytes) : Prop :=
  (scan b threadId messageId chunks).state = (scan b threadId messageId [chunks.flatten]).state ∧
    ((scan b threadId messageId chunks).oversizedMatch = true ↔
      LongRecordHolds messageId chunks.flatten)

/-- The parts of some record, where what lies up to the chunk in which it passes the limit counts as
one, have the id in one of them or over two neighbours. -/
def IdInNeighbours (chunks : List Bytes) : Prop :=
  ∃ pieces ∈ (recordsOf newline chunks).all, Seen recordBytes (bytesOf messageId) pieces

theorem reading_scan (chunks : List Bytes) :
    (scan b threadId messageId chunks).reading =
      readRecords b threadId messageId (chunks.flatten.splitOn newline).dropLast := by
  have htexts := texts_recordsOf newline chunks
  rw [(follows_scan b threadId messageId chunks).reading, ← htexts]
  simp [Records.texts, Records.all]

theorem oversizedMatch_scan (chunks : List Bytes) :
    (scan b threadId messageId chunks).oversizedMatch = true ↔ IdInNeighbours messageId chunks :=
  (follows_scan b threadId messageId chunks).oversizedMatch

theorem longRecordHolds_of_neighbours {chunks : List Bytes} (h : IdInNeighbours messageId chunks) :
    LongRecordHolds messageId chunks.flatten := by
  obtain ⟨pieces, hmem, hseen⟩ := h
  refine ⟨pieces.flatten, ?_, hseen.infix⟩
  rw [← texts_recordsOf newline chunks]
  exact List.mem_map_of_mem hmem

theorem neighbours_whole (history : Bytes) :
    IdInNeighbours messageId [history] ↔ LongRecordHolds messageId history := by
  constructor
  · intro h
    simpa using longRecordHolds_of_neighbours messageId h
  · rintro ⟨text, hmem, hholds⟩
    cases hsplit : history.splitOn newline with
    | nil => exact absurd hsplit (List.splitOn_ne_nil newline history)
    | cons piece rest =>
      refine ⟨[text], ?_, seen_singleton.mpr hholds⟩
      rw [recordsOf, List.foldl_cons, List.foldl_nil, hsplit, all_feed_fresh, List.nil_append]
      rw [hsplit] at hmem
      exact List.mem_map.mpr ⟨text, hmem, rfl⟩

/-- The chunks scan as one exactly where the id is in no record over the limit, or in one of them
within two neighbouring parts. -/
theorem scansAsOne_iff (chunks : List Bytes) :
    ScansAsOne b threadId messageId chunks ↔
      (LongRecordHolds messageId chunks.flatten → IdInNeighbours messageId chunks) := by
  have hreading : (scan b threadId messageId chunks).reading =
      (scan b threadId messageId [chunks.flatten]).reading := by
    rw [reading_scan, reading_scan]
    simp
  have hwhole : (scan b threadId messageId [chunks.flatten]).oversizedMatch = true ↔
      LongRecordHolds messageId chunks.flatten := by
    rw [oversizedMatch_scan]
    exact neighbours_whole messageId chunks.flatten
  have hchunks := oversizedMatch_scan b threadId messageId chunks
  constructor
  · rintro ⟨_, hexact⟩ hholds
    exact hchunks.mp (hexact.mpr hholds)
  · intro hneighbours
    have hexact : (scan b threadId messageId chunks).oversizedMatch = true ↔
        LongRecordHolds messageId chunks.flatten :=
      ⟨fun h => longRecordHolds_of_neighbours messageId (hchunks.mp h),
        fun h => hchunks.mpr (hneighbours h)⟩
    have hsame : (scan b threadId messageId chunks).oversizedMatch =
        (scan b threadId messageId [chunks.flatten]).oversizedMatch :=
      Bool.eq_iff_iff.mpr (hexact.trans hwhole.symm)
    exact ⟨by rw [Scanner.state, Scanner.state, hreading, hsame], hexact⟩

end

/-! ### An id over three chunks -/

def filler : Bytes := List.replicate (recordBytes + 1) 120

def someId : String := "0197a3c2-7c1e-7d55-9b1a-3f6f0c2d8e41"

/-- A record that passes the limit, and then the id in chunks of twelve bytes. -/
def thirds : List Bytes :=
  [filler, (bytesOf someId).take 12, ((bytesOf someId).drop 12).take 12, (bytesOf someId).drop 24]

theorem lastOf_filler : lastOf (bytesOf someId).length filler = List.replicate 36 120 := by
  have hlen : (bytesOf someId).length = 36 := by decide
  rw [lastOf, filler, hlen, List.length_replicate, List.drop_replicate]
  rfl

theorem not_infix_filler : ¬ bytesOf someId <:+: filler := by
  intro h
  have hmem : (48 : UInt8) ∈ filler := h.subset (by decide)
  exact absurd (List.eq_of_mem_replicate hmem) (by decide)

theorem recordsOf_thirds : (recordsOf newline thirds).all = [thirds] := by
  have hfiller : newline ∉ filler := by
    intro h
    exact absurd (List.eq_of_mem_replicate h) (by decide)
  have hsplit : ∀ chunk ∈ thirds, chunk.splitOn newline = [chunk] := by
    intro chunk hchunk
    refine List.splitOn_eq_singleton ?_
    rcases List.mem_cons.mp hchunk with rfl | hid
    · exact hfiller
    · have hrest : ∀ piece ∈ thirds.tail, newline ∉ piece := by decide
      exact hrest chunk hid
  simp only [thirds, List.mem_cons, List.not_mem_nil, or_false, forall_eq_or_imp, forall_eq]
    at hsplit
  obtain ⟨hfirst, hsecond, hthird, hlast⟩ := hsplit
  simp only [recordsOf, thirds, List.foldl_cons, List.foldl_nil, hfirst, hsecond, hthird, hlast,
    feed, Records.add, Records.all, List.nil_append, List.cons_append]

theorem not_neighbours_thirds : ¬ IdInNeighbours someId thirds := by
  rintro ⟨pieces, hmem, held, rest, hpassing, hseen⟩
  rw [recordsOf_thirds, List.mem_singleton] at hmem
  have hlong : recordBytes < ([] ++ filler).length := by
    rw [List.nil_append, filler, List.length_replicate]
    exact Nat.lt_succ_self recordBytes
  rw [hmem, thirds, passing, if_pos hlong] at hpassing
  obtain ⟨rfl, rfl⟩ := Prod.mk.inj (Option.some.inj hpassing)
  rw [List.nil_append, InNeighbours, infix_append_iff, lastOf_filler] at hseen
  rcases hseen with (hfiller | hfirst) | hlater
  · exact not_infix_filler hfiller
  · exact absurd hfirst (by decide)
  · exact absurd hlater (by simp only [InNeighbours]; decide)

theorem longRecordHolds_thirds : LongRecordHolds someId thirds.flatten := by
  have htexts := texts_recordsOf newline thirds
  rw [LongRecordHolds, ← htexts, Records.texts, recordsOf_thirds]
  refine ⟨thirds.flatten, by simp, ?_, ?_⟩
  · rw [thirds, List.flatten_cons, List.length_append, filler, List.length_replicate]
    omega
  · have hid : thirds.tail.flatten = bytesOf someId := by decide
    have hwhole : thirds.flatten = filler ++ bytesOf someId := by
      rw [← hid]
      rfl
    rw [hwhole]
    exact (List.suffix_append filler (bytesOf someId)).isInfix

/-- The history has the id in a record over the limit, and the scan does not say so. -/
theorem id_over_three_chunks_is_missed :
    ¬ ScansAsOne (asciiBuiltins 0) "0197a3c2-0000-7000-8000-000000000001" someId thirds := by
  rintro ⟨_, hexact⟩
  have hmatch := hexact.mpr longRecordHolds_thirds
  exact not_neighbours_thirds ((oversizedMatch_scan _ _ someId thirds).mp hmatch)

end Ccmux.External.MessageScan
