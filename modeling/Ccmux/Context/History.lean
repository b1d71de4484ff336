/- Module: Ccmux/Context/History
   source: src/context/history.ts, src/context/schema.ts, src/attachments/reference.ts
   digest: A page of native history, cut down to what one answer may hold, and the cursor on it. -/

import Ccmux.Chat.Format
import Ccmux.Chat.Message
import Ccmux.Content.Buffer
import Ccmux.Context.MessageMatch
import Ccmux.Lib.Paging
import Ccmux.Runtime.Mailbox

namespace Ccmux.Context.History

open Ccmux.Chat.Format (utf16Length)
open Ccmux.Chat.Identity (AgentKind)
open Ccmux.Chat.Message (AttachmentReference)
open Ccmux.Content.Buffer (ToolObservation)
open Ccmux.Context.MessageMatch (EntryKind)
open Ccmux.Lib.Paging (fitting)
open Ccmux.Runtime.Mailbox (AppError)

/-! `HISTORY_LIMITS`. -/

def maxEntries : Nat := 64

def textBytes : Nat := 128 * 1024

def itemBytes : Nat := 16 * 1024

/-- The most units of a cursor, in an answer or in what it wraps. -/
def maxCursor : Nat := 8192

/-! `ATTACHMENT_LIMITS`. -/

def imagesPerMessage : Nat := 4

def messageBytes : Nat := 16 * 1024 * 1024

/-- `z.string().min(1).max(max)`. -/
def within (max : Nat) (text : String) : Bool :=
  decide (1 ≤ utf16Length text ∧ utf16Length text ≤ max)

/-- `Id`. -/
def isId (id : String) : Bool := within 256 id

inductive EntryStatus where
  | inProgress | completed | failed | unknown
  deriving DecidableEq, Repr

structure NativeHistoryEntry where
  turnId : String
  itemId : String
  kind : EntryKind
  text : Option String
  omittedBytes : Nat
  images : List AttachmentReference
  omittedImages : Nat
  status : EntryStatus
  tool : Option ToolObservation
  deriving DecidableEq, Repr

inductive Completeness where
  | complete | more | unknown
  deriving DecidableEq, Repr

structure NativeHistoryPage where
  runtime : AgentKind
  nativeId : String
  revision : Nat
  entries : List NativeHistoryEntry
  nextCursor : Option String
  completeness : Completeness
  omittedItems : Nat
  omittedBytes : Nat
  deriving DecidableEq, Repr

inductive Schema where
  | message | header | partsCursor | cursor | entry | page
  deriving DecidableEq, Repr

inductive HistoryError where
  | app (error : AppError)
  | refused (schema : Schema)
  | thrown (message : String)
  deriving DecidableEq, Repr

def cursorInvalid : AppError := ⟨"HISTORY_CURSOR", "Native history cursor is invalid", 409⟩

def cursorForeign : AppError :=
  ⟨"HISTORY_CURSOR", "Native history cursor no longer belongs to this context", 409⟩

/-- `limit` of `NativeHistoryQuerySchema`. -/
abbrev Limit := { limit : Nat // 1 ≤ limit ∧ limit ≤ maxEntries }

/-- Values written as a text, from which they can be read again. -/
structure Codec (α : Type) where
  encode : α → String
  decode : String → Option α
  decode_encode : ∀ value, decode (encode value) = some value

/-! ### The cursor -/

/-- What a cursor wraps; its text is the JSON in `base64url`. -/
structure HistoryCursor where
  registration : String
  nativeId : String
  revision : Nat
  generation : Option String
  cursor : String
  deriving DecidableEq, Repr

/-- `CursorSchema`; the ids of a registration and a generation are made by `randomUUID`. -/
def HistoryCursor.valid (c : HistoryCursor) : Bool := isId c.nativeId && within maxCursor c.cursor

/-- What a page tells of the session it is of: the native id is one its journal accepted. -/
structure Owner where
  runtime : AgentKind
  registration : String
  nativeId : String
  revision : Nat
  generation : Option String
  known : isId nativeId = true

section
variable (codec : Codec HistoryCursor) (o : Owner)

def historyCursor : Option String → Except HistoryError (Option String)
  | none => .ok none
  | some text =>
    match (codec.decode text).filter HistoryCursor.valid with
    | none => .error (.app cursorInvalid)
    | some parsed =>
      if parsed.registration ≠ o.registration ∨ parsed.nativeId ≠ o.nativeId ∨
          parsed.revision ≠ o.revision ∨ parsed.generation ≠ o.generation then
        .error (.app cursorForeign)
      else .ok (some parsed.cursor)

def wrapped (cursor : String) : HistoryCursor :=
  ⟨o.registration, o.nativeId, o.revision, o.generation, cursor⟩

@[grind =]
def encodeHistoryCursor : Option String → Except HistoryError (Option String)
  | none => .ok none
  | some cursor =>
    if (wrapped o cursor).valid then .ok (some (codec.encode (wrapped o cursor)))
    else .error (.refused .cursor)

variable {text : String}

theorem historyCursor_encode {cursor : String}
    (h : encodeHistoryCursor codec o (some cursor) = .ok (some text)) :
    historyCursor codec o (some text) = .ok (some cursor) := by
  simp only [encodeHistoryCursor] at h
  split at h
  · rename_i hvalid
    have htext : codec.encode (wrapped o cursor) = text := by simpa using h
    rw [historyCursor, ← htext, codec.decode_encode, Option.filter_some, if_pos hvalid]
    simp [wrapped]
  · exact absurd h (by simp)

variable {next : Option String}

theorem encode_eq_none_iff :
    encodeHistoryCursor codec o next = .ok none ↔ next = none := by
  cases next with
  | none => simp [encodeHistoryCursor]
  | some cursor =>
    simp only [encodeHistoryCursor]
    split <;> simp

theorem encode_some (h : encodeHistoryCursor codec o next = .ok (some text)) :
    ∃ cursor, next = some cursor ∧ text = codec.encode (wrapped o cursor) := by
  cases next with
  | none => exact absurd h (by simp [encodeHistoryCursor])
  | some cursor =>
    simp only [encodeHistoryCursor] at h
    split at h
    · exact ⟨cursor, rfl, by simpa using h.symm⟩
    · exact absurd h (by simp)

theorem encode_error {e : HistoryError} (h : encodeHistoryCursor codec o next = .error e) :
    e = .refused .cursor ∧ ∃ cursor, next = some cursor ∧ within maxCursor cursor = false := by
  cases next with
  | none => exact absurd h (by simp [encodeHistoryCursor])
  | some cursor =>
    simp only [encodeHistoryCursor] at h
    split at h
    · exact absurd h (by simp)
    · rename_i hvalid
      refine ⟨by simpa using h.symm, cursor, rfl, ?_⟩
      simpa [HistoryCursor.valid, wrapped, o.known] using hvalid

end

/-! ### The texts of a page -/

/-- The characters from the front that lie whole within `max` bytes, and the bytes left out. -/
@[grind =]
def boundedText (text : String) (max : Nat) : String × Nat :=
  if text.utf8ByteSize ≤ max then (text, 0)
  else
    let kept := String.ofList (fitting Char.utf8Size max 0 text.toList)
    (kept, text.utf8ByteSize - kept.utf8ByteSize)

/-- `NativeHistoryEntrySchema` on what the types leave open. -/
def NativeHistoryEntry.valid (entry : NativeHistoryEntry) : Bool :=
  isId entry.turnId && isId entry.itemId &&
    decide (entry.images.length ≤ imagesPerMessage ∧
      (entry.images.map AttachmentReference.bytes).sum ≤ messageBytes) &&
    entry.tool.all fun tool =>
      tool.callId.all isId && tool.name.all (within 128) &&
        (tool.lifecycle == .completed || (tool.outcome == .unknown && tool.exitCode.isNone))

/-- The text of an entry under what is left of the page's bytes. -/
@[grind =]
def boundedEntry (remaining : Nat) (entry : NativeHistoryEntry) : NativeHistoryEntry :=
  match entry.text with
  | none => entry
  | some text =>
    let value := boundedText text (min remaining itemBytes)
    { entry with text := some value.1, omittedBytes := entry.omittedBytes + value.2 }

def textSize (entry : NativeHistoryEntry) : Nat := (entry.text.map String.utf8ByteSize).getD 0

@[grind =]
def boundedEntries : Nat → List NativeHistoryEntry → Except HistoryError (List NativeHistoryEntry)
  | _, [] => .ok []
  | remaining, entry :: rest =>
    if (boundedEntry remaining entry).valid then
      (boundedEntries (remaining - textSize (boundedEntry remaining entry)) rest).map fun bounded =>
        boundedEntry remaining entry :: bounded
    else .error (.refused .entry)

section
variable (codec : Codec HistoryCursor) (o : Owner)

def boundedHistoryPage (entries : List NativeHistoryEntry) (next : Option String)
    (completeness : Completeness) (omittedItems : Nat) : Except HistoryError NativeHistoryPage := do
  let bounded ← boundedEntries textBytes (entries.take maxEntries)
  let nextCursor ← encodeHistoryCursor codec o next
  if nextCursor.all fun text => decide (utf16Length text ≤ maxCursor) then
    return {
      runtime := o.runtime
      nativeId := o.nativeId
      revision := o.revision
      entries := bounded
      nextCursor
      completeness
      omittedItems := omittedItems + (entries.length - bounded.length)
      omittedBytes := (bounded.map NativeHistoryEntry.omittedBytes).sum }
  else throw (.refused .page)

end

/-! ### What a page shows of its entries -/

/-- The entry as a page shows it: all of it but the end of its text, which is counted. -/
structure Trimmed (shown entry : NativeHistoryEntry) : Prop where
  same : shown = { entry with text := shown.text, omittedBytes := shown.omittedBytes }
  silent : entry.text = none → shown = entry
  text : ∀ text, entry.text = some text → ∃ kept omitted, shown.text = some kept ∧
    kept.toList <+: text.toList ∧ kept.utf8ByteSize + omitted = text.utf8ByteSize ∧
    shown.omittedBytes = entry.omittedBytes + omitted

theorem utf8ByteSize_ofList (chars : List Char) :
    (String.ofList chars).utf8ByteSize = (chars.map Char.utf8Size).sum := by
  induction chars with
  | nil => rfl
  | cons c rest ih =>
    rw [← List.singleton_append, String.ofList_append, String.utf8ByteSize_append, ih]
    simp

theorem boundedText_spec (text : String) (max : Nat) :
    (boundedText text max).1.toList <+: text.toList ∧
      (boundedText text max).1.utf8ByteSize + (boundedText text max).2 = text.utf8ByteSize := by
  unfold boundedText
  split
  · exact ⟨List.prefix_refl _, Nat.add_zero _⟩
  · have hfront : fitting Char.utf8Size max 0 text.toList <+: text.toList :=
      Lib.Paging.prefix_of_fitting 0 text.toList
    refine ⟨by simpa using hfront, ?_⟩
    have hle : (String.ofList (fitting Char.utf8Size max 0 text.toList)).utf8ByteSize ≤
        text.utf8ByteSize := by
      obtain ⟨rest, hrest⟩ := hfront
      have htext : text = String.ofList (fitting Char.utf8Size max 0 text.toList) ++
          String.ofList rest := by
        rw [← String.ofList_append, hrest, String.ofList_toList]
      have hsize := congrArg String.utf8ByteSize htext
      rw [String.utf8ByteSize_append] at hsize
      omega
    dsimp only
    omega

theorem boundedText_le (text : String) (max : Nat) :
    (boundedText text max).1.utf8ByteSize ≤ max := by
  unfold boundedText
  split
  · assumption
  · have hsum : 0 + ((fitting Char.utf8Size max 0 text.toList).map Char.utf8Size).sum ≤ max :=
      Lib.Paging.fitting_sum text.toList (Nat.zero_le max)
    rw [← utf8ByteSize_ofList] at hsum
    dsimp only
    omega

theorem trimmed_boundedEntry (remaining : Nat) (entry : NativeHistoryEntry) :
    Trimmed (boundedEntry remaining entry) entry := by
  unfold boundedEntry
  cases htext : entry.text with
  | none => exact ⟨by simp, fun _ => rfl, by simp [htext]⟩
  | some text =>
    obtain ⟨hfront, hbytes⟩ := boundedText_spec text (min remaining itemBytes)
    refine ⟨by simp, by simp [htext], fun held hheld => ?_⟩
    obtain rfl : text = held := Option.some.inj (htext.symm.trans hheld)
    exact ⟨_, _, rfl, hfront, hbytes, rfl⟩

@[simp] theorem boundedEntry_valid (remaining : Nat) (entry : NativeHistoryEntry) :
    (boundedEntry remaining entry).valid = entry.valid := by
  unfold boundedEntry
  cases entry.text <;> rfl

variable {entries : List NativeHistoryEntry} {remaining : Nat}

variable {bounded : List NativeHistoryEntry}

theorem boundedEntries_ok (h : boundedEntries remaining entries = .ok bounded) :
    List.Forall₂ Trimmed bounded entries := by
  induction entries generalizing remaining bounded with
  | nil =>
    obtain rfl : [] = bounded := by simpa [boundedEntries] using h
    exact List.Forall₂.nil
  | cons entry rest ih =>
    rw [boundedEntries] at h
    split at h
    · cases hrest : boundedEntries (remaining - textSize (boundedEntry remaining entry)) rest with
      | error e => exact absurd h (by simp [hrest, Except.map])
      | ok others =>
        obtain rfl : boundedEntry remaining entry :: others = bounded := by
          simpa [hrest, Except.map] using h
        exact List.Forall₂.cons (trimmed_boundedEntry _ _) (ih hrest)
    · exact absurd h (by simp)

theorem boundedEntries_error {e : HistoryError} (h : boundedEntries remaining entries = .error e) :
    e = .refused .entry ∧ ∃ entry ∈ entries, entry.valid = false := by
  induction entries generalizing remaining with
  | nil => exact absurd h (by simp [boundedEntries])
  | cons entry rest ih =>
    rw [boundedEntries, boundedEntry_valid] at h
    split at h
    · cases hrest : boundedEntries (remaining - textSize (boundedEntry remaining entry)) rest with
      | ok others => exact absurd h (by simp [hrest, Except.map])
      | error e' =>
        obtain rfl : e' = e := by simpa [hrest, Except.map] using h
        obtain ⟨he, bad, hbad, hinvalid⟩ := ih hrest
        exact ⟨he, bad, List.mem_cons_of_mem _ hbad, hinvalid⟩
    · rename_i hvalid
      exact ⟨by simpa using h.symm, entry, List.mem_cons_self, by simpa using hvalid⟩

/-- The texts of a page together stay in its bytes. -/
theorem boundedEntries_size (h : boundedEntries remaining entries = .ok bounded) :
    (bounded.map textSize).sum ≤ remaining := by
  induction entries generalizing remaining bounded with
  | nil =>
    obtain rfl : [] = bounded := by simpa [boundedEntries] using h
    exact Nat.zero_le _
  | cons entry rest ih =>
    have hfits : textSize (boundedEntry remaining entry) ≤ remaining := by
      unfold boundedEntry
      cases htext : entry.text with
      | none => simp [textSize, htext]
      | some text =>
        have hle := boundedText_le text (min remaining itemBytes)
        simp only [textSize, Option.map_some, Option.getD_some]
        omega
    rw [boundedEntries] at h
    split at h
    · cases hrest : boundedEntries (remaining - textSize (boundedEntry remaining entry)) rest with
      | error e => exact absurd h (by simp [hrest, Except.map])
      | ok others =>
        obtain rfl : boundedEntry remaining entry :: others = bounded := by
          simpa [hrest, Except.map] using h
        have hothers := ih hrest
        rw [List.map_cons, List.sum_cons]
        omega
    · exact absurd h (by simp)

theorem Trimmed.bytes {shown entry : NativeHistoryEntry} (h : Trimmed shown entry) :
    textSize shown + shown.omittedBytes = textSize entry + entry.omittedBytes := by
  cases htext : entry.text with
  | none => rw [h.silent htext]
  | some text =>
    obtain ⟨kept, omitted, hkept, -, hsize, homitted⟩ := h.text text htext
    simp only [textSize, hkept, htext, Option.map_some, Option.getD_some, homitted]
    omega

def noteEntry (text : String) : NativeHistoryEntry :=
  ⟨"t", "i", .user, some text, 0, [], 0, .completed, none⟩

section
variable {codec : Codec HistoryCursor} {o : Owner} {entries : List NativeHistoryEntry}
  {next : Option String} {completeness : Completeness} {omittedItems : Nat}

/-- What a page holds of the entries it was made of. -/
structure Bounds (codec : Codec HistoryCursor) (o : Owner) (entries : List NativeHistoryEntry)
    (next : Option String) (completeness : Completeness) (omittedItems : Nat)
    (page : NativeHistoryPage) : Prop where
  owner : (page.runtime, page.nativeId, page.revision) = (o.runtime, o.nativeId, o.revision)
  shown : List.Forall₂ Trimmed page.entries (entries.take maxEntries)
  wraps : encodeHistoryCursor codec o next = .ok page.nextCursor
  stage : page.completeness = completeness
  omitted : page.omittedItems = omittedItems + (entries.length - maxEntries)

variable {page : NativeHistoryPage}

theorem boundedHistoryPage_ok
    (h : boundedHistoryPage codec o entries next completeness omittedItems = .ok page) :
    Bounds codec o entries next completeness omittedItems page := by
  unfold boundedHistoryPage at h
  cases hbounded : boundedEntries textBytes (entries.take maxEntries) with
  | error e => exact absurd h (by simp [hbounded, bind, Except.bind])
  | ok bounded =>
    cases hnext : encodeHistoryCursor codec o next with
    | error e => exact absurd h (by simp [hbounded, hnext, bind, Except.bind])
    | ok nextCursor =>
      have hshown := boundedEntries_ok hbounded
      simp only [hbounded, hnext, bind, Except.bind] at h
      split at h
      · obtain rfl := Except.ok.inj h
        refine ⟨rfl, hshown, hnext, rfl, ?_⟩
        have hlength := hshown.length_eq
        rw [List.length_take] at hlength
        show omittedItems + (entries.length - bounded.length) = _
        omega
      · exact absurd h (by simp [throw, throwThe, MonadExceptOf.throw])

theorem Bounds.length_le (h : Bounds codec o entries next completeness omittedItems page) :
    page.entries.length ≤ maxEntries := by
  have hlength := h.shown.length_eq
  rw [List.length_take] at hlength
  omega

/-- A page is refused over an entry, over a cursor too long to be wrapped, or over one too long
when wrapped. -/
theorem boundedHistoryPage_error {e : HistoryError}
    (h : boundedHistoryPage codec o entries next completeness omittedItems = .error e) :
    (e = .refused .entry ∧ ∃ entry ∈ entries, entry.valid = false) ∨
    (e = .refused .cursor ∧ ∃ cursor, next = some cursor ∧ within maxCursor cursor = false) ∨
    (e = .refused .page ∧ ∃ text, encodeHistoryCursor codec o next = .ok (some text) ∧
      maxCursor < utf16Length text) := by
  unfold boundedHistoryPage at h
  cases hbounded : boundedEntries textBytes (entries.take maxEntries) with
  | error e' =>
    obtain rfl : e' = e := by simpa [hbounded, bind, Except.bind] using h
    obtain ⟨he, bad, hbad, hinvalid⟩ := boundedEntries_error hbounded
    exact .inl ⟨he, bad, List.mem_of_mem_take hbad, hinvalid⟩
  | ok bounded =>
    cases hnext : encodeHistoryCursor codec o next with
    | error e' =>
      obtain rfl : e' = e := by simpa [hbounded, hnext, bind, Except.bind] using h
      exact .inr (.inl (encode_error codec o hnext))
    | ok nextCursor =>
      simp only [hbounded, hnext, bind, Except.bind] at h
      split at h
      · exact absurd h (by simp [pure, Except.pure])
      · rename_i hlong
        have he : e = .refused .page := by
          simpa [throw, throwThe, MonadExceptOf.throw] using h.symm
        cases nextCursor with
        | none => exact absurd hlong (by simp)
        | some text => exact .inr (.inr ⟨he, text, rfl, by simpa using hlong⟩)

end

end Ccmux.Context.History
