/- Module: Ccmux/Context/HistoryRun
   source: src/context/opencode.ts, src/context/opencodeHistory.ts, src/context/claude.ts,
     src/context/nativeTranscriptHistory.ts
   digest: A native history followed by its cursors, with any limits on the way. -/

import Mathlib
import Ccmux.Context.ClaudeHistory
import Ccmux.Context.OpenCodeHistoryRun

namespace Ccmux.Context.HistoryRun

open Ccmux.Context.CompleteHistory
open Ccmux.Context.History
open Ccmux.Context.OpenCodeHistory
open Ccmux.Lib
open Ccmux.Lib.CursorWalk

/-! ### The entries of parts -/

theorem openCodeToolObservation_valid {part : Part} (hpart : part.valid = true) :
    (openCodeToolObservation part).callId.all isId = true ∧
      (openCodeToolObservation part).name.all (within 128) = true ∧
      ((openCodeToolObservation part).lifecycle = .completed ∨
        (openCodeToolObservation part).outcome = .unknown ∧
          (openCodeToolObservation part).exitCode = none) := by
  rw [Part.valid, Bool.and_eq_true] at hpart
  refine ⟨hpart.2, ?_, ?_⟩
  · simp only [openCodeToolObservation, observedToolName]
    cases hname : part.tool.filter (within 128) with
    | none => rfl
    | some name => exact (Option.filter_eq_some_iff.mp hname).2
  · cases hstate : part.state with
    | none => exact .inr ⟨by simp [openCodeToolObservation, hstate],
        by simp [openCodeToolObservation, hstate]⟩
    | some state =>
      cases hstatus : state.status with
      | pending => exact .inr ⟨by simp [openCodeToolObservation, hstate, hstatus],
          by simp [openCodeToolObservation, hstate, hstatus]⟩
      | running => exact .inr ⟨by simp [openCodeToolObservation, hstate, hstatus],
          by simp [openCodeToolObservation, hstate, hstatus]⟩
      | completed => exact .inl (by simp [openCodeToolObservation, hstate, hstatus])
      | error => exact .inl (by simp [openCodeToolObservation, hstate, hstatus])

/-- A part that the schema accepts makes an entry that the schema accepts. -/
theorem entryOf_valid (reference : String → Option StoredReference) {m : Message}
    (hm : m.valid = true) {row : Row} (hrow : row ∈ m.rows) :
    (entryOf reference row).valid = true := by
  obtain ⟨part, hpart, rfl⟩ := List.mem_map.mp hrow
  simp only [Message.valid, Bool.and_eq_true, List.all_eq_true] at hm
  obtain ⟨⟨⟨⟨hid, -⟩, hparent⟩, hparts⟩, -⟩ := hm
  have hvalid := hparts part hpart
  have hpartId : isId part.id = true := (Bool.and_eq_true _ _ ▸ hvalid).1
  have hturn : isId (m.info.parentID.getD m.info.id) = true := by
    cases hcase : m.info.parentID with
    | none => exact hid
    | some parent =>
      rw [hcase] at hparent
      exact hparent
  have himages : (entryOf reference (m.info, part)).images.length ≤ imagesPerMessage ∧
      ((entryOf reference (m.info, part)).images.map fun image => image.bytes).sum ≤ messageBytes := by
    simp only [entryOf]
    split
    · cases part.filename.filter fun name => name ≠ "" with
      | none => exact ⟨Nat.zero_le _, Nat.zero_le _⟩
      | some name =>
        cases hreference : reference name with
        | none => simp [hreference]
        | some stored =>
          have hbytes := stored.2
          have hlimit : imageBytes ≤ messageBytes := by decide
          simp only [Option.toList_some, List.filterMap_cons, hreference, Option.map_some,
            List.filterMap_nil, List.length_singleton, List.map_cons, List.map_nil, List.sum_cons,
            List.sum_nil]
          exact ⟨by decide, by omega⟩
    · exact ⟨Nat.zero_le _, Nat.zero_le _⟩
  have htool : (entryOf reference (m.info, part)).tool.all (fun tool =>
      tool.callId.all isId && tool.name.all (within 128) &&
        (tool.lifecycle == .completed || (tool.outcome == .unknown && tool.exitCode.isNone))) =
          true := by
    simp only [entryOf]
    split
    · obtain ⟨hcall, hname, hstage⟩ := openCodeToolObservation_valid hvalid
      rw [Option.all_some, hcall, hname]
      rcases hstage with hdone | ⟨houtcome, hexit⟩
      · simp [hdone]
      · simp [houtcome, hexit]
    · rfl
  simp only [NativeHistoryEntry.valid, Bool.and_eq_true, decide_eq_true_eq]
  exact ⟨⟨⟨hturn, hpartId⟩, himages⟩, htool⟩

/-! ### An OpenCode session -/

section
variable {h : NativeHistory} (p : Provider h) (codec : Codec PartsCursor)
  (cursors : Codec HistoryCursor) (o : Owner) (reference : String → Option StoredReference)

/-- A cursor this session's pages give out, or none. -/
def AtPage (h : NativeHistory) (codec : Codec PartsCursor) (cursors : Codec HistoryCursor)
    (o : Owner) : Option String → Prop
  | none => True
  | some text => ∃ inner, historyCursor cursors o (some text) = .ok (some inner) ∧
      AtParts h codec (some inner)

/-- The cursor of the parts under a cursor of the session. -/
def innerCursor (cursor : Option String) : Option String :=
  match historyCursor cursors o cursor with
  | .error _ => none
  | .ok inner => inner

/-- A page shows these parts, newest first: no more of them than were asked for, none left out. -/
structure ShowsParts (limit : Limit) (page : NativeHistoryPage) (rows : List Row) : Prop where
  few : rows.length ≤ limit.1
  shown : List.Forall₂ Trimmed page.entries (rows.reverse.map (entryOf reference))
  whole : Whole (o.runtime, o.nativeId, o.revision) page

/-- What a page may fail over: a message the schema refuses, a header that is none, or a cursor
that is too long, itself or when wrapped. -/
def FailsParts : HistoryError → Prop
  | .refused .message => ∃ m ∈ h.messages, m.valid = false
  | .refused .header => ∃ limit before header, (p.page limit before).2 = some header ∧
      within maxHeader header = false
  | .refused .cursor => ∃ cursor : PartsCursor, cursor.valid = true ∧
      within maxCursor (codec.encode cursor) = false
  | .refused .page => ∃ cursor : PartsCursor, cursor.valid = true ∧
      maxCursor < Chat.Format.utf16Length (cursors.encode (wrapped o (codec.encode cursor)))
  | _ => False

end

section
variable {h : NativeHistory} {p : Provider h} {codec : Codec PartsCursor}
  {cursors : Codec HistoryCursor} {o : Owner} {reference : String → Option StoredReference}

theorem innerCursor_spec {cursor : Option String} (hat : AtPage h codec cursors o cursor) :
    historyCursor cursors o cursor = .ok (innerCursor cursors o cursor) ∧
      AtParts h codec (innerCursor cursors o cursor) := by
  cases cursor with
  | none => exact ⟨rfl, trivial⟩
  | some text =>
    obtain ⟨inner, hcursor, hparts⟩ := hat
    have hinner : innerCursor cursors o (some text) = some inner := by
      unfold innerCursor
      rw [hcursor]
    rw [hinner]
    exact ⟨hcursor, hparts⟩

theorem failsParts_of_refused {e : HistoryError} (hrefused : Refused p e) :
    FailsParts p codec cursors o e := by
  match e, hrefused with
  | .refused .message, hbad => exact hbad
  | .refused .header, hbad => exact hbad

/-- Each page takes the newest parts off those left at its cursor. -/
theorem history_serves (p : Provider h) (codec : Codec PartsCursor) (cursors : Codec HistoryCursor)
    (o : Owner) (reference : String → Option StoredReference) : Serves
      (fun (limit : Limit) cursor => OpenCodeHistory.history p codec cursors o reference limit.1 cursor)
      NativeHistoryPage.nextCursor (AtPage h codec cursors o)
      (fun cursor => leftParts p codec (innerCursor cursors o cursor))
      (fun cursor => rankParts p codec (innerCursor cursors o cursor))
      (ShowsParts o reference) (FailsParts p codec cursors o) := by
  refine ⟨fun limit cursor e hat herror => ?_, fun limit cursor page hat hpage => ?_⟩
  · obtain ⟨hcursor, hinner⟩ := innerCursor_spec hat
    have hshown := parts_spec (p := p) limit.2.1 limit.2.2 hinner
    simp only [OpenCodeHistory.history, hcursor, bind, Except.bind] at herror
    cases hparts : parts p codec limit.1 (innerCursor cursors o cursor) with
    | error e' =>
      rw [hparts] at herror hshown
      obtain rfl : e' = e := by simpa using herror
      exact failsParts_of_refused hshown
    | ok page =>
      obtain ⟨items, next⟩ := page
      rw [hparts] at herror hshown
      obtain ⟨-, hrows, htakes⟩ := hshown
      have hnext : ∀ text, next = some text → ∃ c, codec.encode c = text ∧ c.valid = true := by
        rintro text rfl
        obtain ⟨c, hc, hvalid, -⟩ := htakes.1
        exact ⟨c, hc, hvalid⟩
      rcases boundedHistoryPage_error herror with ⟨-, entry, hentry, hbad⟩ |
        ⟨rfl, text, htext, hbad⟩ | ⟨rfl, text, hencode, hlong⟩
      · obtain ⟨row, hrow, rfl⟩ := List.mem_map.mp hentry
        obtain ⟨m, -, hvalid, hmem⟩ := hrows row hrow
        rw [entryOf_valid reference hvalid hmem] at hbad
        cases hbad
      · obtain ⟨c, rfl, hvalid⟩ := hnext text htext
        exact ⟨c, hvalid, hbad⟩
      · obtain ⟨inner, hinner, rfl⟩ := encode_some cursors o hencode
        obtain ⟨c, rfl, hvalid⟩ := hnext inner hinner
        exact ⟨c, hvalid, hlong⟩
  · obtain ⟨hcursor, hinner⟩ := innerCursor_spec hat
    have hshown := parts_spec (p := p) limit.2.1 limit.2.2 hinner
    simp only [OpenCodeHistory.history, hcursor, bind, Except.bind] at hpage
    cases hparts : parts p codec limit.1 (innerCursor cursors o cursor) with
    | error e' =>
      rw [hparts] at hpage
      cases hpage
    | ok served =>
      obtain ⟨items, next⟩ := served
      rw [hparts] at hpage hshown
      obtain ⟨hfew, -, htakes⟩ := hshown
      have hbounds := boundedHistoryPage_ok hpage
      dsimp only at hbounds
      have hwraps : encodeHistoryCursor cursors o next = .ok page.nextCursor := hbounds.wraps
      have hlength : ((items.flatMap Message.rows).map (entryOf reference)).length ≤ maxEntries := by
        rw [List.length_map]
        exact hfew.trans limit.2.2
      have hnone : next = none ↔ page.nextCursor = none := by
        rw [← encode_eq_none_iff cursors o, hwraps]
        simp
      refine ⟨(items.flatMap Message.rows).reverse, ⟨?_, ?_, ?_, ?_, ?_⟩, ?_⟩
      · rwa [List.length_reverse]
      · have hentries := hbounds.shown
        rwa [List.take_of_length_le hlength, ← List.reverse_reverse (items.flatMap _)] at hentries
      · exact hbounds.owner
      · rw [hbounds.omitted]
        omega
      · rw [hbounds.stage]
        simp only [hnone]
      · cases hpageNext : page.nextCursor with
        | none =>
          rw [hnone.mpr hpageNext] at htakes
          exact htakes
        | some text =>
          rw [hpageNext] at hwraps
          obtain ⟨inner, rfl, -⟩ := encode_some cursors o hwraps
          have hread := historyCursor_encode cursors o hwraps
          have hsame : innerCursor cursors o (some text) = some inner := by
            unfold innerCursor
            rw [hread]
          obtain ⟨hat', hleft, hrank⟩ := htakes
          refine ⟨⟨inner, hread, hat'⟩, ?_, ?_⟩
          · dsimp only
            rw [hsame]
            exact hleft
          · dsimp only
            rw [hsame]
            exact hrank

end

/-! ### A session followed to its start -/

section
variable {h : NativeHistory} (p : Provider h) (codec : Codec PartsCursor)
  (cursors : Codec HistoryCursor) (o : Owner) (reference : String → Option StoredReference)

def readSession (limit : Limit) (cursor : Option String) : Except HistoryError NativeHistoryPage :=
  OpenCodeHistory.history p codec cursors o reference limit.1 cursor

/-- The pages from the last one on, in conversation order. -/
def conversation (w : Walk Limit NativeHistoryPage HistoryError) : List NativeHistoryEntry :=
  w.pages.reverse.flatMap fun served => served.2.entries

/-- The pages hold no more than was asked for and leave nothing out, and together they show the
end of the session, each part of it once: all of it, unless an error cut them off. -/
structure FollowsParts (w : Walk Limit NativeHistoryPage HistoryError) : Prop where
  few : ∀ served ∈ w.pages, served.2.entries.length ≤ served.1.1 ∧
    served.2.entries.length ≤ maxEntries ∧ served.2.omittedItems = 0
  shown : ∃ rows, rows <:+ h.rows ∧ (w.error = none → rows = h.rows) ∧
    List.Forall₂ Trimmed (conversation w) (rows.map (entryOf reference))
  failed : ∀ e, w.error = some e → FailsParts p codec cursors o e

end

section
variable {h : NativeHistory} {p : Provider h} {codec : Codec PartsCursor}
  {cursors : Codec HistoryCursor} {o : Owner} {reference : String → Option StoredReference}

theorem itemId_of_trimmed {shown entry : NativeHistoryEntry} (htrim : Trimmed shown entry) :
    shown.itemId = entry.itemId := by
  rw [htrim.same]

variable {rows : List Row} {parts : List (List Row)} {w : Walk Limit NativeHistoryPage HistoryError}

theorem itemIds_eq {shown : List NativeHistoryEntry}
    (htrim : List.Forall₂ Trimmed shown (rows.map (entryOf reference))) :
    shown.map NativeHistoryEntry.itemId = rows.map fun row => row.2.id := by
  induction rows generalizing shown with
  | nil =>
    obtain rfl := List.forall₂_nil_right_iff.mp htrim
    rfl
  | cons row rest ih =>
    obtain ⟨first, others, hfirst, hothers, rfl⟩ := List.forall₂_cons_right_iff.mp htrim
    rw [List.map_cons, List.map_cons, ih hothers, itemId_of_trimmed hfirst]
    rfl

theorem conversation_shows {pages : List (Limit × NativeHistoryPage)}
    (hshown : List.Forall₂ (fun served rows => ShowsParts o reference served.1 served.2 rows)
      pages parts) :
    List.Forall₂ Trimmed (pages.reverse.flatMap fun served => served.2.entries)
      (parts.flatten.reverse.map (entryOf reference)) := by
  induction hshown with
  | nil => exact List.Forall₂.nil
  | cons hpage _ ih =>
    simp only [List.reverse_cons, List.flatMap_append, List.flatMap_singleton,
      List.flatten_cons, List.reverse_append, List.map_append]
    exact List.rel_append ih hpage.shown

theorem ShowsParts.length_eq {limit : Limit} {page : NativeHistoryPage}
    (hpage : ShowsParts o reference limit page rows) : page.entries.length = rows.length := by
  rw [hpage.shown.length_eq, List.length_map, List.length_reverse]

theorem followsParts_of_delivers
    (hdelivers : CursorWalk.Delivers h.rows.reverse (ShowsParts o reference)
      (FailsParts p codec cursors o) w parts) :
    FollowsParts p codec cursors o reference w := by
  refine ⟨fun served hserved => ?_, ⟨parts.flatten.reverse, ?_, fun hnone => ?_, ?_⟩,
    hdelivers.failed⟩
  · obtain ⟨rows, hrows⟩ : ∃ rows, ShowsParts o reference served.1 served.2 rows := by
      have hshown := hdelivers.shown
      obtain ⟨i, hi, rfl⟩ := List.mem_iff_getElem.mp hserved
      exact ⟨_, hshown.get hi (hshown.length_eq ▸ hi)⟩
    have hlength := hrows.length_eq
    have hfew := hrows.few
    have hlimit := served.1.2.2
    exact ⟨by omega, by omega, hrows.whole.omitted⟩
  · rw [← List.reverse_prefix, List.reverse_reverse]
    exact hdelivers.within
  · rw [hdelivers.whole hnone, List.reverse_reverse]
  · exact conversation_shows hdelivers.shown

theorem follows_parts (p : Provider h) (codec : Codec PartsCursor) (cursors : Codec HistoryCursor)
    (o : Owner) (reference : String → Option StoredReference) (asked : Nat → Limit) :
    ∃ w, walk (readSession p codec cursors o reference) NativeHistoryPage.nextCursor asked
        (h.rows.length + h.messages.length + 1) 0 none = some w ∧
      FollowsParts p codec cursors o reference w := by
  have hrank : rankParts p codec (innerCursor cursors o none) <
      h.rows.length + h.messages.length + 1 := by
    show h.rows.reverse.length + h.messages.length < _
    rw [List.length_reverse]
    omega
  have hstart : AtPage h codec cursors o none := trivial
  obtain ⟨w, parts, hwalk, hdelivers⟩ := walk_delivers
    (history_serves p codec cursors o reference) asked 0 hstart hrank
  exact ⟨w, hwalk, followsParts_of_delivers hdelivers⟩

/-- The request `completeNativeHistory` is given pages of. -/
def widest : Limit := ⟨maxEntries, by decide⟩

/-- What the whole of a session comes to: every part in order, or an error of its pages, or of the
budget when the session is beyond it. -/
def Completes (p : Provider h) (codec : Codec PartsCursor) (cursors : Codec HistoryCursor)
    (o : Owner) (reference : String → Option StoredReference)
    (size : List NativeHistoryEntry → Nat) (w : Walk Limit NativeHistoryPage HistoryError) :
    Except HistoryError (List NativeHistoryEntry) → Prop
  | .ok entries => List.Forall₂ Trimmed entries (h.rows.map (entryOf reference))
  | .error e => FailsParts p codec cursors o e ∨ e = .thrown overBudget ∧
      (transcriptBytes < pageBytes size w ∨ transcriptEntries < h.rows.length)

theorem pageEntries_eq (w : Walk Limit NativeHistoryPage HistoryError) :
    pageEntries w = (conversation w).length := by
  simp [pageEntries, conversation, List.length_flatMap, List.map_reverse]

theorem FollowsParts.entries_le (hw : FollowsParts p codec cursors o reference w) :
    pageEntries w ≤ h.rows.length := by
  obtain ⟨rows, hsuffix, -, hshown⟩ := hw.shown
  rw [pageEntries_eq, hshown.length_eq, List.length_map]
  exact hsuffix.length_le

theorem completes_parts (p : Provider h) (codec : Codec PartsCursor)
    (cursors : Codec HistoryCursor) (o : Owner) (reference : String → Option StoredReference)
    (size : List NativeHistoryEntry → Nat) :
    ∃ w r, walk (readSession p codec cursors o reference) NativeHistoryPage.nextCursor
        (fun _ => widest) (h.rows.length + h.messages.length + 1) 0 none = some w ∧
      completeNativeHistory size (readSession p codec cursors o reference widest)
        (h.rows.length + h.messages.length + 1) {} none = some r ∧
      Completes p codec cursors o reference size w r := by
  have hserves := history_serves p codec cursors o reference
  have hrank : rankParts p codec (innerCursor cursors o none) <
      h.rows.length + h.messages.length + 1 := by
    show h.rows.reverse.length + h.messages.length < _
    rw [List.length_reverse]
    omega
  have hstands : Stands (o.runtime, o.nativeId, o.revision)
      (fun cursor => leftParts p codec (innerCursor cursors o cursor)) (fun row : Row => row.2.id)
      (fun cursor => rankParts p codec (innerCursor cursors o cursor)) {} none := by
    refine ⟨nofun, ?_, fun row _ => List.not_mem_nil, fun seen hseen => absurd hseen
      List.not_mem_nil⟩
    show (h.rows.reverse.map fun row => row.2.id).Nodup
    rw [List.map_reverse]
    exact List.nodup_reverse.mpr h.partIds
  have hstart : AtPage h codec cursors o none := trivial
  obtain ⟨w, r, hwalk, hloop, hgathers⟩ := completeNativeHistory_gathers size hserves
    (fun _ page rows hpage => ⟨hpage.whole, by
      rw [itemIds_eq hpage.shown, List.map_reverse]⟩) widest (n := 0) hstart hrank hstands
  obtain ⟨w', hwalk', hfollows⟩ := follows_parts p codec cursors o reference fun _ => widest
  obtain rfl : w' = w := Option.some.inj (hwalk'.symm.trans hwalk)
  refine ⟨w', r, hwalk, hloop, ?_⟩
  cases r with
  | ok entries =>
    obtain ⟨hnone, -, -, hentries⟩ := hgathers
    obtain ⟨rows, -, hall, hshown⟩ := hfollows.shown
    have hconversation : entries = conversation w' := by
      rw [hentries]
      simp [conversation, List.flatMap_def, List.map_reverse]
    show List.Forall₂ Trimmed entries (h.rows.map (entryOf reference))
    rwa [hconversation, ← hall hnone]
  | error e =>
    rcases hgathers with herror | ⟨he, hover⟩
    · exact .inl (hfollows.failed e herror)
    · refine .inr ⟨he, ?_⟩
      have hle := hfollows.entries_le
      simp only [Nat.zero_add, List.length_nil] at hover
      omega

end

/-! ### A Claude transcript followed to its end -/

section
variable (reader : ClaudeHistory.LineReader) (cursors : Codec HistoryCursor) (o : Owner)
  (all : List String)

def readTranscript (limit : Limit) (cursor : Option String) :
    Except HistoryError NativeHistoryPage :=
  ClaudeHistory.history reader cursors o all limit.1 cursor

/-- No page holds more entries than it may, and together they show or count the entries of the
first lines, each once: of all lines, unless an error cut them off. -/
structure FollowsLines (w : Walk Limit NativeHistoryPage HistoryError) : Prop where
  few : ∀ served ∈ w.pages, served.2.entries.length ≤ maxEntries
  shown : ∃ parts : List (List NativeHistoryEntry),
    List.Forall₂ (fun served rows => ClaudeHistory.ShowsLines served.2 rows) w.pages parts ∧
    parts.flatten <+: all.flatMap (ClaudeHistory.lineEntries reader) ∧
    (w.error = none → parts.flatten = all.flatMap (ClaudeHistory.lineEntries reader))
  failed : ∀ e, w.error = some e → ClaudeHistory.FailsLines reader cursors o all e

theorem follows_lines (asked : Nat → Limit) :
    ∃ w, walk (readTranscript reader cursors o all) NativeHistoryPage.nextCursor asked
        (all.length + 1) 0 none = some w ∧ FollowsLines reader cursors o all w := by
  have hline : ClaudeHistory.lineOf cursors o none = 0 := rfl
  have hstart : ClaudeHistory.AtLine cursors o all none := trivial
  obtain ⟨w, parts, hwalk, hdelivers⟩ := walk_delivers
    (ClaudeHistory.history_serves reader cursors o all) asked 0 hstart
    (show all.length - ClaudeHistory.lineOf cursors o none < all.length + 1 by omega)
  have hleft : ClaudeHistory.leftLines reader cursors o all none =
      all.flatMap (ClaudeHistory.lineEntries reader) := by
    rw [ClaudeHistory.leftLines, hline, List.drop_zero]
  rw [hleft] at hdelivers
  refine ⟨w, hwalk, fun served hserved => ?_,
    ⟨parts, hdelivers.shown, hdelivers.within, hdelivers.whole⟩, hdelivers.failed⟩
  obtain ⟨i, hi, rfl⟩ := List.mem_iff_getElem.mp hserved
  have hpage := hdelivers.shown.get hi (hdelivers.shown.length_eq ▸ hi)
  have hlength := hpage.shown.length_eq
  rw [List.length_take] at hlength
  show (w.pages[i]).2.entries.length ≤ _
  have hsame : (w.pages.get ⟨i, hi⟩) = w.pages[i] := rfl
  rw [hsame] at hlength
  omega

end

/-! ### Following a history -/

/-- Whatever the limits on the way, a native history is followed to its end: every part of a
session and every entry of a transcript is shown once or counted, unless one of the bounds the
pages are checked against cuts the walk off; the whole of a session is its parts in order. -/
theorem native_history_followed {h : NativeHistory} (p : Provider h) (codec : Codec PartsCursor)
    (cursors : Codec HistoryCursor) (o : Owner) (reference : String → Option StoredReference)
    (size : List NativeHistoryEntry → Nat) (reader : ClaudeHistory.LineReader) (all : List String)
    (asked : Nat → Limit) :
    (∃ w, walk (readSession p codec cursors o reference) NativeHistoryPage.nextCursor asked
        (h.rows.length + h.messages.length + 1) 0 none = some w ∧
      FollowsParts p codec cursors o reference w) ∧
    (∃ w r, walk (readSession p codec cursors o reference) NativeHistoryPage.nextCursor
        (fun _ => widest) (h.rows.length + h.messages.length + 1) 0 none = some w ∧
      completeNativeHistory size (readSession p codec cursors o reference widest)
        (h.rows.length + h.messages.length + 1) {} none = some r ∧
      Completes p codec cursors o reference size w r) ∧
    ∃ w, walk (readTranscript reader cursors o all) NativeHistoryPage.nextCursor asked
        (all.length + 1) 0 none = some w ∧ FollowsLines reader cursors o all w :=
  ⟨follows_parts p codec cursors o reference asked,
    completes_parts p codec cursors o reference size, follows_lines reader cursors o all asked⟩

/-! ### A provider of pages, and values written as numbers -/

instance encodableChar : Encodable Char :=
  Encodable.ofLeftInverse Char.toNat Char.ofNat Char.ofNat_toNat

instance encodableString : Encodable String :=
  Encodable.ofLeftInverse String.toList String.ofList fun _ => String.ofList_toList

instance : Encodable PartsCursor :=
  Encodable.ofLeftInverse (fun c => (c.next, c.pending)) (fun c => ⟨c.1, c.2⟩) fun _ => rfl

instance : Encodable HistoryCursor :=
  Encodable.ofLeftInverse
    (fun c => (c.registration, c.nativeId, c.revision, c.generation, c.cursor))
    (fun c => ⟨c.1, c.2.1, c.2.2.1, c.2.2.2.1, c.2.2.2.2⟩) fun _ => rfl

def numbered (α : Type) [Encodable α] : Codec α where
  encode value := toString (Encodable.encode value)
  decode text := (Chat.LogFeed.parseInt text.toList).bind fun n => Encodable.decode n.toNat
  decode_encode value := by simp [Chat.LogFeed.parseInt_toDigits]

def listPlace (h : NativeHistory) : Option String → Nat
  | none => h.messages.length
  | some header => min h.messages.length ((Chat.LogFeed.parseInt header.toList).getD 0).toNat

def listPage (h : NativeHistory) (limit : Nat) (before : Option String) :
    List Message × Option String :=
  let place := listPlace h before
  ((h.messages.take place).drop (place - limit),
    if place ≤ limit then none else some (toString (place - limit)))

theorem listPlace_le (h : NativeHistory) (before : Option String) :
    listPlace h before ≤ h.messages.length := by
  cases before with
  | none => exact Nat.le_refl _
  | some header => exact Nat.min_le_left _ _

theorem listPage_serves (h : NativeHistory) (limit : Nat) (before : Option String)
    (hlimit : 0 < limit) : ∃ first, first ≤ listPlace h before ∧
      listPlace h before ≤ first + limit ∧ (0 < listPlace h before → first < listPlace h before) ∧
      (listPage h limit before).1 = (h.messages.take (listPlace h before)).drop first ∧
      ((listPage h limit before).2 = none → first = 0) ∧
      ∀ header, (listPage h limit before).2 = some header → listPlace h (some header) = first := by
  have hle := listPlace_le h before
  unfold listPage
  generalize listPlace h before = place at hle ⊢
  refine ⟨place - limit, by omega, by omega, by omega, rfl, fun hnone => ?_,
    fun header hheader => ?_⟩
  · dsimp only at hnone
    split at hnone
    · omega
    · cases hnone
  · dsimp only at hheader
    split at hheader
    · cases hheader
    · obtain rfl := Option.some.inj hheader
      simp [listPlace, Chat.LogFeed.parseInt_toDigits]
      omega

theorem listPage_ends (h : NativeHistory) (limit : Nat) (before : Option String) (_ : 0 < limit)
    (hplace : listPlace h before = 0) : (listPage h limit before).2 = none := by
  simp [listPage, hplace]

/-- The newest messages before a place, which the header writes as a number. -/
def listProvider (h : NativeHistory) : Provider h where
  place := listPlace h
  page := listPage h
  place_none := rfl
  serves := listPage_serves h
  ends := listPage_ends h

/-- One message of more parts than a message may have. -/
def crowdedMessage : Message where
  info := { id := "msg", sessionID := "ses", role := .assistant, completed := true }
  parts := (List.range 257).map fun i => { id := toString i, type := "text", text := some "x" }

def crowded : NativeHistory where
  sessionID := "ses"
  messages := [crowdedMessage]
  owned m hm := by
    obtain rfl := List.mem_singleton.mp hm
    rfl
  messageIds := List.nodup_singleton _
  partIds := by
    have hids : [crowdedMessage].flatMap Message.rows =
        (List.range 257).map fun i => (crowdedMessage.info,
          { id := toString i, type := "text", text := some "x" : Part }) := by
      simp [Message.rows, crowdedMessage]
    rw [hids, List.map_map]
    refine List.Nodup.map (fun i j hij => ?_) List.nodup_range
    have hread := congrArg (fun text : String => Chat.LogFeed.parseInt text.toList) hij
    simpa [Chat.LogFeed.parseInt_toDigits] using hread

def owner : Owner where
  runtime := .opencode
  registration := "registration"
  nativeId := "ses"
  revision := 1
  generation := none
  known := by decide

theorem crowdedMessage_invalid : crowdedMessage.valid = false := by
  simp [Message.valid, crowdedMessage, maxParts]

/-- The first page of such a session is refused, so that none of its parts is ever shown. -/
theorem crowded_never_shown :
    walk (readSession (listProvider crowded) (numbered PartsCursor) (numbered HistoryCursor) owner
        fun _ => none) NativeHistoryPage.nextCursor (fun _ => widest)
        (crowded.rows.length + crowded.messages.length + 1) 0 none =
      some ⟨[], some (.refused .message)⟩ ∧ crowded.rows.length = 257 := by
  have hrows : crowded.rows.length = 257 := by
    simp [NativeHistory.rows, crowded, Message.rows, crowdedMessage]
  have hpage : ((listProvider crowded).page maxEntries none).1 = [crowdedMessage] := rfl
  have hmessages : messages (listProvider crowded) maxEntries none =
      .error (.refused .message) := by
    simp [messages, hpage, crowdedMessage_invalid]
  have hread : readSession (listProvider crowded) (numbered PartsCursor) (numbered HistoryCursor)
      owner (fun _ => none) widest none = .error (.refused .message) := by
    simp [readSession, OpenCodeHistory.history, historyCursor, parts, widest, hmessages, bind,
      Except.bind]
  refine ⟨?_, hrows⟩
  rw [hrows]
  simp [walk, hread]

end Ccmux.Context.HistoryRun
