/- Module: Ccmux/Context/OpenCodeHistoryRun
   source: src/context/opencodeHistory.ts, src/context/opencode.ts
   digest: Each page takes the newest parts off what is left of the session, wherever its cursor
     points. -/

import Mathlib
import Ccmux.Context.OpenCodeHistory

namespace Ccmux.Context.OpenCodeHistory

open Ccmux.Context.CompleteHistory
open Ccmux.Context.History
open Ccmux.Lib.CursorWalk

/-! ### What a mark stands for -/

/-- The rows of a message up to the noted part. -/
def heldRows (h : NativeHistory) (mark : String × String) : List Row :=
  match h.messages.find? fun m => m.info.id == mark.1 with
  | none => []
  | some m =>
    match m.parts.findIdx? fun part => part.id == mark.2 with
    | none => []
    | some last => (m.parts.take (last + 1)).map fun part => (m.info, part)

/-- The mark names a part of a message of the session. -/
def Marks (h : NativeHistory) (mark : String × String) : Prop :=
  ∃ m ∈ h.messages, ∃ part ∈ m.parts, mark = (m.info.id, part.id)

/-- The first parts of a message that the schema accepts. -/
def Front (h : NativeHistory) (front : Message) : Prop :=
  ∃ m ∈ h.messages, m.valid = true ∧ ∃ n, front = { m with parts := m.parts.take n }

section
variable {h : NativeHistory}

variable {m : Message}

theorem find_message (hm : m ∈ h.messages) :
    (h.messages.find? fun other => other.info.id == m.info.id) = some m := by
  have hids := h.messageIds
  generalize h.messages = all at hids hm
  induction all with
  | nil => exact absurd hm List.not_mem_nil
  | cons first rest ih =>
    obtain ⟨hfirst, hrest⟩ := List.nodup_cons.mp (List.map_cons ▸ hids)
    rcases List.mem_cons.mp hm with rfl | hmem
    · exact List.find?_cons_of_pos (by simp)
    · have hne : (first.info.id == m.info.id) = false := by
        rw [beq_eq_false_iff_ne]
        intro heq
        exact hfirst (by rw [heq]; exact List.mem_map_of_mem hmem)
      rw [List.find?_cons, hne]
      exact ih hrest hmem

theorem nodup_parts (hm : m ∈ h.messages) :
    (m.parts.map fun part => part.id).Nodup := by
  have hsub : (m.rows.map fun row => row.2.id).Sublist
      ((h.messages.flatMap Message.rows).map fun row => row.2.id) := by
    refine List.Sublist.map _ ?_
    obtain ⟨before, behind, hsplit⟩ := List.append_of_mem hm
    rw [hsplit, List.flatMap_append, List.flatMap_cons]
    exact (List.sublist_append_left _ _).trans (List.sublist_append_right _ _)
  have hrows := h.partIds.sublist hsub
  rwa [Message.rows, List.map_map] at hrows

theorem findIdx_part {parts : List Part} (hids : (parts.map fun part => part.id).Nodup) {i : Nat}
    {part : Part} (hpart : parts[i]? = some part) :
    (parts.findIdx? fun other => other.id == part.id) = some i := by
  induction parts generalizing i with
  | nil => exact absurd hpart (by simp)
  | cons first rest ih =>
    obtain ⟨hfirst, hrest⟩ := List.nodup_cons.mp (List.map_cons ▸ hids)
    cases i with
    | zero =>
      obtain rfl : first = part := by simpa using hpart
      simp [List.findIdx?_cons]
    | succ i =>
      have hmem : part ∈ rest := List.mem_of_getElem? (by simpa using hpart)
      have hne : (first.id == part.id) = false := by
        rw [beq_eq_false_iff_ne]
        intro heq
        exact hfirst (by rw [heq]; exact List.mem_map_of_mem hmem)
      rw [List.findIdx?_cons, hne, ih hrest (by simpa using hpart)]
      rfl

theorem heldRows_at (hm : m ∈ h.messages) {i : Nat} {part : Part}
    (hpart : m.parts[i]? = some part) :
    heldRows h (m.info.id, part.id) = m.rows.take (i + 1) := by
  simp only [heldRows, find_message hm, findIdx_part (nodup_parts hm) hpart, Message.rows,
    List.map_take]

variable {mark : String × String}

theorem Marks.heldRows_ne_nil (hmark : Marks h mark) :
    heldRows h mark ≠ [] := by
  obtain ⟨m, hm, part, hpart, rfl⟩ := hmark
  obtain ⟨i, hi⟩ := List.mem_iff_getElem?.mp hpart
  rw [heldRows_at hm hi]
  have hne : m.rows ≠ [] := by
    intro hnil
    rw [Message.rows, List.map_eq_nil_iff] at hnil
    rw [hnil] at hpart
    exact absurd hpart List.not_mem_nil
  simpa using hne

/-! ### Reading messages back -/

theorem readThrough_spec (hmark : Marks h mark) :
    (∃ front, readThrough h mark = .ok front ∧ front.rows = heldRows h mark ∧ Front h front) ∨
      (readThrough h mark = .error (.refused .message) ∧ ∃ m ∈ h.messages, m.valid = false) := by
  obtain ⟨m, hm, part, hpart, rfl⟩ := hmark
  obtain ⟨i, hi⟩ := List.mem_iff_getElem?.mp hpart
  have hindex := findIdx_part (nodup_parts hm) hi
  cases hvalid : m.valid with
  | false =>
    refine .inr ⟨?_, m, hm, hvalid⟩
    simp [readThrough, find_message hm, hvalid]
  | true =>
    refine .inl ⟨{ m with parts := m.parts.take (i + 1) }, ?_, ?_, m, hm, hvalid, i + 1, rfl⟩
    · simp [readThrough, find_message hm, hvalid, h.owned m hm, hindex]
    · rw [heldRows_at hm hi]
      simp [Message.rows, List.map_take]

theorem readBatch_spec {marks : List (String × String)} (hmarks : ∀ mark ∈ marks, Marks h mark) :
    (∃ batch, marks.mapM (readThrough h) = .ok batch ∧ batch.length = marks.length ∧
      batch.flatMap Message.rows = marks.flatMap (heldRows h) ∧ ∀ front ∈ batch, Front h front) ∨
      (marks.mapM (readThrough h) = .error (.refused .message) ∧
        ∃ m ∈ h.messages, m.valid = false) := by
  induction marks with
  | nil => exact .inl ⟨[], rfl, rfl, rfl, by simp⟩
  | cons mark rest ih =>
    rw [List.mapM_cons]
    rcases readThrough_spec (hmarks mark List.mem_cons_self) with
      ⟨front, hfront, hrows, hcut⟩ | ⟨herror, hbad⟩
    · rcases ih fun other hother => hmarks other (List.mem_cons_of_mem _ hother) with
        ⟨batch, hbatch, hlength, hrest, hcuts⟩ | ⟨herror, hbad⟩
      · refine .inl ⟨front :: batch, ?_, by simp [hlength], ?_, ?_⟩
        · simp [hfront, hbatch, bind, Except.bind, pure, Except.pure]
        · rw [List.flatMap_cons, List.flatMap_cons, hrows, hrest]
        · exact List.forall_mem_cons.mpr ⟨hcut, hcuts⟩
      · refine .inr ⟨?_, hbad⟩
        simp [hfront, herror, bind, Except.bind]
    · refine .inr ⟨?_, hbad⟩
      simp [herror, bind, Except.bind]

/-- The messages read back, those of the newest marks: at least one, if there are marks. -/
structure ReadBack (h : NativeHistory) (limit : Nat) (pending : List (String × String))
    (stop count : Nat) (items : List Message) (unread : Nat) : Prop where
  le : unread ≤ stop
  length : items.length = stop - unread
  rows : items.flatMap Message.rows = ((pending.take stop).drop unread).flatMap (heldRows h)
  fronts : ∀ front ∈ items, Front h front
  moves : 0 < stop → count < limit → unread < stop

theorem take_drop_split {α : Type} {l : List α} {unread middle stop : Nat} (hlow : unread ≤ middle)
    (hhigh : middle ≤ stop) (hlength : stop ≤ l.length) :
    (l.take stop).drop unread = (l.take middle).drop unread ++ (l.take stop).drop middle := by
  have htake : l.take middle = (l.take stop).take middle := by
    rw [List.take_take, Nat.min_eq_left hhigh]
  have hsplit : l.take stop = l.take middle ++ (l.take stop).drop middle := by
    rw [htake, List.take_append_drop]
  have hlong : unread ≤ (l.take middle).length := by
    rw [List.length_take]
    omega
  conv_lhs => rw [hsplit, List.drop_append_of_le_length hlong]

/-- The loop reads back the newest marks, or meets a message the schema refuses. -/
theorem readBack_spec (limit count : Nat) (items : List Message) {pending : List (String × String)}
    (hmarks : ∀ mark ∈ pending, Marks h mark) {stop : Nat} (hstop : stop ≤ pending.length) :
    (∃ more unread, readBack h limit pending stop count items = .ok (more ++ items, unread) ∧
      ReadBack h limit pending stop count more unread) ∨
      (readBack h limit pending stop count items = .error (.refused .message) ∧
        ∃ m ∈ h.messages, m.valid = false) := by
  induction stop using Nat.strongRecOn generalizing count items with
  | _ stop ih =>
    rw [readBack]
    split
    · rename_i hmore
      have hsub : ∀ mark ∈ (pending.take stop).drop (stop - 8), Marks h mark := fun mark hmark =>
        hmarks mark (List.mem_of_mem_take (List.mem_of_mem_drop hmark))
      rcases readBatch_spec hsub with ⟨batch, hbatch, hlength, hrows, hfronts⟩ | ⟨herror, hbad⟩
      · rw [hbatch]
        dsimp only
        rcases ih (stop - 8) (by omega) (count + countParts batch) (batch ++ items)
          (by omega) with ⟨more, unread, hread, hback⟩ | ⟨herror, hbad⟩
        · refine .inl ⟨more ++ batch, unread, by rw [hread, List.append_assoc], ?_⟩
          have hle := hback.le
          refine ⟨by omega, ?_, ?_, ?_, fun _ _ => by omega⟩
          · rw [List.length_append, hback.length, hlength, List.length_drop, List.length_take]
            omega
          · rw [List.flatMap_append, hback.rows, hrows,
              take_drop_split hback.le (Nat.sub_le stop 8) hstop, List.flatMap_append]
          · intro front hfront
            rcases List.mem_append.mp hfront with hold | hnew
            · exact hback.fronts front hold
            · exact hfronts front hnew
        · exact .inr ⟨herror, hbad⟩
      · rw [herror]
        exact .inr ⟨rfl, hbad⟩
    · rename_i hdone
      refine .inl ⟨[], stop, rfl, Nat.le_refl _, by simp, ?_, by simp, fun hpos hcount => ?_⟩
      · simp
      · exact absurd ⟨hpos, hcount⟩ hdone

/-! ### Delivering the newest parts -/

theorem countParts_eq (items : List Message) :
    countParts items = (items.flatMap Message.rows).length := by
  simp [countParts, Message.rows, List.length_flatMap]

theorem Front.through {front : Message} (hfront : Front h front) {count : Nat}
    (hcount : count ≤ front.parts.length) {part : Part} (hpos : count ≠ 0)
    (hpart : front.parts[count - 1]? = some part) :
    Marks h (front.info.id, part.id) ∧ heldRows h (front.info.id, part.id) = front.rows.take count ∧
      isId front.info.id = true ∧ isId part.id = true := by
  obtain ⟨m, hm, hvalid, n, rfl⟩ := hfront
  have hlength : (m.parts.take n).length = min n m.parts.length := List.length_take
  have hin : m.parts[count - 1]? = some part := by
    rw [List.getElem?_take_of_lt (by simp only at hcount; omega)] at hpart
    exact hpart
  have hmem : part ∈ m.parts := List.mem_of_getElem? hin
  simp only [Message.valid, Bool.and_eq_true, List.all_eq_true] at hvalid
  have hpartValid := hvalid.1.2 part hmem
  rw [Part.valid, Bool.and_eq_true] at hpartValid
  refine ⟨⟨m, hm, part, hmem, rfl⟩, ?_, hvalid.1.1.1.1, hpartValid.1⟩
  have hrows := heldRows_at hm hin
  rw [hrows]
  simp only [Message.rows, ← List.map_take, List.take_take]
  congr 2
  simp only at hcount
  omega

/-- What is delivered and what is noted of it are the two ends of what there was. -/
structure Delivers (h : NativeHistory) (remaining : Nat) (items : List Message)
    (delivered : List (String × String) × List Message) : Prop where
  shown : delivered.2.flatMap Message.rows = (items.flatMap Message.rows).drop remaining
  held : delivered.1.flatMap (heldRows h) = (items.flatMap Message.rows).take remaining
  marks : ∀ mark ∈ delivered.1, Marks h mark ∧ isId mark.1 = true ∧ isId mark.2 = true
  length : delivered.1.length ≤ items.length

theorem deliver_spec {items : List Message} (hfronts : ∀ front ∈ items, Front h front)
    (remaining : Nat) : Delivers h remaining items (deliver remaining items) := by
  induction items generalizing remaining with
  | nil => exact ⟨by simp [deliver], by simp [deliver], by simp [deliver], Nat.le_refl _⟩
  | cons m rest ih =>
    have hrest := ih (fun front hfront => hfronts front (List.mem_cons_of_mem _ hfront))
      (remaining - min remaining m.parts.length)
    have hlength : m.rows.length = m.parts.length := List.length_map ..
    have hsub : remaining - min remaining m.parts.length = remaining - m.rows.length := by omega
    have hparts : (if m.parts.drop (min remaining m.parts.length) = [] then
        (deliver (remaining - min remaining m.parts.length) rest).2
        else { m with parts := m.parts.drop (min remaining m.parts.length) } ::
          (deliver (remaining - min remaining m.parts.length) rest).2).flatMap Message.rows =
        m.rows.drop remaining ++
          (deliver (remaining - min remaining m.parts.length) rest).2.flatMap Message.rows := by
      have hdrop : m.rows.drop remaining =
          (m.parts.drop (min remaining m.parts.length)).map fun part => (m.info, part) := by
        rw [List.map_drop]
        show m.rows.drop remaining = m.rows.drop (min remaining m.parts.length)
        rcases Nat.le_total remaining m.parts.length with hle | hle
        · rw [Nat.min_eq_left hle]
        · rw [Nat.min_eq_right hle, List.drop_eq_nil_of_le (by omega),
            List.drop_eq_nil_of_le (by omega)]
      rw [hdrop]
      split
      · rename_i hnil
        simp [hnil]
      · simp [Message.rows]
    have htake : m.rows.take remaining = m.rows.take (min remaining m.parts.length) := by
      rw [← hlength, List.take_eq_take_iff]
      omega
    rw [deliver]
    by_cases hzero : min remaining m.parts.length = 0
    · rw [if_pos hzero]
      refine ⟨?_, ?_, hrest.marks, hrest.length.trans (Nat.le_succ _)⟩
      · rw [hparts, hrest.shown, List.flatMap_cons, List.drop_append, hsub]
      · rw [List.flatMap_cons, List.take_append, htake, hzero, ← hsub, ← hrest.held]
        simp [hzero]
    · rw [if_neg hzero]
      have hlast : min remaining m.parts.length - 1 < m.parts.length := by omega
      obtain ⟨hmark, hheld, hid, hpartId⟩ := (hfronts m List.mem_cons_self).through
        (Nat.min_le_right remaining m.parts.length) hzero (List.getElem?_eq_getElem hlast)
      rw [List.getElem?_eq_getElem hlast]
      refine ⟨?_, ?_, ?_, ?_⟩
      · rw [hparts, hrest.shown, List.flatMap_cons, List.drop_append, hsub]
      · simp only [Option.map_some, Option.toList_some, List.singleton_append]
        rw [List.flatMap_cons, List.flatMap_cons, List.take_append, htake, hheld, ← hsub, hrest.held]
      · simp only [Option.map_some, Option.toList_some, List.singleton_append]
        exact List.forall_mem_cons.mpr ⟨⟨hmark, hid, hpartId⟩, hrest.marks⟩
      · simpa using hrest.length

end

/-! ### A page of parts -/

section
variable {h : NativeHistory} (p : Provider h) (codec : Codec PartsCursor)

/-- How many messages are beyond the provider's own cursor. -/
def nextPlace : Option String → Nat
  | none => 0
  | some header => p.place (some header)

def cursorRows (c : PartsCursor) : List Row :=
  (h.messages.take (nextPlace p c.next)).flatMap Message.rows ++ c.pending.flatMap (heldRows h)

/-- What is left at a cursor, newest first. -/
def leftParts : Option String → List Row
  | none => h.rows.reverse
  | some text => ((codec.decode text).map fun c => (cursorRows p c).reverse).getD []

/-- The messages the provider has not served at a cursor. -/
def unserved : Option String → Nat
  | none => h.messages.length
  | some text => nextPlace p ((codec.decode text).bind PartsCursor.next)

def rankParts (cursor : Option String) : Nat :=
  (leftParts p codec cursor).length + unserved p codec cursor

/-- A cursor the reader gives out, or none. -/
def AtParts (h : NativeHistory) (codec : Codec PartsCursor) : Option String → Prop
  | none => True
  | some text => ∃ c, codec.encode c = text ∧ c.valid = true ∧
      (c.next ≠ none ∨ c.pending ≠ []) ∧ ∀ mark ∈ c.pending, Marks h mark

/-- A message the schema refuses, or a header that is none. -/
def Refused : HistoryError → Prop
  | .refused .message => ∃ m ∈ h.messages, m.valid = false
  | .refused .header => ∃ limit before header, (p.page limit before).2 = some header ∧
      within maxHeader header = false
  | _ => False

end

section
variable {h : NativeHistory} {p : Provider h} {codec : Codec PartsCursor}

/-- The messages served up to a place, and what the header leaves. -/
structure Served (p : Provider h) (place : Nat) (items : List Message) (header : Option String) :
    Prop where
  rows : (h.messages.take (nextPlace p header)).flatMap Message.rows ++
    items.flatMap Message.rows = (h.messages.take place).flatMap Message.rows
  moves : 0 < place → nextPlace p header < place
  ends : place = 0 → header = none ∧ items = []
  length : items.length ≤ maxMessages
  fronts : ∀ front ∈ items, Front h front
  header : header.all (within maxHeader) = true

variable {limit : Nat}

theorem messages_spec (hpos : 0 < limit) (hlimit : limit ≤ maxMessages)
    (before : Option String) :
    (∃ items header, messages p limit before = .ok (items, header) ∧
      Served p (p.place before) items header) ∨
      ∃ e, messages p limit before = .error e ∧ Refused p e := by
  obtain ⟨first, hle, hnear, hmoves, hitems, hnone, hsome⟩ := p.serves limit before hpos
  have hends := p.ends limit before hpos
  generalize hpage : p.page limit before = page at hitems hnone hsome hends
  obtain ⟨items, header⟩ := page
  simp only at hitems hnone hsome hends
  have hnext : nextPlace p header = first := by
    cases header with
    | none => exact (hnone rfl).symm
    | some text => exact hsome text rfl
  have hlength : items.length ≤ maxMessages := by
    rw [hitems, List.length_drop, List.length_take]
    omega
  have hmem : ∀ m ∈ items, m ∈ h.messages := fun m hm => by
    rw [hitems] at hm
    exact List.mem_of_mem_take (List.mem_of_mem_drop hm)
  have hforeign : (items.any fun m => m.info.sessionID != h.sessionID) = false := by
    rw [List.any_eq_false]
    intro m hm
    simp [h.owned m (hmem m hm)]
  unfold messages
  rw [hpage]
  dsimp only
  by_cases hvalid : items.all Message.valid = true
  · rw [if_neg (by simp [hlength, hvalid]), if_neg (by simp [hforeign])]
    by_cases hheader : header.all (within maxHeader) = true
    · rw [if_neg (by simp [hheader])]
      refine .inl ⟨items, header, rfl, ?_, ?_, fun hzero => ⟨hends hzero, ?_⟩, hlength, ?_, hheader⟩
      · have htake : h.messages.take first = (h.messages.take (p.place before)).take first := by
          rw [List.take_take, Nat.min_eq_left hle]
        rw [hnext, hitems, ← List.flatMap_append, htake, List.take_append_drop]
      · rw [hnext]
        exact hmoves
      · simp [hitems, hzero]
      · intro m hm
        exact ⟨m, hmem m hm, List.all_eq_true.mp hvalid m hm, m.parts.length, by simp⟩
    · rw [if_pos hheader]
      cases header with
      | none => exact absurd rfl hheader
      | some text =>
        exact .inr ⟨_, rfl, limit, before, text, by rw [hpage], by simpa using hheader⟩
  · rw [if_pos (fun hboth => hvalid hboth.2)]
    obtain ⟨m, hm, hbad⟩ : ∃ m ∈ items, m.valid = false := by simpa using hvalid
    exact .inr ⟨_, rfl, m, hmem m hm, hbad⟩

/-- A page takes the newest rows of what there is, and its cursor leaves the others. -/
structure PartsPage (p : Provider h) (codec : Codec PartsCursor) (limit : Nat) (all : List Row)
    (next : Option String) (unread : List (String × String)) (items selected : List Message)
    (cursor : Option String) : Prop where
  few : (selected.flatMap Message.rows).length ≤ limit
  some_shown : 0 < limit → items.flatMap Message.rows ≠ [] → selected.flatMap Message.rows ≠ []
  last : cursor = none → all = selected.flatMap Message.rows
  later : ∀ text, cursor = some text → AtParts h codec (some text) ∧
    all.reverse = (selected.flatMap Message.rows).reverse ++ leftParts p codec (some text) ∧
    unserved p codec (some text) = nextPlace p next
  rows : ∀ row ∈ selected.flatMap Message.rows, row ∈ items.flatMap Message.rows
  ends : next = none → unread = [] → items = [] → cursor = none

theorem partsPage_spec (codec : Codec PartsCursor) {items : List Message} (hfronts : ∀ front ∈ items, Front h front)
    {unread : List (String × String)}
    (hunread : ∀ mark ∈ unread, Marks h mark ∧ isId mark.1 = true ∧ isId mark.2 = true)
    (hcount : unread.length + items.length ≤ maxMessages) {next : Option String}
    (hnext : next.all (within maxHeader) = true) (limit : Nat) :
    ∃ selected cursor, partsPage codec limit items next unread = .ok (selected, cursor) ∧
      PartsPage p codec limit ((h.messages.take (nextPlace p next)).flatMap Message.rows ++
        unread.flatMap (heldRows h) ++ items.flatMap Message.rows) next unread items selected cursor := by
  have hdelivers := deliver_spec hfronts (countParts items - limit)
  generalize hdelivered : deliver (countParts items - limit) items = delivered at hdelivers
  have hcountRows := countParts_eq items
  have hfew : (delivered.2.flatMap Message.rows).length ≤ limit := by
    rw [hdelivers.shown, List.length_drop]
    omega
  have hsome : 0 < limit → items.flatMap Message.rows ≠ [] →
      delivered.2.flatMap Message.rows ≠ [] := by
    intro hpos hne hnil
    have hlength := congrArg List.length hnil
    have hrows := List.length_pos_iff.mpr hne
    rw [hdelivers.shown, List.length_drop, List.length_nil] at hlength
    omega
  have hrows : ∀ row ∈ delivered.2.flatMap Message.rows, row ∈ items.flatMap Message.rows := by
    intro row hrow
    rw [hdelivers.shown] at hrow
    exact List.mem_of_mem_drop hrow
  have hsplit : items.flatMap Message.rows =
      delivered.1.flatMap (heldRows h) ++ delivered.2.flatMap Message.rows := by
    rw [hdelivers.held, hdelivers.shown, List.take_append_drop]
  unfold partsPage
  rw [hdelivered]
  dsimp only
  by_cases hdone : next = none ∧ unread ++ delivered.1 = []
  · rw [if_pos hdone]
    obtain ⟨rfl, hempty⟩ := hdone
    obtain ⟨rfl, hmarks⟩ := List.append_eq_nil_iff.mp hempty
    refine ⟨_, none, rfl, hfew, hsome, fun _ => ?_, nofun, hrows, fun _ _ _ => rfl⟩
    rw [hsplit, hmarks]
    simp [nextPlace]
  · have hmarks : ∀ mark ∈ unread ++ delivered.1,
        Marks h mark ∧ isId mark.1 = true ∧ isId mark.2 = true := by
      intro mark hmark
      rcases List.mem_append.mp hmark with hold | hnew
      · exact hunread mark hold
      · exact hdelivers.marks mark hnew
    have hlength := hdelivers.length
    have hvalid : (PartsCursor.mk next (unread ++ delivered.1)).valid = true := by
      simp only [PartsCursor.valid, Bool.and_eq_true, decide_eq_true_eq, List.all_eq_true]
      refine ⟨⟨hnext, ?_⟩, fun mark hmark => (hmarks mark hmark).2⟩
      rw [List.length_append]
      omega
    rw [if_neg hdone, if_pos hvalid]
    refine ⟨_, _, rfl, hfew, hsome, by simp, fun text htext => ?_, hrows, fun hnone hmore hitems => ?_⟩
    swap
    · have hempty : delivered.1 = [] := by
        rw [hitems, List.length_nil] at hlength
        exact List.eq_nil_of_length_eq_zero (Nat.le_zero.mp hlength)
      exact absurd ⟨hnone, by rw [hmore, hempty]; rfl⟩ hdone
    obtain rfl := Option.some.inj htext
    refine ⟨⟨_, rfl, hvalid, ?_, fun mark hmark => (hmarks mark hmark).1⟩, ?_, ?_⟩
    · by_contra hneither
      push Not at hneither
      exact hdone hneither
    · simp only [leftParts, codec.decode_encode, Option.map_some, Option.getD_some, cursorRows]
      rw [← List.reverse_append, hsplit, List.flatMap_append]
      simp only [List.append_assoc]
    · simp [unserved, codec.decode_encode]

theorem Front.row_valid {front : Message} (hfront : Front h front) {row : Row}
    (hrow : row ∈ front.rows) : ∃ m ∈ h.messages, m.valid = true ∧ row ∈ m.rows := by
  obtain ⟨m, hm, hvalid, n, rfl⟩ := hfront
  refine ⟨m, hm, hvalid, ?_⟩
  rw [Message.rows, List.map_take] at hrow
  exact List.mem_of_mem_take hrow

theorem rows_valid {items : List Message} (hfronts : ∀ front ∈ items, Front h front) {row : Row}
    (hrow : row ∈ items.flatMap Message.rows) : ∃ m ∈ h.messages, m.valid = true ∧ row ∈ m.rows := by
  obtain ⟨front, hfront, hmem⟩ := List.mem_flatMap.mp hrow
  exact (hfronts front hfront).row_valid hmem

/-- What a read hands over at a cursor, if it does not fail. -/
def Shown (p : Provider h) (codec : Codec PartsCursor) (limit : Nat) (cursor : Option String) :
    Except HistoryError (List Message × Option String) → Prop
  | .ok (items, next) => (items.flatMap Message.rows).length ≤ limit ∧
      (∀ row ∈ items.flatMap Message.rows, ∃ m ∈ h.messages, m.valid = true ∧ row ∈ m.rows) ∧
      Takes next (AtParts h codec) (leftParts p codec) (rankParts p codec) cursor
        (items.flatMap Message.rows).reverse
  | .error e => Refused p e

/-- A page asked of the provider takes the newest rows off those before its cursor. -/
theorem fresh_spec (hpos : 0 < limit) (hlimit : limit ≤ maxMessages)
    {cursor before : Option String}
    (hleft : leftParts p codec cursor =
      ((h.messages.take (p.place before)).flatMap Message.rows).reverse)
    (hplace : unserved p codec cursor = p.place before) :
    Shown p codec limit cursor (messages p limit before >>= fun page =>
      partsPage codec limit page.1 page.2 []) := by
  rcases messages_spec (p := p) hpos hlimit before with ⟨items, header, hpage, hserved⟩ | ⟨e, he, hbad⟩
  · have hunread : ∀ mark ∈ ([] : List (String × String)),
        Marks h mark ∧ isId mark.1 = true ∧ isId mark.2 = true := by simp
    obtain ⟨selected, later, hselected, hshown⟩ := partsPage_spec (p := p) codec hserved.fronts
      hunread (by simpa using hserved.length) hserved.header limit
    have hall := hserved.rows
    simp only [List.flatMap_nil, List.append_nil] at hshown
    rw [hall] at hshown
    rw [hpage]
    show Shown p codec limit cursor (partsPage codec limit items header [])
    rw [hselected]
    refine ⟨hshown.few, fun row hrow => rows_valid hserved.fronts (hshown.rows row hrow), ?_⟩
    cases later with
    | none =>
      show leftParts p codec cursor = _
      rw [hleft, hshown.last rfl]
    | some text =>
      obtain ⟨hat, hrows, hunserved⟩ := hshown.later text rfl
      refine ⟨hat, hleft.trans hrows, ?_⟩
      have hmoves : 0 < p.place before := by
        rcases Nat.eq_zero_or_pos (p.place before) with hzero | hpos
        · obtain ⟨hheader, hitems⟩ := hserved.ends hzero
          exact absurd (hshown.ends hheader rfl hitems) (by simp)
        · exact hpos
      have hless := hserved.moves hmoves
      unfold rankParts
      rw [hleft, hrows, hunserved, hplace, List.length_append]
      omega
  · rw [he]
    exact hbad

/-- A page read back takes the newest rows off those its cursor leaves. -/
theorem back_spec (hpos : 0 < limit) {text : String} {state : PartsCursor}
    (hdecode : codec.decode text = some state) (hvalid : state.valid = true)
    (hmarks : ∀ mark ∈ state.pending, Marks h mark) (hne : state.pending ≠ []) :
    Shown p codec limit (some text)
      (readBack h limit state.pending state.pending.length 0 [] >>= fun back =>
        partsPage codec limit back.1 state.next (state.pending.take back.2)) := by
  rcases readBack_spec limit 0 [] hmarks (Nat.le_refl state.pending.length) with ⟨items, stop, hread, hback⟩ | ⟨he, hbad⟩
  · simp only [PartsCursor.valid, Bool.and_eq_true, decide_eq_true_eq, List.all_eq_true] at hvalid
    obtain ⟨⟨hheader, hcount⟩, hids⟩ := hvalid
    have hlength := hback.length
    have hunread : ∀ mark ∈ state.pending.take stop,
        Marks h mark ∧ isId mark.1 = true ∧ isId mark.2 = true := fun mark hmark =>
      ⟨hmarks mark (List.mem_of_mem_take hmark), hids mark (List.mem_of_mem_take hmark)⟩
    obtain ⟨selected, later, hselected, hshown⟩ := partsPage_spec (p := p) codec
      hback.fronts hunread (by rw [List.length_take]; omega) hheader limit
    have hall : (h.messages.take (nextPlace p state.next)).flatMap Message.rows ++
        (state.pending.take stop).flatMap (heldRows h) ++ items.flatMap Message.rows =
          cursorRows p state := by
      rw [hback.rows, List.take_length, List.append_assoc, ← List.flatMap_append,
        List.take_append_drop]
      rfl
    rw [hall] at hshown
    have hleft : leftParts p codec (some text) = (cursorRows p state).reverse := by
      simp [leftParts, hdecode]
    have hrows : items.flatMap Message.rows ≠ [] := by
      intro hnil
      have hmore := hback.moves (List.length_pos_iff.mpr hne) hpos
      rw [hback.rows, List.take_length, List.flatMap_eq_nil_iff] at hnil
      have hlast : state.pending[stop] ∈ state.pending.drop stop := by
        rw [List.drop_eq_getElem_cons hmore]
        exact List.mem_cons_self
      exact (hmarks _ (List.getElem_mem hmore)).heldRows_ne_nil (hnil _ hlast)
    have hsome := hshown.some_shown hpos hrows
    rw [hread, List.append_nil]
    show Shown p codec limit (some text)
      (partsPage codec limit items state.next (state.pending.take stop))
    rw [hselected]
    refine ⟨hshown.few, fun row hrow => rows_valid hback.fronts (hshown.rows row hrow), ?_⟩
    cases later with
    | none =>
      show leftParts p codec (some text) = _
      rw [hleft, hshown.last rfl]
    | some other =>
      obtain ⟨hat, hsplit, hunserved⟩ := hshown.later other rfl
      refine ⟨hat, hleft.trans hsplit, ?_⟩
      have hsame : unserved p codec (some text) = nextPlace p state.next := by
        simp [unserved, hdecode]
      have hlong := List.length_pos_iff.mpr hsome
      unfold rankParts
      rw [hleft, hsplit, hunserved, hsame, List.length_append, List.length_reverse]
      omega
  · rw [he]
    exact hbad

/-- A read at a cursor of the reader takes the newest rows off what is left there, or meets a value
the schemas refuse. -/
theorem parts_spec (hpos : 0 < limit) (hlimit : limit ≤ maxMessages)
    {cursor : Option String} (hat : AtParts h codec cursor) :
    Shown p codec limit cursor (parts p codec limit cursor) := by
  cases cursor with
  | none =>
    refine fresh_spec hpos hlimit ?_ p.place_none.symm
    rw [p.place_none, List.take_length]
    rfl
  | some text =>
    obtain ⟨state, rfl, hvalid, hmore, hmarks⟩ := hat
    have hdecode := codec.decode_encode state
    have hparse : parseCursor codec (codec.encode state) = .ok state := by
      simp [parseCursor, hdecode, Option.filter_some, hvalid]
    have hparts : parts p codec limit (some (codec.encode state)) =
        if state.pending ≠ [] then
          readBack h limit state.pending state.pending.length 0 [] >>= fun back =>
            partsPage codec limit back.1 state.next (state.pending.take back.2)
        else if state.next = none then .error (.app cursorStale)
        else messages p limit state.next >>= fun page => partsPage codec limit page.1 page.2 [] := by
      simp only [parts, hparse]
      rfl
    rw [hparts]
    by_cases hpending : state.pending = []
    · have hnext : state.next ≠ none := hmore.resolve_right fun hne => hne hpending
      rw [if_neg (fun hne => hne hpending), if_neg hnext]
      obtain ⟨header, hheader⟩ := Option.ne_none_iff_exists'.mp hnext
      rw [hheader]
      refine fresh_spec hpos hlimit ?_ ?_
      · simp [leftParts, hdecode, cursorRows, hpending, hheader, nextPlace]
      · simp [unserved, hdecode, hheader, nextPlace]
    · rw [if_pos hpending]
      exact back_spec hpos hdecode hvalid hmarks hpending

end

end Ccmux.Context.OpenCodeHistory
