/- Module: Ccmux/Chat/MessageOperationRun
   source: src/chat/messageOperationStore.ts
   digest: What any sequence of calls keeps of the records in the stored journal. -/

import Ccmux.Chat.MessageOperationStore
import Ccmux.Lib.Keys
import Ccmux.Lib.Machine

namespace Ccmux.Chat.MessageOperationStore

open Ccmux.Chat.Identity (ChatPrincipal)
open Ccmux.Chat.MessageOperation (OperationPhase)
open Ccmux.Lib.Keys (eq_of_key)
open Ccmux.Lib.Machine

inductive Call where
  | prepare (sender : ChatPrincipal) (messageId fingerprint : String)
  | advance (messageId : String) (phase : OperationPhase) (turnId : Option String)
  | project (messageId : String) (continuations : List NativeContinuation)
    (pendingApprovals : List NativePendingApproval)

/-- A call with the session it is made for, the clock it reads and what becomes of its write. -/
structure Event where
  owner : Owner
  now : Int
  disk : Disk
  call : Call

def perform (b : Builtins) (stored : Option MessageOperationJournal) (e : Event) : Outcome :=
  match e.call with
  | .prepare sender messageId fingerprint =>
    prepareMessageOperation b stored e.disk e.owner sender messageId fingerprint e.now
  | .advance messageId phase turnId =>
    advanceMessageOperation b stored e.disk e.owner messageId phase turnId e.now
  | .project messageId continuations pendingApprovals =>
    projectMessageContinuation b stored e.disk e.owner messageId continuations pendingApprovals e.now

def step (b : Builtins) (stored : Option MessageOperationJournal) (e : Event) :
    Option (Option MessageOperationJournal) :=
  some (perform b stored e).stored

/-- The order preparing, queued, uncertain, admitted, terminal. -/
def rank : OperationPhase → Nat
  | .preparing => 0
  | .queued => 1
  | .uncertain => 2
  | .admitted => 3
  | _ => 4

def recordsOf (stored : Option MessageOperationJournal) : List MessageOperationRecord :=
  (stored.map MessageOperationJournal.records).getD []

structure Later (r s : MessageOperationRecord) : Prop where
  messageId : s.messageId = r.messageId
  principal : s.principal = r.principal
  fingerprint : s.fingerprint = r.fingerprint
  turnId : r.turnId.isSome = true → s.turnId = r.turnId
  phase : rank r.phase ≤ rank s.phase
  terminal : r.phase.terminal = true → s = r
  continuations : r.continuations <+: s.continuations

theorem Later.refl (r : MessageOperationRecord) : Later r r :=
  ⟨rfl, rfl, rfl, fun _ => rfl, Nat.le_refl _, fun _ => rfl, List.prefix_refl _⟩

theorem Later.trans {r s t : MessageOperationRecord} (h : Later r s) (k : Later s t) : Later r t := by
  refine ⟨k.messageId.trans h.messageId, k.principal.trans h.principal,
    k.fingerprint.trans h.fingerprint, ?_, Nat.le_trans h.phase k.phase, ?_,
    h.continuations.trans k.continuations⟩
  · intro hr
    have hs := h.turnId hr
    rw [k.turnId (by rw [hs]; exact hr), hs]
  · intro hr
    have hs := h.terminal hr
    rw [k.terminal (by rw [hs]; exact hr), hs]

/-- A terminal record whose deadline has passed, or that makes room in a full journal. -/
def Droppable (b : Builtins) (stored : Option MessageOperationJournal) (now : Int)
    (r : MessageOperationRecord) : Prop :=
  r.phase.terminal = true ∧
    (kept b now r = false ∨ recordLimit ≤ ((recordsOf stored).filter (kept b now)).length)

structure SafeStep (b : Builtins) (stored : Option MessageOperationJournal) (e : Event) : Prop where
  thrown : (perform b stored e).failure.isSome = true → (perform b stored e).stored = stored
  valid : ∀ journal, (perform b stored e).stored = some journal → journal.valid b = true
  records : ∀ r ∈ recordsOf stored,
    (∃ s ∈ recordsOf (perform b stored e).stored, Later r s) ∨
      (Droppable b stored e.now r ∧
        ∀ s ∈ recordsOf (perform b stored e).stored, s.messageId ≠ r.messageId)
  unshared : ∀ r ∈ recordsOf (perform b stored e).stored,
    ∀ s ∈ recordsOf (perform b stored e).stored, r.turnId.isSome = true → r.turnId = s.turnId → r = s

/-- No call asks for the phase before all others where the record has left it, and no directory
fails to sync after the new journal is in place. -/
def Allowed (stored : Option MessageOperationJournal) (e : Event) : Prop :=
  e.disk ≠ .unsynced ∧
    ∀ messageId turnId, e.call = .advance messageId .preparing turnId →
      ∀ r ∈ recordsOf stored, r.messageId = messageId → r.phase ≠ .queued ∧ r.phase ≠ .uncertain

structure Sound (b : Builtins) (records : List MessageOperationRecord) : Prop where
  each : ∀ r ∈ records, r.valid b = true
  ids : (records.map MessageOperationRecord.messageId).Nodup
  turns : (records.filterMap MessageOperationRecord.turnId).Nodup

section
variable {b : Builtins}

variable {journal : MessageOperationJournal} {records : List MessageOperationRecord}
  {stored : Option MessageOperationJournal} {disk : Disk} {s : Owner} {messageId : String}
  {now : Int} {record changed : MessageOperationRecord} {phase : OperationPhase} {e : Event}

theorem valid_sound (h : journal.valid b = true) :
    Sound b journal.records := by
  simp only [MessageOperationJournal.valid, Bool.and_eq_true, decide_eq_true_eq,
    List.all_eq_true] at h
  obtain ⟨⟨⟨⟨_, heach⟩, _⟩, hids⟩, hturns⟩ := h
  exact ⟨heach, hids, hturns⟩

theorem valid_phases {r : MessageOperationRecord} (h : r.valid b = true) :
    unbound r.phase = r.turnId.isNone ∧ r.phase.terminal = r.expiresAt.isSome := by
  simp only [MessageOperationRecord.valid, Bool.and_eq_true, decide_eq_true_eq] at h
  exact ⟨h.1.2, h.2⟩

theorem Sound.unique (h : Sound b records)
    {r s : MessageOperationRecord} (hr : r ∈ records) (hs : s ∈ records)
    (hid : r.messageId = s.messageId) : r = s :=
  List.inj_on_of_nodup_map h.ids hr hs hid

theorem turns_unique (h : (records.filterMap MessageOperationRecord.turnId).Nodup)
    {r s : MessageOperationRecord}
    (hr : r ∈ records) (hs : s ∈ records) (hsome : r.turnId.isSome = true)
    (hsame : r.turnId = s.turnId) : r = s := by
  obtain ⟨turn, hturn⟩ := Option.isSome_iff_exists.mp hsome
  have hother : s.turnId = some turn := by rw [← hsame, hturn]
  exact eq_of_key h hr hs hturn hother

theorem write_cases (journal : MessageOperationJournal) (hdisk : disk ≠ .unsynced) :
    (write b stored disk journal).stored = stored ∨
      (journal.valid b = true ∧ write b stored disk journal = ⟨some journal, none⟩) := by
  unfold write
  by_cases hvalid : journal.valid b = false
  · rw [if_pos hvalid]
    exact Or.inl rfl
  · rw [if_neg hvalid]
    by_cases hsize : byteLimit < b.jsonBytes journal
    · rw [if_pos hsize]
      exact Or.inl rfl
    · rw [if_neg hsize]
      cases disk with
      | written => exact Or.inr ⟨by simpa using hvalid, rfl⟩
      | failed => exact Or.inl rfl
      | unsynced => exact absurd rfl hdisk

theorem readMessageJournal_ok {found : Option MessageOperationJournal}
    (h : readMessageJournal b stored s = .ok found) :
    found = stored := by
  cases stored with
  | none =>
    simp only [readMessageJournal, Except.ok.injEq] at h
    exact h.symm
  | some journal =>
    simp only [readMessageJournal] at h
    split at h
    · cases h
    · split at h
      · cases h
      · exact (Except.ok.inj h).symm

variable {sender : ChatPrincipal} {fingerprint : String} {continuations : List NativeContinuation}
  {pendingApprovals : List NativePendingApproval} {turnId : Option String} {events : List Event}

/-- What `prepareMessageOperation` does: nothing, or one new record after those that stay. -/
theorem prepare_cases (hdisk : disk ≠ .unsynced) :
    let out := prepareMessageOperation b stored disk s sender messageId fingerprint now
    out.stored = stored ∨
      ∃ (next : MessageOperationJournal) (records : List MessageOperationRecord) (observedAt : String),
        out = ⟨some next, none⟩ ∧ next.valid b = true ∧
        (∀ r ∈ recordsOf stored, r.messageId ≠ messageId) ∧
        makeRoom b now (recordsOf stored) = some records ∧
        next.records = records ++ [preparedRecord b sender messageId fingerprint observedAt] := by
  intro out
  cases hread : journalOr b s (readMessageJournal b stored s) with
  | error f =>
    refine Or.inl ?_
    simp only [out, prepareMessageOperation, hread]
  | ok journal =>
    have hrecords : recordsOf stored = journal.records := by
      cases hfound : readMessageJournal b stored s with
      | error f => simp [journalOr, hfound] at hread
      | ok found =>
        have hsame := readMessageJournal_ok hfound
        cases found with
        | some known =>
          simp only [journalOr, hfound, Except.ok.injEq] at hread
          rw [← hsame, ← hread]
          rfl
        | none =>
          rw [← hsame]
          simp only [journalOr, hfound, freshJournal] at hread
          split at hread
          · split at hread
            · rw [← Except.ok.inj hread]
              rfl
            · cases hread
          · cases hread
    cases hprior : journal.records.find? fun record => record.messageId == messageId with
    | some prior =>
      refine Or.inl ?_
      simp only [out, prepareMessageOperation, hread, hprior]
      split <;> rfl
    | none =>
      cases hroom : makeRoom b now journal.records with
      | none =>
        refine Or.inl ?_
        simp only [out, prepareMessageOperation, hread, hprior, hroom]
      | some records =>
        cases hiso : b.toIso now with
        | none =>
          refine Or.inl ?_
          simp only [out, prepareMessageOperation, hread, hprior, hroom, hiso]
        | some observedAt =>
          let next : MessageOperationJournal := { journal with
            records := records ++ [preparedRecord b sender messageId fingerprint observedAt] }
          have hout : out = write b stored disk next := by
            simp only [out, prepareMessageOperation, hread, hprior, hroom, hiso, next]
          rcases write_cases next hdisk with hkept | ⟨hvalid, hwritten⟩
          · exact Or.inl (by rw [hout]; exact hkept)
          · refine Or.inr ⟨next, records, observedAt, by rw [hout]; exact hwritten, hvalid, ?_, ?_, rfl⟩
            · intro r hr
              rw [hrecords] at hr
              have hnone := List.find?_eq_none.mp hprior r hr
              simpa using hnone
            · rw [hrecords]
              exact hroom

/-- One record of the stored journal has become another. -/
def Replaced (b : Builtins) (stored : Option MessageOperationJournal) (out : Outcome)
    (record changed : MessageOperationRecord) : Prop :=
  ∃ next : MessageOperationJournal, out = ⟨some next, none⟩ ∧ next.valid b = true ∧
    record ∈ recordsOf stored ∧ changed.messageId = record.messageId ∧
    next.records = replaceRecord (recordsOf stored) changed

theorem mem_replaceRecord_self (h : record ∈ records)
    (hid : changed.messageId = record.messageId) : changed ∈ replaceRecord records changed :=
  List.mem_map.mpr ⟨record, h, by rw [if_pos hid.symm]⟩

theorem mem_replaceRecord_other (h : record ∈ records)
    (hid : record.messageId ≠ changed.messageId) : record ∈ replaceRecord records changed :=
  List.mem_map.mpr ⟨record, h, by rw [if_neg hid]⟩

theorem find_record
    (h : (journal.records.find? fun record => record.messageId == messageId) = some record) :
    record ∈ journal.records ∧ record.messageId = messageId := by
  refine ⟨List.mem_of_find?_eq_some h, ?_⟩
  have hid := List.find?_some h
  simpa using hid

theorem write_replaced {c : MessageOperationRecord} (hdisk : disk ≠ .unsynced)
    (hmem : record ∈ journal.records) (hid : c.messageId = record.messageId) :
    let out := write b (some journal) disk
      { journal with records := replaceRecord journal.records c }
    out.stored = some journal ∨ Replaced b (some journal) out record c := by
  intro out
  rcases write_cases (b := b) { journal with records := replaceRecord journal.records c }
    hdisk with hkept | ⟨hvalid, hwritten⟩
  · exact Or.inl hkept
  · exact Or.inr ⟨_, hwritten, hvalid, hmem, hid, rfl⟩

theorem Replaced.valid {out : Outcome} (h : Replaced b stored out record changed) :
    changed.valid b = true := by
  obtain ⟨next, _, hvalid, hmem, hid, hrecords⟩ := h
  apply (valid_sound hvalid).each
  rw [hrecords]
  exact mem_replaceRecord_self hmem hid

/-- What `projectMessageContinuation` does: nothing, or longer continuations of one running
record. -/
theorem project_cases (hdisk : disk ≠ .unsynced) :
    let out := projectMessageContinuation b stored disk s messageId continuations pendingApprovals now
    out.stored = stored ∨
      ∃ record changed, Replaced b stored out record changed ∧ record.expiresAt = none ∧
        record.continuations <+: continuations ∧ ∃ observedAt, changed =
          { record with
            continuations := continuations
            pendingApprovals := pendingApprovals
            observedAt := observedAt } := by
  simp only [projectMessageContinuation]
  cases hread : readMessageJournal b stored s with
  | error f => exact Or.inl rfl
  | ok found =>
    have hsame := readMessageJournal_ok hread
    cases found with
    | none => exact Or.inl rfl
    | some journal =>
      subst hsame
      dsimp only
      cases hfind : journal.records.find? fun record => record.messageId == messageId with
      | none => exact Or.inl rfl
      | some record =>
        have hmem := (find_record hfind).1
        dsimp only
        by_cases hexpires : record.expiresAt.isSome = true
        · rw [if_pos hexpires]
          exact Or.inl rfl
        · rw [if_neg hexpires]
          cases hturn : record.turnId with
          | none => exact Or.inl rfl
          | some turnId =>
            dsimp only
            cases hparents : continuationTurns [turnId] continuations with
            | none => exact Or.inl rfl
            | some parents =>
              dsimp only
              by_cases hgrown :
                  continuations.take record.continuations.length ≠ record.continuations
              · rw [if_pos hgrown]
                exact Or.inl rfl
              · rw [if_neg hgrown]
                split
                · exact Or.inl rfl
                · cases hiso : b.toIso now with
                  | none => exact Or.inl rfl
                  | some observedAt =>
                    let changed : MessageOperationRecord :=
                      { record with
                        turnId := some turnId
                        continuations := continuations
                        pendingApprovals := pendingApprovals
                        observedAt := observedAt }
                    rcases write_replaced (b := b) (c := changed) hdisk hmem rfl with
                      hkept | hreplaced
                    · exact Or.inl hkept
                    · refine Or.inr ⟨record, changed, hreplaced, by simpa using hexpires, ?_,
                        observedAt, by simp only [changed, ← hturn]⟩
                      have hprefix := List.take_prefix record.continuations.length continuations
                      rw [not_not.mp hgrown] at hprefix
                      exact hprefix

/-- What `advanceMessageOperation` does: nothing, or a new phase for one running record, in a turn
it was not in another one of. -/
theorem advance_cases (hdisk : disk ≠ .unsynced) :
    let out := advanceMessageOperation b stored disk s messageId phase turnId now
    out.stored = stored ∨
      ∃ record changed, Replaced b stored out record changed ∧ record.messageId = messageId ∧
        record.expiresAt = none ∧
        ¬ (record.turnId.isSome ∧ turnId.isSome ∧ record.turnId ≠ turnId) ∧
        ¬ (phase = .queued ∧ record.phase ≠ .preparing) ∧
        ¬ (phase = .uncertain ∧ record.turnId.isSome) ∧ ∃ observedAt expiresAt, changed =
          { record with
            phase := phase
            turnId := turnId.or record.turnId
            observedAt := observedAt
            expiresAt := expiresAt } := by
  simp only [advanceMessageOperation]
  cases hread : readMessageJournal b stored s with
  | error f => exact Or.inl rfl
  | ok found =>
    have hsame := readMessageJournal_ok hread
    cases found with
    | none => exact Or.inl rfl
    | some journal =>
      subst hsame
      dsimp only
      cases hfind : journal.records.find? fun record => record.messageId == messageId with
      | none => exact Or.inl rfl
      | some record =>
        obtain ⟨hmem, hid⟩ := find_record hfind
        dsimp only
        split
        · exact Or.inl rfl
        · next hturn =>
          split
          · exact Or.inl rfl
          · split
            · exact Or.inl rfl
            · next hexpires =>
              split
              · exact Or.inl rfl
              · next hqueued =>
                split
                · exact Or.inl rfl
                · next huncertain =>
                  split
                  · exact Or.inl rfl
                  · split
                    · exact Or.inl rfl
                    · split
                      · exact Or.inl rfl
                      · split
                        · next observedAt expiresAt _ _ =>
                          let changed : MessageOperationRecord :=
                            { record with
                              phase := phase
                              turnId := turnId.or record.turnId
                              observedAt := observedAt
                              expiresAt := expiresAt }
                          rcases write_replaced (b := b) (c := changed) hdisk hmem rfl with
                            hkept | hreplaced
                          · exact Or.inl hkept
                          · exact Or.inr ⟨record, changed, hreplaced, hid, by simpa using hexpires,
                              hturn, hqueued, huncertain, observedAt, expiresAt, rfl⟩
                        · exact Or.inl rfl

def Valid (b : Builtins) (stored : Option MessageOperationJournal) : Prop :=
  ∀ journal, stored = some journal → journal.valid b = true

theorem Valid.sound (h : Valid b stored) :
    Sound b (recordsOf stored) := by
  cases stored with
  | none => exact ⟨by simp [recordsOf], by simp [recordsOf], by simp [recordsOf]⟩
  | some journal => exact valid_sound (h journal rfl)

theorem safeStep_same (h : Valid b stored)
    (hsame : (perform b stored e).stored = stored) : SafeStep b stored e := by
  refine ⟨fun _ => hsame, ?_, ?_, ?_⟩
  · rw [hsame]
    exact h
  · intro r hr
    rw [hsame]
    exact Or.inl ⟨r, hr, Later.refl r⟩
  · rw [hsame]
    intro r hr s hs hsome hturn
    exact turns_unique h.sound.turns hr hs hsome hturn

theorem safeStep_replaced (h : Valid b stored)
    (hout : Replaced b stored (perform b stored e) record changed) (hlater : Later record changed) :
    SafeStep b stored e := by
  obtain ⟨next, hperform, hvalid, hmem, hid, hrecords⟩ := hout
  have hnew : recordsOf (perform b stored e).stored = replaceRecord (recordsOf stored) changed := by
    rw [hperform, ← hrecords]
    rfl
  refine ⟨?_, ?_, ?_, ?_⟩
  · intro hthrown
    rw [hperform] at hthrown
    cases hthrown
  · intro journal hjournal
    rw [hperform] at hjournal
    rw [← Option.some.inj hjournal]
    exact hvalid
  · intro r hr
    refine Or.inl ?_
    rw [hnew]
    by_cases hsame : r.messageId = changed.messageId
    · have hrecord : r = record := h.sound.unique hr hmem (hsame.trans hid)
      rw [hrecord]
      exact ⟨changed, mem_replaceRecord_self hmem hid, hlater⟩
    · exact ⟨r, mem_replaceRecord_other hr hsame, Later.refl r⟩
  · intro r hr s hs hsome hturn
    rw [hnew, ← hrecords] at hr hs
    exact turns_unique (valid_sound hvalid).turns hr hs hsome hturn

theorem evictFirst_cases {rest : List MessageOperationRecord} (h : evictFirst records = some rest) :
    rest.Sublist records ∧ ∀ r ∈ records, r ∈ rest ∨ r.expiresAt.isSome = true := by
  induction records generalizing rest with
  | nil => cases h
  | cons record records ih =>
    simp only [evictFirst] at h
    by_cases hexpires : record.expiresAt.isSome = true
    · rw [if_pos hexpires] at h
      obtain rfl := Option.some.inj h
      refine ⟨List.sublist_cons_self _ _, ?_⟩
      intro r hr
      rcases List.mem_cons.mp hr with hfirst | hmore
      · rw [hfirst]
        exact Or.inr hexpires
      · exact Or.inl hmore
    · rw [if_neg hexpires, Option.map_eq_some_iff] at h
      obtain ⟨shorter, hshorter, rfl⟩ := h
      obtain ⟨hsub, hall⟩ := ih hshorter
      refine ⟨hsub.cons_cons record, ?_⟩
      intro r hr
      rcases List.mem_cons.mp hr with hfirst | hmore
      · exact Or.inl (List.mem_cons.mpr (Or.inl hfirst))
      · rcases hall r hmore with hkept | hgone
        · exact Or.inl (List.mem_cons_of_mem _ hkept)
        · exact Or.inr hgone

/-- What makes room drops records with a deadline only: those it has passed for, or one where the
journal is full. -/
theorem makeRoom_cases {room : List MessageOperationRecord} (h : makeRoom b now records = some room)
    :
    room.Sublist records ∧ ∀ r ∈ records, r ∈ room ∨ (r.expiresAt.isSome = true ∧
      (kept b now r = false ∨ recordLimit ≤ (records.filter (kept b now)).length)) := by
  simp only [makeRoom] at h
  have hexpired : ∀ r, kept b now r = false → r.expiresAt.isSome = true := by
    intro r hr
    cases hexpires : r.expiresAt with
    | none => simp [kept, hexpires] at hr
    | some deadline => rfl
  by_cases hfull : recordLimit ≤ (records.filter (kept b now)).length
  · rw [if_pos hfull] at h
    obtain ⟨hsub, hall⟩ := evictFirst_cases h
    refine ⟨hsub.trans List.filter_sublist, ?_⟩
    intro r hr
    by_cases hkept : kept b now r = true
    · rcases hall r (List.mem_filter.mpr ⟨hr, hkept⟩) with hin | hgone
      · exact Or.inl hin
      · exact Or.inr ⟨hgone, Or.inr hfull⟩
    · have hgone : kept b now r = false := by simpa using hkept
      exact Or.inr ⟨hexpired r hgone, Or.inl hgone⟩
  · rw [if_neg hfull] at h
    obtain rfl := Option.some.inj h
    refine ⟨List.filter_sublist, ?_⟩
    intro r hr
    by_cases hkept : kept b now r = true
    · exact Or.inl (List.mem_filter.mpr ⟨hr, hkept⟩)
    · have hgone : kept b now r = false := by simpa using hkept
      exact Or.inr ⟨hexpired r hgone, Or.inl hgone⟩

theorem safeStep_prepare (h : Valid b stored)
    (hdisk : e.disk ≠ .unsynced) (hcall : e.call = .prepare sender messageId fingerprint) :
    SafeStep b stored e := by
  have hperform : perform b stored e =
      prepareMessageOperation b stored e.disk e.owner sender messageId fingerprint e.now := by
    simp only [perform, hcall]
  rcases prepare_cases (b := b) hdisk with
    hsame | ⟨next, room, observedAt, hout, hvalid, hfresh, hroom, hrecords⟩
  · exact safeStep_same h (by rw [hperform]; exact hsame)
  · rw [← hperform] at hout
    obtain ⟨hsub, hall⟩ := makeRoom_cases hroom
    have hnew : recordsOf (perform b stored e).stored =
        room ++ [preparedRecord b sender messageId fingerprint observedAt] := by
      rw [hout, ← hrecords]
      rfl
    refine ⟨?_, ?_, ?_, ?_⟩
    · intro hthrown
      rw [hout] at hthrown
      cases hthrown
    · intro journal hjournal
      rw [hout] at hjournal
      rw [← Option.some.inj hjournal]
      exact hvalid
    · intro r hr
      rw [hnew]
      by_cases hin : r ∈ room
      · exact Or.inl ⟨r, List.mem_append_left _ hin, Later.refl r⟩
      · rcases hall r hr with hroomy | ⟨hexpires, hwhy⟩
        · exact absurd hroomy hin
        · refine Or.inr ⟨⟨?_, hwhy⟩, ?_⟩
          · rw [(valid_phases (h.sound.each r hr)).2]
            exact hexpires
          · intro s hs hid
            rcases List.mem_append.mp hs with hs | hs
            · have hsame : s = r := h.sound.unique (hsub.subset hs) hr hid
              exact hin (hsame ▸ hs)
            · rw [List.mem_singleton.mp hs] at hid
              exact hfresh r hr hid.symm
    · intro r hr s hs hsome hturn
      rw [hnew, ← hrecords] at hr hs
      exact turns_unique (valid_sound hvalid).turns hr hs hsome hturn

theorem safeStep_project (h : Valid b stored)
    (hdisk : e.disk ≠ .unsynced)
    (hcall : e.call = .project messageId continuations pendingApprovals) : SafeStep b stored e := by
  have hperform : perform b stored e = projectMessageContinuation b stored e.disk e.owner messageId
      continuations pendingApprovals e.now := by
    simp only [perform, hcall]
  rcases project_cases (b := b) hdisk with
    hsame | ⟨record, changed, hout, hexpires, hgrown, observedAt, hchanged⟩
  · exact safeStep_same h (by rw [hperform]; exact hsame)
  · rw [← hperform] at hout
    refine safeStep_replaced h hout ?_
    have hmem : record ∈ recordsOf stored := by
      obtain ⟨_, _, _, hmem, _⟩ := hout
      exact hmem
    have hphases := (valid_phases (h.sound.each record hmem)).2
    rw [hexpires] at hphases
    rw [hchanged]
    refine ⟨rfl, rfl, rfl, fun _ => rfl, Nat.le_refl _, ?_, hgrown⟩
    intro hterminal
    rw [hterminal] at hphases
    cases hphases

/-- The phase a running record is given is not behind the one it has. -/
theorem advance_rank (hrecord : record.valid b = true) (hchanged : changed.valid b = true)
    (hexpires : record.expiresAt = none) (hphase : changed.phase = phase)
    (hturn : record.turnId.isSome = true → changed.turnId.isSome = true)
    (hallowed : phase = .preparing → record.phase ≠ .queued ∧ record.phase ≠ .uncertain)
    (hqueued : ¬ (phase = .queued ∧ record.phase ≠ .preparing))
    (huncertain : ¬ (phase = .uncertain ∧ record.turnId.isSome)) :
    rank record.phase ≤ rank phase := by
  obtain ⟨hunbound, hterminal⟩ := valid_phases hrecord
  have hbound := (valid_phases hchanged).1
  rw [hexpires] at hterminal
  rw [hphase] at hbound
  cases hold : record.phase with
  | preparing => exact Nat.zero_le _
  | completed => simp [hold, OperationPhase.terminal] at hterminal
  | interrupted => simp [hold, OperationPhase.terminal] at hterminal
  | failed => simp [hold, OperationPhase.terminal] at hterminal
  | queued =>
    cases phase with
    | preparing => exact absurd hold (hallowed rfl).1
    | queued => simp [hold] at hqueued
    | _ => decide
  | uncertain =>
    cases phase with
    | preparing => exact absurd hold (hallowed rfl).2
    | queued => simp [hold] at hqueued
    | _ => decide
  | admitted =>
    have hsome : record.turnId.isSome = true := by
      cases hturnId : record.turnId with
      | none => simp [hold, unbound, hturnId] at hunbound
      | some turn => rfl
    have hkept := hturn hsome
    cases phase with
    | preparing =>
      cases hturnId : changed.turnId with
      | none => simp [hturnId] at hkept
      | some turn => simp [unbound, hturnId] at hbound
    | queued => simp [hold] at hqueued
    | uncertain => simp [hsome] at huncertain
    | _ => decide

theorem safeStep_advance (h : Valid b stored)
    (hallowed : Allowed stored e) (hcall : e.call = .advance messageId phase turnId) :
    SafeStep b stored e := by
  have hperform : perform b stored e =
      advanceMessageOperation b stored e.disk e.owner messageId phase turnId e.now := by
    simp only [perform, hcall]
  rcases advance_cases (b := b) hallowed.1 with hsame | ⟨record, changed, hout, hid, hexpires,
    hturn, hqueued, huncertain, observedAt, expiresAt, hchanged⟩
  · exact safeStep_same h (by rw [hperform]; exact hsame)
  · rw [← hperform] at hout
    refine safeStep_replaced h hout ?_
    have hmem : record ∈ recordsOf stored := by
      obtain ⟨_, _, _, hmem, _⟩ := hout
      exact hmem
    have hvalid := h.sound.each record hmem
    have hphases := (valid_phases hvalid).2
    have hturnId : record.turnId.isSome = true → turnId.or record.turnId = record.turnId := by
      intro hsome
      cases hasked : turnId with
      | none => rfl
      | some turn =>
        have hsame : record.turnId = turnId := by
          by_contra hne
          exact hturn ⟨hsome, by rw [hasked]; rfl, hne⟩
        rw [hsame, hasked]
        rfl
    have hrank : rank record.phase ≤ rank phase := by
      apply advance_rank hvalid hout.valid hexpires (by rw [hchanged]) _ _ hqueued huncertain
      · intro hsome
        rw [hchanged]
        show (turnId.or record.turnId).isSome = true
        rw [hturnId hsome]
        exact hsome
      · intro hpreparing
        rw [hpreparing] at hcall
        exact hallowed.2 messageId turnId hcall record hmem hid
    rw [hexpires] at hphases
    rw [hchanged]
    refine ⟨rfl, rfl, rfl, hturnId, hrank, ?_, List.prefix_refl _⟩
    intro hterminal
    rw [hterminal] at hphases
    cases hphases

theorem allowed_safeStep (h : Valid b stored)
    (hallowed : Allowed stored e) : SafeStep b stored e := by
  cases hcall : e.call with
  | prepare sender messageId fingerprint => exact safeStep_prepare h hallowed.1 hcall
  | advance messageId phase turnId => exact safeStep_advance h hallowed hcall
  | project messageId continuations pendingApprovals => exact safeStep_project h hallowed.1 hcall

theorem allowed_run (h : Valid b stored)
    (hall : Along (step b) Allowed stored events) :
    Along (step b) (SafeStep b) stored events := by
  induction events generalizing stored with
  | nil => trivial
  | cons e es ih =>
    have hsafe := allowed_safeStep h hall.1
    refine ⟨hsafe, ?_⟩
    intro t ht
    have hvalid : Valid b t := by
      rw [← Option.some.inj ht]
      exact hsafe.valid
    exact ih hvalid (hall.2 t ht)

variable (b) in
/-- In every sequence of calls none of which asks for `preparing` where the record has left it: what
is written the schema accepts, a call that throws changes nothing, no turn is shared, every record
keeps its turn, its end, its phase order and its continuations, and only a terminal one is dropped,
after its deadline or for room. -/
theorem calls_keep_records {events : List Event} (hall : Along (step b) Allowed none events) :
    Along (step b) (SafeStep b) none events := by
  apply allowed_run _ hall
  intro journal hnone
  cases hnone

end

/-- Every text is well formed, and every clock shows one date. -/
def anyText : Builtins :=
  { isUuid := fun _ => true
    isHex64 := fun _ => true
    isDatetime := fun _ => true
    toIso := fun _ => some "2026-08-26T10:00:00.000Z"
    dateParse := fun _ => some 1787738400000
    sha256 := id
    jsonBytes := fun _ => 0 }

def codexOwner : Owner := ⟨some "g", .codex, some "n"⟩

def at_ (call : Call) : Event := ⟨codexOwner, 1787738400000, .written, call⟩

def lifeOfReceipt : List Event :=
  [at_ (.prepare (.cli "alpha") "m" "f"), at_ (.advance "m" .queued none),
    at_ (.advance "m" .uncertain none), at_ (.advance "m" .admitted (some "t")),
    at_ (.advance "m" .completed (some "t"))]

theorem calls_keep_records_life : Along (step anyText) (SafeStep anyText) none lifeOfReceipt := by
  apply calls_keep_records anyText
  have hallowed : ∀ stored, ∀ call : Call, (∀ messageId turnId,
      call ≠ .advance messageId .preparing turnId) → Allowed stored (at_ call) := by
    intro stored call hcall
    refine ⟨by simp [at_], ?_⟩
    intro messageId turnId hasks
    exact absurd hasks (hcall messageId turnId)
  refine ⟨hallowed _ _ (by simp), fun _ _ => ⟨hallowed _ _ (by simp), fun _ _ =>
    ⟨hallowed _ _ (by simp), fun _ _ => ⟨hallowed _ _ (by simp), fun _ _ =>
      ⟨hallowed _ _ (by simp), fun _ _ => trivial⟩⟩⟩⟩⟩

/-- What is stored of one receipt in the given phase. -/
def oneReceipt (phase : OperationPhase) : Option MessageOperationJournal :=
  some ⟨"g", .codex, "n",
    [⟨"m", "ccmux:alpha:cli", "f", phase, none, [], [], "2026-08-26T10:00:00.000Z", none⟩]⟩

/-- A queued receipt is put back to `preparing`. -/
theorem queued_receipt_prepares_again :
    run (step anyText) none [at_ (.prepare (.cli "alpha") "m" "f"),
        at_ (.advance "m" .queued none)] = some (oneReceipt .queued) ∧
      (perform anyText (oneReceipt .queued) (at_ (.advance "m" .preparing none))).stored =
        oneReceipt .preparing ∧ rank .preparing < rank .queued := by
  refine ⟨by rfl, by rfl, by decide⟩

end Ccmux.Chat.MessageOperationStore
