/- Module: Ccmux/Attachments/UploadRun
   source: src/attachments/upload.ts, src/attachments/store.ts, src/attachments/service.ts
   digest: Uploads begun, appended to, expired and cancelled, with a crash at any write. -/

import Ccmux.Attachments.Upload
import Ccmux.Lib.Machine
import Mathlib

namespace Ccmux.Attachments

open Ccmux.Chat.Identity
open Ccmux.Lib.Amend
open Ccmux.Lib.Machine

/-- The disk; the chunks that each upload was advanced by since it was opened; and the uploads whose
removal a crash interrupted. -/
structure World where
  disk : Disk
  taken : String → List Chunk
  interrupted : List String

/-- A request comes from a session, or is turned away for want of one. The last four are the crashes
between two writes: while expired files are removed, before the file of a new upload, after `k` bytes
of a chunk, and before the index of a cancellation. -/
inductive Event where
  | begin (now : Int) (caller : Except String Caller) (input : AttachmentBegin)
  | append (now : Int) (caller : Except String Caller) (input : AttachmentChunk)
  | cancel (now : Int) (caller : Except String Caller) (input : AttachmentUploadSelector)
  | finalize (now : Int) (caller : Caller) (input : AttachmentUploadSelector)
  | pins (pinned retained : List String)
  | reapStops (now : Int) (k : Nat)
  | beginStops (now : Int) (caller : Except String Caller) (input : AttachmentBegin)
  | appendStops (now : Int) (caller : Caller) (input : AttachmentChunk) (k : Nat)
  | cancelStops (now : Int) (caller : Except String Caller) (input : AttachmentUploadSelector)

def startWorld : World := ⟨⟨{}, fun _ => none⟩, fun _ => [], []⟩

def setTaken (taken : String → List Chunk) (id : String) (chunks : List Chunk) :
    String → List Chunk :=
  fun other => if other = id then chunks else taken other

def World.answered (w : World) (disk : Disk) (answer : Answer) : World :=
  { w with
    disk
    taken := match answer with
      | .opened receipt => setTaken w.taken receipt.uploadId []
      | .advanced receipt chunk =>
        setTaken w.taken receipt.uploadId (w.taken receipt.uploadId ++ [chunk])
      | _ => w.taken }

section
variable (fits : AttachmentStore → Bool)

/-- `withAttachmentStore` before its callback. Where the index is refused here, the files are gone
all the same, as after `reapStops`. -/
def admitted (disk : Disk) (now : Int) : Option Disk :=
  let reaped := reapExpired disk now
  if reaped.store = disk.store ∨ fits reaped.store = true then some reaped else none

def transact (w : World) (now : Int) (caller : Except String Caller)
    (request : Caller → Disk → Disk × Answer) : Option (Disk × Answer) :=
  (admitted fits w.disk now).map fun disk =>
    match caller with
    | .error reason => (disk, .refused reason)
    | .ok caller => request caller disk

/-- `row.phase = 'verified'`, where `finalizeAttachmentUpload` read and decoded the file. -/
def verify (now : Int) (row : AttachmentRecord) : AttachmentRecord :=
  { row with phase := .verified, expiresAt := now + unretainedTtlMs }

def retain (retained : List String) (row : AttachmentRecord) : AttachmentRecord :=
  if row.phase = .verified ∧ retained.contains row.id = true then { row with phase := .retained }
  else row

/-- One event: the world after it, and the answer where it is an answered request. -/
def perform (w : World) : Event → Option (World × Option Answer)
  | .begin now caller input =>
    (transact fits w now caller fun caller => beginUpload fits now caller input).map fun r =>
      (w.answered r.1 r.2, some r.2)
  | .append now caller input =>
    (transact fits w now caller fun caller => appendChunk fits caller input).map fun r =>
      (w.answered r.1 r.2, some r.2)
  | .cancel now caller input =>
    (transact fits w now caller fun caller => cancelUpload now caller input).bind fun r =>
      if isRefused r.2 || fits r.1.store then some (w.answered r.1 r.2, some r.2) else none
  | .finalize now caller input =>
    (admitted fits w.disk now).bind fun disk =>
      match ownedAttachment disk.store caller input.target input.uploadId with
      | .error _ => none
      | .ok row =>
        match disk.files (attachmentPath row) with
        | none => none
        | some file =>
          if row.phase = .uploading ∧ row.received = row.bytes ∧ file.length = row.bytes then
            let store := disk.store.amend row.id (verify now)
            if fits store then some ({ w with disk := { disk with store } }, none) else none
          else none
  | .pins pinned retained =>
    let store := { w.disk.store with
      records := w.disk.store.records.map (retain retained)
      pinned }
    some ({ w with disk := { w.disk with store } }, none)
  | .reapStops now k =>
    let gone := (w.disk.store.records.filter (expired w.disk.store now)).take k
    some ({ w with
      disk := { w.disk with files := w.disk.files.remove gone }
      interrupted := w.interrupted ++ gone.map fun row => row.id }, none)
  | .beginStops now caller input =>
    (transact fits w now caller fun caller => beginUpload fits now caller input).bind fun r =>
      match r.2 with
      | .opened receipt =>
        let disk := { r.1 with files := (reapExpired w.disk now).files }
        some (w.answered disk (.opened receipt), none)
      | _ => none
  | .appendStops now caller input k =>
    (admitted fits w.disk now).bind fun disk =>
      match ownedAttachment disk.store caller input.target input.uploadId with
      | .error _ => none
      | .ok row =>
        match planAppend disk.files row input with
        | .extend files kept data =>
          let files := files.write (attachmentPath row) (kept ++ data.take k)
          some ({ w with disk := { disk with files } }, none)
        | _ => none
  | .cancelStops now caller input =>
    (transact fits w now caller fun caller => cancelUpload now caller input).bind fun r =>
      if isRefused r.2 then none
      else
        let disk := { r.1 with store := (reapExpired w.disk now).store }
        some ({ w with disk, interrupted := w.interrupted ++ [input.uploadId] }, none)

def step (w : World) (e : Event) : Option World := (perform fits w e).map fun r => r.1

def answerOf (w : World) (e : Event) : Option Answer := (perform fits w e).bind fun r => r.2

end

/-! What the files and the index hold. -/

def bytesOf (chunks : List Chunk) : Bytes := chunks.flatMap fun chunk => chunk.data

/-- Each chunk begins where the one before it ended. -/
def Tiles : Nat → List Chunk → Nat → Prop
  | start, [], stop => start = stop
  | start, chunk :: rest, stop =>
    chunk.offset = start ∧ Tiles (start + chunk.data.length) rest stop

/-- The stored uploads are within the quotas they were checked against. -/
structure WithinQuota (records : List AttachmentRecord) : Prop where
  count : records.length ≤ maxRecords
  host : hostBytes records ≤ maxHostBytes
  ongoing : uploads records ≤ maxHostUploads
  perTarget : ∀ target, targetUploads records target ≤ maxTargetUploads

/-- The first received bytes of the upload's file are the chunks it was advanced by, in the order
of their offsets; a file that is missing received nothing, or its removal was interrupted. -/
structure RowHolds (w : World) (row : AttachmentRecord) : Prop where
  tiles : Tiles 0 (w.taken row.id) row.received
  bounded : row.received ≤ row.bytes
  file : ∀ file, w.disk.files (attachmentPath row) = some file →
    row.received ≤ file.length ∧ file.length ≤ row.bytes ∧
      file.take row.received = bytesOf (w.taken row.id)
  missing : w.disk.files (attachmentPath row) = none →
    (row.received = 0 ∧ row.phase = .uploading) ∨ row.id ∈ w.interrupted

structure Holds (w : World) : Prop where
  rows : ∀ row ∈ w.disk.store.records, RowHolds w row
  quota : WithinQuota w.disk.store.records

/-- The first received bytes of a row's file. -/
def prefixBytes (w : World) (row : AttachmentRecord) : Bytes :=
  ((w.disk.files (attachmentPath row)).getD []).take row.received

/-- The records that a request at this time still finds. -/
def World.current (w : World) (now : Int) : List AttachmentRecord :=
  w.disk.store.records.filter fun row => !expired w.disk.store now row

/-- The event removes the row: it expired, or is cancelled. -/
def removes (w : World) (row : AttachmentRecord) : Event → Bool
  | .begin now _ _ => expired w.disk.store now row
  | .append now _ _ => expired w.disk.store now row
  | .cancel now _ input => expired w.disk.store now row || row.id == input.uploadId
  | .finalize now _ _ => expired w.disk.store now row
  | .pins _ _ => false
  | .reapStops _ _ => false
  | .beginStops now _ _ => expired w.disk.store now row
  | .appendStops now _ _ _ => expired w.disk.store now row
  | .cancelStops now _ _ => expired w.disk.store now row

/-- A refused request leaves the uploads that did not expire, their quota sums with them, and the
acknowledged bytes of each. -/
structure Unchanged (w : World) (now : Int) (u : World) : Prop where
  records : u.disk.store.records = w.current now
  taken : u.taken = w.taken
  kept : ∀ row ∈ u.disk.store.records, prefixBytes u row = prefixBytes w row

/-- A new upload is judged by the sums over the stored uploads, and joins them. -/
def Opened (w : World) (now : Int) (input : AttachmentBegin) (u : World) : Prop :=
  checkQuota (w.current now) input.target input.totalBytes = none ∧
    ∃ row, row.id = input.uploadId ∧ row.bytes = input.totalBytes ∧ row.received = 0 ∧
      u.disk.store.records = w.current now ++ [row]

/-- An accepted chunk stands at its offset among the received bytes. -/
def Accepted (input : AttachmentChunk) (u : World) : Prop :=
  ∃ data row, input.data = some data ∧ row ∈ u.disk.store.records ∧ row.id = input.uploadId ∧
    input.offset + data.length ≤ row.received ∧
    ((prefixBytes u row).drop input.offset).take data.length = data

/-- What the answers to the requests of an upload mean. -/
def Answered (w : World) (e : Event) (answer : Answer) (u : World) : Prop :=
  match e with
  | .begin now _ input =>
    (isRefused answer = true → Unchanged w now u) ∧
      ∀ receipt, answer = .opened receipt → Opened w now input u
  | .append now _ input =>
    (isRefused answer = true → Unchanged w now u) ∧ (isRefused answer = false → Accepted input u)
  | _ => True

/-- No received count falls but by the removal of its upload. -/
def Grows (w : World) (e : Event) (u : World) : Prop :=
  ∀ row ∈ w.disk.store.records, removes w row e = false →
    ∃ after ∈ u.disk.store.records, after.id = row.id ∧ row.received ≤ after.received

structure Sound (w : World) : Prop extends Holds w where
  ids : (w.disk.store.records.map fun row => row.id).Nodup
  backed : ∀ path, w.disk.files path ≠ none →
    ∃ row ∈ w.disk.store.records, attachmentPath row = path

section
variable {fits : AttachmentStore → Bool} {w v : World} {row : AttachmentRecord}

theorem sound_start : Sound startWorld := by
  refine ⟨⟨?_, Nat.zero_le _, Nat.zero_le _, Nat.zero_le _, fun _ => Nat.zero_le _⟩,
    List.nodup_nil, ?_⟩
  · intro row hrow
    cases hrow
  · intro path hpath
    exact absurd rfl hpath

/-! Chunks that tile what was received. -/

variable {start stop offset : Nat} {chunks : List Chunk} {store : AttachmentStore} {id : String}
  {files : Files} {rows : List AttachmentRecord} {path : Path} {disk₀ : Disk}

theorem tiles_length (h : Tiles start chunks stop) :
    stop = start + (bytesOf chunks).length := by
  induction chunks generalizing start with
  | nil => simpa [bytesOf] using h.symm
  | cons chunk rest ih =>
    have hrest := ih h.2
    simp only [bytesOf, List.flatMap_cons, List.length_append] at hrest ⊢
    omega

theorem tiles_append (h : Tiles start chunks stop)
    (data : Bytes) : Tiles start (chunks ++ [⟨stop, data⟩]) (stop + data.length) := by
  induction chunks generalizing start with
  | nil =>
    obtain rfl : start = stop := h
    exact ⟨rfl, rfl⟩
  | cons chunk rest ih => exact ⟨h.1, ih h.2⟩

theorem bytesOf_append (chunks : List Chunk) (chunk : Chunk) :
    bytesOf (chunks ++ [chunk]) = bytesOf chunks ++ chunk.data := by
  simp [bytesOf]

/-! The rows are told apart by their ids, and their files with them. -/

theorem eq_of_id (hids : (w.disk.store.records.map fun row => row.id).Nodup)
    {other : AttachmentRecord} (hrow : row ∈ w.disk.store.records)
    (hother : other ∈ w.disk.store.records) (hid : row.id = other.id) : row = other :=
  List.inj_on_of_nodup_map hids hrow hother hid

theorem row_some (h : store.row id = some row) :
    row ∈ store.records ∧ row.id = id := by
  refine ⟨List.mem_of_find?_eq_some h, ?_⟩
  simpa [hasId] using List.find?_some h

variable {caller : Caller} {records : List AttachmentRecord} {now : Int} {disk : Disk}
  {answer : Answer} {e : Event}

theorem owned_some {target : ManagedPeer} (h : ownedAttachment store caller target id = .ok row) :
    store.row id = some row := by
  unfold ownedAttachment at h
  split at h
  · cases h
  · rename_i found hfound
    split at h
    · rw [hfound]
      exact congrArg some (Except.ok.inj h)
    · cases h

theorem write_same (files : Files) (path : Path) (file : Bytes) :
    files.write path file path = some file := if_pos rfl

theorem write_other (files : Files) {path other : Path} (file : Bytes) (h : other ≠ path) :
    files.write path file other = files other := if_neg h

theorem remove_kept (h : ∀ gone ∈ rows, attachmentPath gone ≠ path) :
    files.remove rows path = files path := by
  unfold Files.remove
  rw [if_neg]
  intro hany
  obtain ⟨gone, hgone, hpath⟩ := List.any_eq_true.mp hany
  exact h gone hgone (beq_iff_eq.mp hpath)

theorem remove_some (h : files.remove rows path ≠ none) :
    files path ≠ none ∧ ∀ gone ∈ rows, attachmentPath gone ≠ path := by
  unfold Files.remove at h
  split at h
  · exact absurd rfl h
  · rename_i hany
    refine ⟨h, ?_⟩
    intro gone hgone hpath
    exact hany (List.any_eq_true.mpr ⟨gone, hgone, beq_iff_eq.mpr hpath⟩)

theorem RowHolds.same (h : RowHolds w row) (htaken : v.taken row.id = w.taken row.id)
    (hfile : v.disk.files (attachmentPath row) = w.disk.files (attachmentPath row))
    (hinterrupted : row.id ∈ w.interrupted → row.id ∈ v.interrupted) : RowHolds v row := by
  refine ⟨?_, h.bounded, ?_, ?_⟩
  · rw [htaken]
    exact h.tiles
  · rw [htaken, hfile]
    exact h.file
  · rw [hfile]
    intro hmissing
    exact (h.missing hmissing).imp_right hinterrupted

/-! Quotas under removal and amendment. -/

theorem quota_sublist {kept : List AttachmentRecord} (h : WithinQuota records)
    (hsub : kept.Sublist records) : WithinQuota kept := by
  refine ⟨hsub.length_le.trans h.count, ?_, (hsub.countP_le).trans h.ongoing,
    fun target => (hsub.countP_le).trans (h.perTarget target)⟩
  have hbytes := hsub.map fun row : AttachmentRecord => row.bytes
  exact (hbytes.sum_le_sum fun _ _ => Nat.zero_le _).trans h.host

theorem quota_amend (h : WithinQuota records)
    {p : AttachmentRecord → Bool} {f : AttachmentRecord → AttachmentRecord}
    (hbytes : ∀ row, (f row).bytes = row.bytes) (htarget : ∀ row, (f row).target = row.target)
    (hphase : ∀ row, (f row).phase = .uploading → row.phase = .uploading) :
    WithinQuota (amendFirst p f records) := by
  refine ⟨?_, ?_, ?_, ?_⟩
  · rw [amendFirst_length]
    exact h.count
  · rw [hostBytes, amendFirst_map hbytes]
    exact h.host
  · refine (amendFirst_countP_le ?_).trans h.ongoing
    intro row hrow
    exact beq_iff_eq.mpr (hphase row (beq_iff_eq.mp hrow))
  · intro target
    refine (amendFirst_countP_le ?_).trans (h.perTarget target)
    intro row hrow
    rw [Bool.and_eq_true] at hrow ⊢
    rw [← htarget row]
    exact ⟨beq_iff_eq.mpr (hphase row (beq_iff_eq.mp hrow.1)), hrow.2⟩

theorem sameTarget_congr {left right other : ManagedPeer}
    (h : sameTarget (.managed left) (.managed right) = true) :
    sameTarget (.managed other) (.managed left) = sameTarget (.managed other) (.managed right) := by
  rw [sameTarget, beq_iff_eq] at h
  rw [sameTarget, sameTarget, h]

/-- An upload that passed its check fits beside the others. -/
theorem quota_push (h : WithinQuota records)
    (hroom : checkQuota records row.target row.bytes = none) : WithinQuota (records ++ [row]) := by
  unfold checkQuota at hroom
  split_ifs at hroom with hcount hhost huploads
  rw [not_or] at huploads
  refine ⟨?_, ?_, ?_, ?_⟩
  · rw [List.length_append, List.length_singleton]
    omega
  · simp only [hostBytes, List.map_append, List.sum_append, List.map_singleton,
      List.sum_singleton] at hhost ⊢
    omega
  · simp only [uploads, List.countP_append] at huploads ⊢
    have hone : [row].countP (fun row => row.phase == .uploading) ≤ 1 := List.countP_le_length
    omega
  · intro target
    simp only [targetUploads, List.countP_append] at huploads ⊢
    by_cases hsame : sameTarget (.managed row.target) (.managed target) = true
    · have hone : [row].countP (fun row => row.phase == .uploading &&
          sameTarget (.managed row.target) (.managed target)) ≤ 1 := List.countP_le_length
      have hcongr : (fun other : AttachmentRecord => other.phase == .uploading &&
            sameTarget (.managed other.target) (.managed target)) =
          fun other => other.phase == .uploading &&
            sameTarget (.managed other.target) (.managed row.target) := by
        funext other
        rw [sameTarget_congr hsame]
      rw [hcongr] at hone ⊢
      omega
    · have hnone : [row].countP (fun row => row.phase == .uploading &&
          sameTarget (.managed row.target) (.managed target)) = 0 := by
        simp [hsame]
      rw [hnone, Nat.add_zero]
      exact h.perTarget target

/-! The writes of the index and of the files. -/

theorem mem_current : row ∈ w.current now ↔
    row ∈ w.disk.store.records ∧ expired w.disk.store now row = false := by
  rw [World.current, List.mem_filter, Bool.not_eq_true']

/-- Rows are dropped, and the files of the dropped ones. -/
theorem Sound.shrunk (h : Sound w) {keep : AttachmentRecord → Bool} {gone : List AttachmentRecord}
    (hgone : ∀ row ∈ gone, row ∈ w.disk.store.records ∧ keep row = false)
    (hall : ∀ row ∈ w.disk.store.records, keep row = false → row ∈ gone)
    (pinned : List String) (cancelled : List AttachmentCancellation) :
    Sound { w with disk :=
      { store := ⟨w.disk.store.records.filter keep, pinned, cancelled⟩
        files := w.disk.files.remove gone } } ∧
      ∀ row ∈ w.disk.store.records.filter keep,
        w.disk.files.remove gone (attachmentPath row) = w.disk.files (attachmentPath row) := by
  have hfile : ∀ row ∈ w.disk.store.records.filter keep,
      w.disk.files.remove gone (attachmentPath row) = w.disk.files (attachmentPath row) := by
    intro row hrow
    obtain ⟨hmem, hkept⟩ := List.mem_filter.mp hrow
    refine remove_kept ?_
    intro other hother hpath
    obtain ⟨hother_mem, hdropped⟩ := hgone other hother
    rw [eq_of_id h.ids hother_mem hmem (congrArg Path.id hpath), hkept] at hdropped
    cases hdropped
  refine ⟨⟨⟨?_, quota_sublist h.quota List.filter_sublist⟩, ?_, ?_⟩, hfile⟩
  · intro row hrow
    exact (h.rows row (List.mem_of_mem_filter hrow)).same rfl (hfile row hrow) id
  · exact h.ids.sublist (List.filter_sublist.map _)
  · intro path hpath
    obtain ⟨hold, hother⟩ := remove_some hpath
    obtain ⟨row, hrow, rfl⟩ := h.backed path hold
    refine ⟨row, List.mem_filter.mpr ⟨hrow, ?_⟩, rfl⟩
    by_contra hdropped
    exact hother row (hall row hrow (by simpa using hdropped)) rfl

theorem Sound.reaped (h : Sound w) (now : Int) :
    Sound { w with disk := reapExpired w.disk now } ∧
      ∀ row ∈ w.current now,
        (reapExpired w.disk now).files (attachmentPath row) = w.disk.files (attachmentPath row) := by
  refine h.shrunk ?_ ?_ _ _
  · intro row hrow
    obtain ⟨hmem, hexpired⟩ := List.mem_filter.mp hrow
    exact ⟨hmem, by simpa using hexpired⟩
  · intro row hrow hexpired
    exact List.mem_filter.mpr ⟨hrow, by simpa using hexpired⟩

theorem Sound.stopped (h : Sound w) (gone : List AttachmentRecord) {interrupted : List String}
    (hgone : ∀ row ∈ gone, row.id ∈ interrupted) (hold : ∀ id ∈ w.interrupted, id ∈ interrupted) :
    Sound { w with disk := { w.disk with files := w.disk.files.remove gone }, interrupted } := by
  refine ⟨⟨?_, h.quota⟩, h.ids, ?_⟩
  · intro row hrow
    have hrow_holds := h.rows row hrow
    refine ⟨hrow_holds.tiles, hrow_holds.bounded, ?_, ?_⟩
    · intro file hfile
      refine hrow_holds.file file ?_
      dsimp only [Files.remove] at hfile
      split at hfile
      · cases hfile
      · exact hfile
    · intro hmissing
      dsimp only [Files.remove] at hmissing
      split at hmissing
      · rename_i hany
        obtain ⟨other, hother, hpath⟩ := List.any_eq_true.mp hany
        have hid : other.id = row.id := congrArg Path.id (beq_iff_eq.mp hpath)
        exact .inr (hid ▸ hgone other hother)
      · exact (hrow_holds.missing hmissing).imp_right (hold _)
  · intro path hpath
    exact h.backed path (remove_some hpath).1

theorem Sound.withFile (h : Sound w) (hrow : row ∈ w.disk.store.records) {file : Bytes}
    (hreceived : row.received ≤ file.length) (hbytes : file.length ≤ row.bytes)
    (hkept : file.take row.received = bytesOf (w.taken row.id)) :
    Sound { w with disk := { w.disk with
      files := w.disk.files.write (attachmentPath row) file } } := by
  refine ⟨⟨?_, h.quota⟩, h.ids, ?_⟩
  · intro other hother
    by_cases hpath : attachmentPath other = attachmentPath row
    · obtain rfl := eq_of_id h.ids hother hrow (congrArg Path.id hpath)
      refine ⟨(h.rows other hother).tiles, (h.rows other hother).bounded, ?_, ?_⟩
      · intro written hwritten
        obtain rfl := Option.some.inj ((write_same _ _ _).symm.trans hwritten)
        exact ⟨hreceived, hbytes, hkept⟩
      · intro hmissing
        have hnone := (write_same w.disk.files (attachmentPath other) file).symm.trans hmissing
        cases hnone
    · exact (h.rows other hother).same rfl (write_other _ _ hpath) id
  · intro path hpath
    by_cases hsame : path = attachmentPath row
    · exact ⟨row, hrow, hsame.symm⟩
    · refine h.backed path ?_
      dsimp only at hpath
      rwa [write_other _ _ hsame] at hpath

/-- Once ensured, the upload has its file, and no acknowledged byte was touched. -/
theorem ensure_ok (h : Sound w) (hrow : row ∈ w.disk.store.records) {files : Files}
    (hok : ensureUploadFile w.disk.files row = .ok files) :
    Sound { w with disk := { w.disk with files } } ∧
      (∃ file, files (attachmentPath row) = some file) ∧
      ∀ other ∈ w.disk.store.records,
        prefixBytes { w with disk := { w.disk with files } } other = prefixBytes w other := by
  unfold ensureUploadFile at hok
  split at hok
  · rename_i file hfile
    obtain rfl := Except.ok.inj hok
    exact ⟨h, ⟨file, hfile⟩, fun _ _ => rfl⟩
  · rename_i hmissing
    split at hok
    · rename_i hfresh
      obtain rfl := Except.ok.inj hok
      have htiles := tiles_length (h.rows row hrow).tiles
      have hnothing : bytesOf (w.taken row.id) = [] := by
        refine List.eq_nil_of_length_eq_zero ?_
        omega
      refine ⟨h.withFile hrow ?_ (Nat.zero_le _) ?_, ⟨[], write_same _ _ _⟩, ?_⟩
      · rw [hfresh.1]
        exact Nat.zero_le _
      · rw [hnothing, List.take_nil]
      · intro other hother
        by_cases hpath : attachmentPath other = attachmentPath row
        · simp only [prefixBytes, hpath, write_same, hmissing, Option.getD_some, Option.getD_none]
        · simp only [prefixBytes, write_other _ _ hpath]
    · cases hok

/-- The row of an id that is found is amended in place; its chunks may change with it. -/
theorem Sound.amended (h : Sound w) {f : AttachmentRecord → AttachmentRecord}
    {taken : String → List Chunk} (hfind : w.disk.store.row row.id = some row)
    (hid : ∀ row, (f row).id = row.id) (hmedia : ∀ row, (f row).mediaType = row.mediaType)
    (hbytes : ∀ row, (f row).bytes = row.bytes) (htarget : ∀ row, (f row).target = row.target)
    (hphase : ∀ row, (f row).phase = .uploading → row.phase = .uploading)
    (htaken : ∀ id, id ≠ row.id → taken id = w.taken id)
    (hrow : RowHolds { w with taken } (f row)) :
    Sound { w with disk := { w.disk with store := w.disk.store.amend row.id f }, taken } := by
  obtain ⟨-, pre, post, hsplit, hamend⟩ := amendFirst_some (f := f) hfind
  have hpath : ∀ row, attachmentPath (f row) = attachmentPath row := by
    intro row
    rw [attachmentPath, attachmentPath, hid, hmedia]
  have hids := h.ids
  have hmap : (amendFirst (hasId row.id) f w.disk.store.records).map (fun row => row.id) =
      w.disk.store.records.map fun row => row.id := amendFirst_map hid
  refine ⟨⟨?_, quota_amend h.quota hbytes htarget hphase⟩, ?_, ?_⟩
  · intro other hother
    change other ∈ amendFirst (hasId row.id) f w.disk.store.records at hother
    have hnodup : ((amendFirst (hasId row.id) f w.disk.store.records).map fun row => row.id).Nodup := by
      rw [hmap]
      exact hids
    have hamended : f row ∈ amendFirst (hasId row.id) f w.disk.store.records := by
      rw [hamend]
      exact List.mem_append_right _ List.mem_cons_self
    by_cases hsame : other.id = row.id
    · have heq : other = f row :=
        List.inj_on_of_nodup_map hnodup hother hamended (hsame.trans (hid row).symm)
      rw [heq]
      exact hrow.same rfl rfl id
    · rcases mem_amendFirst hother with hold | ⟨before, hbefore, rfl⟩
      · exact (h.rows other hold).same (htaken other.id hsame) rfl id
      · obtain rfl := Option.some.inj (hfind.symm.trans hbefore)
        exact absurd (hid _) hsame
  · change ((amendFirst (hasId row.id) f w.disk.store.records).map fun row => row.id).Nodup
    rw [hmap]
    exact hids
  · intro path hfile
    obtain ⟨other, hother, rfl⟩ := h.backed path hfile
    change ∃ kept ∈ amendFirst (hasId row.id) f w.disk.store.records, _
    have hpaths : (amendFirst (hasId row.id) f w.disk.store.records).map attachmentPath =
        w.disk.store.records.map attachmentPath := amendFirst_map hpath
    have hmem : attachmentPath other ∈ w.disk.store.records.map attachmentPath :=
      List.mem_map_of_mem hother
    rw [← hpaths] at hmem
    obtain ⟨kept, hkept, hkept_path⟩ := List.mem_map.mp hmem
    exact ⟨kept, hkept, hkept_path⟩

/-- A new upload joins the index; it has no file before one is created. -/
theorem Sound.pushed (h : Sound w) (hnew : w.disk.store.row row.id = none)
    (hroom : checkQuota w.disk.store.records row.target row.bytes = none)
    (hreceived : row.received = 0) (hphase : row.phase = .uploading) :
    Sound { w with
      disk := { w.disk with store :=
        { w.disk.store with records := w.disk.store.records ++ [row] } }
      taken := setTaken w.taken row.id [] } := by
  have hother : ∀ other ∈ w.disk.store.records, other.id ≠ row.id := by
    intro other hmem hid
    have hne := List.find?_eq_none.mp hnew other hmem
    exact hne (beq_iff_eq.mpr hid)
  refine ⟨⟨?_, quota_push h.quota hroom⟩, ?_, ?_⟩
  · intro other hmem
    rcases List.mem_append.mp hmem with hold | hlast
    · exact (h.rows other hold).same (if_neg (hother other hold)) rfl id
    · obtain rfl := List.mem_singleton.mp hlast
      refine ⟨?_, ?_, ?_, fun _ => .inl ⟨hreceived, hphase⟩⟩
      · rw [hreceived]
        simp [setTaken, Tiles]
      · rw [hreceived]
        exact Nat.zero_le _
      · intro file hfile
        obtain ⟨held, hheld, hpath⟩ := 
          h.backed (attachmentPath other) (Option.ne_none_iff_exists'.mpr ⟨file, hfile⟩)
        exact absurd (congrArg Path.id hpath) (hother held hheld)
  · rw [List.map_append]
    apply nodup_grow h.ids
    intro hmem
    obtain ⟨other, hold, hid⟩ := List.mem_map.mp hmem
    exact hother other hold hid
  · intro path hfile
    obtain ⟨held, hheld, hpath⟩ := h.backed path hfile
    exact ⟨held, List.mem_append_left _ hheld, hpath⟩

theorem retain_id (retained : List String) (row : AttachmentRecord) :
    (retain retained row).id = row.id := by
  unfold retain
  split <;> rfl

theorem retain_holds (h : RowHolds w row) (retained : List String) :
    RowHolds w (retain retained row) := by
  unfold retain
  split
  · rename_i hverified
    refine ⟨h.tiles, h.bounded, h.file, ?_⟩
    intro hmissing
    rcases h.missing hmissing with hfresh | hinterrupted
    · rw [hverified.1] at hfresh
      cases hfresh.2
    · exact .inr hinterrupted
  · exact h

theorem retain_uploading {retained : List String}
    (h : (retain retained row).phase = .uploading) : row.phase = .uploading := by
  unfold retain at h
  split at h
  · cases h
  · exact h

/-- Pins are set, and verified uploads retained. -/
theorem Sound.retained (h : Sound w) (pinned retained : List String) :
    Sound { w with disk := { w.disk with store := { w.disk.store with
      records := w.disk.store.records.map (retain retained), pinned } } } := by
  have hbytes : ∀ row, (retain retained row).bytes = row.bytes := by
    intro row
    unfold retain
    split <;> rfl
  have htarget : ∀ row, (retain retained row).target = row.target := by
    intro row
    unfold retain
    split <;> rfl
  have hpath : ∀ row, attachmentPath (retain retained row) = attachmentPath row := by
    intro row
    unfold retain
    split <;> rfl
  refine ⟨⟨?_, ?_, ?_, ?_, ?_⟩, ?_, ?_⟩
  · intro kept hkept
    obtain ⟨row, hrow, rfl⟩ := List.mem_map.mp hkept
    exact (retain_holds (h.rows row hrow) retained).same rfl rfl id
  · rw [List.length_map]
    exact h.quota.count
  · simp only [hostBytes, List.map_map, Function.comp_def, hbytes]
    exact h.quota.host
  · rw [uploads, List.countP_map]
    refine (List.countP_mono_left ?_).trans h.quota.ongoing
    intro row _ huploading
    exact beq_iff_eq.mpr (retain_uploading (beq_iff_eq.mp huploading))
  · intro target
    rw [targetUploads, List.countP_map]
    refine (List.countP_mono_left ?_).trans (h.quota.perTarget target)
    intro row _ hboth
    simp only [Function.comp_apply, htarget, Bool.and_eq_true, beq_iff_eq] at hboth ⊢
    exact ⟨retain_uploading hboth.1, hboth.2⟩
  · simp only [List.map_map, Function.comp_def, retain_id]
    exact h.ids
  · intro path hfile
    obtain ⟨row, hrow, rfl⟩ := h.backed path hfile
    exact ⟨_, List.mem_map_of_mem hrow, hpath row⟩

/-! What a chunk is answered. -/

/-- A plan refuses before it ensures the file; or it ensures it, and then refuses, finds the chunk
among the received bytes, or extends them. -/
theorem planAppend_cases (files : Files) (row : AttachmentRecord) (input : AttachmentChunk) :
    (∃ reason, planAppend files row input = .refuse files reason) ∨
    ∃ data ensured, input.data = some data ∧ ensureUploadFile files row = .ok ensured ∧
      ((∃ reason, planAppend files row input = .refuse ensured reason) ∨
        (planAppend files row input = .again ensured ∧
          input.offset + data.length ≤ row.received ∧
          (((ensured (attachmentPath row)).getD []).drop input.offset).take data.length = data) ∨
        (planAppend files row input =
            .extend ensured (((ensured (attachmentPath row)).getD []).take row.received) data ∧
          input.offset = row.received ∧ row.received + data.length ≤ row.bytes)) := by
  unfold planAppend
  split
  · exact .inl ⟨_, rfl⟩
  · rename_i data hdata
    split
    · exact .inl ⟨_, rfl⟩
    · split
      · exact .inl ⟨_, rfl⟩
      · rename_i horder
        split
        · exact .inl ⟨_, rfl⟩
        · rename_i ensured hensured
          refine .inr ⟨data, ensured, hdata, hensured, ?_⟩
          dsimp only
          split
          · exact .inl ⟨_, rfl⟩
          · split
            · split
              · exact .inl ⟨_, rfl⟩
              · rename_i hoverlap
                split
                · exact .inl ⟨_, rfl⟩
                · rename_i hequal
                  exact .inr (.inl ⟨rfl, Nat.le_of_not_lt hoverlap, not_not.mp hequal⟩)
            · rename_i hoffset
              split
              · exact .inl ⟨_, rfl⟩
              · refine .inr (.inr ⟨rfl, ?_, ?_⟩)
                · omega
                · omega

theorem setTaken_same (taken : String → List Chunk) (id : String) (chunks : List Chunk) :
    setTaken taken id chunks id = chunks := if_pos rfl

theorem slice_appended {kept data : Bytes} (h : kept.length = offset) :
    (((kept ++ data).take (offset + data.length)).drop offset).take data.length = data := by
  subst h
  rw [← List.length_append, List.take_length, List.drop_left, List.take_length]

theorem slice_take {file : Bytes} {count received : Nat} (h : offset + count ≤ received) :
    ((file.take received).drop offset).take count = (file.drop offset).take count := by
  rw [List.drop_take, List.take_take]
  congr 1
  omega

section
variable {files : Files} {data : Bytes}

/-- The acknowledged bytes of the row's file, and a part of a chunk after them. -/
def World.extended (w : World) (files : Files) (row : AttachmentRecord) (part : Bytes) : World :=
  let file := ((files (attachmentPath row)).getD []).take row.received ++ part
  { w with disk := { w.disk with files := files.write (attachmentPath row) file } }

theorem Sound.tail (h : Sound w) (hrow : row ∈ w.disk.store.records)
    (hensured : ensureUploadFile w.disk.files row = .ok files)
    (hbytes : row.received + data.length ≤ row.bytes) {part : Bytes}
    (hpart : part.length ≤ data.length) :
    Sound (w.extended files row part) := by
  obtain ⟨hsound, ⟨file, hfile⟩, -⟩ := ensure_ok h hrow hensured
  obtain ⟨hlength, -, hkept⟩ := (hsound.rows row hrow).file file hfile
  have htake : (file.take row.received).length = row.received := by
    rw [List.length_take]
    omega
  unfold World.extended
  rw [hfile, Option.getD_some]
  refine hsound.withFile hrow ?_ ?_ ?_
  · rw [List.length_append]
    omega
  · rw [List.length_append]
    omega
  · rw [List.take_append_of_le_length (by omega), List.take_take, Nat.min_self]
    exact hkept

theorem tail_prefixBytes (h : Sound w) (hrow : row ∈ w.disk.store.records)
    (hensured : ensureUploadFile w.disk.files row = .ok files) {part : Bytes}
    {other : AttachmentRecord} (hother : other ∈ w.disk.store.records) :
    prefixBytes (w.extended files row part) other = prefixBytes w other := by
  obtain ⟨hsound, ⟨file, hfile⟩, hkeptBytes⟩ := ensure_ok h hrow hensured
  rw [← hkeptBytes other hother]
  by_cases hpath : attachmentPath other = attachmentPath row
  · obtain rfl := eq_of_id h.ids hother hrow (congrArg Path.id hpath)
    obtain ⟨hlength, -, -⟩ := (hsound.rows other hother).file file hfile
    have htake : (file.take other.received).length = other.received := by
      rw [List.length_take]
      omega
    simp only [prefixBytes, World.extended, hfile, Option.getD_some, write_same]
    rw [List.take_append_of_le_length (by omega), List.take_take, Nat.min_self]
  · simp only [prefixBytes, World.extended, write_other _ _ hpath]

/-- The receipt is persisted after the chunk was written. -/
theorem Sound.advanced (h : Sound w) (hfind : w.disk.store.row row.id = some row)
    (hensured : ensureUploadFile w.disk.files row = .ok files)
    (hbytes : row.received + data.length ≤ row.bytes) {received : Nat}
    (hreceived : received = row.received + data.length) :
    let wrote := w.extended files row data
    Sound { wrote with
      disk := { wrote.disk with
        store := w.disk.store.amend row.id fun row => { row with received } }
      taken := setTaken w.taken row.id (w.taken row.id ++ [⟨row.received, data⟩]) } := by
  intro wrote
  have hrow := (row_some hfind).1
  have hwrote : Sound wrote := h.tail hrow hensured hbytes (Nat.le_refl _)
  obtain ⟨hsound, ⟨file, hfile⟩, -⟩ := ensure_ok h hrow hensured
  obtain ⟨hlength, -, hkept⟩ := (hsound.rows row hrow).file file hfile
  have hholds := h.rows row hrow
  subst hreceived
  refine @Sound.amended wrote row hwrote (fun other =>
      { other with received := row.received + data.length }) _ hfind (fun _ => rfl) (fun _ => rfl)
    (fun _ => rfl) (fun _ => rfl) (fun _ huploading => huploading)
    (fun id hid => if_neg hid) ⟨?_, hbytes, ?_, ?_⟩
  · change Tiles 0 (setTaken w.taken row.id _ row.id) _
    rw [setTaken_same]
    exact tiles_append hholds.tiles data
  · intro written hwritten
    obtain rfl := Option.some.inj ((write_same _ _ _).symm.trans hwritten)
    have htake : (file.take row.received).length = row.received := by
      rw [List.length_take]
      omega
    change row.received + data.length ≤ _ ∧ _ ≤ row.bytes ∧
      _ = bytesOf (setTaken w.taken row.id _ row.id)
    rw [hfile, Option.getD_some, setTaken_same, bytesOf_append, ← hkept]
    have hall : (file.take row.received ++ data).length = row.received + data.length := by
      rw [List.length_append, htake]
    refine ⟨by rw [hall], by rw [hall]; exact hbytes, ?_⟩
    rw [← hall, List.take_length]
  · intro hmissing
    have hnone := (write_same _ _ _).symm.trans hmissing
    cases hnone

end

/-- No received count falls, whichever rows there are besides. -/
def GrowsTo (records after : List AttachmentRecord) : Prop :=
  ∀ row ∈ records, ∃ other ∈ after, other.id = row.id ∧ row.received ≤ other.received

theorem growsTo_same (records : List AttachmentRecord) : GrowsTo records records :=
  fun row hrow => ⟨row, hrow, rfl, Nat.le_refl _⟩

theorem growsTo_amend {store : AttachmentStore} {id : String}
    {f : AttachmentRecord → AttachmentRecord} (hid : ∀ row, (f row).id = row.id)
    (hreceived : ∀ row, store.row id = some row → row.received ≤ (f row).received) :
    GrowsTo store.records (store.amend id f).records := by
  intro row hrow
  change ∃ other ∈ amendFirst (hasId id) f store.records, _
  cases hfind : store.row id with
  | none =>
    rw [amendFirst_none hfind]
    exact ⟨row, hrow, rfl, Nat.le_refl _⟩
  | some found =>
    obtain ⟨-, pre, post, hsplit, hamend⟩ := amendFirst_some (f := f) hfind
    rw [hamend]
    rw [hsplit] at hrow
    rcases List.mem_append.mp hrow with hpre | hrest
    · exact ⟨row, List.mem_append_left _ hpre, rfl, Nat.le_refl _⟩
    · rcases List.mem_cons.mp hrest with rfl | hpost
      · exact ⟨f row, List.mem_append_right _ List.mem_cons_self, hid row, hreceived row hfind⟩
      · exact ⟨row, List.mem_append_right _ (List.mem_cons_of_mem _ hpost), rfl, Nat.le_refl _⟩

theorem appendChunk_sound (h : Sound w) {caller : Caller} {input : AttachmentChunk} {disk : Disk}
    {answer : Answer} (hresult : appendChunk fits caller input w.disk = (disk, answer)) :
    Sound (w.answered disk answer) ∧
      (isRefused answer = true → disk.store = w.disk.store ∧ (w.answered disk answer).taken = w.taken ∧
        ∀ row ∈ w.disk.store.records,
          prefixBytes (w.answered disk answer) row = prefixBytes w row) ∧
      (isRefused answer = false → Accepted input (w.answered disk answer)) ∧
      GrowsTo w.disk.store.records disk.store.records := by
  unfold appendChunk at hresult
  split at hresult
  · obtain ⟨rfl, rfl⟩ := Prod.mk.inj hresult
    exact ⟨h, fun _ => ⟨rfl, rfl, fun _ _ => rfl⟩, (fun hr => by cases hr), growsTo_same _⟩
  · rename_i row howned
    have hfind := owned_some howned
    obtain ⟨hrow, hid⟩ := row_some hfind
    unfold appendUpload at hresult
    rcases planAppend_cases w.disk.files row input with
      ⟨reason, hplan⟩ | ⟨data, ensured, hdata, hensured, hcases⟩
    · rw [hplan] at hresult
      obtain ⟨rfl, rfl⟩ := Prod.mk.inj hresult
      exact ⟨h, fun _ => ⟨rfl, rfl, fun _ _ => rfl⟩, (fun hr => by cases hr), growsTo_same _⟩
    · obtain ⟨hsound, ⟨file, hfile⟩, hkeptBytes⟩ := ensure_ok h hrow hensured
      rcases hcases with ⟨reason, hplan⟩ | ⟨hplan, hend, hslice⟩ | ⟨hplan, hoffset, hbytes⟩
      · rw [hplan] at hresult
        obtain ⟨rfl, rfl⟩ := Prod.mk.inj hresult
        exact ⟨hsound, fun _ => ⟨rfl, rfl, hkeptBytes⟩, (fun hr => by cases hr), growsTo_same _⟩
      · rw [hplan] at hresult
        obtain ⟨rfl, rfl⟩ := Prod.mk.inj hresult
        refine ⟨hsound, (fun hr => by cases hr), fun _ => ?_, growsTo_same _⟩
        refine ⟨data, row, hdata, hrow, hid, hend, ?_⟩
        change ((((ensured (attachmentPath row)).getD []).take row.received).drop
          input.offset).take data.length = data
        rw [slice_take hend]
        exact hslice
      · rw [hplan] at hresult
        dsimp only at hresult
        rw [← hid] at hfind
        split at hresult
        · obtain ⟨rfl, rfl⟩ := Prod.mk.inj hresult
          have hadvanced := h.advanced hfind hensured hbytes
            (show input.offset + data.length = row.received + data.length by rw [hoffset])
          refine ⟨?_, (fun hr => by cases hr), fun _ => ?_, ?_⟩
          · rw [← hoffset] at hadvanced
            exact hadvanced
          · obtain ⟨-, pre, post, -, hamend⟩ := amendFirst_some
              (f := fun other => { other with received := input.offset + data.length }) hfind
            refine ⟨data, { row with received := input.offset + data.length }, hdata, ?_, hid,
              Nat.le_refl _, ?_⟩
            · change _ ∈ amendFirst _ _ _
              rw [hamend]
              exact List.mem_append_right _ List.mem_cons_self
            · obtain ⟨hlength, -, -⟩ := (hsound.rows row hrow).file file hfile
              have htake : (file.take row.received).length = row.received := by
                rw [List.length_take]
                omega
              have hwritten : (w.extended ensured row data).disk.files (attachmentPath row) =
                  some (file.take row.received ++ data) := by
                unfold World.extended
                rw [hfile]
                exact write_same _ _ _
              have hextended : prefixBytes (w.extended ensured row data)
                  { row with received := input.offset + data.length } =
                  (file.take row.received ++ data).take (input.offset + data.length) := by
                unfold prefixBytes
                rw [show attachmentPath { row with received := input.offset + data.length } =
                  attachmentPath row from rfl, hwritten, Option.getD_some]
              have hslice : ((prefixBytes (w.extended ensured row data)
                  { row with received := input.offset + data.length }).drop input.offset).take
                    data.length = data := by
                rw [hextended]
                exact slice_appended (htake.trans hoffset.symm)
              exact hslice
          · refine growsTo_amend (fun _ => rfl) ?_
            intro found hfound
            obtain rfl := Option.some.inj (hfind.symm.trans hfound)
            rw [hoffset]
            exact Nat.le_add_right _ _
        · obtain ⟨rfl, rfl⟩ := Prod.mk.inj hresult
          refine ⟨h.tail hrow hensured hbytes (Nat.le_refl _), fun _ => ⟨rfl, rfl, ?_⟩,
            (fun hr => by cases hr), growsTo_same _⟩
          intro other hother
          exact tail_prefixBytes h hrow hensured hother

theorem newRecord_ensured (files : Files) (now : Int) (caller : Caller) (input : AttachmentBegin) :
    ∃ ensured, ensureUploadFile files (newRecord now caller input) = .ok ensured := by
  unfold ensureUploadFile
  split
  · exact ⟨_, rfl⟩
  · rw [if_pos ⟨rfl, rfl⟩]
    exact ⟨_, rfl⟩

/-- What a begin finds: a refusal that changes nothing, its upload again, or room for a new one. -/
theorem beginUpload_cases {input : AttachmentBegin}
    (hresult : beginUpload fits now caller input disk₀ = (disk, answer)) :
    (disk = disk₀ ∧ ∃ reason, answer = .refused reason) ∨
    (∃ row ensured, row ∈ disk₀.store.records ∧ ensureUploadFile disk₀.files row = .ok ensured ∧
      disk = { disk₀ with files := ensured } ∧ answer = .repeated (uploadReceipt row)) ∨
    ∃ ensured, disk₀.store.row input.uploadId = none ∧
      checkQuota disk₀.store.records input.target input.totalBytes = none ∧
      ensureUploadFile disk₀.files (newRecord now caller input) = .ok ensured ∧
      disk.store = { disk₀.store with
        records := disk₀.store.records ++ [newRecord now caller input] } ∧
      disk.files = ensured ∧ answer = .opened (uploadReceipt (newRecord now caller input)) := by
  unfold beginUpload at hresult
  split at hresult
  · obtain ⟨rfl, rfl⟩ := Prod.mk.inj hresult
    exact .inl ⟨rfl, _, rfl⟩
  · split at hresult
    · split at hresult
      · obtain ⟨rfl, rfl⟩ := Prod.mk.inj hresult
        exact .inl ⟨rfl, _, rfl⟩
      · rename_i row howned
        split at hresult
        · obtain ⟨rfl, rfl⟩ := Prod.mk.inj hresult
          exact .inl ⟨rfl, _, rfl⟩
        · split at hresult
          · obtain ⟨rfl, rfl⟩ := Prod.mk.inj hresult
            exact .inl ⟨rfl, _, rfl⟩
          · rename_i ensured hensured
            obtain ⟨rfl, rfl⟩ := Prod.mk.inj hresult
            exact .inr (.inl ⟨row, ensured, (row_some (owned_some howned)).1, hensured, rfl, rfl⟩)
    · rename_i hnew
      split at hresult
      · obtain ⟨rfl, rfl⟩ := Prod.mk.inj hresult
        exact .inl ⟨rfl, _, rfl⟩
      · rename_i hroom
        dsimp only at hresult
        split at hresult
        · obtain ⟨ensured, hensured⟩ := newRecord_ensured disk₀.files now caller input
          rw [hensured] at hresult
          obtain ⟨rfl, rfl⟩ := Prod.mk.inj hresult
          exact .inr (.inr ⟨ensured, hnew, hroom, hensured, rfl, rfl, rfl⟩)
        · obtain ⟨rfl, rfl⟩ := Prod.mk.inj hresult
          exact .inl ⟨rfl, _, rfl⟩

/-- The new upload in the index, its file not yet created. -/
def World.reserved (w : World) (row : AttachmentRecord) : World :=
  { w with
    disk := { w.disk with store :=
      { w.disk.store with records := w.disk.store.records ++ [row] } }
    taken := setTaken w.taken row.id [] }

theorem beginUpload_sound (h : Sound w) {now : Int} {caller : Caller} {input : AttachmentBegin}
    {disk : Disk} {answer : Answer}
    (hresult : beginUpload fits now caller input w.disk = (disk, answer)) :
    Sound (w.answered disk answer) ∧
      (isRefused answer = true → disk = w.disk ∧ (w.answered disk answer).taken = w.taken) ∧
      (∀ receipt, answer = .opened receipt →
        Sound (w.answered { disk with files := w.disk.files } answer) ∧
        checkQuota w.disk.store.records input.target input.totalBytes = none ∧
        ∃ row, row.id = input.uploadId ∧ row.bytes = input.totalBytes ∧ row.received = 0 ∧
          disk.store.records = w.disk.store.records ++ [row]) ∧
      GrowsTo w.disk.store.records disk.store.records := by
  rcases beginUpload_cases hresult with ⟨rfl, reason, rfl⟩ | ⟨row, ensured, hrow, hensured, rfl, rfl⟩ |
    ⟨ensured, hnew, hroom, hensured, hstore, hfiles, rfl⟩
  · exact ⟨h, fun _ => ⟨rfl, rfl⟩, (fun _ hr => by cases hr), growsTo_same _⟩
  · exact ⟨(ensure_ok h hrow hensured).1, (fun hr => by cases hr), (fun _ hr => by cases hr),
      growsTo_same _⟩
  · have hreserved : Sound (w.reserved (newRecord now caller input)) :=
      h.pushed hnew hroom rfl rfl
    have hmem : newRecord now caller input ∈
        (w.reserved (newRecord now caller input)).disk.store.records :=
      List.mem_append_right _ (List.mem_singleton_self _)
    obtain ⟨hsound, -, -⟩ := ensure_ok hreserved hmem hensured
    obtain ⟨store, files⟩ := disk
    dsimp only at hstore hfiles
    subst hstore hfiles
    refine ⟨hsound, (fun hr => by cases hr), ?_, ?_⟩
    · rintro receipt -
      exact ⟨hreserved, hroom, _, rfl, rfl, rfl, rfl⟩
    · intro row hrow
      exact ⟨row, List.mem_append_left _ hrow, rfl, Nat.le_refl _⟩

theorem cancelUpload_cases {input : AttachmentUploadSelector}
    (hresult : cancelUpload now caller input disk₀ = (disk, answer)) :
    disk = disk₀ ∨ ∃ row, row ∈ disk₀.store.records ∧ row.id = input.uploadId ∧
      disk.files = disk₀.files.remove [row] ∧ ∃ cancelled, disk.store =
        ⟨disk₀.store.records.filter fun other => other.id != row.id, disk₀.store.pinned, cancelled⟩ := by
  unfold cancelUpload at hresult
  split at hresult
  · split at hresult
    · exact .inl (Prod.mk.inj hresult).1.symm
    · exact .inl (Prod.mk.inj hresult).1.symm
  · split at hresult
    · exact .inl (Prod.mk.inj hresult).1.symm
    · rename_i row howned
      split at hresult
      · exact .inl (Prod.mk.inj hresult).1.symm
      · split at hresult
        · exact .inl (Prod.mk.inj hresult).1.symm
        · obtain ⟨rfl, -⟩ := Prod.mk.inj hresult
          obtain ⟨hrow, hid⟩ := row_some (owned_some howned)
          exact .inr ⟨row, hrow, hid, rfl, _, rfl⟩

theorem cancelUpload_answer (now : Int) (caller : Caller) (input : AttachmentUploadSelector)
    (disk : Disk) : (cancelUpload now caller input disk).2 = .cancelled ∨
      ∃ reason, (cancelUpload now caller input disk).2 = .refused reason := by
  unfold cancelUpload
  split
  · split
    · exact .inl rfl
    · exact .inr ⟨_, rfl⟩
  · split
    · exact .inr ⟨_, rfl⟩
    · split
      · exact .inr ⟨_, rfl⟩
      · split
        · exact .inr ⟨_, rfl⟩
        · exact .inl rfl

theorem cancelUpload_sound (h : Sound w) {now : Int} {caller : Caller}
    {input : AttachmentUploadSelector} {disk : Disk} {answer : Answer}
    (hresult : cancelUpload now caller input w.disk = (disk, answer)) :
    Sound { w with disk } ∧
      Sound { w with
        disk := { disk with store := w.disk.store }
        interrupted := w.interrupted ++ [input.uploadId] } ∧
      ∀ row ∈ w.disk.store.records, row.id ≠ input.uploadId → row ∈ disk.store.records := by
  have hnone : Sound { w with interrupted := w.interrupted ++ [input.uploadId] } :=
    h.stopped [] (fun row hrow => by cases hrow) fun id hid => List.mem_append_left _ hid
  rcases cancelUpload_cases hresult with rfl | ⟨row, hrow, hid, hfiles, cancelled, hstore⟩
  · exact ⟨h, hnone, fun row hrow _ => hrow⟩
  · obtain ⟨store, files⟩ := disk
    dsimp only at hstore hfiles
    subst hstore hfiles
    refine ⟨(h.shrunk ?_ ?_ _ _).1, h.stopped [row] ?_ fun id hid => List.mem_append_left _ hid, ?_⟩
    · intro other hother
      obtain rfl := List.mem_singleton.mp hother
      exact ⟨hrow, by simp⟩
    · intro other hother hsame
      have hother_id : other.id = row.id := by simpa using hsame
      rw [eq_of_id h.ids hother hrow hother_id]
      exact List.mem_singleton_self _
    · intro other hother
      obtain rfl := List.mem_singleton.mp hother
      exact List.mem_append_right _ (List.mem_singleton.mpr hid)
    · intro other hother hne
      refine List.mem_filter.mpr ⟨hother, ?_⟩
      rw [hid]
      exact bne_iff_ne.mpr hne

/-! The steps. -/

/-- The world inside a transaction, before the request. -/
def World.reap (w : World) (now : Int) : World := { w with disk := reapExpired w.disk now }

theorem admitted_some (h : admitted fits w.disk now = some disk) :
    disk = (w.reap now).disk := by
  unfold admitted at h
  dsimp only at h
  split at h
  · exact (Option.some.inj h).symm
  · cases h

theorem transact_some {caller : Except String Caller} {request : Caller → Disk → Disk × Answer}
    (h : transact fits w now caller request = some (disk, answer)) :
    (disk = (w.reap now).disk ∧ ∃ reason, answer = .refused reason) ∨
      ∃ caller, request caller (w.reap now).disk = (disk, answer) := by
  unfold transact at h
  obtain ⟨reaped, hadmitted, hrequest⟩ := Option.map_eq_some_iff.mp h
  obtain rfl := admitted_some hadmitted
  split at hrequest
  · obtain ⟨rfl, rfl⟩ := Prod.mk.inj hrequest
    exact .inl ⟨rfl, _, rfl⟩
  · exact .inr ⟨_, hrequest⟩

theorem reap_prefixBytes (h : Sound w) {now : Int} (hrow : row ∈ w.current now) :
    prefixBytes (w.reap now) row = prefixBytes w row := by
  unfold prefixBytes World.reap
  dsimp only
  rw [(h.reaped now).2 row hrow]

theorem grows_reap (hremoves : ∀ row ∈ w.disk.store.records, removes w row e = false →
      expired w.disk.store now row = false)
    (hgrows : GrowsTo (w.current now) v.disk.store.records) : Grows w e v := by
  intro row hrow hkept
  exact hgrows row (mem_current.mpr ⟨hrow, hremoves row hrow hkept⟩)

/-- What a step leaves: a sound world, received counts that did not fall, and a meant answer. -/
structure Steps (w : World) (e : Event) (v : World) (answer : Option Answer) : Prop where
  sound : Sound v
  grows : Grows w e v
  answered : ∀ given, answer = some given → Answered w e given v

theorem step_begin (h : Sound w) {now : Int} {caller : Except String Caller}
    {input : AttachmentBegin} {disk : Disk} {answer : Answer}
    (hresult : transact fits w now caller (fun caller => beginUpload fits now caller input) =
      some (disk, answer)) :
    Steps w (.begin now caller input) (w.answered disk answer) (some answer) := by
  have hreaped : Sound (w.reap now) := (h.reaped now).1
  rcases transact_some hresult with ⟨rfl, reason, rfl⟩ | ⟨caller, hrequest⟩
  · refine ⟨hreaped, grows_reap (fun _ _ hkept => hkept) (growsTo_same _), ?_⟩
    rintro given hgiven
    obtain rfl := Option.some.inj hgiven
    exact ⟨fun _ => ⟨rfl, rfl, fun row hrow => reap_prefixBytes h hrow⟩, (fun _ hr => by cases hr)⟩
  · obtain ⟨hsound, hrefused, hopened, hgrows⟩ := beginUpload_sound hreaped hrequest
    refine ⟨hsound, grows_reap (fun _ _ hkept => hkept) hgrows, ?_⟩
    rintro given hgiven
    obtain rfl := Option.some.inj hgiven
    refine ⟨?_, fun receipt hr => (hopened receipt hr).2⟩
    intro hr
    obtain ⟨rfl, htaken⟩ := hrefused hr
    refine ⟨rfl, htaken, fun row hrow => ?_⟩
    exact reap_prefixBytes h hrow

theorem step_append (h : Sound w) {now : Int} {caller : Except String Caller}
    {input : AttachmentChunk} {disk : Disk} {answer : Answer}
    (hresult : transact fits w now caller (fun caller => appendChunk fits caller input) =
      some (disk, answer)) :
    Steps w (.append now caller input) (w.answered disk answer) (some answer) := by
  have hreaped : Sound (w.reap now) := (h.reaped now).1
  rcases transact_some hresult with ⟨rfl, reason, rfl⟩ | ⟨caller, hrequest⟩
  · refine ⟨hreaped, grows_reap (fun _ _ hkept => hkept) (growsTo_same _), ?_⟩
    rintro given hgiven
    obtain rfl := Option.some.inj hgiven
    exact ⟨fun _ => ⟨rfl, rfl, fun row hrow => reap_prefixBytes h hrow⟩, (fun hr => by cases hr)⟩
  · obtain ⟨hsound, hrefused, haccepted, hgrows⟩ := appendChunk_sound hreaped hrequest
    refine ⟨hsound, grows_reap (fun _ _ hkept => hkept) hgrows, ?_⟩
    rintro given hgiven
    obtain rfl := Option.some.inj hgiven
    refine ⟨?_, haccepted⟩
    intro hr
    obtain ⟨hstore, htaken, hkeptBytes⟩ := hrefused hr
    have hrecords : (w.answered disk answer).disk.store.records = w.current now :=
      congrArg AttachmentStore.records hstore
    refine ⟨hrecords, htaken, fun row hrow => ?_⟩
    rw [hrecords] at hrow
    exact (hkeptBytes row hrow).trans (reap_prefixBytes h hrow)

/-- A cancellation, or the crash before its index is persisted. -/
theorem step_cancel (h : Sound w) {now : Int} {caller : Except String Caller}
    {input : AttachmentUploadSelector} {disk : Disk} {answer : Answer}
    (hresult : transact fits w now caller (fun caller => cancelUpload now caller input) =
      some (disk, answer)) :
    Steps w (.cancel now caller input) (w.answered disk answer) (some answer) ∧
      ∀ e, (∀ row, removes w row e = expired w.disk.store now row) →
        Steps w e { w with
          disk := { disk with store := (w.reap now).disk.store }
          interrupted := w.interrupted ++ [input.uploadId] } none := by
  have hreaped : Sound (w.reap now) := (h.reaped now).1
  have hremoved : ∀ row, removes w row (.cancel now caller input) = false →
      expired w.disk.store now row = false ∧ row.id ≠ input.uploadId := by
    intro row hkept
    rw [removes, Bool.or_eq_false_iff, beq_eq_false_iff_ne] at hkept
    exact hkept
  rcases transact_some hresult with ⟨rfl, reason, rfl⟩ | ⟨caller, hrequest⟩
  · refine ⟨⟨hreaped, grows_reap (fun row _ hkept => (hremoved row hkept).1) (growsTo_same _),
      fun _ _ => trivial⟩, ?_⟩
    intro e he
    refine ⟨hreaped.stopped [] (fun row hrow => by cases hrow) fun id hid =>
      List.mem_append_left _ hid, ?_, (fun _ hgiven => by cases hgiven)⟩
    exact grows_reap (fun row _ hkept => he row ▸ hkept) (growsTo_same _)
  · obtain ⟨hsound, hstopped, hothers⟩ := cancelUpload_sound hreaped hrequest
    have htaken : w.answered disk answer = { w with disk } := by
      have hanswer := cancelUpload_answer now caller input (w.reap now).disk
      rw [hrequest] at hanswer
      rcases hanswer with hcancelled | ⟨reason, hrefused⟩
      · obtain rfl : answer = .cancelled := hcancelled
        rfl
      · obtain rfl : answer = .refused reason := hrefused
        rfl
    constructor
    · rw [htaken]
      refine ⟨hsound, ?_, fun _ _ => trivial⟩
      intro row hrow hkept
      obtain ⟨hexpired, hne⟩ := hremoved row hkept
      exact ⟨row, hothers row (mem_current.mpr ⟨hrow, hexpired⟩) hne, rfl, Nat.le_refl _⟩
    · intro e he
      refine ⟨hstopped, ?_, (fun _ hgiven => by cases hgiven)⟩
      exact grows_reap (fun row _ hkept => he row ▸ hkept) (growsTo_same _)

theorem step_finalize (h : Sound w) {now : Int} {caller : Caller}
    {input : AttachmentUploadSelector}
    (hperform : perform fits w (.finalize now caller input) = some (v, none)) :
    Steps w (.finalize now caller input) v none := by
  have hreaped : Sound (w.reap now) := (h.reaped now).1
  obtain ⟨disk, hadmitted, hverify⟩ := Option.bind_eq_some_iff.mp hperform
  obtain rfl := admitted_some hadmitted
  split at hverify
  · cases hverify
  · rename_i row howned
    split at hverify
    · cases hverify
    · rename_i file hfile
      split at hverify
      · rename_i hguard
        dsimp only at hverify
        split at hverify
        · obtain ⟨rfl, -⟩ := Prod.mk.inj (Option.some.inj hverify)
          obtain ⟨hrow, hid⟩ := row_some (owned_some howned)
          have hfind : (w.reap now).disk.store.row row.id = some row := by
            rw [hid]
            exact owned_some howned
          have hholds := hreaped.rows row hrow
          refine ⟨?_, ?_, (fun _ hgiven => by cases hgiven)⟩
          · refine @Sound.amended (w.reap now) row hreaped (verify now) w.taken hfind
              (fun _ => rfl) (fun _ => rfl) (fun _ => rfl) (fun _ => rfl)
              (fun _ huploading => by cases huploading) (fun _ _ => rfl)
              ⟨hholds.tiles, hholds.bounded, hholds.file, ?_⟩
            intro hmissing
            cases hfile.symm.trans hmissing
          · refine grows_reap (fun _ _ hkept => hkept) ?_
            exact @growsTo_amend (w.reap now).disk.store row.id (verify now) (fun _ => rfl)
              fun _ _ => Nat.le_refl _
        · cases hverify
      · cases hverify

theorem step_pins (h : Sound w) (pinned retained : List String)
    (hperform : perform fits w (.pins pinned retained) = some (v, none)) :
    Steps w (.pins pinned retained) v none := by
  obtain ⟨rfl, -⟩ := Prod.mk.inj (Option.some.inj hperform)
  refine ⟨h.retained pinned retained, ?_, (fun _ hgiven => by cases hgiven)⟩
  intro row hrow _
  refine ⟨retain retained row, List.mem_map_of_mem hrow, retain_id retained row, ?_⟩
  unfold retain
  split <;> exact Nat.le_refl _

theorem step_appendStops (h : Sound w) {now : Int} {caller : Caller} {input : AttachmentChunk}
    {k : Nat} (hperform : perform fits w (.appendStops now caller input k) = some (v, none)) :
    Steps w (.appendStops now caller input k) v none := by
  have hreaped : Sound (w.reap now) := (h.reaped now).1
  obtain ⟨disk, hadmitted, hplan⟩ := Option.bind_eq_some_iff.mp hperform
  obtain rfl := admitted_some hadmitted
  split at hplan
  · cases hplan
  · rename_i row howned
    have hrow := (row_some (owned_some howned)).1
    split at hplan
    · rename_i files kept data hextend
      obtain ⟨rfl, -⟩ := Prod.mk.inj (Option.some.inj hplan)
      rcases planAppend_cases (w.reap now).disk.files row input with
        ⟨reason, hrefuse⟩ | ⟨data', ensured, -, hensured, hcases⟩
      · rw [hrefuse] at hextend
        cases hextend
      · rcases hcases with ⟨reason, hrefuse⟩ | ⟨hagain, -⟩ | ⟨hplan', -, hbytes⟩
        · rw [hrefuse] at hextend
          cases hextend
        · rw [hagain] at hextend
          cases hextend
        · rw [hplan'] at hextend
          obtain ⟨rfl, rfl, rfl⟩ := Plan.extend.inj hextend
          refine ⟨hreaped.tail hrow hensured hbytes (List.length_take_le' k data'), ?_,
            (fun _ hgiven => by cases hgiven)⟩
          exact grows_reap (fun _ _ hkept => hkept) (growsTo_same _)
    · cases hplan

theorem step_beginStops (h : Sound w) {now : Int} {caller : Except String Caller}
    {input : AttachmentBegin}
    (hperform : perform fits w (.beginStops now caller input) = some (v, none)) :
    Steps w (.beginStops now caller input) v none := by
  have hreaped : Sound (w.reap now) := (h.reaped now).1
  obtain ⟨⟨disk, answer⟩, hresult, hopened⟩ := Option.bind_eq_some_iff.mp hperform
  dsimp only at hopened
  split at hopened
  · rename_i receipt
    obtain ⟨rfl, -⟩ := Prod.mk.inj (Option.some.inj hopened)
    rcases transact_some hresult with ⟨-, reason, hrefused⟩ | ⟨caller, hrequest⟩
    · cases hrefused
    · obtain ⟨-, -, hreserved, hgrows⟩ := beginUpload_sound hreaped hrequest
      refine ⟨(hreserved receipt rfl).1, ?_, (fun _ hgiven => by cases hgiven)⟩
      exact grows_reap (fun _ _ hkept => hkept) hgrows
  · cases hopened

/-- Only requests are answered. -/
theorem perform_answer {answer : Option Answer} (hperform : perform fits w e = some (v, answer)) :
    answer = none ∨ ∃ now caller, (∃ input, e = .begin now caller input) ∨
      (∃ input, e = .append now caller input) ∨ ∃ input, e = .cancel now caller input := by
  cases e with
  | begin now caller input => exact .inr ⟨now, caller, .inl ⟨input, rfl⟩⟩
  | append now caller input => exact .inr ⟨now, caller, .inr (.inl ⟨input, rfl⟩)⟩
  | cancel now caller input => exact .inr ⟨now, caller, .inr (.inr ⟨input, rfl⟩)⟩
  | finalize now caller input =>
    refine .inl ?_
    simp only [perform, Option.bind_eq_some_iff] at hperform
    grind
  | pins pinned retained => exact .inl (Prod.mk.inj (Option.some.inj hperform)).2.symm
  | reapStops now k => exact .inl (Prod.mk.inj (Option.some.inj hperform)).2.symm
  | beginStops now caller input =>
    refine .inl ?_
    simp only [perform, Option.bind_eq_some_iff] at hperform
    grind
  | appendStops now caller input k =>
    refine .inl ?_
    simp only [perform, Option.bind_eq_some_iff] at hperform
    grind
  | cancelStops now caller input =>
    refine .inl ?_
    simp only [perform, Option.bind_eq_some_iff] at hperform
    grind

theorem step_steps {answer : Option Answer} (h : Sound w)
    (hperform : perform fits w e = some (v, answer)) : Steps w e v answer := by
  have hanswer := perform_answer hperform
  cases e with
  | begin now caller input =>
    obtain ⟨⟨disk, given⟩, hresult, hpair⟩ := Option.map_eq_some_iff.mp hperform
    obtain ⟨rfl, rfl⟩ := Prod.mk.inj hpair
    exact step_begin h hresult
  | append now caller input =>
    obtain ⟨⟨disk, given⟩, hresult, hpair⟩ := Option.map_eq_some_iff.mp hperform
    obtain ⟨rfl, rfl⟩ := Prod.mk.inj hpair
    exact step_append h hresult
  | cancel now caller input =>
    obtain ⟨⟨disk, given⟩, hresult, hguard⟩ := Option.bind_eq_some_iff.mp hperform
    dsimp only at hguard
    split at hguard
    · obtain ⟨rfl, rfl⟩ := Prod.mk.inj (Option.some.inj hguard)
      exact (step_cancel h hresult).1
    · cases hguard
  | finalize now caller input =>
    obtain rfl : answer = none := by simpa using hanswer
    exact step_finalize h hperform
  | pins pinned retained =>
    obtain rfl : answer = none := by simpa using hanswer
    exact step_pins h pinned retained hperform
  | reapStops now k =>
    obtain ⟨rfl, rfl⟩ := Prod.mk.inj (Option.some.inj hperform)
    refine ⟨h.stopped _ ?_ fun id hid => List.mem_append_left _ hid, ?_,
      (fun _ hgiven => by cases hgiven)⟩
    · intro row hrow
      exact List.mem_append_right _ (List.mem_map_of_mem hrow)
    · intro row hrow _
      exact ⟨row, hrow, rfl, Nat.le_refl _⟩
  | beginStops now caller input =>
    obtain rfl : answer = none := by simpa using hanswer
    exact step_beginStops h hperform
  | appendStops now caller input k =>
    obtain rfl : answer = none := by simpa using hanswer
    exact step_appendStops h hperform
  | cancelStops now caller input =>
    obtain ⟨⟨disk, given⟩, hresult, hguard⟩ := Option.bind_eq_some_iff.mp hperform
    dsimp only at hguard
    split at hguard
    · cases hguard
    · obtain ⟨rfl, rfl⟩ := Prod.mk.inj (Option.some.inj hguard)
      exact (step_cancel h hresult).2 _ fun _ => rfl

/-- In every run, crashes included: the received bytes of every stored upload are its chunks in the
order of their offsets and the stored uploads are within their quotas; and in every next step no
received count falls, a refused request changes no upload that did not expire, a new upload was
judged by the sums over the stored ones, and an accepted chunk is among the received bytes. -/
theorem uploads_hold_their_chunks (fits : AttachmentStore → Bool) (es : List Event) (w : World)
    (hrun : run (step fits) startWorld es = some w) :
    Holds w ∧ ∀ e v answer, perform fits w e = some (v, answer) →
      Grows w e v ∧ ∀ given, answer = some given → Answered w e given v := by
  have h : Sound w := by
    refine run_invariant (P := Sound) ?_ hrun sound_start
    intro u e t hu hstep
    obtain ⟨⟨t', answer⟩, hperform, rfl⟩ := Option.map_eq_some_iff.mp hstep
    exact (step_steps hu hperform).sound
  refine ⟨h.toHolds, ?_⟩
  intro e v answer hperform
  have hsteps := step_steps h hperform
  exact ⟨hsteps.grows, hsteps.answered⟩

/-- In every run, crashes included, no file is on the disk without its row in the store, and no two
rows have one id. -/
theorem files_have_rows {es : List Event} (hrun : run (step fits) startWorld es = some w) :
    (w.disk.store.records.map fun row => row.id).Nodup ∧
      ∀ path, w.disk.files path ≠ none →
        ∃ row ∈ w.disk.store.records, attachmentPath row = path := by
  have h : Sound w := by
    refine run_invariant (P := Sound) ?_ hrun sound_start
    intro u e t hu hstep
    obtain ⟨⟨t', answer⟩, hperform, rfl⟩ := Option.map_eq_some_iff.mp hstep
    exact (step_steps hu hperform).sound
  exact ⟨h.ids, h.backed⟩

end

/-! A crash between chunk and receipt; and an upload that expires at another's refused request. -/

def peer : ManagedPeer := ⟨"m", .claude, "s", "t"⟩

def owner : Caller := ⟨"r", .cli "m"⟩

def beginOf (id : String) : AttachmentBegin := ⟨peer, id, .png, 10, "digest"⟩

def chunkOf (id : String) (offset : Nat) (data : Bytes) : AttachmentChunk :=
  ⟨peer, id, offset, some data⟩

def everyIndex : AttachmentStore → Bool := fun _ => true

/-- The second chunk is written in part before a crash, and sent again; then a retry, an overlap, a
conflict and a gap. -/
def crashedUpload : List Event :=
  [.begin 0 (.ok owner) (beginOf "a"), .append 1 (.ok owner) (chunkOf "a" 0 [1, 2, 3]),
    .appendStops 2 owner (chunkOf "a" 3 [4, 5]) 1, .append 3 (.ok owner) (chunkOf "a" 3 [4, 5]),
    .append 4 (.ok owner) (chunkOf "a" 1 [2, 3, 4]), .append 5 (.ok owner) (chunkOf "a" 4 [5, 6]),
    .append 6 (.ok owner) (chunkOf "a" 0 [9]), .append 7 (.ok owner) (chunkOf "a" 6 [7])]

def twoUploads : List Event :=
  [.begin 0 (.ok owner) (beginOf "a"), .begin 1000 (.ok owner) (beginOf "b"),
    .append 2000 (.ok owner) (chunkOf "a" 0 [1, 2, 3])]

/-- A gap, half an hour after the first upload was begun. -/
def lateGap : Event := .append uploadTtlMs (.ok owner) (chunkOf "b" 5 [1])

theorem uploads_hold_their_chunks_crash :
    ∃ w, run (step everyIndex) startWorld crashedUpload = some w ∧
      w.disk.files ⟨"a", .png⟩ = some [1, 2, 3, 4, 5] ∧
      w.disk.store.records.map (fun row => row.received) = [5] ∧
      Holds w ∧ ∀ e v answer, perform everyIndex w e = some (v, answer) →
        Grows w e v ∧ ∀ given, answer = some given → Answered w e given v := by
  have hruns : ((run (step everyIndex) startWorld crashedUpload).any fun w =>
      decide (w.disk.files ⟨"a", .png⟩ = some [1, 2, 3, 4, 5] ∧
        w.disk.store.records.map (fun row => row.received) = [5])) = true := by decide
  obtain ⟨w, hrun, hw⟩ := (Option.any_eq_true _ _).mp hruns
  obtain ⟨hfile, hreceived⟩ := of_decide_eq_true hw
  exact ⟨w, hrun, hfile, hreceived, uploads_hold_their_chunks everyIndex crashedUpload w hrun⟩

theorem files_have_rows_crash :
    ∃ w, run (step everyIndex) startWorld crashedUpload = some w ∧
      ∃ row ∈ w.disk.store.records, attachmentPath row = ⟨"a", .png⟩ := by
  have hruns : ((run (step everyIndex) startWorld crashedUpload).any fun w =>
      (w.disk.files ⟨"a", .png⟩).isSome) = true := by decide
  obtain ⟨w, hrun, hfile⟩ := (Option.any_eq_true _ _).mp hruns
  exact ⟨w, hrun, (files_have_rows hrun).2 _ (Option.isSome_iff_ne_none.mp hfile)⟩

/-- The refused chunk of one upload ends the other: its file is gone, and the sum of bytes falls. -/
theorem refused_request_expires_another :
    ∃ w v, run (step everyIndex) startWorld twoUploads = some w ∧
      step everyIndex w lateGap = some v ∧
      answerOf everyIndex w lateGap = some (.refused "attachment-chunk-order") ∧
      hostBytes w.disk.store.records = 20 ∧ hostBytes v.disk.store.records = 10 ∧
      w.disk.files ⟨"a", .png⟩ = some [1, 2, 3] ∧ v.disk.files ⟨"a", .png⟩ = none := by
  have hruns : ((run (step everyIndex) startWorld twoUploads).any fun w =>
      (step everyIndex w lateGap).any fun v =>
        decide (answerOf everyIndex w lateGap = some (.refused "attachment-chunk-order") ∧
          hostBytes w.disk.store.records = 20 ∧ hostBytes v.disk.store.records = 10 ∧
          w.disk.files ⟨"a", .png⟩ = some [1, 2, 3] ∧ v.disk.files ⟨"a", .png⟩ = none)) = true := by
    decide
  obtain ⟨w, hrun, hw⟩ := (Option.any_eq_true _ _).mp hruns
  obtain ⟨v, hstep, hv⟩ := (Option.any_eq_true _ _).mp hw
  exact ⟨w, v, hrun, hstep, of_decide_eq_true hv⟩

end Ccmux.Attachments
