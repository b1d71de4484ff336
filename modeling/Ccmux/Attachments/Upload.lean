/- Module: Ccmux/Attachments/Upload
   source: src/attachments/upload.ts, src/attachments/store.ts, src/attachments/identity.ts,
     src/attachments/reference.ts, src/attachments/service.ts (cancelAttachmentUpload)
   digest: The index of uploads and their files, and what a request of the owner does to both. -/

import Mathlib
import Ccmux.Chat.Identity
import Ccmux.Lib.Amend

namespace Ccmux.Attachments

open Ccmux.Chat.Identity
open Ccmux.Lib.Amend

abbrev Bytes := List UInt8

inductive MediaType where
  | png | jpeg
  deriving DecidableEq, Repr

inductive UploadPhase where
  | uploading | verified | retained
  deriving DecidableEq, Repr

structure AttachmentRecord where
  id : String
  target : ManagedPeer
  principal : ChatPrincipal
  registration : String
  mediaType : MediaType
  bytes : Nat
  digest : String
  received : Nat
  phase : UploadPhase
  expiresAt : Int
  deriving DecidableEq, Repr

structure AttachmentCancellation where
  id : String
  target : ManagedPeer
  registration : String
  principal : ChatPrincipal
  expiresAt : Int
  deriving DecidableEq, Repr

/-- The index; of the pins only the ids that their references name are read here. -/
structure AttachmentStore where
  records : List AttachmentRecord := []
  pinned : List String := []
  cancelled : List AttachmentCancellation := []
  deriving DecidableEq, Repr

def chunkBytes : Nat := 24 * 1024

def uploadTtlMs : Int := 30 * 60 * 1000

def unretainedTtlMs : Int := 24 * 60 * 60 * 1000

def maxHostBytes : Nat := 256 * 1024 * 1024

def maxHostUploads : Nat := 32

def maxTargetUploads : Nat := 8

def maxRecords : Nat := 1024

structure Path where
  id : String
  mediaType : MediaType
  deriving DecidableEq, Repr

def attachmentPath (row : AttachmentRecord) : Path := ⟨row.id, row.mediaType⟩

abbrev Files := Path → Option Bytes

def Files.write (files : Files) (path : Path) (file : Bytes) : Files :=
  fun other => if other = path then some file else files other

/-- `removePrivate` of each row's file; a missing one is left missing. -/
def Files.remove (files : Files) (rows : List AttachmentRecord) : Files :=
  fun path => if rows.any fun row => attachmentPath row == path then none else files path

structure Disk where
  store : AttachmentStore
  files : Files

/-- A row that nothing protects, after its time. -/
def expired (store : AttachmentStore) (now : Int) (row : AttachmentRecord) : Bool :=
  row.phase != .retained && decide (row.expiresAt ≤ now) && !store.pinned.contains row.id

def reapExpired (disk : Disk) (now : Int) : Disk :=
  { store :=
      { disk.store with
        records := disk.store.records.filter fun row => !expired disk.store now row
        cancelled := disk.store.cancelled.filter fun row => decide (now < row.expiresAt) }
    files := disk.files.remove (disk.store.records.filter (expired disk.store now)) }

structure AttachmentUploadReceipt where
  uploadId : String
  receivedBytes : Nat
  totalBytes : Nat
  expiresAt : Int
  phase : UploadPhase
  deriving DecidableEq, Repr

def uploadReceipt (row : AttachmentRecord) : AttachmentUploadReceipt :=
  ⟨row.id, row.received, row.bytes, row.expiresAt, row.phase⟩

/-- The bytes that a chunk put at an offset. -/
structure Chunk where
  offset : Nat
  data : Bytes
  deriving DecidableEq, Repr

/-- What a request is answered: a refusal, a new upload, a retry of what is there, an advance by a
chunk, or a cancellation. -/
inductive Answer where
  | refused (reason : String)
  | opened (receipt : AttachmentUploadReceipt)
  | repeated (receipt : AttachmentUploadReceipt)
  | advanced (receipt : AttachmentUploadReceipt) (chunk : Chunk)
  | cancelled
  deriving DecidableEq, Repr

def isRefused : Answer → Bool
  | .refused _ => true
  | _ => false

/-- The caller's session, by its registration, and who calls. -/
structure Caller where
  registration : String
  principal : ChatPrincipal
  deriving DecidableEq, Repr

structure AttachmentBegin where
  target : ManagedPeer
  uploadId : String
  mediaType : MediaType
  totalBytes : Nat
  digest : String
  deriving DecidableEq, Repr

/-- A chunk with the bytes of its base64 text, none where the text is not their encoding. -/
structure AttachmentChunk where
  target : ManagedPeer
  uploadId : String
  offset : Nat
  data : Option Bytes
  deriving DecidableEq, Repr

structure AttachmentUploadSelector where
  target : ManagedPeer
  uploadId : String
  deriving DecidableEq, Repr

def hasId (id : String) (row : AttachmentRecord) : Bool := row.id == id

def AttachmentStore.row (store : AttachmentStore) (id : String) : Option AttachmentRecord :=
  store.records.find? (hasId id)

def AttachmentStore.amend (store : AttachmentStore) (id : String)
    (f : AttachmentRecord → AttachmentRecord) : AttachmentStore :=
  { store with records := amendFirst (hasId id) f store.records }

def ownedAttachment (store : AttachmentStore) (caller : Caller) (target : ManagedPeer)
    (id : String) : Except String AttachmentRecord :=
  match store.row id with
  | none => .error "attachment-scope"
  | some row =>
    if row.registration = caller.registration ∧
        sameTarget (.managed row.target) (.managed target) = true ∧
        samePrincipal row.principal caller.principal = true then .ok row
    else .error "attachment-scope"

/-- `ensureUploadFile`: a missing file is created for an upload that received nothing. -/
def ensureUploadFile (files : Files) (row : AttachmentRecord) : Except String Files :=
  match files (attachmentPath row) with
  | some _ => .ok files
  | none =>
    if row.received = 0 ∧ row.phase = .uploading then .ok (files.write (attachmentPath row) [])
    else .error "attachment-bytes-missing"

def hostBytes (records : List AttachmentRecord) : Nat := (records.map fun row => row.bytes).sum

def uploads (records : List AttachmentRecord) : Nat :=
  records.countP fun row => row.phase == .uploading

def targetUploads (records : List AttachmentRecord) (target : ManagedPeer) : Nat :=
  records.countP fun row =>
    row.phase == .uploading && sameTarget (.managed row.target) (.managed target)

/-- `checkQuota`: the refusal, or none where the upload has room. -/
def checkQuota (records : List AttachmentRecord) (target : ManagedPeer) (bytes : Nat) :
    Option String :=
  if maxRecords ≤ records.length then some "attachment-record-quota"
  else if maxHostBytes < hostBytes records + bytes then some "attachment-disk-quota"
  else if maxHostUploads ≤ uploads records ∨ maxTargetUploads ≤ targetUploads records target then
    some "attachment-upload-quota"
  else none

def newRecord (now : Int) (caller : Caller) (input : AttachmentBegin) : AttachmentRecord :=
  { id := input.uploadId, target := input.target, principal := caller.principal,
    registration := caller.registration, mediaType := input.mediaType, bytes := input.totalBytes,
    digest := input.digest, received := 0, phase := .uploading, expiresAt := now + uploadTtlMs }

section
variable (fits : AttachmentStore → Bool)

/-- `beginUpload`; `fits` says that the schema and the size limit of the index accept it. -/
def beginUpload (now : Int) (caller : Caller) (input : AttachmentBegin) (disk : Disk) :
    Disk × Answer :=
  if disk.store.cancelled.any fun item => item.id == input.uploadId then
    (disk, .refused "attachment-upload-cancelled")
  else
    match disk.store.row input.uploadId with
    | some _ =>
      match ownedAttachment disk.store caller input.target input.uploadId with
      | .error reason => (disk, .refused reason)
      | .ok row =>
        if row.mediaType ≠ input.mediaType ∨ row.bytes ≠ input.totalBytes ∨
            row.digest ≠ input.digest then
          (disk, .refused "upload-idempotency-conflict")
        else
          match ensureUploadFile disk.files row with
          | .error reason => (disk, .refused reason)
          | .ok files => ({ disk with files }, .repeated (uploadReceipt row))
    | none =>
      match checkQuota disk.store.records input.target input.totalBytes with
      | some reason => (disk, .refused reason)
      | none =>
        let row := newRecord now caller input
        let store := { disk.store with records := disk.store.records ++ [row] }
        if fits store then
          match ensureUploadFile disk.files row with
          | .error reason => ({ disk with store }, .refused reason)
          | .ok files => ({ store, files }, .opened (uploadReceipt row))
        else (disk, .refused "attachment-index-quota")

/-- What `appendUpload` decides before it writes: the files once the upload has one, and a refusal,
a retry, or the acknowledged bytes that stay in front of the data. -/
inductive Plan where
  | refuse (files : Files) (reason : String)
  | again (files : Files)
  | extend (files : Files) (kept data : Bytes)

def planAppend (files : Files) (row : AttachmentRecord) (input : AttachmentChunk) : Plan :=
  match input.data with
  | none => .refuse files "attachment-chunk-encoding"
  | some data =>
    if data.length = 0 ∨ chunkBytes < data.length then .refuse files "attachment-chunk-encoding"
    else if row.bytes < input.offset + data.length ∨ row.received < input.offset then
      .refuse files "attachment-chunk-order"
    else
      match ensureUploadFile files row with
      | .error reason => .refuse files reason
      | .ok files =>
        let file := (files (attachmentPath row)).getD []
        if file.length < row.received ∨ row.bytes < file.length then
          .refuse files "attachment-byte-state"
        else if input.offset < row.received then
          if row.received < input.offset + data.length then .refuse files "attachment-chunk-overlap"
          else if (file.drop input.offset).take data.length ≠ data then
            .refuse files "attachment-chunk-conflict"
          else .again files
        else if row.phase ≠ .uploading then .refuse files "attachment-immutable"
        else .extend files (file.take row.received) data

/-- The file is written before the index; where the index is refused, the bytes stay as a tail. -/
def appendUpload (row : AttachmentRecord) (input : AttachmentChunk) (disk : Disk) : Disk × Answer :=
  match planAppend disk.files row input with
  | .refuse files reason => ({ disk with files }, .refused reason)
  | .again files => ({ disk with files }, .repeated (uploadReceipt row))
  | .extend files kept data =>
    let files := files.write (attachmentPath row) (kept ++ data)
    let received := input.offset + data.length
    let store := disk.store.amend row.id fun row => { row with received }
    if fits store then
      ({ store, files }, .advanced (uploadReceipt { row with received }) ⟨input.offset, data⟩)
    else ({ disk with files }, .refused "attachment-index-quota")

/-- `appendAttachmentChunk` in its transaction. -/
def appendChunk (caller : Caller) (input : AttachmentChunk) (disk : Disk) : Disk × Answer :=
  match ownedAttachment disk.store caller input.target input.uploadId with
  | .error reason => (disk, .refused reason)
  | .ok row => appendUpload fits row input disk

/-- `cancelAttachmentUpload` in its transaction, up to the index that it persists. -/
def cancelUpload (now : Int) (caller : Caller) (input : AttachmentUploadSelector) (disk : Disk) :
    Disk × Answer :=
  match disk.store.cancelled.find? fun item => item.id == input.uploadId with
  | some item =>
    if item.registration = caller.registration ∧
        sameTarget (.managed item.target) (.managed input.target) = true ∧
        samePrincipal item.principal caller.principal = true then (disk, .cancelled)
    else (disk, .refused "attachment-cancel-scope")
  | none =>
    match ownedAttachment disk.store caller input.target input.uploadId with
    | .error reason => (disk, .refused reason)
    | .ok row =>
      if row.phase = .retained ∨ disk.store.pinned.contains row.id = true then
        (disk, .refused "attachment-retained")
      else if maxRecords ≤ disk.store.cancelled.length then
        (disk, .refused "attachment-cancellation-quota")
      else
        let item : AttachmentCancellation :=
          ⟨row.id, row.target, row.registration, row.principal, now + uploadTtlMs⟩
        let store := { disk.store with
          records := disk.store.records.filter fun other => other.id != row.id
          cancelled := disk.store.cancelled ++ [item] }
        ({ store, files := disk.files.remove [row] }, .cancelled)

end

end Ccmux.Attachments
