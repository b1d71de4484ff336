/- Module: Ccmux/Usage/Paging
   source: src/usage/aggregate.ts (queryKey, pageOffset, nextPage, aggregate),
     src/usage/service.ts (listSessionUsage)
   digest: The pages of a query's buckets and of a machine's session summaries, and the sizes of row
     with which following their cursors comes to an end. -/

import Ccmux.Lib.Paging
import Ccmux.Usage.Aggregate
import Ccmux.Usage.Reply

namespace Ccmux.Usage.Paging

open Ccmux.Chat.Identity (AgentKind)
open Ccmux.Lib.Base64
open Ccmux.Lib.JsonText
open Ccmux.Lib.Paging
open Ccmux.Usage.Aggregate (Cache)
open Ccmux.Usage.Reply
open Ccmux.Usage.Schema

/-- What the text of a cursor decodes to. -/
structure Cursor where
  offset : Nat
  key : String
  revision : String
  deriving DecidableEq, Repr

def Cursor.text (cursor : Cursor) : String :=
  base64url (object [field "offset" (toString cursor.offset), field "key" (quote cursor.key),
    field "revision" (quote cursor.revision)])

/-- Where the page starts; a sent text that does not decode is `some none`. -/
def pageOffset (cursor : Option (Option Cursor)) (key revision : String) : Option Nat :=
  match cursor with
  | none => some 0
  | some none => none
  | some (some page) =>
    if page.key = key ∧ page.revision = revision then some page.offset else none

def nextPage (offset : Nat) (key revision : String) : Cursor := ⟨offset, key, revision⟩

def optionalText (text : Option String) : String := text.elim "null" quote

def cursorText (cursor : Option Cursor) : String := optionalText (cursor.map Cursor.text)

def flagText (flag : Bool) : String := if flag then "true" else "false"

section
variable (sha256 : String → String) (texts : Texts)

def queryKey (query : UsageQuery) (identity : String) : String :=
  sha256 (array [quote identity, optionalText query.since, optionalText query.until,
    quote query.timezone])

structure AggregatePage where
  self : Covered
  sourceEventRange : Option String × Option String
  unattributed : Covered
  buckets : List Bucket
  revision : String
  ambiguous : Bool
  building : Bool
  reset : Bool
  nextCursor : Option Cursor

/-- A stored bucket with the comma after it. -/
def storedBytes (bucket : UsageShape × UsageAggregate) : Nat :=
  byteLength (texts.bucket ⟨bucket.1, uncovered bucket.2⟩) + 1

/-- The reply from the cache and the stored buckets in the order of their keys. -/
def aggregate (cache : Cache) (sourceEventRange : Option String × Option String)
    (stored : List (UsageShape × UsageAggregate)) (key revision : String) (limit : Nat)
    (cursor : Option (Option Cursor)) : AggregatePage :=
  let offset := pageOffset cursor key revision
  let start := offset.getD 0
  let rows := (stored.drop start).take (limit + 1)
  let buckets := fitting (storedBytes texts) (64 * 1024) 2 (rows.take limit)
  let ambiguous := decide (0 < cache.ambiguousCount)
  let incomplete := ambiguous || !cache.complete
  { self := finishUsage cache.self incomplete
    sourceEventRange
    unattributed := finishUsage cache.unattributed incomplete
    buckets := buckets.map fun (shape, value) => ⟨shape, finishUsage value incomplete⟩
    revision
    ambiguous
    building := !cache.complete
    reset := offset.isNone || (!cache.complete && cursor.isSome)
    nextCursor :=
      if cache.complete && decide (buckets.length < rows.length) then
        some (nextPage (start + buckets.length) key revision)
      else none }

def AggregatePage.json (page : AggregatePage) : String :=
  object [field "self" (texts.aggregate page.self),
    field "sourceEventRange" (object [field "first" (optionalText page.sourceEventRange.1),
      field "last" (optionalText page.sourceEventRange.2)]),
    field "unattributed" (texts.aggregate page.unattributed),
    field "buckets" (array (page.buckets.map texts.bucket)),
    field "revision" (quote page.revision), field "ambiguous" (flagText page.ambiguous),
    field "building" (flagText page.building), field "reset" (flagText page.reset),
    field "nextCursor" (cursorText page.nextCursor)]

/-- A session's row of the registry, as far as the list reads it. -/
structure Session where
  name : String
  uuid : String
  agent : AgentKind
  deriving DecidableEq

/-- The code units of a text, by which the language orders texts. -/
def units (text : String) : List Nat :=
  text.toList.flatMap fun c =>
    if c.toNat < 0x10000 then [c.toNat]
    else [0xD800 + (c.toNat - 0x10000) / 0x400, 0xDC00 + (c.toNat - 0x10000) % 0x400]

/-- The addresses of the list, each once and sorted. -/
def addresses (rcPrefix : String) (sessions : List Session) (external : List String) :
    List String :=
  let nativeIds := (sessions.filter fun s => s.agent == .codex).map Session.uuid
  let named := sessions.map fun s => rcPrefix ++ ":" ++ s.name
  let app := (external.filter fun id => !nativeIds.contains id).map fun id =>
    rcPrefix ++ ":app/" ++ id
  (named ++ app).dedup.mergeSort fun left right => decide (units left ≤ units right)

structure UsageList where
  machine : String
  data : List Summary
  reset : Bool
  nextCursor : Option Cursor

def UsageList.json (list : UsageList) : String :=
  object [field "machine" (quote list.machine), field "data" (array (list.data.map Summary.json)),
    field "reset" (flagText list.reset), field "nextCursor" (cursorText list.nextCursor)]

def rowBytes (row : Summary) : Nat := byteLength row.json + 1

def revisionOf (addresses : List String) : String := sha256 (array (addresses.map quote))

/-- `readings` is what reading an address gives. -/
def listSessionUsage (rcPrefix : String) (sessions : List Session) (external : List String)
    (readings : String → Option Summary) (query : UsageQuery) (limit : Nat)
    (cursor : Option (Option Cursor)) : UsageList :=
  let addresses := addresses rcPrefix sessions external
  let revision := revisionOf sha256 addresses
  let key := queryKey sha256 query rcPrefix
  let offset := pageOffset cursor key revision
  let start := offset.getD 0
  let selected := (addresses.drop start).take limit
  let data := fitting rowBytes usageMaxBytes 4096 (selected.map fun address =>
    texts.readSessionUsage (readings address) address query.timezone)
  { machine := rcPrefix
    data
    reset := offset.isNone
    nextCursor :=
      if start + data.length < addresses.length then
        some (nextPage (start + data.length) key revision)
      else none }

/-- Where a page starts, whatever cursor is sent. -/
def startOf (key revision : String) (cursor : Option Cursor) : Nat :=
  (pageOffset (cursor.map some) key revision).getD 0

def servedBuckets (cache : Cache) (stored : List (UsageShape × UsageAggregate)) : List Bucket :=
  stored.map fun (shape, value) =>
    ⟨shape, finishUsage value (decide (0 < cache.ambiguousCount) || !cache.complete)⟩

def aggregateCut (limit : Nat) : Cut Bucket :=
  ⟨limit, fun bucket => storedBytes texts (bucket.shape, bucket.totals.value), 2, 64 * 1024⟩

def readAggregate (cache : Cache) (range : Option String × Option String)
    (stored : List (UsageShape × UsageAggregate)) (key revision : String) (limit : Nat)
    (cursor : Option Cursor) : Page Bucket Cursor :=
  let page := aggregate texts cache range stored key revision limit (cursor.map some)
  ⟨page.buckets, page.nextCursor⟩

/-- The summaries in the order of the addresses. -/
def servedRows (rcPrefix : String) (sessions : List Session) (external : List String)
    (readings : String → Option Summary) (query : UsageQuery) : List Summary :=
  (addresses rcPrefix sessions external).map fun address =>
    texts.readSessionUsage (readings address) address query.timezone

def listCut (limit : Nat) : Cut Summary := ⟨limit, rowBytes, 4096, usageMaxBytes⟩

def readList (rcPrefix : String) (sessions : List Session) (external : List String)
    (readings : String → Option Summary) (query : UsageQuery) (limit : Nat)
    (cursor : Option Cursor) : Page Summary Cursor :=
  let list := listSessionUsage sha256 texts rcPrefix sessions external readings query limit
    (cursor.map some)
  ⟨list.data, list.nextCursor⟩

theorem startOf_none (key revision : String) : startOf key revision none = 0 := rfl

theorem startOf_nextPage (offset : Nat) (key revision : String) :
    startOf key revision (some (nextPage offset key revision)) = offset := by
  simp [startOf, pageOffset, nextPage]

variable {sha256 texts}

/-- A cache that is built serves its buckets in pages. -/
theorem readAggregate_serves {cache : Cache} (hready : cache.complete = true)
    (range : Option String × Option String) (stored : List (UsageShape × UsageAggregate))
    (key revision : String) (limit : Nat) :
    Serves (aggregateCut texts limit) (servedBuckets cache stored) (startOf key revision)
      (readAggregate texts cache range stored key revision limit) := by
  have hrows : ∀ cursor : Option Cursor,
      (readAggregate texts cache range stored key revision limit cursor).rows =
        (aggregateCut texts limit).pageAt (servedBuckets cache stored)
          (startOf key revision cursor) := by
    intro cursor
    simp only [Cut.pageAt, servedBuckets, ← List.map_drop, ← List.map_take, fitting_map]
    simp only [readAggregate, aggregate, aggregateCut, startOf, List.take_take,
      Nat.min_eq_left (Nat.le_succ limit)]
    rfl
  refine serves_of_next (fun offset => nextPage offset key revision) (startOf_none key revision)
    (fun offset => startOf_nextPage offset key revision) hrows ?_
  intro cursor
  have hpage := Cut.pageAt_length_le (aggregateCut texts limit) (servedBuckets cache stored)
    (startOf key revision cursor)
  have hleft := ((aggregateCut texts limit).rows_from (servedBuckets cache stored)
    (startOf key revision cursor)).length_le
  rw [← hrows cursor] at hpage hleft
  rw [List.length_drop, servedBuckets, List.length_map] at hleft
  rw [servedBuckets, List.length_map]
  simp only [readAggregate, aggregate, aggregateCut, startOf, hready, Bool.true_and,
    List.length_map, List.length_take, List.length_drop, decide_eq_true_eq] at hpage hleft ⊢
  refine if_congr ?_ rfl rfl
  rw [lt_min_iff]
  omega

theorem readList_serves (rcPrefix : String) (sessions : List Session) (external : List String)
    (readings : String → Option Summary) (query : UsageQuery) (limit : Nat) :
    Serves (listCut limit) (servedRows texts rcPrefix sessions external readings query)
      (startOf (queryKey sha256 query rcPrefix)
        (revisionOf sha256 (addresses rcPrefix sessions external)))
      (readList sha256 texts rcPrefix sessions external readings query limit) := by
  refine serves_of_next (fun offset => nextPage offset (queryKey sha256 query rcPrefix)
    (revisionOf sha256 (addresses rcPrefix sessions external))) (startOf_none _ _)
    (fun offset => startOf_nextPage offset _ _) ?_ ?_
  · intro cursor
    simp only [readList, listSessionUsage, Cut.pageAt, listCut, servedRows, startOf,
      ← List.map_drop, ← List.map_take]
  · intro cursor
    simp only [readList, listSessionUsage, servedRows, startOf, List.length_map]

/-- What the list's reply takes beside its rows stays within the allowance for it. -/
def ListFrameFits (rcPrefix key revision : String) (count : Nat) : Prop :=
  ∀ reset next, (∀ cursor, next = some cursor →
    ∃ offset < count, cursor = nextPage offset key revision) →
    byteLength (UsageList.json ⟨rcPrefix, [], reset, next⟩) ≤ 4096 + 1

/-- What the aggregate's reply takes beside its buckets leaves them their share. -/
def AggregateFrameFits (texts : Texts) (cache : Cache) (range : Option String × Option String)
    (key revision : String) (count : Nat) : Prop :=
  ∀ flags : Bool × Bool × Bool, ∀ next, (∀ cursor, next = some cursor →
    ∃ offset < count, cursor = nextPage offset key revision) →
    byteLength (AggregatePage.json texts
      ⟨uncovered cache.self, range, uncovered cache.unattributed, [], revision, flags.1,
        flags.2.1, flags.2.2, next⟩) ≤ usageMaxBytes - 64 * 1024

theorem list_json_bytes (machine : String) (data : List Summary) (reset : Bool)
    (next : Option Cursor) :
    byteLength (UsageList.json ⟨machine, data, reset, next⟩) =
      byteLength (UsageList.json ⟨machine, [], reset, next⟩) +
        (data.map fun row => byteLength row.json).sum + (data.length - 1) := by
  simp only [UsageList.json, byteLength_object, byteLength_field, byteLength_array, List.map_cons,
    List.map_nil, List.sum_cons, List.sum_nil, List.map_map, List.length_map, List.length_cons,
    List.length_nil, Function.comp_def]
  omega

theorem sum_rowBytes (data : List Summary) :
    (data.map rowBytes).sum = (data.map fun row => byteLength row.json).sum + data.length := by
  induction data with
  | nil => rfl
  | cons row rest ih =>
    simp only [List.map_cons, List.sum_cons, List.length_cons, ih, rowBytes]
    omega

/-- No reply of the list is above the bound. -/
theorem listSessionUsage_le {rcPrefix : String} {sessions : List Session} {external : List String}
    {readings : String → Option Summary} {query : UsageQuery}
    (hframe : ListFrameFits rcPrefix (queryKey sha256 query rcPrefix)
      (revisionOf sha256 (addresses rcPrefix sessions external))
      (addresses rcPrefix sessions external).length)
    (limit : Nat) (cursor : Option (Option Cursor)) :
    byteLength (listSessionUsage sha256 texts rcPrefix sessions external readings query limit
      cursor).json ≤ usageMaxBytes := by
  have hbudget : 4096 ≤ usageMaxBytes := by decide
  have hmax : usageMaxBytes = 262144 := rfl
  generalize hlist : listSessionUsage sha256 texts rcPrefix sessions external readings query limit
    cursor = list
  obtain ⟨machine, data, reset, next⟩ := list
  simp only [listSessionUsage, UsageList.mk.injEq] at hlist
  obtain ⟨rfl, hdata, hreset, hnext⟩ := hlist
  have hrows : 4096 + (data.map rowBytes).sum ≤ usageMaxBytes := by
    rw [← hdata]
    exact fitting_sum _ hbudget
  rw [sum_rowBytes] at hrows
  have hempty := hframe reset next ?_
  · rw [list_json_bytes]
    cases data with
    | nil => simp only [List.map_nil, List.sum_nil, List.length_nil]; omega
    | cons row rest => rw [List.length_cons] at hrows ⊢; omega
  · intro page hpage
    rw [hpage] at hnext
    split at hnext
    · rename_i hmore
      obtain rfl := Option.some.inj hnext
      exact ⟨_, hmore, rfl⟩
    · exact absurd hnext (Option.some_ne_none _).symm

theorem sum_bucketBytes (texts : Texts) (buckets : List (UsageShape × UsageAggregate))
    (incomplete : Bool) :
    ((buckets.map fun (shape, value) => Bucket.mk shape (finishUsage value incomplete)).map
        fun bucket => byteLength (texts.bucket bucket)).sum + buckets.length ≤
      (buckets.map (storedBytes texts)).sum := by
  induction buckets with
  | nil => exact Nat.le_refl _
  | cons bucket rest ih =>
    have hone := texts.bucket_finish_le bucket.1 bucket.2 incomplete
    simp only [List.map_cons, List.sum_cons, List.length_cons, storedBytes] at ih ⊢
    omega

variable {cache : Cache}

/-- Nor is any reply of the aggregate. -/
theorem aggregate_le {range : Option String × Option String}
    {stored : List (UsageShape × UsageAggregate)} {key revision : String}
    (hframe : AggregateFrameFits texts cache range key revision stored.length) (limit : Nat)
    (cursor : Option (Option Cursor)) :
    byteLength (AggregatePage.json texts
      (aggregate texts cache range stored key revision limit cursor)) ≤ usageMaxBytes := by
  have hmax : usageMaxBytes = 262144 := rfl
  unfold AggregateFrameFits at hframe
  generalize hpage : aggregate texts cache range stored key revision limit cursor = page
  obtain ⟨self, served, unattributed, buckets, revised, ambiguous, building, reset, next⟩ := page
  simp only [aggregate, AggregatePage.mk.injEq] at hpage
  obtain ⟨hself, rfl, hunattributed, hbuckets, rfl, _, _, _, hnext⟩ := hpage
  have hwithin : ∀ cursor, next = some cursor →
      ∃ offset < stored.length, cursor = nextPage offset key revision := by
    intro page hpage
    rw [hpage] at hnext
    split at hnext
    · rename_i hmore
      rw [Bool.and_eq_true, decide_eq_true_eq, List.length_take, List.length_drop,
        lt_min_iff] at hmore
      obtain rfl := Option.some.inj hnext
      exact ⟨_, by omega, rfl⟩
    · exact absurd hnext (Option.some_ne_none _).symm
  have hempty := hframe (ambiguous, building, reset) next hwithin
  generalize hloaded : fitting (storedBytes texts) (64 * 1024) 2
    (((stored.drop ((pageOffset cursor key revision).getD 0)).take (limit + 1)).take limit) =
      loaded at hbuckets
  have hshare : 2 + (loaded.map (storedBytes texts)).sum ≤ 64 * 1024 := by
    rw [← hloaded]
    exact fitting_sum _ (by omega)
  have hserved := sum_bucketBytes texts loaded
    (decide (0 < cache.ambiguousCount) || !cache.complete)
  have hcount := congrArg List.length hbuckets
  rw [List.length_map] at hcount
  rw [hbuckets, hcount] at hserved
  have hselfBytes := texts.aggregate_finish_le cache.self
    (decide (0 < cache.ambiguousCount) || !cache.complete)
  have hunattributedBytes := texts.aggregate_finish_le cache.unattributed
    (decide (0 < cache.ambiguousCount) || !cache.complete)
  rw [hself] at hselfBytes
  rw [hunattributed] at hunattributedBytes
  simp only [AggregatePage.json, byteLength_object, byteLength_field, byteLength_array,
    List.map_cons, List.map_nil, List.sum_cons, List.sum_nil, List.map_map, List.length_map,
    List.length_cons, List.length_nil, Function.comp_def] at hempty ⊢
  omega

theorem addresses_nodup (rcPrefix : String) (sessions : List Session) (external : List String) :
    (addresses rcPrefix sessions external).Nodup := by
  unfold addresses
  exact (List.mergeSort_perm _ _).nodup_iff.mpr (List.nodup_dedup _)

theorem aggregate_covers_iff (hready : cache.complete = true)
    (range : Option String × Option String) (stored : List (UsageShape × UsageAggregate))
    (key revision : String) {limit : Nat} (hlimit : 0 < limit) :
    (∃ pages, Covers (servedBuckets cache stored) (startOf key revision)
      (readAggregate texts cache range stored key revision limit) pages) ↔
      ∀ bucket ∈ stored,
        byteLength (texts.bucket ⟨bucket.1, uncovered bucket.2⟩) ≤ 64 * 1024 - 3 := by
  have hserves := @readAggregate_serves texts cache hready range stored key revision limit
  rw [hserves.covers_iff hlimit]
  unfold servedBuckets
  rw [List.forall_mem_map]
  refine forall₂_congr fun bucket _ => ?_
  have hvalue : (finishUsage bucket.2
      (decide (0 < cache.ambiguousCount) || !cache.complete)).value = bucket.2 := rfl
  simp only [Cut.Takes, aggregateCut, storedBytes, hvalue]
  omega

theorem listCut_takes_iff (limit : Nat) (row : Summary) :
    (listCut limit).Takes row ↔ byteLength row.json < usageMaxBytes - 4096 := by
  have hmax : usageMaxBytes = 262144 := rfl
  simp only [Cut.Takes, listCut, rowBytes]
  omega

theorem list_covers_iff (rcPrefix : String) (sessions : List Session) (external : List String)
    (readings : String → Option Summary) (query : UsageQuery) {limit : Nat} (hlimit : 0 < limit) :
    (∃ pages, Covers (servedRows texts rcPrefix sessions external readings query)
      (startOf (queryKey sha256 query rcPrefix)
        (revisionOf sha256 (addresses rcPrefix sessions external)))
      (readList sha256 texts rcPrefix sessions external readings query limit) pages) ↔
      ∀ address ∈ addresses rcPrefix sessions external,
        texts.RowFits (readings address) address query.timezone := by
  have hserves := @readList_serves sha256 texts rcPrefix sessions external readings query limit
  rw [hserves.covers_iff hlimit]
  unfold servedRows
  rw [List.forall_mem_map]
  refine forall₂_congr fun address _ => ?_
  rw [texts.rowFits_iff, listCut_takes_iff]

/-- Which rows let a reader come to the end of the buckets and of the sessions, and that every
reply on the way is within the bound. -/
theorem pages_cover_rows (sha256 : String → String) (texts : Texts) {cache : Cache}
    (hready : cache.complete = true) (range : Option String × Option String)
    (stored : List (UsageShape × UsageAggregate)) (key revision rcPrefix : String)
    (sessions : List Session) (external : List String) (readings : String → Option Summary)
    (query : UsageQuery) (limit : Nat) (hlimit : 0 < limit) :
    ((∃ pages, Covers (servedBuckets cache stored) (startOf key revision)
        (readAggregate texts cache range stored key revision limit) pages) ↔
      ∀ bucket ∈ stored,
        byteLength (texts.bucket ⟨bucket.1, uncovered bucket.2⟩) ≤ 64 * 1024 - 3) ∧
    ((∃ pages, Covers (servedRows texts rcPrefix sessions external readings query)
        (startOf (queryKey sha256 query rcPrefix)
          (revisionOf sha256 (addresses rcPrefix sessions external)))
        (readList sha256 texts rcPrefix sessions external readings query limit) pages) ↔
      ∀ address ∈ addresses rcPrefix sessions external,
        texts.RowFits (readings address) address query.timezone) ∧
    (addresses rcPrefix sessions external).Nodup ∧
    (AggregateFrameFits texts cache range key revision stored.length → ∀ cursor,
      byteLength (AggregatePage.json texts
        (aggregate texts cache range stored key revision limit cursor)) ≤ usageMaxBytes) ∧
    (ListFrameFits rcPrefix (queryKey sha256 query rcPrefix)
        (revisionOf sha256 (addresses rcPrefix sessions external))
        (addresses rcPrefix sessions external).length → ∀ cursor,
      byteLength (listSessionUsage sha256 texts rcPrefix sessions external readings query limit
        cursor).json ≤ usageMaxBytes) := by
  refine ⟨?_, ?_, ?_, ?_, ?_⟩
  · exact aggregate_covers_iff hready range stored key revision hlimit
  · exact list_covers_iff rcPrefix sessions external readings query hlimit
  · exact addresses_nodup rcPrefix sessions external
  · intro hframe cursor
    exact aggregate_le hframe limit cursor
  · intro hframe cursor
    exact listSessionUsage_le hframe limit cursor

end

/-- A machine with one session, whose reading is small or was refused. -/
def oneSession : List Session := [⟨"a", "u", .opencode⟩]

def plainTexts : Texts := ⟨fun _ => [], fun _ => "[]"⟩

def utcQuery : UsageQuery := ⟨none, none, "UTC"⟩

def builtCache : Cache := { Cache.empty utcQuery with complete := true }

theorem oneSession_addresses : addresses "local" oneSession [] = ["local:a"] := by
  simp [addresses, oneSession]

/-- The failed row of a session fits, so the reader comes to the end of the list. -/
theorem pages_cover_rows_oneSession :
    ∃ pages, Covers (servedRows plainTexts "local" oneSession [] (fun _ => none) utcQuery)
      (startOf (queryKey id utcQuery "local")
        (revisionOf id (addresses "local" oneSession [])))
      (readList id plainTexts "local" oneSession [] (fun _ => none) utcQuery 100) pages := by
  have hready : builtCache.complete = true := rfl
  have hcovers := (pages_cover_rows id plainTexts hready (none, none) [] "k" "r" "local" oneSession
    [] (fun _ => none) utcQuery 100 (by omega)).2.1
  refine hcovers.mpr ?_
  rw [oneSession_addresses]
  intro address haddress
  obtain rfl := List.mem_singleton.mp haddress
  have hfailed : byteLength (plainTexts.failedUsage "local:a" utcQuery.timezone).json <
      usageMaxBytes - 4096 := by
    decide +kernel
  exact hfailed

/-- What a session without a history file or a usage database reads as. -/
def observedLive (address : String) : Summary :=
  (plainTexts.unavailableUsage address "opencode" "unsupported"
    "historical-backfill-unsupported").set "history" (quote "observed-live")

/-- A name with which the summary is as large as the size check lets through. -/
def edgeName : String := repeated "a" 256528

def edgeSession : List Session := [⟨edgeName, "u", .opencode⟩]

theorem observedLive_bytes (address : String) :
    byteLength (observedLive address).json = 1514 + escapedBytes address := by
  have hbase : byteLength (observedLive "").json = 1514 := by
    decide +kernel
  have htail : ∃ tail, ∀ address, observedLive address = ⟨("address", quote address) :: tail⟩ :=
    ⟨_, fun _ => rfl⟩
  obtain ⟨tail, htail⟩ := htail
  have hreplace := Summary.json_bytes_replace "address" (quote address) (quote "") tail
  rw [← htail, ← htail, hbase, byteLength_quote, byteLength_quote, escapedBytes_empty] at hreplace
  omega

theorem observedLive_set (address : String) :
    ((observedLive address).fields.any fun entry => entry.1 == "retryAfterMs") = false ∧
      (observedLive address).fields ≠ [] :=
  ⟨rfl, List.cons_ne_nil _ _⟩

def edgeReading (address : String) : Option Summary := some (observedLive address)

def edgeRead : Option Cursor → Page Summary Cursor :=
  readList id plainTexts "local" edgeSession [] edgeReading utcQuery 100

def edgeStart : Option Cursor → Nat :=
  startOf (queryKey id utcQuery "local") (revisionOf id (addresses "local" edgeSession []))

theorem edgeSession_addresses : addresses "local" edgeSession [] = ["local:" ++ edgeName] := by
  simp [addresses, edgeSession]

theorem edge_bytes : byteLength (observedLive ("local:" ++ edgeName)).json = 258048 := by
  have hprefix : escapedBytes "local:" = 6 := by
    unfold escapedBytes byteLength escape
    decide
  have hletter : escapedBytes "a" = 1 := by
    unfold escapedBytes byteLength escape
    decide
  rw [observedLive_bytes, escapedBytes_append, edgeName, escapedBytes_repeated, hprefix, hletter]

/-- The summary passes the size check, and with its retry field no page takes it. -/
theorem edge_session_never_served :
    byteLength (observedLive ("local:" ++ edgeName)).json = usageMaxBytes - 4096 ∧
    (edgeRead none).rows = [] ∧
    (∃ next, (edgeRead none).next = some next ∧ edgeStart (some next) = 0) ∧
    (∀ fuel, follow edgeRead fuel none = none) ∧
    ¬ ∃ pages, Covers (servedRows plainTexts "local" edgeSession [] edgeReading utcQuery)
      edgeStart edgeRead pages := by
  have hmax : usageMaxBytes - 4096 = 258048 := rfl
  have hserves : Serves (listCut 100)
      (servedRows plainTexts "local" edgeSession [] edgeReading utcQuery) edgeStart edgeRead :=
    readList_serves "local" edgeSession [] edgeReading utcQuery 100
  have hrows : servedRows plainTexts "local" edgeSession [] edgeReading utcQuery =
      [plainTexts.readSessionUsage (edgeReading ("local:" ++ edgeName)) ("local:" ++ edgeName)
        utcQuery.timezone] := by
    rw [servedRows, edgeSession_addresses, List.map_singleton]
  have hlarge : ¬ (listCut 100).Takes (plainTexts.readSessionUsage
      (edgeReading ("local:" ++ edgeName)) ("local:" ++ edgeName) utcQuery.timezone) := by
    obtain ⟨habsent, hfields⟩ := observedLive_set ("local:" ++ edgeName)
    have hfits := plainTexts.rowFits_measured ("local:" ++ edgeName) utcQuery.timezone
      (edge_bytes.le.trans hmax.ge) habsent hfields
    rw [edge_bytes, hmax] at hfits
    rw [listCut_takes_iff, ← plainTexts.rowFits_iff, edgeReading, hfits]
    omega
  have hdrop : (servedRows plainTexts "local" edgeSession [] edgeReading utcQuery).drop
      (edgeStart none) = [plainTexts.readSessionUsage (edgeReading ("local:" ++ edgeName))
        ("local:" ++ edgeName) utcQuery.timezone] := by
    rw [edgeStart, startOf_none, List.drop_zero, hrows]
  obtain ⟨hempty, next, hnext, hplace⟩ := hserves.page_stuck hdrop hlarge
  have hstuck : ∀ fuel, follow edgeRead fuel none = none :=
    hserves.follow_stuck ⟨_, by rw [hdrop]; exact List.mem_singleton_self _, hlarge⟩
  refine ⟨edge_bytes.trans hmax.symm, hempty, ⟨next, hnext, hplace⟩, hstuck, ?_⟩
  rintro ⟨pages, hcovers⟩
  have hends := hcovers.ends
  rw [hstuck] at hends
  exact absurd hends (Option.some_ne_none _).symm

end Ccmux.Usage.Paging
