/- Module: Ccmux/Fleet/PeerDelta
   source: src/fleet/peerDelta.ts, src/commands/peerRead.ts (parse), src/commands/fleetList.ts
     (expandPeerList, peerListMachine), src/commands/chat.ts (remoteLogs)
   digest: A peer's rows carried by digest: what a reader holds, names and gets back, while other
     readers rewrite the cache. -/

import Mathlib
import Ccmux.Lib.JsonText
import Ccmux.Lib.Machine

namespace Ccmux.Fleet.PeerDelta

open Ccmux.Lib.Machine

abbrev Rows (J : Type) := AList fun _ : String => J

/-- What is taken from the language, for JSON values `J`. -/
structure Builtins (J : Type) where
  stringify : J → String
  /-- The hexadecimal digest of a text. -/
  sha256 : String → String

/-- A row, and what of it changes without an event. -/
structure Parts (J : Type) where
  stable : J
  volatile : J

structure Packed (J : Type) where
  refs : List String
  /-- The rows the reader did not name, by digest. -/
  items : Rows J
  volatile : Option (List J)

def DIGEST_HEX : Nat := 16

/-- The object a loop of assignments builds. -/
def assignAll {J : Type} (entries : List (String × J)) : Rows J :=
  entries.foldl (fun rows entry => rows.insert entry.1 entry.2) ∅

/-- `digests.join(',')`. -/
def joinDigests (digests : List String) : String :=
  String.ofList ([','].intercalate (digests.map String.toList))

/-- The digests a `--known` value names. -/
def parseKnown (value : String) : List String :=
  ((value.toList.splitOn ',').map String.ofList).filter fun digest => digest ≠ ""

/-- The digests named on the command line of a peer read. -/
def knownOf : List String → List String
  | ["--known", value] => parseKnown value
  | _ => []

/-- One array of an answer, as the peer packs it and the reader unpacks it. -/
structure Batch (J : Type) where
  rows : List J
  split : Option (J → Parts J)
  join : Option (J → Option J → J)

section
variable {J : Type} (b : Builtins J)

def rowDigest (row : J) : String :=
  String.ofList ((b.sha256 (b.stringify row)).toList.take DIGEST_HEX)

def stablePart (split : Option (J → Parts J)) (row : J) : J :=
  match split with
  | none => row
  | some split => (split row).stable

def pack (rows : List J) (known : List String) (split : Option (J → Parts J)) : Packed J :=
  { refs := rows.map fun row => rowDigest b (stablePart split row)
    items := assignAll
      ((rows.map fun row => (rowDigest b (stablePart split row), stablePart split row)).filter
        fun entry => entry.1 ∉ known)
    volatile := split.map fun split => rows.map fun row => (split row).volatile }

/-- The row a digest stands for: a sent one, or one the reader holds. -/
def expand (packed : Packed J) (held : Rows J) (digest : String) : Option J :=
  match packed.items.lookup digest with
  | some row => some row
  | none => held.lookup digest

def unpackFrom (packed : Packed J) (held : Rows J) (join : Option (J → Option J → J)) :
    Nat → List String → Option (List J)
  | _, [] => some []
  | index, digest :: rest =>
    match expand packed held digest with
    | none => none
    | some stable =>
      (unpackFrom packed held join (index + 1) rest).map fun rows =>
        (match join with
          | none => stable
          | some join => join stable (packed.volatile.bind fun volatile => volatile[index]?)) :: rows

/-- The rows back; `none` when the answer names a row that was neither sent nor held. -/
def unpack (packed : Packed J) (held : Rows J) (join : Option (J → Option J → J)) :
    Option (List J) :=
  unpackFrom packed held join 0 packed.refs

/-- The `--known` argument, or nothing when the reader holds no row. -/
def knownArgs (rows : Rows J) : List String :=
  if rows.keys = [] then [] else ["--known", joinDigests rows.keys]

/-- What `save` writes: the rows the packs refer to. -/
def kept (rows : Rows J) (packs : List (Packed J)) : Rows J :=
  assignAll (packs.flatMap fun packed =>
    packed.refs.filterMap fun digest => (expand packed rows digest).map fun row => (digest, row))

/-- One finished read: what the peer had, what the reader made of it, what it saved. -/
structure Outcome (J : Type) where
  batches : List (Batch J)
  results : List (Option (List J))
  saved : Option (Rows J)

/-- The cache file of one peer, the rows each reader loaded from it, and the reads so far. -/
structure World (J : Type) where
  file : Option (Rows J)
  readers : Nat → Option (Rows J)
  outcomes : List (Outcome J)

/-- `readable` is whether the load can read the file, `written` whether the save can write it. -/
inductive Event (J : Type) where
  | load (reader : Nat) (readable : Bool)
  | answer (reader : Nat) (batches : List (Batch J)) (written : Bool)
  | remove

/-- `loadPeerHeld`: a cache that cannot be read holds nothing. -/
def loadPeerHeld (file : Option (Rows J)) (readable : Bool) : Rows J :=
  if readable then file.getD ∅ else ∅

/-- The answer to a reader that asked with what it holds; a first array it cannot expand ends the
read before anything is saved. -/
def readAnswer (held : Rows J) (batches : List (Batch J)) : Outcome J :=
  let known := knownOf (knownArgs held)
  let packs := batches.map fun batch => pack b batch.rows known batch.split
  let results := batches.map fun batch =>
    unpack (pack b batch.rows known batch.split) held batch.join
  { batches := batches
    results := results
    saved := match results with
      | none :: _ => none
      | _ => some (kept held packs) }

def step (w : World J) : Event J → Option (World J)
  | .load reader readable =>
    some { w with
      readers := Function.update w.readers reader (some (loadPeerHeld w.file readable)) }
  | .answer reader batches written =>
    match w.readers reader with
    | none => none
    | some held =>
      let outcome := readAnswer b held batches
      some
        { file := if written then outcome.saved.or w.file else w.file
          readers := Function.update w.readers reader none
          outcomes := w.outcomes ++ [outcome] }
  | .remove => some { w with file := none }

/-- The rows of a batch with their volatile part joined. -/
def Batch.whole (batch : Batch J) : List J :=
  batch.rows.map fun row =>
    match batch.join with
    | none => stablePart batch.split row
    | some join =>
      join (stablePart batch.split row) (batch.split.map fun split => (split row).volatile)

def Batch.stableRows (batch : Batch J) : List J := batch.rows.map (stablePart batch.split)

/-- The rows that are digested in the event. -/
def stableRowsOf : Event J → List J
  | .answer _ batches _ => batches.flatMap Batch.stableRows
  | _ => []

/-- The reader has the peer's rows in order, and keeps exactly the rows the answer refers to. -/
structure Exact (outcome : Outcome J) : Prop where
  results : outcome.results = outcome.batches.map fun batch => some batch.whole
  saved : ∃ rows, outcome.saved = some rows ∧ ∀ digest row, rows.lookup digest = some row ↔
    row ∈ outcome.batches.flatMap Batch.stableRows ∧ rowDigest b row = digest

/-- Every row stands under its digest and is one of these. -/
def Sound (universe_ : List J) (rows : Rows J) : Prop :=
  ∀ digest row, rows.lookup digest = some row → row ∈ universe_ ∧ rowDigest b row = digest

end

/-- Hexadecimal text of a whole sha256 digest. -/
def IsHex (text : String) : Prop :=
  text.toList.length = 64 ∧ ∀ c ∈ text.toList, c.isDigit = true ∨ ('a' ≤ c ∧ c ≤ 'f')

/-! ### Objects built by assignment -/

section
variable {J : Type}

variable {entries : List (String × J)} {key : String} {row : J}

variable {start : Rows J}

theorem lookup_foldl_insert
    (h : (entries.foldl (fun rows entry => rows.insert entry.1 entry.2) start).lookup key =
      some row) : (key, row) ∈ entries ∨ start.lookup key = some row := by
  induction entries generalizing start with
  | nil => exact .inr h
  | cons entry entries ih =>
    rcases ih h with hmem | hstart
    · exact .inl (List.mem_cons_of_mem entry hmem)
    · by_cases hkey : key = entry.1
      · subst hkey
        rw [AList.lookup_insert] at hstart
        obtain rfl := Option.some.inj hstart
        exact .inl List.mem_cons_self
      · rw [AList.lookup_insert_ne hkey] at hstart
        exact .inr hstart

theorem isSome_lookup_foldl_insert
    (h : key ∈ entries.map Prod.fst ∨ (start.lookup key).isSome = true) :
    ((entries.foldl (fun rows entry => rows.insert entry.1 entry.2) start).lookup key).isSome =
      true := by
  induction entries generalizing start with
  | nil => exact h.resolve_left List.not_mem_nil
  | cons entry entries ih =>
    refine ih ?_
    by_cases hkey : key = entry.1
    · subst hkey
      exact .inr (by rw [AList.lookup_insert]; rfl)
    · rcases h with hmem | hstart
      · exact .inl ((List.mem_cons.mp hmem).resolve_left hkey)
      · exact .inr (by rw [AList.lookup_insert_ne hkey]; exact hstart)

theorem mem_of_lookup_assignAll (h : (assignAll entries).lookup key = some row) :
    (key, row) ∈ entries := by
  rcases lookup_foldl_insert h with hmem | hempty
  · exact hmem
  · cases hempty

theorem exists_lookup_assignAll (h : (key, row) ∈ entries) :
    ∃ found, (assignAll entries).lookup key = some found :=
  Option.isSome_iff_exists.mp
    (isSome_lookup_foldl_insert (.inl (List.mem_map.mpr ⟨(key, row), h, rfl⟩)))

theorem lookup_assignAll_eq_none (h : ∀ row, (key, row) ∉ entries) :
    (assignAll entries).lookup key = none := by
  cases hfound : (assignAll entries).lookup key with
  | none => rfl
  | some row => exact absurd (mem_of_lookup_assignAll hfound) (h row)

end

/-! ### The names on the command line -/

theorem mem_parseKnown_joinDigests {digests : List String} (hne : digests ≠ [])
    (hplain : ∀ digest ∈ digests, ',' ∉ digest.toList ∧ digest ≠ "") (digest : String) :
    digest ∈ parseKnown (joinDigests digests) ↔ digest ∈ digests := by
  have hsplit : (joinDigests digests).toList.splitOn ',' = digests.map String.toList := by
    rw [joinDigests, String.toList_ofList]
    refine List.splitOn_intercalate ',' ?_ (by simpa using hne)
    intro text htext
    obtain ⟨digest, hdigest, rfl⟩ := List.mem_map.mp htext
    exact (hplain digest hdigest).1
  have hback : (digests.map String.toList).map String.ofList = digests := by
    rw [List.map_map]
    exact (List.map_congr_left fun digest _ => String.ofList_toList).trans (List.map_id digests)
  rw [parseKnown, hsplit, hback, List.mem_filter]
  exact and_iff_left_of_imp fun hmem => decide_eq_true (hplain digest hmem).2

section
variable {J : Type}

theorem mem_knownOf_knownArgs {rows : Rows J}
    (hplain : ∀ digest ∈ rows.keys, ',' ∉ digest.toList ∧ digest ≠ "") (digest : String) :
    digest ∈ knownOf (knownArgs rows) ↔ digest ∈ rows.keys := by
  unfold knownArgs
  split
  · next hnil => simp [knownOf, hnil]
  · next hne => exact mem_parseKnown_joinDigests hne hplain digest

variable {b : Builtins J}

theorem rowDigest_plain (hhex : ∀ text, IsHex (b.sha256 text)) (row : J) :
    ',' ∉ (rowDigest b row).toList ∧ rowDigest b row ≠ "" := by
  obtain ⟨hlength, hchars⟩ := hhex (b.stringify row)
  rw [rowDigest, String.toList_ofList]
  refine ⟨?_, ?_⟩
  · intro hcomma
    have hhexed := hchars ',' (List.mem_of_mem_take hcomma)
    revert hhexed
    decide
  · intro hempty
    have hnil := congrArg (fun text => text.toList.length) hempty
    simp [DIGEST_HEX, hlength] at hnil

/-! ### One answer -/

variable {rows : List J} {universe_ : List J} {held : Rows J}
  (hhex : ∀ text, IsHex (b.sha256 text)) (hsound : Sound b universe_ held)
  (hdistinct : ∀ row ∈ universe_, ∀ other ∈ universe_,
    rowDigest b row = rowDigest b other → row = other)
include hhex hsound

theorem mem_known_iff (digest : String) :
    digest ∈ knownOf (knownArgs held) ↔ ∃ row, held.lookup digest = some row := by
  rw [mem_knownOf_knownArgs, ← AList.mem_keys, ← AList.lookup_isSome, Option.isSome_iff_exists]
  intro other hother
  obtain ⟨row, hrow⟩ := Option.isSome_iff_exists.mp (AList.lookup_isSome.mpr hother)
  obtain ⟨-, rfl⟩ := hsound other row hrow
  exact rowDigest_plain hhex row

include hdistinct

/-- A digest of the answer stands for the row it was made from. -/
theorem expand_pack {split : Option (J → Parts J)}
    (hrows : ∀ row ∈ rows, stablePart split row ∈ universe_) {row : J} (hrow : row ∈ rows) :
    expand (pack b rows (knownOf (knownArgs held)) split) held
      (rowDigest b (stablePart split row)) = some (stablePart split row) := by
  unfold expand
  by_cases hknown : rowDigest b (stablePart split row) ∈ knownOf (knownArgs held)
  · have hnone : (pack b rows (knownOf (knownArgs held)) split).items.lookup
        (rowDigest b (stablePart split row)) = none := by
      refine lookup_assignAll_eq_none fun other hother => ?_
      have hout := (List.mem_filter.mp hother).2
      simp only [decide_not, Bool.not_eq_true', decide_eq_false_iff_not] at hout
      exact hout hknown
    rw [hnone]
    obtain ⟨found, hfound⟩ := (mem_known_iff hhex hsound _).mp hknown
    obtain ⟨hin, hsame⟩ := hsound _ found hfound
    rw [hfound, hdistinct found hin _ (hrows row hrow) hsame]
  · have hentry : (rowDigest b (stablePart split row), stablePart split row) ∈
        (rows.map fun row => (rowDigest b (stablePart split row), stablePart split row)).filter
          fun entry => entry.1 ∉ knownOf (knownArgs held) :=
      List.mem_filter.mpr ⟨List.mem_map.mpr ⟨row, hrow, rfl⟩, decide_eq_true hknown⟩
    obtain ⟨found, hfound⟩ := exists_lookup_assignAll hentry
    have hitems : (pack b rows (knownOf (knownArgs held)) split).items.lookup
        (rowDigest b (stablePart split row)) = some found := hfound
    rw [hitems]
    obtain ⟨other, hother, hpair⟩ :=
      List.mem_map.mp (List.mem_filter.mp (mem_of_lookup_assignAll hfound)).1
    obtain ⟨hsame, rfl⟩ := Prod.mk.inj hpair
    rw [hdistinct _ (hrows other hother) _ (hrows row hrow) hsame]

theorem unpackFrom_pack (batch : Batch J)
    (hrows : ∀ row ∈ batch.rows, stablePart batch.split row ∈ universe_)
    (before rest : List J) (hsplit : batch.rows = before ++ rest) :
    unpackFrom (pack b batch.rows (knownOf (knownArgs held)) batch.split) held batch.join
        before.length (rest.map fun row => rowDigest b (stablePart batch.split row)) =
      some (rest.map fun row =>
        match batch.join with
        | none => stablePart batch.split row
        | some join =>
          join (stablePart batch.split row) (batch.split.map fun split => (split row).volatile)) := by
  induction rest generalizing before with
  | nil => rfl
  | cons row rest ih =>
    have hrow : row ∈ batch.rows := by
      rw [hsplit]
      exact List.mem_append_right _ List.mem_cons_self
    have hnext := ih (before ++ [row]) (by rw [hsplit, List.append_assoc]; rfl)
    rw [List.length_append, List.length_singleton] at hnext
    have hvolatile : (pack b batch.rows (knownOf (knownArgs held)) batch.split).volatile.bind
        (fun volatile => volatile[before.length]?) =
        batch.split.map fun split => (split row).volatile := by
      cases hparts : batch.split with
      | none => rfl
      | some split => simp [pack, hsplit]
    rw [List.map_cons, unpackFrom, expand_pack hhex hsound hdistinct hrows hrow, hnext]
    dsimp only
    rw [hvolatile]
    rfl

theorem unpack_pack (batch : Batch J)
    (hrows : ∀ row ∈ batch.stableRows, row ∈ universe_) :
    unpack (pack b batch.rows (knownOf (knownArgs held)) batch.split) held batch.join =
      some batch.whole := by
  refine unpackFrom_pack hhex hsound hdistinct batch ?_ [] batch.rows rfl
  intro row hrow
  exact hrows _ (List.mem_map.mpr ⟨row, hrow, rfl⟩)

/-- What is kept are the rows of the answer, each under its digest. -/
theorem lookup_kept {batches : List (Batch J)}
    (hrows : ∀ row ∈ batches.flatMap Batch.stableRows, row ∈ universe_) (digest : String)
    (row : J) :
    (kept held (batches.map fun batch =>
        pack b batch.rows (knownOf (knownArgs held)) batch.split)).lookup digest = some row ↔
      row ∈ batches.flatMap Batch.stableRows ∧ rowDigest b row = digest := by
  have hbatch : ∀ batch ∈ batches, ∀ row ∈ batch.rows, stablePart batch.split row ∈ universe_ := by
    intro batch hbatch row hrow
    exact hrows _ (List.mem_flatMap.mpr ⟨batch, hbatch, List.mem_map.mpr ⟨row, hrow, rfl⟩⟩)
  -- an entry is a row of the answer under its digest
  have hentries : ∀ key value, (key, value) ∈ (batches.map fun batch =>
        pack b batch.rows (knownOf (knownArgs held)) batch.split).flatMap (fun packed =>
          packed.refs.filterMap fun digest =>
            (expand packed held digest).map fun row => (digest, row)) ↔
      value ∈ batches.flatMap Batch.stableRows ∧ rowDigest b value = key := by
    intro key value
    simp only [List.mem_flatMap, List.mem_map, List.mem_filterMap]
    constructor
    · rintro ⟨packed, ⟨batch, hmem, rfl⟩, ref, href, hfound⟩
      obtain ⟨source, hsource, rfl⟩ := List.mem_map.mp href
      rw [expand_pack hhex hsound hdistinct (hbatch batch hmem) hsource] at hfound
      obtain ⟨rfl, rfl⟩ := Prod.mk.inj (Option.some.inj hfound)
      exact ⟨⟨batch, hmem, List.mem_map.mpr ⟨source, hsource, rfl⟩⟩, rfl⟩
    · rintro ⟨⟨batch, hmem, hvalue⟩, rfl⟩
      obtain ⟨source, hsource, rfl⟩ := List.mem_map.mp hvalue
      refine ⟨_, ⟨batch, hmem, rfl⟩, rowDigest b (stablePart batch.split source),
        List.mem_map.mpr ⟨source, hsource, rfl⟩, ?_⟩
      rw [expand_pack hhex hsound hdistinct (hbatch batch hmem) hsource]
      rfl
  constructor
  · intro hfound
    exact (hentries digest row).mp (mem_of_lookup_assignAll hfound)
  · rintro ⟨hin, hdigest⟩
    obtain ⟨found, hfound⟩ := exists_lookup_assignAll ((hentries digest row).mpr ⟨hin, hdigest⟩)
    obtain ⟨hother, hsame⟩ := (hentries digest found).mp (mem_of_lookup_assignAll hfound)
    have heq : found = row :=
      hdistinct found (hrows found hother) row (hrows row hin) (hsame.trans hdigest.symm)
    rw [← heq]
    exact hfound

end

/-! ### Runs -/

section
variable {J : Type} {b : Builtins J} {universe_ : List J}

theorem sound_empty : Sound b universe_ ∅ := fun _ _ h => by cases h

/-- The file and what the readers hold are sound, and the reads so far exact. -/
structure WorldSound (b : Builtins J) (universe_ : List J) (w : World J) : Prop where
  file : ∀ rows, w.file = some rows → Sound b universe_ rows
  readers : ∀ reader held, w.readers reader = some held → Sound b universe_ held
  outcomes : ∀ outcome ∈ w.outcomes, Exact b outcome

theorem readAnswer_exact (hhex : ∀ text, IsHex (b.sha256 text))
    (hdistinct : ∀ row ∈ universe_, ∀ other ∈ universe_,
      rowDigest b row = rowDigest b other → row = other)
    {held : Rows J} (hsound : Sound b universe_ held) {batches : List (Batch J)}
    (hrows : ∀ row ∈ batches.flatMap Batch.stableRows, row ∈ universe_) :
    Exact b (readAnswer b held batches) := by
  have hresults : (readAnswer b held batches).results =
      batches.map fun batch => some batch.whole := by
    refine List.map_congr_left fun batch hbatch => ?_
    refine unpack_pack hhex hsound hdistinct batch fun row hrow => ?_
    exact hrows row (List.mem_flatMap.mpr ⟨batch, hbatch, hrow⟩)
  have hsaved : (readAnswer b held batches).saved = some (kept held (batches.map fun batch =>
      pack b batch.rows (knownOf (knownArgs held)) batch.split)) := by
    have hmatch : (readAnswer b held batches).saved =
        match (readAnswer b held batches).results with
        | none :: _ => none
        | _ => some (kept held (batches.map fun batch =>
            pack b batch.rows (knownOf (knownArgs held)) batch.split)) := rfl
    rw [hmatch, hresults]
    cases batches with
    | nil => rfl
    | cons batch batches => rfl
  exact ⟨hresults, _, hsaved, lookup_kept hhex hsound hdistinct hrows⟩

theorem sound_saved {outcome : Outcome J} (h : Exact b outcome)
    (hrows : ∀ row ∈ outcome.batches.flatMap Batch.stableRows, row ∈ universe_) {rows : Rows J}
    (hsaved : outcome.saved = some rows) : Sound b universe_ rows := by
  obtain ⟨found, hfound, hlookup⟩ := h.saved
  obtain rfl := Option.some.inj (hsaved.symm.trans hfound)
  intro digest row hrow
  obtain ⟨hin, hdigest⟩ := (hlookup digest row).mp hrow
  exact ⟨hrows row hin, hdigest⟩

theorem step_worldSound (hhex : ∀ text, IsHex (b.sha256 text))
    (hdistinct : ∀ row ∈ universe_, ∀ other ∈ universe_,
      rowDigest b row = rowDigest b other → row = other)
    {w w' : World J} {e : Event J} (h : WorldSound b universe_ w)
    (hrows : ∀ row ∈ stableRowsOf e, row ∈ universe_) (hstep : step b w e = some w') :
    WorldSound b universe_ w' := by
  cases e with
  | load reader readable =>
    obtain rfl := Option.some.inj hstep
    refine ⟨h.file, ?_, h.outcomes⟩
    intro other held hheld
    by_cases hsame : other = reader
    · subst hsame
      dsimp only at hheld
      rw [Function.update_self] at hheld
      obtain rfl := Option.some.inj hheld
      unfold loadPeerHeld
      split
      · cases hfile : w.file with
        | none => exact sound_empty
        | some rows => exact h.file rows hfile
      · exact sound_empty
    · dsimp only at hheld
      rw [Function.update_of_ne hsame] at hheld
      exact h.readers other held hheld
  | remove =>
    obtain rfl := Option.some.inj hstep
    exact ⟨fun _ hfile => (Option.some_ne_none _ hfile.symm).elim, h.readers, h.outcomes⟩
  | answer reader batches written =>
    cases hheld : w.readers reader with
    | none => simp [step, hheld] at hstep
    | some held =>
      simp only [step, hheld, Option.some.injEq] at hstep
      obtain rfl := hstep
      have hexact := readAnswer_exact hhex hdistinct (h.readers reader held hheld) hrows
      refine ⟨?_, ?_, ?_⟩
      · intro rows hfile
        dsimp only at hfile
        split at hfile
        · cases hsaved : (readAnswer b held batches).saved with
          | none =>
            rw [hsaved, Option.none_or] at hfile
            exact h.file rows hfile
          | some saved =>
            rw [hsaved, Option.some_or] at hfile
            obtain rfl := Option.some.inj hfile
            exact sound_saved hexact hrows hsaved
        · exact h.file rows hfile
      · intro other loaded hloaded
        by_cases hsame : other = reader
        · subst hsame
          dsimp only at hloaded
          rw [Function.update_self] at hloaded
          cases hloaded
        · dsimp only at hloaded
          rw [Function.update_of_ne hsame] at hloaded
          exact h.readers other loaded hloaded
      · intro outcome houtcome
        rcases List.mem_append.mp houtcome with hold | hnew
        · exact h.outcomes outcome hold
        · obtain rfl := List.mem_singleton.mp hnew
          exact hexact

end

/-- Rows that are strings; the digests are those of the texts `"a"` and `"b"`. -/
def letterBuiltins : Builtins String :=
  { stringify := Lib.JsonText.quote
    sha256 := fun text =>
      if text = "\"a\"" then "ac8d8342bbb2362d13f0a559a3621bb407011368895164b628a54f7fc33fc43c"
      else if text = "\"b\"" then "c100f95c1913f9c72fc1f4ef0847e1e723ffe0bde0b36e5f36c13f81fe8c26ed"
      else "e3b0c44298fc1c149afbf4c8996fb92427ae41e4649b934ca495991b7852b855" }

/-- Two readers load one cache; the first of them replaces it before the second gets its answer. -/
def racingReads : List (Event String) :=
  [.load 0 true, .answer 0 [⟨["a", "b", "a"], none, none⟩] true, .load 1 true, .load 2 true,
    .answer 1 [⟨["b"], none, none⟩] true, .answer 2 [⟨["a", "b"], none, none⟩] true]

theorem isHex_of_all {text : String} (h : (text.toList.length == 64 && text.toList.all fun c =>
    c.isDigit || (decide ('a' ≤ c) && decide (c ≤ 'f'))) = true) : IsHex text := by
  simpa [IsHex] using h

theorem letterBuiltins_isHex (text : String) : IsHex (letterBuiltins.sha256 text) := by
  simp only [letterBuiltins]
  split
  · exact isHex_of_all (by decide)
  · split
    · exact isHex_of_all (by decide)
    · exact isHex_of_all (by decide)

end Ccmux.Fleet.PeerDelta
