/- Module: Ccmux/Agent/Launch/SessionEnv
   source: src/agent/launch/sessionEnv.ts (readEnvFile, sessionEnvRecipe),
     src/agent/launch/launchInputs.ts (envFiles, envFilePath, expandHome)
   digest: The environment that a session's agent receives, from the inherited one, the env files of
     the directory and the declared env file. -/

import Mathlib
import Ccmux.Agent.Launch.EnvOrigins

namespace Ccmux.Agent.Launch.SessionEnv

open Ccmux.Agent.Launch.EnvFile
open Ccmux.Lib.Text

/-- The home directory, `resolve` of a path, and the texts of what every object has. -/
structure Builtins where
  home : Chars
  resolve : Chars → Chars → Chars
  protoText : Chars → Chars

structure Session where
  dir : Chars
  envFile : Option Chars
  deriving DecidableEq, Repr

/-- An environment as it is inherited: one entry for a name, which may be undefined. -/
structure Inherited where
  entries : Record (Option Chars)
  nodup : (names entries).Nodup

def Inherited.value (inherited : Inherited) (name : Chars) : Option Chars :=
  (valueOf inherited.entries name).join

structure SessionEnvRecipe where
  env : Record Chars
  refused : List Chars
  removed : List Chars
  deriving DecidableEq, Repr

def RESERVED_ENV_PREFIX : Chars := "CCMUX_".toList

def CHAT_CREDENTIAL_ENV : Chars := "CCMUX_CHAT_CREDENTIAL".toList

def isReservedEnvKey (key : Chars) : Bool :=
  RESERVED_ENV_PREFIX.isPrefixOf key || decide (key = CHAT_CREDENTIAL_ENV)

def expandHome (b : Builtins) (path : Chars) : Chars :=
  if path = ['~'] ∨ ['~', '/'].isPrefixOf path then b.home ++ path.drop 1 else path

def isAbsolute (path : Chars) : Bool := ['/'].isPrefixOf path

/-- Where the declared file of a session lives. -/
def envFilePath (b : Builtins) (s : Session) : Option Chars :=
  s.envFile.map fun file =>
    if isAbsolute (expandHome b file) then expandHome b file else b.resolve s.dir file

/-- The env files of a directory; the last two only with a mode that is set. -/
def envFiles (dir : Chars) (nodeEnv : Option Chars) : List Chars :=
  [dir ++ "/.env".toList, dir ++ "/.env.local".toList] ++
    match nodeEnv with
    | some mode =>
      if mode = [] then []
      else [dir ++ "/.env.".toList ++ mode, dir ++ "/.env.".toList ++ mode ++ ".local".toList]
    | none => []

/-- The entries of a file; none where it cannot be read. -/
def readEnvFile (b : Builtins) (files : Chars → Option Chars) (path : Chars)
    (base : Record Chars) : Record Chars :=
  match files path with
  | some text => parseEnvFile b.protoText text base
  | none => []

/-- An entry is copied unless it is undefined. -/
def copyEntry (env : Record Chars) (entry : Chars × Option Chars) : Record Chars :=
  match entry.2 with
  | some value => assign env entry.1 value
  | none => env

def copied (entries : Record (Option Chars)) : Record Chars := entries.foldl copyEntry []

/-- A name of an undeclared file is dropped, unless the declared file has it too. -/
def dropKey (declared : Record Chars) (state : Record Chars × List Chars) (key : Chars) :
    Record Chars × List Chars :=
  if has state.1 key && !has declared key then (remove state.1 key, state.2 ++ [key]) else state

def dropFile (b : Builtins) (files : Chars → Option Chars) (declared : Record Chars)
    (state : Record Chars × List Chars) (path : Chars) : Record Chars × List Chars :=
  (names (readEnvFile b files path state.1)).foldl (dropKey declared) state

/-- A declared name is refused where ccmux controls it, and applied otherwise. -/
def applyEntry (state : Record Chars × List Chars) (entry : Chars × Chars) :
    Record Chars × List Chars :=
  if isReservedEnvKey entry.1 then (state.1, state.2 ++ [entry.1])
  else (assign state.1 entry.1 entry.2, state.2)

def declaredEntries (b : Builtins) (files : Chars → Option Chars) (s : Session)
    (env : Record Chars) : Record Chars :=
  match envFilePath b s with
  | some path => readEnvFile b files path env
  | none => []

/-- The environment that a session's agent should receive. -/
def sessionEnvRecipe (b : Builtins) (files : Chars → Option Chars) (s : Session)
    (inherited : Inherited) (nodeEnv : Option Chars) : SessionEnvRecipe :=
  let env := copied inherited.entries
  let declared := declaredEntries b files s env
  let paths := (envFiles s.dir nodeEnv).filter fun path => some path ≠ envFilePath b s
  let (env, removed) := paths.foldl (dropFile b files declared) (env, [])
  let (env, refused) := declared.foldl applyEntry (env, [])
  { env
    refused := refused.insertionSort (· ≤ ·)
    removed := removed.eraseDups.insertionSort (· ≤ ·) }

/-! ### What the loops leave -/

variable {name path : Chars}

theorem not_proto_of_not_has {record : Record Chars} (h : has record name = false) :
    name ∉ names record ∧ name ∉ protoNames := by
  simpa [has] using h

theorem protoKey_mem : protoKey ∈ protoNames := by decide

/-- What dropping some names leaves, and what it notes down. -/
theorem foldl_dropKey (declared : Record Chars) (keys : List Chars)
    (state : Record Chars × List Chars) (name : Chars) :
    (name ∈ keys ∧ has declared name = false →
        valueOf (keys.foldl (dropKey declared) state).1 name = none) ∧
      (¬ (name ∈ keys ∧ has declared name = false) →
        valueOf (keys.foldl (dropKey declared) state).1 name = valueOf state.1 name) ∧
      (name ∈ (keys.foldl (dropKey declared) state).2 ↔ name ∈ state.2 ∨
        name ∈ keys ∧ has declared name = false ∧ valueOf state.1 name ≠ none) := by
  induction keys generalizing state with
  | nil => simp
  | cons key rest ih =>
    obtain ⟨hgone, hkept, hmem⟩ := ih (dropKey declared state key)
    rw [List.foldl_cons, hmem]
    by_cases hdrop : (has state.1 key && !has declared key) = true
    · have hparts : has state.1 key = true ∧ has declared key = false := by simpa using hdrop
      have hown : valueOf state.1 key ≠ none := by
        intro hnone
        have habsent := valueOf_eq_none_iff.mp hnone
        have hproto := (not_proto_of_not_has hparts.2).2
        simp [has, habsent, hproto] at hparts
      have hnext : ∀ other, valueOf (dropKey declared state key).1 other =
          if other = key then none else valueOf state.1 other := by
        intro other
        rw [dropKey, if_pos hdrop, valueOf_remove]
      have hnoted : (dropKey declared state key).2 = state.2 ++ [key] := by rw [dropKey, if_pos hdrop]
      rw [hnext] at hkept
      rw [hnext, hnoted]
      by_cases hname : name = key
      · subst hname
        simp only [if_true] at hkept ⊢
        refine ⟨fun _ => ?_, fun hnot => absurd ⟨List.mem_cons_self, hparts.2⟩ hnot, ?_⟩
        · by_cases hrest : name ∈ rest ∧ has declared name = false
          · exact hgone hrest
          · exact hkept hrest
        · simp [hparts.2, hown]
      · simp only [if_neg hname] at hkept ⊢
        simp only [List.mem_cons, List.mem_append, hname, false_or, or_false, List.not_mem_nil]
        exact ⟨hgone, hkept, trivial⟩
    · have hsame : dropKey declared state key = state := by rw [dropKey, if_neg hdrop]
      rw [hsame] at hgone hkept ⊢
      by_cases hname : name = key
      · subst hname
        cases hdeclared : has declared name with
        | true => simpa [hdeclared] using hkept
        | false =>
          have habsent : has state.1 name = false := by simpa [hdeclared] using hdrop
          have hnone := valueOf_eq_none_iff.mpr (not_proto_of_not_has habsent).1
          rw [hnone] at hkept ⊢
          refine ⟨fun _ => ?_, fun hnot => absurd ⟨List.mem_cons_self, rfl⟩ hnot, by simp⟩
          by_cases hrest : name ∈ rest ∧ has declared name = false
          · exact hgone hrest
          · exact hkept hrest
      · simp only [List.mem_cons, hname, false_or]
        exact ⟨hgone, hkept, trivial⟩

def NamedIn (b : Builtins) (files : Chars → Option Chars) (path name : Chars) : Prop :=
  ∃ text, files path = some text ∧ name ∈ names (parseEnvFile b.protoText text [])

theorem mem_readEnvFile {b : Builtins} {files : Chars → Option Chars} {base : Record Chars} :
    name ∈ names (readEnvFile b files path base) ↔
      NamedIn b files path name := by
  unfold readEnvFile NamedIn
  cases files path with
  | none => simp [names]
  | some text =>
    simp only [Option.some.injEq, exists_eq_left']
    rw [parseEnvFile, parseEnvFile, names_parseFrom, names_parseFrom]

theorem foldl_dropFile (b : Builtins) (files : Chars → Option Chars) (declared : Record Chars)
    (paths : List Chars) (state : Record Chars × List Chars) (name : Chars) :
    ((∃ path ∈ paths, NamedIn b files path name) ∧ has declared name = false →
        valueOf (paths.foldl (dropFile b files declared) state).1 name = none) ∧
      (¬ ((∃ path ∈ paths, NamedIn b files path name) ∧ has declared name = false) →
        valueOf (paths.foldl (dropFile b files declared) state).1 name = valueOf state.1 name) ∧
      (name ∈ (paths.foldl (dropFile b files declared) state).2 ↔ name ∈ state.2 ∨
        (∃ path ∈ paths, NamedIn b files path name) ∧ has declared name = false ∧
          valueOf state.1 name ≠ none) := by
  induction paths generalizing state with
  | nil => simp
  | cons path rest ih =>
    obtain ⟨hgone, hkept, hmem⟩ := ih (dropFile b files declared state path)
    obtain ⟨hfilegone, hfilekept, hfilemem⟩ :=
      foldl_dropKey declared (names (readEnvFile b files path state.1)) state name
    rw [mem_readEnvFile] at hfilegone hfilekept hfilemem
    rw [List.foldl_cons, hmem]
    rw [← dropFile] at hfilegone hfilekept hfilemem
    rw [hfilemem]
    by_cases hdeclared : has declared name = false
    · by_cases hhere : NamedIn b files path name
      · have hnone := hfilegone ⟨hhere, hdeclared⟩
        rw [hnone] at hkept ⊢
        refine ⟨fun _ => ?_, fun hnot => ?_, ?_⟩
        · by_cases hrest : (∃ path ∈ rest, NamedIn b files path name) ∧ has declared name = false
          · exact hgone hrest
          · exact hkept hrest
        · exact absurd ⟨⟨path, List.mem_cons_self, hhere⟩, hdeclared⟩ hnot
        · simp [hhere, hdeclared]
      · have hsame := hfilekept fun h => hhere h.1
        rw [hsame] at hkept ⊢
        simp only [List.mem_cons, exists_eq_or_imp, hhere, false_or, false_and, or_false]
        exact ⟨hgone, hkept, trivial⟩
    · have hsame := hfilekept fun h => hdeclared h.2
      rw [hsame] at hkept ⊢
      refine ⟨fun h => absurd h.2 hdeclared, fun _ => hkept fun h => hdeclared h.2, ?_⟩
      simp [hdeclared]

/-- What the declared entries leave of the names that they set, and of those that they do not. -/
theorem foldl_applyEntry {declared : Record Chars} (hnodup : (names declared).Nodup)
    (hproto : protoKey ∉ names declared) (state : Record Chars × List Chars) (name : Chars) :
    valueOf (declared.foldl applyEntry state).1 name =
      if isReservedEnvKey name = false ∧ name ∈ names declared then valueOf declared name
      else valueOf state.1 name := by
  induction declared generalizing state with
  | nil => simp [names]
  | cons entry rest ih =>
    obtain ⟨key, value⟩ := entry
    have hparts : key ∉ names rest ∧ (names rest).Nodup := List.nodup_cons.mp hnodup
    have hkey : key ≠ protoKey := fun heq => hproto (heq ▸ List.mem_cons_self)
    rw [List.foldl_cons, ih hparts.2 fun h => hproto (List.mem_cons_of_mem _ h)]
    have hnames : name ∈ names ((key, value) :: rest) ↔ name = key ∨ name ∈ names rest :=
      List.mem_cons
    by_cases hname : name = key
    · subst hname
      cases hreserved : isReservedEnvKey name with
      | true => simp [applyEntry, hreserved]
      | false => simp [applyEntry, hreserved, hparts.1, hnames, valueOf_assign hkey]
    · have hstate : valueOf (applyEntry state (key, value)).1 name = valueOf state.1 name := by
        unfold applyEntry
        split
        · rfl
        · rw [valueOf_assign hkey, if_neg hname]
      rw [hstate, valueOf_cons_ne hname]
      simp [hnames, hname]

theorem valueOf_copied (inherited : Inherited) {name : Chars} (hname : name ≠ protoKey) :
    valueOf (copied inherited.entries) name = inherited.value name := by
  have hloop : ∀ (entries : Record (Option Chars)) (env : Record Chars), (names entries).Nodup →
      valueOf (entries.foldl copyEntry env) name =
        ((valueOf entries name).join).or (valueOf env name) := by
    intro entries
    induction entries with
    | nil => simp [valueOf]
    | cons entry rest ih =>
      intro env hnodup
      obtain ⟨key, value⟩ := entry
      have hparts : key ∉ names rest ∧ (names rest).Nodup := List.nodup_cons.mp hnodup
      rw [List.foldl_cons, ih _ hparts.2]
      by_cases hkey : name = key
      · subst hkey
        have hrest : valueOf rest name = none := valueOf_eq_none_iff.mpr hparts.1
        rw [hrest, valueOf_cons_self]
        cases value with
        | none => simp [copyEntry]
        | some value => simp [copyEntry, valueOf_assign hname]
      · rw [valueOf_cons_ne hkey]
        congr 1
        cases value with
        | none => rfl
        | some value =>
          by_cases hproto : key = protoKey
          · subst hproto
            simp [copyEntry, assign_protoKey]
          · simp only [copyEntry]
            rw [valueOf_assign hproto, if_neg hkey]
  have hstart := hloop inherited.entries [] inherited.nodup
  rw [copied, hstart]
  simp [Inherited.value, valueOf]

/-! ### The laws of the recipe -/

section
variable (b : Builtins) (files : Chars → Option Chars) (s : Session) (nodeEnv : Option Chars)

/-- A file of the directory that the session has not declared assigns the name. -/
def InDirectory (name : Chars) : Prop :=
  ∃ path ∈ envFiles s.dir nodeEnv, some path ≠ envFilePath b s ∧ NamedIn b files path name

def Declared (name : Chars) : Prop :=
  ∃ path, envFilePath b s = some path ∧ NamedIn b files path name

/-- Another inherited environment with the same names, in which only removed ones differ. -/
def DiffersInRemoved (inherited other : Inherited) : Prop :=
  ∀ name, ((inherited.value name).isSome = (other.value name).isSome) ∧
    (name ∉ (sessionEnvRecipe b files s inherited nodeEnv).removed →
      inherited.value name = other.value name)

structure RecipeLaws (inherited : Inherited) : Prop where
  /-- No file sets or removes a name that ccmux controls. -/
  reserved : ∀ name, isReservedEnvKey name = true →
    valueOf (sessionEnvRecipe b files s inherited nodeEnv).env name = inherited.value name
  /-- What only an undeclared file of the directory has does not reach the agent. -/
  undeclared : ∀ name, isReservedEnvKey name = false → InDirectory b files s nodeEnv name →
    ¬ Declared b files s name →
    valueOf (sessionEnvRecipe b files s inherited nodeEnv).env name = none
  /-- The declared file wins. -/
  declared : ∀ name, isReservedEnvKey name = false → Declared b files s name →
    valueOf (sessionEnvRecipe b files s inherited nodeEnv).env name =
      valueOf (declaredEntries b files s (copied inherited.entries)) name
  /-- The inherited values of the removed names leave no trace. -/
  independent : ∀ other, DiffersInRemoved b files s nodeEnv inherited other →
    ∀ name, valueOf (sessionEnvRecipe b files s inherited nodeEnv).env name =
      valueOf (sessionEnvRecipe b files s other nodeEnv).env name

/-- The values that stay of the declared file are made from no name that only an undeclared file of
the directory has; and no such name that is inherited is controlled by ccmux, or one that every
object has. -/
structure FilesApart (inherited : Inherited) : Prop where
  names_plain : ∀ name, InDirectory b files s nodeEnv name → ¬ Declared b files s name →
    (inherited.value name).isSome = true → isReservedEnvKey name = false ∧ name ∉ protoNames
  values_plain : ∀ path text, envFilePath b s = some path → files path = some text →
    ∀ name uses, isReservedEnvKey name = false → valueOf (origins text) name = some uses →
      ∀ origin ∈ uses, InDirectory b files s nodeEnv origin → ¬ Declared b files s origin →
        (inherited.value origin).isSome = false

end

variable {b : Builtins} {files : Chars → Option Chars} {s : Session} {nodeEnv : Option Chars}

theorem mem_declaredEntries {env : Record Chars} {name : Chars} :
    name ∈ names (declaredEntries b files s env) ↔ Declared b files s name := by
  unfold declaredEntries Declared
  cases envFilePath b s with
  | none => simp [names]
  | some path =>
    simp only [Option.some.injEq, exists_eq_left']
    exact mem_readEnvFile

theorem namedIn_ne_proto (h : NamedIn b files path name) : name ≠ protoKey := by
  obtain ⟨text, _, hname⟩ := h
  rw [parseEnvFile, names_parseFrom] at hname
  rcases hname with hnone | ⟨_, hne⟩
  · simp [names] at hnone
  · exact hne

theorem nodup_declaredEntries (env : Record Chars) :
    (names (declaredEntries b files s env)).Nodup := by
  unfold declaredEntries readEnvFile
  split
  · split
    · exact nodup_parseEnvFile _ _ _
    · exact List.nodup_nil
  · exact List.nodup_nil

theorem has_declaredEntries {env : Record Chars} :
    has (declaredEntries b files s env) name = false ↔
      ¬ Declared b files s name ∧ name ∉ protoNames := by
  simp only [has, Bool.or_eq_false_iff, decide_eq_false_iff_not, mem_declaredEntries]

theorem exists_path_iff :
    (∃ path ∈ (envFiles s.dir nodeEnv).filter fun path => some path ≠ envFilePath b s,
      NamedIn b files path name) ↔ InDirectory b files s nodeEnv name := by
  simp only [List.mem_filter, decide_eq_true_eq, InDirectory, ne_eq, and_assoc]

/-- What the recipe has for a name that the declared file sets, for one that it drops, and for
another one. -/
theorem valueOf_recipe (inherited : Inherited) {name : Chars} (hname : name ≠ protoKey) :
    (isReservedEnvKey name = false ∧ Declared b files s name →
        valueOf (sessionEnvRecipe b files s inherited nodeEnv).env name =
          valueOf (declaredEntries b files s (copied inherited.entries)) name) ∧
      (InDirectory b files s nodeEnv name ∧ ¬ Declared b files s name ∧ name ∉ protoNames →
        valueOf (sessionEnvRecipe b files s inherited nodeEnv).env name = none) ∧
      (¬ (isReservedEnvKey name = false ∧ Declared b files s name) →
        ¬ (InDirectory b files s nodeEnv name ∧ ¬ Declared b files s name ∧ name ∉ protoNames) →
        valueOf (sessionEnvRecipe b files s inherited nodeEnv).env name = inherited.value name) := by
  have hproto : protoKey ∉ names (declaredEntries b files s (copied inherited.entries)) := by
    rw [mem_declaredEntries]
    rintro ⟨path, _, hnamed⟩
    exact namedIn_ne_proto hnamed rfl
  obtain ⟨hgone, hkept, _⟩ := foldl_dropFile b files
    (declaredEntries b files s (copied inherited.entries))
    ((envFiles s.dir nodeEnv).filter fun path => some path ≠ envFilePath b s)
    (copied inherited.entries, []) name
  rw [exists_path_iff, has_declaredEntries] at hgone hkept
  simp only [valueOf_copied inherited hname] at hkept
  simp only [sessionEnvRecipe]
  rw [foldl_applyEntry (nodup_declaredEntries _) hproto]
  have hmem := @mem_declaredEntries b files s (copied inherited.entries) name
  refine ⟨fun h => if_pos ⟨h.1, hmem.mpr h.2⟩, fun h => ?_, fun hdeclared hdropped => ?_⟩
  · rw [if_neg fun hset => h.2.1 (hmem.mp hset.2)]
    exact hgone h
  · rw [if_neg fun hset => hdeclared ⟨hset.1, hmem.mp hset.2⟩]
    exact hkept hdropped

theorem valueOf_copied_proto (inherited : Inherited) :
    valueOf (copied inherited.entries) protoKey = none := by
  have hloop : ∀ (entries : Record (Option Chars)) (env : Record Chars),
      valueOf env protoKey = none →
      valueOf (entries.foldl copyEntry env) protoKey = none := by
    intro entries
    induction entries with
    | nil => exact fun _ h => h
    | cons entry rest ih =>
      intro env h
      refine ih _ ?_
      unfold copyEntry
      cases entry.2 with
      | none => exact h
      | some value =>
        by_cases hkey : entry.1 = protoKey
        · simp only [hkey, assign_protoKey]
          exact h
        · simp only [valueOf_assign hkey, if_neg fun heq : protoKey = entry.1 => hkey heq.symm]
          exact h
  exact hloop _ [] rfl

theorem valueOf_recipe_proto (inherited : Inherited) :
    valueOf (sessionEnvRecipe b files s inherited nodeEnv).env protoKey = none := by
  have hproto : protoKey ∉ names (declaredEntries b files s (copied inherited.entries)) := by
    rw [mem_declaredEntries]
    rintro ⟨path, _, hnamed⟩
    exact namedIn_ne_proto hnamed rfl
  obtain ⟨_, hkept, _⟩ := foldl_dropFile b files
    (declaredEntries b files s (copied inherited.entries))
    ((envFiles s.dir nodeEnv).filter fun path => some path ≠ envFilePath b s)
    (copied inherited.entries, []) protoKey
  rw [has_declaredEntries] at hkept
  simp only [sessionEnvRecipe]
  rw [foldl_applyEntry (nodup_declaredEntries _) hproto, if_neg fun h => hproto h.2,
    hkept fun h => h.2.2 protoKey_mem]
  exact valueOf_copied_proto inherited

theorem mem_removed (inherited : Inherited) (name : Chars) :
    name ∈ (sessionEnvRecipe b files s inherited nodeEnv).removed ↔
      InDirectory b files s nodeEnv name ∧ ¬ Declared b files s name ∧ name ∉ protoNames ∧
        (inherited.value name).isSome = true := by
  obtain ⟨_, _, hmem⟩ := foldl_dropFile b files
    (declaredEntries b files s (copied inherited.entries))
    ((envFiles s.dir nodeEnv).filter fun path => some path ≠ envFilePath b s)
    (copied inherited.entries, []) name
  rw [exists_path_iff, has_declaredEntries] at hmem
  simp only [sessionEnvRecipe]
  rw [(List.perm_insertionSort _ _).mem_iff, List.mem_eraseDups, hmem, Option.isSome_iff_ne_none]
  by_cases hname : name = protoKey
  · subst hname
    simp [protoKey_mem]
  · simp [valueOf_copied inherited hname, and_assoc]

/-! ### When the laws hold -/

theorem proto_not_reserved (h : name ∈ protoNames) : isReservedEnvKey name = false := by
  revert name
  decide

/-- The same environment with one value made longer. -/
def Inherited.longer (inherited : Inherited) (name : Chars) : Inherited where
  entries := inherited.entries.map fun entry =>
    if entry.1 = name then (name, entry.2.map (· ++ ['x'])) else entry
  nodup := by
    have hsame : names (inherited.entries.map fun entry =>
        if entry.1 = name then (name, entry.2.map (· ++ ['x'])) else entry) =
        names inherited.entries := by
      simp only [names, List.map_map]
      refine List.map_congr_left fun entry _ => ?_
      simp only [Function.comp_apply]
      split
      · rename_i heq
        exact heq.symm
      · rfl
    rw [hsame]
    exact inherited.nodup

theorem Inherited.value_longer (inherited : Inherited) (name other : Chars) :
    (inherited.longer name).value other =
      if other = name then (inherited.value name).map (· ++ ['x']) else inherited.value other := by
  have hloop : ∀ entries : Record (Option Chars),
      (valueOf (entries.map fun entry =>
          if entry.1 = name then (name, entry.2.map (· ++ ['x'])) else entry) other).join =
        if other = name then ((valueOf entries name).join).map (· ++ ['x'])
        else (valueOf entries other).join := by
    intro entries
    induction entries with
    | nil => simp [valueOf]
    | cons entry rest ih =>
      obtain ⟨key, value⟩ := entry
      rw [List.map_cons]
      by_cases hkey : key = name
      · subst hkey
        rw [if_pos rfl]
        by_cases hother : other = key
        · subst hother
          simp
        · rw [valueOf_cons_ne hother, ih, if_neg hother, if_neg hother, valueOf_cons_ne hother]
      · rw [if_neg hkey]
        by_cases hother : other = key
        · subst hother
          rw [valueOf_cons_self, if_neg hkey, valueOf_cons_self]
        · rw [valueOf_cons_ne hother, ih, valueOf_cons_ne hother,
            valueOf_cons_ne fun heq => hkey heq.symm]
  exact hloop inherited.entries

variable {inherited : Inherited} {text : Chars}

theorem scopeOf_copied {protoText : Chars → Chars} {other : Inherited}
    (h : inherited.value name = other.value name) :
    scopeOf protoText (copied inherited.entries) [] name =
      scopeOf protoText (copied other.entries) [] name := by
  have hsame : valueOf (copied inherited.entries) name = valueOf (copied other.entries) name := by
    by_cases hname : name = protoKey
    · rw [hname, valueOf_copied_proto, valueOf_copied_proto]
    · rw [valueOf_copied inherited hname, valueOf_copied other hname, h]
  simp only [scopeOf, hsame]

theorem parse_same (protoText : Chars → Chars) (text : Chars) {inherited other : Inherited}
    {name : Chars} (h : ∀ uses, valueOf (origins text) name = some uses →
      ∀ origin ∈ uses, inherited.value origin = other.value origin) :
    valueOf (parseEnvFile protoText text (copied inherited.entries)) name =
      valueOf (parseEnvFile protoText text (copied other.entries)) name := by
  let P : Chars → Chars → List Chars → Prop := fun v w uses =>
    (∀ origin ∈ uses, inherited.value origin = other.value origin) → v = w
  have hjoins : Joins P := by
    refine ⟨fun _ => rfl, fun _ _ => rfl, ?_⟩
    intro v w o v' w' o' hfirst hsecond hall
    rw [hfirst fun origin horigin => hall origin (List.mem_append_left o' horigin),
      hsecond fun origin horigin => hall origin (List.mem_append_right o horigin)]
  have hbase : ∀ name, P (scopeOf protoText (copied inherited.entries) [] name)
      (scopeOf protoText (copied other.entries) [] name) [name] := fun name hall =>
    scopeOf_copied (hall name (List.mem_singleton_self name))
  rcases parseEnvFile_related hjoins hbase text name with
    ⟨hv, hw, _⟩ | ⟨v, w, uses, hv, hw, huses, hP⟩
  · rw [hv, hw]
  · rw [hv, hw, hP (h uses huses)]

/-- A value grows with each use of a name whose value grows. -/
theorem parse_longer (protoText : Chars → Chars) (text : Chars) {inherited : Inherited}
    {origin : Chars} (hproto : origin ≠ protoKey) (hsome : (inherited.value origin).isSome = true)
    {name : Chars} {uses : List Chars} (huses : valueOf (origins text) name = some uses) :
    ∃ v w, valueOf (parseEnvFile protoText text (copied inherited.entries)) name = some v ∧
      valueOf (parseEnvFile protoText text (copied (inherited.longer origin).entries)) name =
        some w ∧ w.length = v.length + uses.count origin := by
  let P : Chars → Chars → List Chars → Prop := fun v w uses =>
    w.length = v.length + uses.count origin
  have hjoins : Joins P := by
    refine ⟨rfl, fun _ => rfl, ?_⟩
    intro v w o v' w' o' hfirst hsecond
    simp only [P, List.length_append, List.count_append] at hfirst hsecond ⊢
    omega
  have hbase : ∀ name, P (scopeOf protoText (copied inherited.entries) [] name)
      (scopeOf protoText (copied (inherited.longer origin).entries) [] name) [name] := by
    intro name
    by_cases hname : name = origin
    · subst hname
      obtain ⟨value, hvalue⟩ := Option.isSome_iff_exists.mp hsome
      have hlonger := inherited.value_longer name name
      rw [if_pos rfl, hvalue] at hlonger
      have hempty : valueOf ([] : Record Chars) name = none := rfl
      simp [P, scopeOf, hempty, valueOf_copied _ hproto, hvalue, hlonger]
    · have hsame := inherited.value_longer origin name
      rw [if_neg hname] at hsame
      have hne : origin ∉ [name] := by simpa using fun heq : origin = name => hname heq.symm
      simp only [P, List.count_eq_zero_of_not_mem hne, Nat.add_zero]
      rw [scopeOf_copied hsame.symm]
  rcases parseEnvFile_related hjoins hbase text name with
    ⟨_, _, hnone⟩ | ⟨v, w, found, hv, hw, hfound, hP⟩
  · rw [huses] at hnone
    cases hnone
  · obtain rfl := Option.some.inj (huses.symm.trans hfound)
    exact ⟨v, w, hv, hw, hP⟩

theorem declared_of_origins {uses : List Chars} (hpath : envFilePath b s = some path)
    (htext : files path = some text)
    (huses : valueOf (origins text) name = some uses) : Declared b files s name := by
  refine ⟨path, hpath, text, htext, ?_⟩
  have hjoins : Joins fun _ _ _ => True := ⟨trivial, fun _ => trivial, fun _ _ _ _ _ _ _ _ => trivial⟩
  by_contra hnot
  rcases @parseEnvFile_related _ hjoins b.protoText [] [] (fun _ => trivial) text name with
    ⟨_, _, hnone⟩ | ⟨v, w, found, hv, _⟩
  · rw [huses] at hnone
    cases hnone
  · rw [valueOf_eq_none_iff.mpr hnot] at hv
    cases hv

theorem declaredEntries_eq (hpath : envFilePath b s = some path)
    (htext : files path = some text) (env : Record Chars) :
    declaredEntries b files s env = parseEnvFile b.protoText text env := by
  simp only [declaredEntries, hpath, readEnvFile, htext]

/-- A removed name that a value uses shows in the value. -/
theorem used_value_differs (hlaw : ∀ other, DiffersInRemoved b files s nodeEnv inherited other →
      ∀ name, valueOf (sessionEnvRecipe b files s inherited nodeEnv).env name =
        valueOf (sessionEnvRecipe b files s other nodeEnv).env name)
    {path text name origin : Chars} {uses : List Chars} (hpath : envFilePath b s = some path)
    (htext : files path = some text) (hreserved : isReservedEnvKey name = false)
    (huses : valueOf (origins text) name = some uses) (horigin : origin ∈ uses) :
    origin ∉ (sessionEnvRecipe b files s inherited nodeEnv).removed := by
  intro hremoved
  obtain ⟨hdirectory, _, hplain, hsome⟩ := (mem_removed inherited origin).mp hremoved
  have horiginproto : origin ≠ protoKey := fun heq => hplain (heq ▸ protoKey_mem)
  have hdeclared := declared_of_origins hpath htext huses
  have hname : name ≠ protoKey := by
    obtain ⟨_, _, hnamed⟩ := hdeclared
    exact namedIn_ne_proto hnamed
  have hdiffers : DiffersInRemoved b files s nodeEnv inherited (inherited.longer origin) := by
    intro other
    rw [inherited.value_longer origin other]
    split
    · rename_i heq
      subst heq
      exact ⟨by simp, fun hnot => absurd hremoved hnot⟩
    · exact ⟨rfl, fun _ => rfl⟩
  have hsame := hlaw _ hdiffers name
  rw [(valueOf_recipe inherited hname).1 ⟨hreserved, hdeclared⟩,
    (valueOf_recipe (inherited.longer origin) hname).1 ⟨hreserved, hdeclared⟩,
    declaredEntries_eq hpath htext, declaredEntries_eq hpath htext] at hsame
  obtain ⟨v, w, hv, hw, hlength⟩ := parse_longer b.protoText text horiginproto hsome huses
  rw [hv, hw] at hsame
  obtain rfl := Option.some.inj hsame
  have hcount : 0 < uses.count origin := List.count_pos_iff.mpr horigin
  omega

/-- The recipe keeps its laws exactly where the files stay apart. -/
theorem recipe_laws_iff (b : Builtins) (files : Chars → Option Chars) (s : Session)
    (nodeEnv : Option Chars) (inherited : Inherited) :
    RecipeLaws b files s nodeEnv inherited ↔ FilesApart b files s nodeEnv inherited := by
  constructor
  · intro h
    have hplain : ∀ name, InDirectory b files s nodeEnv name → ¬ Declared b files s name →
        (inherited.value name).isSome = true →
        isReservedEnvKey name = false ∧ name ∉ protoNames := by
      intro name hdirectory hdeclared hsome
      have hname : name ≠ protoKey := by
        obtain ⟨_, _, _, hnamed⟩ := hdirectory
        exact namedIn_ne_proto hnamed
      obtain ⟨_, hgone, hkept⟩ := @valueOf_recipe b files s nodeEnv inherited name hname
      cases hreserved : isReservedEnvKey name with
      | true =>
        have hnone := hgone ⟨hdirectory, hdeclared, fun hproto => by
          rw [proto_not_reserved hproto] at hreserved
          cases hreserved⟩
        rw [h.reserved name hreserved] at hnone
        rw [hnone] at hsome
        cases hsome
      | false =>
        refine ⟨rfl, fun hproto => ?_⟩
        have hvalue := hkept (fun hset => hdeclared hset.2) fun hdropped => hdropped.2.2 hproto
        rw [h.undeclared name hreserved hdirectory hdeclared] at hvalue
        rw [← hvalue] at hsome
        cases hsome
    refine ⟨hplain, ?_⟩
    intro path text hpath htext name uses hreserved huses origin horigin hdirectory hdeclared
    by_contra hsome
    have hset : (inherited.value origin).isSome = true := eq_true_of_ne_false hsome
    exact used_value_differs h.independent hpath htext hreserved huses horigin
      ((mem_removed inherited origin).mpr
        ⟨hdirectory, hdeclared, (hplain origin hdirectory hdeclared hset).2, hset⟩)
  · intro h
    refine ⟨?_, ?_, ?_, ?_⟩
    · intro name hreserved
      have hplain : name ∉ protoNames := fun hproto => by
        rw [proto_not_reserved hproto] at hreserved
        cases hreserved
      have hname : name ≠ protoKey := fun heq => hplain (heq ▸ protoKey_mem)
      obtain ⟨_, hgone, hkept⟩ := @valueOf_recipe b files s nodeEnv inherited name hname
      by_cases hdropped : InDirectory b files s nodeEnv name ∧ ¬ Declared b files s name ∧
          name ∉ protoNames
      · rw [hgone hdropped]
        cases hvalue : inherited.value name with
        | none => rfl
        | some value =>
          have hfalse := (h.names_plain name hdropped.1 hdropped.2.1 (by rw [hvalue]; rfl)).1
          rw [hreserved] at hfalse
          cases hfalse
      · refine hkept (fun hset => ?_) hdropped
        rw [hreserved] at hset
        cases hset.1
    · intro name hreserved hdirectory hdeclared
      have hname : name ≠ protoKey := by
        obtain ⟨_, _, _, hnamed⟩ := hdirectory
        exact namedIn_ne_proto hnamed
      obtain ⟨_, hgone, hkept⟩ := @valueOf_recipe b files s nodeEnv inherited name hname
      by_cases hproto : name ∈ protoNames
      · rw [hkept (fun hset => hdeclared hset.2) fun hdropped => hdropped.2.2 hproto]
        cases hvalue : inherited.value name with
        | none => rfl
        | some value =>
          exact absurd hproto
            (h.names_plain name hdirectory hdeclared (by rw [hvalue]; rfl)).2
      · exact hgone ⟨hdirectory, hdeclared, hproto⟩
    · intro name hreserved hdeclared
      have hname : name ≠ protoKey := by
        obtain ⟨_, _, hnamed⟩ := hdeclared
        exact namedIn_ne_proto hnamed
      exact (valueOf_recipe inherited hname).1 ⟨hreserved, hdeclared⟩
    · intro other hdiffers name
      by_cases hname : name = protoKey
      · rw [hname, valueOf_recipe_proto, valueOf_recipe_proto]
      obtain ⟨hset, hgone, hkept⟩ := @valueOf_recipe b files s nodeEnv inherited name hname
      obtain ⟨hset', hgone', hkept'⟩ := @valueOf_recipe b files s nodeEnv other name hname
      by_cases hdeclared : isReservedEnvKey name = false ∧ Declared b files s name
      · rw [hset hdeclared, hset' hdeclared]
        obtain ⟨path, hpath, text, htext, hnamed⟩ := hdeclared.2
        rw [declaredEntries_eq hpath htext, declaredEntries_eq hpath htext]
        refine parse_same b.protoText text fun uses huses origin horigin => ?_
        refine (hdiffers origin).2 fun hremoved => ?_
        obtain ⟨hdirectory, hundeclared, _, hsome⟩ := (mem_removed inherited origin).mp hremoved
        have hnone := h.values_plain path text hpath htext name uses hdeclared.1 huses origin
          horigin hdirectory hundeclared
        rw [hsome] at hnone
        cases hnone
      · by_cases hdropped : InDirectory b files s nodeEnv name ∧ ¬ Declared b files s name ∧
            name ∉ protoNames
        · rw [hgone hdropped, hgone' hdropped]
        · rw [hkept hdeclared hdropped, hkept' hdeclared hdropped]
          refine (hdiffers name).2 fun hremoved => hdropped ?_
          obtain ⟨hdirectory, hundeclared, hproto, _⟩ := (mem_removed inherited name).mp hremoved
          exact ⟨hdirectory, hundeclared, hproto⟩

/-- A home, a plain join of paths, and objects that have nothing of their own. -/
def plainBuiltins : Builtins :=
  { home := "/h".toList
    resolve := fun dir path => dir ++ '/' :: path
    protoText := fun _ => [] }

/-- A directory with one env file, and the file `d.env` that may be declared. -/
def twoFiles (directory declared : String) (path : Chars) : Option Chars :=
  if path = "/p/.env".toList then some directory.toList
  else if path = "/p/d.env".toList then some declared.toList
  else none

def oneEntry (name value : String) : Inherited :=
  { entries := [(name.toList, some value.toList)]
    nodup := by simp [names] }

/-- An env file of the directory takes ccmux's own state directory away, and a declared value keeps
the inherited value of a removed name. -/
theorem files_reach_further :
    ¬ RecipeLaws plainBuiltins (twoFiles "CCMUX_STATE_DIR=/x" "") ⟨"/p".toList, none⟩ none
        (oneEntry "CCMUX_STATE_DIR" "/state") ∧
      ¬ RecipeLaws plainBuiltins (twoFiles "SECRET=s" "URL=$SECRET")
        ⟨"/p".toList, some "/p/d.env".toList⟩ none (oneEntry "SECRET" "s") := by
  constructor
  · intro h
    have hkept := h.reserved "CCMUX_STATE_DIR".toList (by decide)
    revert hkept
    decide
  · intro h
    have hdiffers : DiffersInRemoved plainBuiltins (twoFiles "SECRET=s" "URL=$SECRET")
        ⟨"/p".toList, some "/p/d.env".toList⟩ none (oneEntry "SECRET" "s")
        (oneEntry "SECRET" "t") := by
      intro name
      by_cases hname : name = "SECRET".toList
      · subst hname
        exact ⟨rfl, fun hkept => absurd (by decide) hkept⟩
      · have hnone : ∀ value, (oneEntry "SECRET" value).value name = none := by
          intro value
          rw [Inherited.value, oneEntry, valueOf_cons_ne hname]
          rfl
        rw [hnone, hnone]
        exact ⟨rfl, fun _ => rfl⟩
    have hsame := h.independent _ hdiffers "URL".toList
    revert hsame
    decide

end Ccmux.Agent.Launch.SessionEnv
