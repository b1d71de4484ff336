/- Module: Ccmux/Agent/Launch/RuleSet
   source: src/agent/launch/launchInputs.ts (ruleSetFiles, fileSetDigest, fileDigest, envInput),
     src/agent/claude/launch.ts, src/agent/codex/launch.ts (launchInputs),
     src/agent/launch/launchStamp.ts (digestMap, staleReasons)
   digest: The files a rule set pulls in, the digest over them, and when a change of one of them is
     reported as a reason to restart. -/

import Ccmux.Agent.Launch.SessionEnv
import Ccmux.Lib.FirstPath
import Ccmux.Lib.JsonText
import Mathlib

namespace Ccmux.Agent.Launch.RuleSet

open Ccmux.Agent.Launch.SessionEnv (Builtins expandHome isAbsolute)
open Ccmux.Lib.FirstPath
open Ccmux.Lib.JsonText
open Ccmux.Lib.Text

/-! ### The files of a rule set -/

/-- What of the process and of `node:path` the walk uses. -/
structure Host where
  builtins : Builtins
  cwd : Chars
  dirname : Chars → Chars

/-- The text of each file that can be read. -/
abbrev Files := Chars → Option Chars

def MAX_IMPORT_DEPTH : Nat := 5

def isImportChar (c : Char) : Bool := !isSpace c && c ∉ ['`', '\'', '"', ')', ']']

/-- `text.matchAll(IMPORT_RE)`: the names behind each `@` at the start or after a blank. -/
def importNames : Bool → Chars → List Chars
  | _, [] => []
  | start, c :: rest =>
    let name := rest.takeWhile isImportChar
    (if start && c == '@' && !name.isEmpty then [name] else []) ++ importNames (isSpace c) rest

def looksLikePath (raw : Chars) : Bool :=
  ['~'].isPrefixOf raw || ['/'].isPrefixOf raw || ['.', '/'].isPrefixOf raw ||
    ['.', '.', '/'].isPrefixOf raw

/-- The imports of a file that are followed, as they are handed on. -/
def importTexts (h : Host) (path text : Chars) : List Chars :=
  ((importNames true text).filter looksLikePath).map fun raw =>
    if isAbsolute (expandHome h.builtins raw) then expandHome h.builtins raw
    else h.builtins.resolve (h.dirname path) raw

/-- `resolve(expandHome(entry))`. -/
def pathOf (h : Host) (entry : Chars) : Chars :=
  h.builtins.resolve h.cwd (expandHome h.builtins entry)

/-- The files from an entry on, and what has been seen then; the budget is the depth and one. -/
def ruleSetFilesFrom (h : Host) (files : Files) : Nat → Chars → List Chars →
    List Chars × List Chars
  | 0, _, seen => ([], seen)
  | budget + 1, entry, seen =>
    let path := pathOf h entry
    if path ∈ seen then ([], seen)
    else
      match files path with
      -- absent, but still part of the set
      | none => ([path], seen ++ [path])
      | some text =>
        (importTexts h path text).foldl
          (fun acc raw =>
            let below := ruleSetFilesFrom h files budget raw acc.2
            (acc.1 ++ below.1, below.2))
          ([path], seen ++ [path])

def ruleSetFiles (h : Host) (files : Files) (entry : Chars) : List Chars :=
  (ruleSetFilesFrom h files (MAX_IMPORT_DEPTH + 1) entry []).1

/-- The import graph: the files that a file imports, in order. -/
def imports (h : Host) (files : Files) (path : Chars) : List Chars :=
  match files path with
  | none => []
  | some text => (importTexts h path text).map (pathOf h)

/-! ### The digest over a set of files -/

section
variable (digestOf : String → String)

/-- A file that cannot be read has no digest; the cache in front hands back the same values. -/
def fileDigest (files : Files) (path : Chars) : Option String :=
  (files path).map fun text => digestOf (String.ofList text)

def units (text : Chars) : List Nat := text.flatMap fun c =>
  if c.toNat < 0x10000 then [c.toNat]
  else [0xD800 + (c.toNat - 0x10000) / 0x400, 0xDC00 + (c.toNat - 0x10000) % 0x400]

def unitsLe : List Nat → List Nat → Bool
  | [], _ => true
  | _ :: _, [] => false
  | a :: s, b :: t => a < b || (a == b && unitsLe s t)

/-- `sort()`. -/
def sorted (texts : List Chars) : List Chars :=
  texts.mergeSort fun left right => unitsLe (units left) (units right)

/-- A text or `null` in a document. -/
def value : Option String → String
  | some text => quote text
  | none => "null"

abbrev Part := Chars × Option String

def part (p : Part) : String := array ([some (String.ofList p.1), p.2].map value)

/-- `JSON.stringify(parts)`. -/
def partsText (parts : List Part) : String := array (parts.map part)

def partsOf (files : Files) (paths : List Chars) : List Part :=
  (sorted paths.dedup).map fun path => (path, fileDigest digestOf files path)

def fileSetDigest (files : Files) (paths : List Chars) : Option String :=
  let parts := partsOf digestOf files paths
  if parts.all fun p => p.2.isNone then none else some (digestOf (partsText parts))

/-! ### The launch inputs and what is stale -/

/-- What a launch reads outside argv; label, paths and keys are for diagnostics only. -/
structure LaunchInput where
  reason : String
  digest : Option String
  deriving DecidableEq, Repr

/-- The rule set of a provider, its MCP configuration, and the declared env file. -/
def launchInputsFor (h : Host) (files : Files) (entry : Chars) (mcp env : Option String) :
    List LaunchInput :=
  [⟨"rules", fileSetDigest digestOf files (ruleSetFiles h files entry)⟩, ⟨"mcp", mcp⟩, ⟨"env", env⟩]

end

/-- `digestMap(inputs)[reason]`: a later input wins, and a reason without one is undefined. -/
def digestAt (inputs : List LaunchInput) (reason : String) : Option (Option String) :=
  (inputs.reverse.find? fun input => input.reason == reason).map LaunchInput.digest

/-- The part of `staleReasons` on the inputs, behind the reasons that have been found. -/
def staleInputs (stamp : Option (List LaunchInput)) (now : List LaunchInput) (out : List String) :
    List String :=
  match stamp with
  -- a stamp written before there were inputs: unknown, never stale
  | none => out
  | some before =>
    (sorted (((before ++ now).map fun input => input.reason.toList).dedup)).foldl
      (fun out reason =>
        let reason := String.ofList reason
        if digestAt before reason ≠ digestAt now reason ∧ reason ∉ out then out ++ [reason] else out)
      out

/-! ### The files are those of a bounded walk -/

section
variable {h : Host} {files : Files}

theorem ruleSetFilesFrom_eq (h : Host) (files : Files) (budget : Nat) (entry : Chars)
    (seen : List Chars) :
    (ruleSetFilesFrom h files budget entry seen).2 =
        walk (imports h files) budget (pathOf h entry) seen ∧
      (ruleSetFilesFrom h files budget entry seen).2 =
        seen ++ (ruleSetFilesFrom h files budget entry seen).1 := by
  induction budget generalizing entry seen with
  | zero => exact ⟨rfl, (List.append_nil seen).symm⟩
  | succ budget ih =>
    have hloop : ∀ (raws : List Chars) (acc : List Chars × List Chars) (front : List Chars),
        acc.2 = front ++ acc.1 →
        let later := raws.foldl (fun acc raw =>
          let below := ruleSetFilesFrom h files budget raw acc.2
          (acc.1 ++ below.1, below.2)) acc
        later.2 = (raws.map (pathOf h)).foldl
            (fun found child => walk (imports h files) budget child found) acc.2 ∧
          later.2 = front ++ later.1 := by
      intro raws
      induction raws with
      | nil => exact fun acc front hacc => ⟨rfl, hacc⟩
      | cons raw rest ihrest =>
        intro acc front hacc
        obtain ⟨hwalk, hout⟩ := ih raw acc.2
        have hrest := ihrest (acc.1 ++ (ruleSetFilesFrom h files budget raw acc.2).1,
          (ruleSetFilesFrom h files budget raw acc.2).2) front (by
            rw [hout, hacc, List.append_assoc])
        rw [List.map_cons, List.foldl_cons, List.foldl_cons, ← hwalk]
        exact hrest
    rw [ruleSetFilesFrom, walk]
    by_cases hmem : pathOf h entry ∈ seen
    · simp [hmem]
    · simp only [if_neg hmem]
      cases hfile : files (pathOf h entry) with
      | none =>
        refine ⟨?_, rfl⟩
        rw [imports, hfile]
        rfl
      | some text =>
        have hall := hloop (importTexts h (pathOf h entry) text)
          ([pathOf h entry], seen ++ [pathOf h entry]) seen rfl
        rw [imports, hfile]
        exact hall

theorem ruleSetFiles_eq (h : Host) (files : Files) (entry : Chars) : ruleSetFiles h files entry =
    walk (imports h files) (MAX_IMPORT_DEPTH + 1) (pathOf h entry) [] := by
  obtain ⟨hwalk, hout⟩ := ruleSetFilesFrom_eq h files (MAX_IMPORT_DEPTH + 1) entry []
  rw [ruleSetFiles, ← hwalk, hout, List.nil_append]

theorem ruleSetFiles_absent {entry : Chars} (habsent : files (pathOf h entry) = none) :
    ruleSetFiles h files entry = [pathOf h entry] := by
  rw [ruleSetFiles, ruleSetFilesFrom]
  simp only [List.not_mem_nil, if_false, habsent]

theorem entry_mem (h : Host) (files : Files) (entry : Chars) :
    pathOf h entry ∈ ruleSetFiles h files entry := by
  have hP := firstPaths_trail (imports h files) MAX_IMPORT_DEPTH (pathOf h entry)
  rw [ruleSetFiles_eq, mem_walk_iff hP]
  exact ⟨[], hP.start⟩

end

/-! ### A change of a file in the set is reported -/

theorem delimited_value : Delimited value := by
  have hquote : ∀ text : String, ∃ rest, (quote text).toList = '"' :: rest := by
    intro text
    unfold quote
    have hmark : "\"".toList = ['"'] := by decide
    exact ⟨_, by rw [String.toList_append, String.toList_append, hmark]; rfl⟩
  have hnull : "null".toList = 'n' :: "ull".toList := by decide
  intro a b x y heq
  cases a with
  | some a =>
    cases b with
    | some b =>
      obtain ⟨rfl, hxy⟩ := delimited_quote a b x y heq
      exact ⟨rfl, hxy⟩
    | none =>
      obtain ⟨rest, hrest⟩ := hquote a
      rw [value, value, hrest, hnull] at heq
      exact absurd (List.cons.inj heq).1 (by decide)
  | none =>
    cases b with
    | some b =>
      obtain ⟨rest, hrest⟩ := hquote b
      rw [value, value, hrest, hnull] at heq
      exact absurd (List.cons.inj heq).1 (by decide)
    | none => exact ⟨rfl, List.append_cancel_left heq⟩

theorem value_ne_close (a : Option String) : ∃ c rest, (value a).toList = c :: rest ∧ c ≠ ']' := by
  cases a with
  | none => exact ⟨'n', "ull".toList, by decide, by decide⟩
  | some text =>
    have hmark : "\"".toList = ['"'] := by decide
    refine ⟨'"', (escape text).toList ++ ['"'], ?_, by decide⟩
    rw [value]
    unfold quote
    rw [String.toList_append, String.toList_append, hmark]
    rfl

theorem delimited_part : Delimited part := by
  intro a b x y heq
  obtain ⟨hsame, hxy⟩ := delimited_array delimited_value value_ne_close _ _ x y heq
  simp only [List.cons.injEq, Option.some.injEq, and_true] at hsame
  exact ⟨Prod.ext (String.ofList_injective hsame.1) hsame.2, hxy⟩

theorem part_ne_close (p : Part) : ∃ c rest, (part p).toList = c :: rest ∧ c ≠ ']' := by
  have hopen : "[".toList = ['['] := by decide
  refine ⟨'[', (joinFields ([some (String.ofList p.1), p.2].map value) ++ "]").toList, ?_, by decide⟩
  unfold part array
  rw [String.toList_append, String.toList_append, String.toList_append, hopen, List.append_assoc]
  rfl

theorem partsText_injective : Function.Injective partsText := by
  intro a b heq
  have hsame := delimited_array delimited_part part_ne_close a b [] []
    (congrArg (fun text : String => text.toList ++ []) heq)
  exact hsame.1

section
variable {digestOf : String → String} {h : Host} {files files' : Files} {entry file : Chars}

variable {paths : List Chars}

theorem mem_partsOf {p : Part} : p ∈ partsOf digestOf files paths ↔
    p.1 ∈ paths ∧ p.2 = fileDigest digestOf files p.1 := by
  obtain ⟨path, digest⟩ := p
  simp only [partsOf, sorted, List.mem_map, List.mem_mergeSort, List.mem_dedup, Prod.mk.injEq]
  constructor
  · rintro ⟨path, hpath, rfl, rfl⟩
    exact ⟨hpath, rfl⟩
  · rintro ⟨hpath, rfl⟩
    exact ⟨path, hpath, rfl, rfl⟩

theorem fileDigest_eq (hdigest : Function.Injective digestOf)
    (heq : fileDigest digestOf files' file = fileDigest digestOf files file) :
    files' file = files file := by
  refine Option.map_injective ?_ heq
  intro a b hab
  exact String.ofList_injective (hdigest hab)

theorem fileSetDigest_eq_none (hnone : fileSetDigest digestOf files paths = none)
    {path : Chars} (hpath : path ∈ paths) : files path = none := by
  simp only [fileSetDigest] at hnone
  split at hnone
  · rename_i hall
    have hone := List.all_eq_true.mp hall (path, fileDigest digestOf files path)
      (mem_partsOf.mpr ⟨hpath, rfl⟩)
    cases hfile : files path with
    | none => rfl
    | some text => simp [fileDigest, hfile] at hone
  · cases hnone

theorem unchanged_of_digest (hdigest : Function.Injective digestOf)
    (hfile : file ∈ ruleSetFiles h files entry)
    (heq : fileSetDigest digestOf files' (ruleSetFiles h files' entry) =
      fileSetDigest digestOf files (ruleSetFiles h files entry)) : files' file = files file := by
  cases hold : fileSetDigest digestOf files (ruleSetFiles h files entry) with
  | none =>
    have hentry := fileSetDigest_eq_none hold (entry_mem h files entry)
    rw [ruleSetFiles_absent hentry, List.mem_singleton] at hfile
    rw [hold] at heq
    rw [hfile, hentry, fileSetDigest_eq_none heq (entry_mem h files' entry)]
  | some digest =>
    rw [hold] at heq
    simp only [fileSetDigest] at heq hold
    split at heq
    · cases heq
    · split at hold
      · cases hold
      · have hparts := partsText_injective (hdigest (Option.some.inj (heq.trans hold.symm)))
        have hmem : (file, fileDigest digestOf files file) ∈
            partsOf digestOf files (ruleSetFiles h files entry) := mem_partsOf.mpr ⟨hfile, rfl⟩
        rw [← hparts, mem_partsOf] at hmem
        exact fileDigest_eq hdigest hmem.2.symm

/-- A reason whose digest has changed is among the reasons. -/
theorem mem_staleInputs {before now : List LaunchInput} {out : List String} {reason : String}
    (hreason : ∃ input ∈ before, input.reason = reason)
    (hchanged : digestAt before reason ≠ digestAt now reason) :
    reason ∈ staleInputs (some before) now out := by
  have hloop : ∀ (reasons : List Chars) (out : List String),
      (reason ∈ out ∨ reason.toList ∈ reasons) → reason ∈ reasons.foldl (fun out reason =>
        if digestAt before (String.ofList reason) ≠ digestAt now (String.ofList reason) ∧
          String.ofList reason ∉ out then out ++ [String.ofList reason] else out) out := by
    intro reasons
    induction reasons with
    | nil => simp
    | cons first rest ih =>
      intro out hmem
      rw [List.foldl_cons]
      refine ih _ ?_
      rcases hmem with hout | hmem
      · refine Or.inl ?_
        split
        · exact List.mem_append_left _ hout
        · exact hout
      · rcases List.mem_cons.mp hmem with rfl | hrest
        · rw [String.ofList_toList]
          refine Or.inl ?_
          by_cases hout : reason ∈ out
          · rw [if_neg fun hboth => hboth.2 hout]
            exact hout
          · rw [if_pos ⟨hchanged, hout⟩]
            exact List.mem_append_right _ List.mem_cons_self
        · exact Or.inr hrest
  obtain ⟨input, hinput, rfl⟩ := hreason
  refine hloop _ out (Or.inr ?_)
  rw [sorted, List.mem_mergeSort, List.mem_dedup]
  exact List.mem_map.mpr ⟨input, List.mem_append_left _ hinput, rfl⟩

end

/-- A change of this file, and whatever else changes, moves the digest and is a stale input. -/
def Reported (digestOf : String → String) (h : Host) (files : Files) (entry file : Chars) : Prop :=
  ∀ files' : Files, files' file ≠ files file →
    fileSetDigest digestOf files' (ruleSetFiles h files' entry) ≠
        fileSetDigest digestOf files (ruleSetFiles h files entry) ∧
      ∀ mcp env mcp' env' out, "rules" ∈ staleInputs
        (some (launchInputsFor digestOf h files entry mcp env))
        (launchInputsFor digestOf h files' entry mcp' env') out

theorem reported_of_mem {digestOf : String → String} {h : Host} {files : Files}
    {entry file : Chars} (hdigest : Function.Injective digestOf)
    (hfile : file ∈ ruleSetFiles h files entry) : Reported digestOf h files entry file := by
  intro files' hchanged
  have hdiffer := fun heq => hchanged (unchanged_of_digest hdigest hfile heq)
  refine ⟨hdiffer, fun mcp env mcp' env' out => ?_⟩
  refine mem_staleInputs ⟨_, List.mem_cons_self, rfl⟩ ?_
  intro hsame
  refine hdiffer ?_
  have hrules : ∀ (files : Files) (mcp env : Option String),
      digestAt (launchInputsFor digestOf h files entry mcp env) "rules" =
        some (fileSetDigest digestOf files (ruleSetFiles h files entry)) := by
    intro files mcp env
    simp [digestAt, launchInputsFor]
  rw [hrules, hrules] at hsame
  exact (Option.some.inj hsame).symm

/-- Every file that some imports lead to is in the set and a change of it is reported, exactly where
a file nearer than the depth limit that is first met at the limit imports no file that has no first
path of its own. -/
theorem ruleSet_reported_iff {digestOf : String → String} (hdigest : Function.Injective digestOf)
    (h : Host) (files : Files) (entry : Chars) :
    ∃ P, FirstPaths (imports h files) MAX_IMPORT_DEPTH (pathOf h entry) P ∧
      ((∀ file, Within (imports h files) (pathOf h entry) MAX_IMPORT_DEPTH file →
          file ∈ ruleSetFiles h files entry ∧ Reported digestOf h files entry file) ↔
        ∀ file route, Within (imports h files) (pathOf h entry) (MAX_IMPORT_DEPTH - 1) file →
          P file route → route.length = MAX_IMPORT_DEPTH →
            ∀ other ∈ imports h files file, ∃ route', P other route') := by
  have hP := firstPaths_trail (imports h files) MAX_IMPORT_DEPTH (pathOf h entry)
  refine ⟨_, hP, ?_⟩
  have hcomplete := @walk_complete_iff _ _ (imports h files) 4 (pathOf h entry) _ hP
  constructor
  · intro hall
    refine hcomplete.mp fun file hwithin => ?_
    have hmem := (hall file hwithin).1
    rwa [ruleSetFiles_eq] at hmem
  · intro hclear file hwithin
    have hmem := hcomplete.mpr hclear file hwithin
    have hfile : file ∈ ruleSetFiles h files entry := by
      rw [ruleSetFiles_eq]
      exact hmem
    exact ⟨hfile, reported_of_mem hdigest hfile⟩

/-- A host on which every path that is used is absolute and in its shortest form. -/
def plainHost : Host :=
  { builtins := ⟨"/home".toList, fun _ path => path, fun _ => []⟩
    cwd := "/".toList
    dirname := fun _ => "/".toList }

/-- A file that the entry imports, and imports itself a file, at the end of a chain of imports. -/
def chainFiles : Files := fun path =>
  (["/e @/a @/x", "/a @/b", "/b @/c", "/c @/d", "/d @/x", "/x @/y", "/y "].map String.toList).findSome?
    fun line => if path = line.take 2 then some (line.drop 2) else none

theorem chain_reported :
    ∃ P, FirstPaths (imports plainHost chainFiles) MAX_IMPORT_DEPTH
        (pathOf plainHost "/e".toList) P ∧
      ((∀ file, Within (imports plainHost chainFiles) (pathOf plainHost "/e".toList)
            MAX_IMPORT_DEPTH file →
          file ∈ ruleSetFiles plainHost chainFiles "/e".toList ∧
            Reported id plainHost chainFiles "/e".toList file) ↔
        ∀ file route, Within (imports plainHost chainFiles) (pathOf plainHost "/e".toList)
            (MAX_IMPORT_DEPTH - 1) file →
          P file route → route.length = MAX_IMPORT_DEPTH →
            ∀ other ∈ imports plainHost chainFiles file, ∃ route', P other route') :=
  ruleSet_reported_iff Function.injective_id plainHost chainFiles "/e".toList

/-- The file two imports away is hidden behind the one first met five imports away. -/
theorem import_hidden_at_the_depth_limit :
    ∃ (h : Host) (files : Files) (entry file : Chars),
      Within (imports h files) (pathOf h entry) 2 file ∧ file ∉ ruleSetFiles h files entry := by
  refine ⟨plainHost, chainFiles, "/e".toList, "/y".toList, ?_, by decide⟩
  have hx : "/x".toList ∈ imports plainHost chainFiles (pathOf plainHost "/e".toList) := by
    decide
  have hy : "/y".toList ∈ imports plainHost chainFiles "/x".toList := by decide
  exact ((Within.root 0).step hx).step hy

end Ccmux.Agent.Launch.RuleSet
