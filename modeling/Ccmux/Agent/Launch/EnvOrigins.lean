/- Module: Ccmux/Agent/Launch/EnvOrigins
   source: src/agent/launch/sessionEnv.ts (parseEnvFile, expand)
   digest: Which names of the environment the values of an env file are made from, directly or by way
     of earlier values of the file. -/

import Ccmux.Agent.Launch.EnvFile

namespace Ccmux.Agent.Launch.EnvFile

open Ccmux.Lib.Text

/-- One assignment of an env file, before its references give way. -/
structure Statement where
  key : Chars
  quote : Option Char
  value : Chars
  deriving DecidableEq, Repr

def statementsFrom : Nat → List Chars → List Statement
  | _, [] => []
  | skip + 1, _ :: more => statementsFrom skip more
  | 0, raw :: more =>
    match statement raw with
    | none => statementsFrom 0 more
    | some (key, behind) =>
      let rest := behind.dropWhile isSpace
      match quoteOf rest with
      | none => ⟨key, none, trimEnd (beforeComment rest)⟩ :: statementsFrom 0 more
      | some quote =>
        ⟨key, some quote, (runOn quote rest.tail more).1⟩ ::
          statementsFrom (runOn quote rest.tail more).2 more

def define (protoText : Chars → Chars) (base out : Record Chars) (s : Statement) : Record Chars :=
  assign out s.key
    (if s.quote = some '\'' then s.value else expand (scopeOf protoText base out) s.value)

theorem parseFrom_eq (protoText : Chars → Chars) (base : Record Chars) (skip : Nat)
    (out : Record Chars) (raws : List Chars) :
    parseFrom protoText base skip out raws =
      (statementsFrom skip raws).foldl (define protoText base) out := by
  induction raws generalizing skip out with
  | nil => simp [parseFrom, statementsFrom]
  | cons raw more ih =>
    cases skip with
    | succ skip => rw [parseFrom, statementsFrom, ih]
    | zero =>
      rw [parseFrom, statementsFrom]
      cases statement raw with
      | none => exact ih 0 out
      | some pair =>
        obtain ⟨key, behind⟩ := pair
        simp only []
        cases quoteOf (behind.dropWhile isSpace) with
        | none =>
          simp only [List.foldl_cons]
          rw [ih, define, if_neg (by simp)]
        | some quote =>
          simp only [List.foldl_cons]
          rw [ih, define]
          simp only [Option.some.injEq]

/-- The names that the references of a value stand for. -/
def usesFrom (originsOf : Chars → List Chars) : Nat → Chars → List Chars
  | _, [] => []
  | skip + 1, _ :: rest => usesFrom originsOf skip rest
  | 0, c :: rest =>
    if c = '$' then
      match reference rest with
      | some (name, length) => originsOf name ++ usesFrom originsOf length rest
      | none => usesFrom originsOf 0 rest
    else usesFrom originsOf 0 rest

/-- A name of the file stands for the names that its value is made from, another one for itself. -/
def originsOf (record : Record (List Chars)) (name : Chars) : List Chars :=
  (valueOf record name).getD [name]

def trace (record : Record (List Chars)) (s : Statement) : Record (List Chars) :=
  assign record s.key
    (if s.quote = some '\'' then [] else usesFrom (originsOf record) 0 s.value)

/-- For each name of the file, the names of the environment that its last value is made from. -/
def origins (text : Chars) : Record (List Chars) := (statementsFrom 0 (lines text)).foldl trace []

/-! ### Entries -/

section
variable {α : Type}

variable {record : Record α} {name key : Chars}

theorem valueOf_eq_none_iff :
    valueOf record name = none ↔ name ∉ names record := by
  simp only [valueOf, Option.map_eq_none_iff, List.find?_eq_none, decide_eq_true_eq, names,
    List.mem_map, not_exists, not_and]

@[simp] theorem valueOf_cons_self (key : Chars) (value : α) (rest : Record α) :
    valueOf ((key, value) :: rest) key = some value := by
  simp [valueOf]

theorem valueOf_cons_ne (h : name ≠ key) (value : α) (rest : Record α) :
    valueOf ((key, value) :: rest) name = valueOf rest name := by
  have hne : ¬ key = name := fun heq => h heq.symm
  simp [valueOf, hne]

variable {value : α}

theorem valueOf_append_singleton (h : key ∉ names record) :
    valueOf (record ++ [(key, value)]) name = if name = key then some value else valueOf record name := by
  unfold valueOf
  rw [List.find?_append, List.find?_singleton]
  by_cases heq : name = key
  · subst heq
    have hnone : record.find? (fun entry => entry.1 = name) = none :=
      Option.map_eq_none_iff.mp (valueOf_eq_none_iff.mpr h)
    simp [hnone]
  · have hne : ¬ key = name := fun hsame => heq hsame.symm
    simp [heq, hne]

theorem valueOf_replace (h : key ∈ names record) :
    valueOf (record.map fun entry => if entry.1 = key then (key, value) else entry) name =
      if name = key then some value else valueOf record name := by
  induction record with
  | nil => cases h
  | cons entry rest ih =>
    unfold valueOf at ih ⊢
    rw [List.map_cons, List.find?_cons, List.find?_cons]
    by_cases hentry : entry.1 = key
    · rw [if_pos hentry]
      by_cases hname : name = key
      · simp [hname]
      · have hother : ¬ key = name := fun heq => hname heq.symm
        have hrest : ∀ rest : Record α,
            (rest.map fun entry => if entry.1 = key then (key, value) else entry).find?
                (fun entry => entry.1 = name) = rest.find? fun entry => entry.1 = name := by
          intro rest
          induction rest with
          | nil => rfl
          | cons other more ih =>
            rw [List.map_cons, List.find?_cons, List.find?_cons, ih]
            by_cases hsame : other.1 = key
            · simp [hsame, hother]
            · simp [hsame]
        simp [hentry, hother, hname, hrest]
    · have hmem : key ∈ names rest := by
        rcases List.mem_cons.mp h with heq | hrest
        · exact absurd heq.symm hentry
        · exact hrest
      rw [if_neg hentry]
      by_cases hname : entry.1 = name
      · have hne : ¬ name = key := fun heq => hentry (hname.trans heq)
        simp [hname, hne]
      · simpa [hname] using ih hmem

theorem valueOf_assign (hkey : key ≠ protoKey) (value : α)
    (name : Chars) :
    valueOf (assign record key value) name = if name = key then some value else valueOf record name := by
  unfold assign
  rw [if_neg hkey]
  split
  · rename_i hmem
    exact valueOf_replace hmem
  · rename_i hnew
    exact valueOf_append_singleton hnew

theorem assign_protoKey (record : Record α) (value : α) : assign record protoKey value = record :=
  if_pos rfl

theorem valueOf_remove (record : Record α) (key name : Chars) :
    valueOf (remove record key) name = if name = key then none else valueOf record name := by
  unfold valueOf remove
  rw [List.find?_filter]
  split
  · rename_i heq
    subst heq
    rw [Option.map_eq_none_iff, List.find?_eq_none]
    intro entry _
    simp
  · rename_i hne
    congr 2
    funext entry
    by_cases hentry : entry.1 = name
    · simp [hentry, hne]
    · simp [hentry]

theorem nodup_assign (h : (names record).Nodup) (key : Chars) (value : α) :
    (names (assign record key value)).Nodup := by
  unfold assign
  split
  · exact h
  · split
    · have hsame : names (record.map fun entry => if entry.1 = key then (key, value) else entry) =
          names record := by
        simp only [names, List.map_map]
        refine List.map_congr_left fun entry _ => ?_
        simp only [Function.comp_apply]
        split
        · rename_i heq
          exact heq.symm
        · rfl
      rw [hsame]
      exact h
    · rename_i hnew
      simp only [names, List.map_append, List.map_cons, List.map_nil]
      refine List.Nodup.append h (List.nodup_singleton key) ?_
      exact List.disjoint_singleton.mpr hnew

end

/-! ### Two environments side by side -/

/-- A relation of two texts and some names that follows the texts as they are put together. -/
structure Joins (P : Chars → Chars → List Chars → Prop) : Prop where
  nil : P [] [] []
  char : ∀ c, P [c] [c] []
  append : ∀ v w o v' w' o', P v w o → P v' w' o' → P (v ++ v') (w ++ w') (o ++ o')

variable {P : Chars → Chars → List Chars → Prop}

theorem Joins.same (h : Joins P) (value : Chars) : P value value [] := by
  induction value with
  | nil => exact h.nil
  | cons c rest ih => exact h.append [c] [c] [] rest rest [] (h.char c) ih

theorem expandFrom_related (h : Joins P) {scope other : Chars → Chars} {uses : Chars → List Chars}
    (hscope : ∀ name, P (scope name) (other name) (uses name)) (skip : Nat) (value : Chars) :
    P (expandFrom scope skip value) (expandFrom other skip value) (usesFrom uses skip value) := by
  induction value generalizing skip with
  | nil =>
    simp only [expandFrom, usesFrom]
    exact h.nil
  | cons c rest ih =>
    cases skip with
    | succ skip =>
      simp only [expandFrom, usesFrom]
      exact ih skip
    | zero =>
      simp only [expandFrom, usesFrom]
      split
      · cases reference rest with
        | none => exact h.append [c] [c] [] _ _ _ (h.char c) (ih 0)
        | some found =>
          obtain ⟨name, length⟩ := found
          exact h.append _ _ _ _ _ _ (hscope name) (ih length)
      · exact h.append [c] [c] [] _ _ _ (h.char c) (ih 0)

/-- Two readings of one file, entry by entry. -/
def Related (P : Chars → Chars → List Chars → Prop) (out other : Record Chars)
    (record : Record (List Chars)) : Prop :=
  ∀ name, (valueOf out name = none ∧ valueOf other name = none ∧ valueOf record name = none) ∨
    ∃ v w o, valueOf out name = some v ∧ valueOf other name = some w ∧ valueOf record name = some o ∧ P v w o

variable {out other : Record Chars} {record : Record (List Chars)}

theorem Related.assign (h : Related P out other record) (key : Chars) {v w : Chars} {o : List Chars}
    (hP : P v w o) :
    Related P (assign out key v) (assign other key w) (assign record key o) := by
  intro name
  by_cases hproto : key = protoKey
  · subst hproto
    rw [assign_protoKey, assign_protoKey, assign_protoKey]
    exact h name
  · rw [valueOf_assign hproto, valueOf_assign hproto, valueOf_assign hproto]
    split
    · exact Or.inr ⟨v, w, o, rfl, rfl, rfl, hP⟩
    · exact h name

theorem Related.scope {protoText : Chars → Chars} {base base' : Record Chars}
    (h : Related P out other record)
    (hbase : ∀ name, P (scopeOf protoText base [] name) (scopeOf protoText base' [] name) [name])
    (name : Chars) :
    P (scopeOf protoText base out name) (scopeOf protoText base' other name)
      (originsOf record name) := by
  rcases h name with ⟨hout, hother, hrecord⟩ | ⟨v, w, o, hout, hother, hrecord, hP⟩
  · have hsame := hbase name
    simp only [scopeOf, originsOf, hout, hother, hrecord, Option.getD_none, Option.none_or]
    simpa only [scopeOf, valueOf, List.find?_nil, Option.map_none, Option.none_or] using hsame
  · simpa only [scopeOf, originsOf, hout, hother, hrecord, Option.getD_some, Option.some_or] using hP

theorem parseEnvFile_related (h : Joins P) {protoText : Chars → Chars} {base base' : Record Chars}
    (hbase : ∀ name, P (scopeOf protoText base [] name) (scopeOf protoText base' [] name) [name])
    (text : Chars) :
    Related P (parseEnvFile protoText text base) (parseEnvFile protoText text base')
      (origins text) := by
  have hloop : ∀ (statements : List Statement) (out other : Record Chars)
      (record : Record (List Chars)), Related P out other record →
      Related P (statements.foldl (define protoText base) out)
        (statements.foldl (define protoText base') other) (statements.foldl trace record) := by
    intro statements
    induction statements with
    | nil => exact fun _ _ _ hrelated => hrelated
    | cons s rest ih =>
      intro out other record hrelated
      refine ih _ _ _ (hrelated.assign s.key ?_)
      split
      · exact h.same s.value
      · exact expandFrom_related h (hrelated.scope hbase) 0 s.value
  rw [parseEnvFile, parseEnvFile, parseFrom_eq, parseFrom_eq]
  exact hloop _ [] [] [] fun _ => Or.inl ⟨rfl, rfl, rfl⟩

theorem nodup_parseEnvFile (protoText : Chars → Chars) (text : Chars) (base : Record Chars) :
    (names (parseEnvFile protoText text base)).Nodup := by
  have hloop : ∀ (statements : List Statement) (out : Record Chars), (names out).Nodup →
      (names (statements.foldl (define protoText base) out)).Nodup := by
    intro statements
    induction statements with
    | nil => exact fun _ hnodup => hnodup
    | cons s rest ih => exact fun out hnodup => ih _ (nodup_assign hnodup _ _)
  rw [parseEnvFile, parseFrom_eq]
  exact hloop _ [] List.nodup_nil

end Ccmux.Agent.Launch.EnvFile
