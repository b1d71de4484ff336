/- Module: Ccmux/Agent/Launch/EnvFile
   source: src/agent/launch/sessionEnv.ts (parseEnvFile, expand),
     src/agent/launch/launchInputs.ts (envFileKeys)
   digest: The two readers of an env file, one by lines and one whose quoted values run over lines,
     and where they find the same names. -/

import Ccmux.Lib.Text
import Mathlib

namespace Ccmux.Agent.Launch.EnvFile

open Ccmux.Lib.Text

/-! ### Records of the language -/

/-- An object's own entries, in the order of their first assignment. -/
abbrev Record (α : Type) := List (Chars × α)

/-- The entry that an assignment cannot make: it would set the prototype, which a text cannot be. -/
def protoKey : Chars := "__proto__".toList

/-- What every object has without an entry of its own. -/
def protoNames : List Chars :=
  ["constructor", "__defineGetter__", "__defineSetter__", "hasOwnProperty", "__lookupGetter__",
    "__lookupSetter__", "isPrototypeOf", "propertyIsEnumerable", "toString", "valueOf",
    "__proto__", "toLocaleString"].map String.toList

section
variable {α β : Type}

def names (record : Record α) : List Chars := record.map Prod.fst

def valueOf (record : Record α) (key : Chars) : Option α :=
  (record.find? fun entry => entry.1 = key).map Prod.snd

def assign (record : Record α) (key : Chars) (value : α) : Record α :=
  if key = protoKey then record
  else if key ∈ names record then
    record.map fun entry => if entry.1 = key then (key, value) else entry
  else record ++ [(key, value)]

def remove (record : Record α) (key : Chars) : Record α :=
  record.filter fun entry => entry.1 ≠ key

/-- `key in record`. -/
def has (record : Record α) (key : Chars) : Bool :=
  decide (key ∈ names record) || decide (key ∈ protoNames)

end

/-! ### Lines and values -/

def isNameStart (c : Char) : Bool := c.isAlpha || c = '_'

def isNameChar (c : Char) : Bool := c.isAlphanum || c = '_'

/-- `[A-Za-z_][A-Za-z0-9_]*` at the head of a text; nothing where there is none. -/
def nameOf (text : Chars) : Chars :=
  if text.head?.any isNameStart then text.takeWhile isNameChar else []

/-- `([A-Za-z_][A-Za-z0-9_]*)\s*=` at the head of a text: the name, and what follows the sign. -/
def nameSign (text : Chars) : Option (Chars × Chars) :=
  let key := nameOf text
  if key = [] then none
  else
    match (text.drop key.length).dropWhile isSpace with
    | '=' :: rest => some (key, rest)
    | _ => none

/-- `^(?:export\s+)?([A-Za-z_][A-Za-z0-9_]*)\s*=`. Where the word export is not followed by a name
and its sign, it is the name itself. -/
def assignment (line : Chars) : Option (Chars × Chars) :=
  match stripPrefix "export".toList line with
  | some (c :: rest) =>
    if isSpace c then (nameSign (rest.dropWhile isSpace)).or (nameSign line) else nameSign line
  | _ => nameSign line

/-- The assignment of a line that is neither empty nor a comment. -/
def statement (raw : Chars) : Option (Chars × Chars) :=
  let line := trim raw
  if line = [] ∨ line.head? = some '#' then none else assignment line

def quoteOf (value : Chars) : Option Char :=
  match value with
  | '"' :: _ => some '"'
  | '\'' :: _ => some '\''
  | '`' :: _ => some '`'
  | _ => none

/-- `value.split(' #')[0]`. -/
def beforeComment : Chars → Chars
  | ' ' :: '#' :: _ => []
  | c :: rest => c :: beforeComment rest
  | [] => []

/-- A quoted value up to its closing quote, over the lines that follow, and how many of these it
takes. -/
def runOn (quote : Char) : Chars → List Chars → Chars × Nat
  | rest, [] => (rest.takeWhile (· ≠ quote), 0)
  | rest, line :: more =>
    if quote ∈ rest then (rest.takeWhile (· ≠ quote), 0)
    else
      let (value, count) := runOn quote (rest ++ '\n' :: line) more
      (value, count + 1)

/-- `\{NAME}` or `NAME` behind the sign, with the length of the whole. -/
def reference (rest : Chars) : Option (Chars × Nat) :=
  match rest with
  | '{' :: body =>
    let name := nameOf body
    if name ≠ [] ∧ (body.drop name.length).head? = some '}' then some (name, name.length + 2)
    else none
  | _ =>
    let name := nameOf rest
    if name ≠ [] then some (name, name.length) else none

/-- Each reference gives way to what `scope` has for it; the first argument counts the characters of
a reference that are still to be passed over. -/
def expandFrom (scope : Chars → Chars) : Nat → Chars → Chars
  | _, [] => []
  | skip + 1, _ :: rest => expandFrom scope skip rest
  | 0, c :: rest =>
    if c = '$' then
      match reference rest with
      | some (name, length) => scope name ++ expandFrom scope length rest
      | none => c :: expandFrom scope 0 rest
    else c :: expandFrom scope 0 rest

def expand (scope : Chars → Chars) (value : Chars) : Chars := expandFrom scope 0 value

/-- What an object has for a name: its own entry, or the text of what every object has. -/
def scopeOf (protoText : Chars → Chars) (base out : Record Chars) (name : Chars) : Chars :=
  match (valueOf out name).or (valueOf base name) with
  | some value => value
  | none => if name ∈ protoNames then protoText name else []

/-- The loop over the lines; the first argument counts the lines that a quoted value has taken. -/
def parseFrom (protoText : Chars → Chars) (base : Record Chars) :
    Nat → Record Chars → List Chars → Record Chars
  | _, out, [] => out
  | skip + 1, out, _ :: more => parseFrom protoText base skip out more
  | 0, out, raw :: more =>
    match statement raw with
    | none => parseFrom protoText base 0 out more
    | some (key, behind) =>
      let rest := behind.dropWhile isSpace
      match quoteOf rest with
      | none =>
        let value := trimEnd (beforeComment rest)
        parseFrom protoText base 0 (assign out key (expand (scopeOf protoText base out) value)) more
      | some quote =>
        let (value, count) := runOn quote rest.tail more
        let value := if quote = '\'' then value else expand (scopeOf protoText base out) value
        parseFrom protoText base count (assign out key value) more

def parseEnvFile (protoText : Chars → Chars) (text : Chars) (base : Record Chars) : Record Chars :=
  parseFrom protoText base 0 [] (lines text)

/-- The name that a line assigns, whatever stands around the line. -/
def lineKey (raw : Chars) : Option Chars := (statement raw).map Prod.fst

/-- The names that an env file declares, by its lines alone. -/
def envFileKeys (text : Chars) : List Chars :=
  ((lines text).filterMap lineKey).eraseDups.insertionSort (· ≤ ·)

/-! ### Lines that a value runs over -/

/-- The quote that a line leaves open: it starts the value of the line and does not come again. -/
def opens (raw : Chars) : Option Char :=
  match statement raw with
  | none => none
  | some (_, behind) =>
    let rest := behind.dropWhile isSpace
    match quoteOf rest with
    | none => none
    | some quote => if quote ∈ rest.tail then none else some quote

/-- The lines outside quoted values; the first argument is the quote that is open before them. -/
def outside : Option Char → List Chars → List Chars
  | _, [] => []
  | none, raw :: more => raw :: outside (opens raw) more
  | some quote, raw :: more => outside (if quote ∈ raw then none else some quote) more

/-- The lines that a quoted value runs over, its first line left out. -/
def inside : Option Char → List Chars → List Chars
  | _, [] => []
  | none, raw :: more => inside (opens raw) more
  | some quote, raw :: more => raw :: inside (if quote ∈ raw then none else some quote) more

theorem mem_lines_iff (start : Option Char) (raws : List Chars) (raw : Chars) :
    raw ∈ raws ↔ raw ∈ outside start raws ∨ raw ∈ inside start raws := by
  induction raws generalizing start with
  | nil => simp [outside, inside]
  | cons first more ih =>
    cases start with
    | none => rw [outside, inside, List.mem_cons, List.mem_cons, ih (opens first), or_assoc]
    | some quote =>
      rw [outside, inside, List.mem_cons, List.mem_cons,
        ih (if quote ∈ first then none else some quote), or_left_comm]

variable {quote : Char}

theorem quoteOf_ne_newline {value : Chars} (h : quoteOf value = some quote) :
    quote ≠ '\n' := by
  unfold quoteOf at h
  split at h
  · obtain rfl := Option.some.inj h
    decide
  · obtain rfl := Option.some.inj h
    decide
  · obtain rfl := Option.some.inj h
    decide
  · cases h

variable {rest key name : Chars}

theorem runOn_closed (h : quote ∈ rest) (more : List Chars) :
    (runOn quote rest more).2 = 0 := by
  cases more with
  | nil => rfl
  | cons line more => rw [runOn, if_pos h]

theorem runOn_open {line : Chars} (h : quote ∉ rest) (more : List Chars) :
    (runOn quote rest (line :: more)).2 = (runOn quote (rest ++ '\n' :: line) more).2 + 1 := by
  rw [runOn, if_neg h]

theorem runOn_outside (hquote : quote ≠ '\n') {rest : Chars} (h : quote ∉ rest)
    (more : List Chars) :
    outside (some quote) more = outside none (more.drop (runOn quote rest more).2) := by
  induction more generalizing rest with
  | nil => simp [outside]
  | cons line more ih =>
    rw [runOn_open h, List.drop_succ_cons, outside]
    by_cases hline : quote ∈ line
    · rw [if_pos hline, runOn_closed (by simp [hline]), List.drop_zero]
    · rw [if_neg hline]
      exact ih (by simp [h, hline, hquote])

theorem outside_opens {raw behind : Chars} (hstatement : statement raw = some (key, behind))
    (hquote : quoteOf (behind.dropWhile isSpace) = some quote) (more : List Chars) :
    outside (opens raw) more =
      outside none (more.drop (runOn quote (behind.dropWhile isSpace).tail more).2) := by
  simp only [opens, hstatement, hquote]
  split
  · rename_i hclosed
    rw [runOn_closed hclosed, List.drop_zero]
  · rename_i hopen
    exact runOn_outside (quoteOf_ne_newline hquote) hopen more

/-! ### The names of both readers -/

theorem mem_names_assign {α : Type} {record : Record α} {value : α} :
    name ∈ names (assign record key value) ↔
      name ∈ names record ∨ name = key ∧ name ≠ protoKey := by
  unfold assign
  split
  · rename_i hproto
    constructor
    · exact Or.inl
    · rintro (h | ⟨rfl, hne⟩)
      · exact h
      · exact absurd hproto hne
  · rename_i hproto
    split
    · rename_i hmem
      have hsame : names (record.map fun entry => if entry.1 = key then (key, value) else entry) =
          names record := by
        simp only [names, List.map_map]
        refine List.map_congr_left fun entry _ => ?_
        simp only [Function.comp_apply]
        split
        · rename_i heq
          exact heq.symm
        · rfl
      rw [hsame]
      constructor
      · exact Or.inl
      · rintro (h | ⟨rfl, _⟩)
        · exact h
        · exact hmem
    · simp only [names, List.map_append, List.mem_append, List.map_cons, List.map_nil,
        List.mem_singleton]
      constructor
      · rintro (h | rfl)
        · exact Or.inl h
        · exact Or.inr ⟨rfl, hproto⟩
      · rintro (h | ⟨rfl, _⟩)
        · exact Or.inl h
        · exact Or.inr rfl

/-- The parser defines the names of the lines outside values, but the one that no assignment can
make. -/
theorem names_parseFrom (protoText : Chars → Chars) (base : Record Chars) (skip : Nat)
    (out : Record Chars) (raws : List Chars) (name : Chars) :
    name ∈ names (parseFrom protoText base skip out raws) ↔
      name ∈ names out ∨
        name ∈ (outside none (raws.drop skip)).filterMap lineKey ∧ name ≠ protoKey := by
  induction raws generalizing skip out with
  | nil => simp [parseFrom, outside]
  | cons raw more ih =>
    cases skip with
    | succ skip => rw [parseFrom, ih, List.drop_succ_cons]
    | zero =>
      rw [List.drop_zero, outside, parseFrom]
      cases hstatement : statement raw with
      | none =>
        have hopens : opens raw = none := by simp only [opens, hstatement]
        have hkey : lineKey raw = none := by rw [lineKey, hstatement]; rfl
        simp only []
        rw [ih, List.drop_zero, hopens, List.filterMap_cons_none hkey]
      | some pair =>
        obtain ⟨key, behind⟩ := pair
        have hkey : lineKey raw = some key := by rw [lineKey, hstatement]; rfl
        have hmem : ∀ rest : List Chars,
            (name ∈ names out ∨ name = key ∧ name ≠ protoKey) ∨
                name ∈ rest.filterMap lineKey ∧ name ≠ protoKey ↔
              name ∈ names out ∨ name ∈ (raw :: rest).filterMap lineKey ∧ name ≠ protoKey := by
          intro rest
          rw [List.filterMap_cons_some hkey, List.mem_cons]
          tauto
        simp only []
        cases hquote : quoteOf (behind.dropWhile isSpace) with
        | none =>
          have hopens : opens raw = none := by simp only [opens, hstatement, hquote]
          simp only []
          rw [ih, List.drop_zero, hopens, mem_names_assign, hmem]
        | some quote =>
          simp only []
          rw [ih, mem_names_assign, ← outside_opens hstatement hquote, hmem]

theorem mem_envFileKeys {text : Chars} :
    name ∈ envFileKeys text ↔ name ∈ (lines text).filterMap lineKey := by
  rw [envFileKeys, (List.perm_insertionSort _ _).mem_iff, List.mem_eraseDups]

def KeysAgree (protoText : Chars → Chars) (text : Chars) (base : Record Chars) : Prop :=
  ∀ name, name ∈ envFileKeys text ↔ name ∈ names (parseEnvFile protoText text base)

/-- A line that a value runs over assigns nothing but names that lines outside values assign too,
and no line assigns the name that no assignment can make. -/
def LinesAgree (text : Chars) : Prop :=
  (∀ raw ∈ lines text, lineKey raw ≠ some protoKey) ∧
    ∀ raw ∈ inside none (lines text), ∀ key, lineKey raw = some key →
      ∃ other ∈ outside none (lines text), lineKey other = some key

theorem envFileKeys_iff (protoText : Chars → Chars) (text : Chars) (base : Record Chars) :
    KeysAgree protoText text base ↔ LinesAgree text := by
  have hparsed : ∀ name, name ∈ names (parseEnvFile protoText text base) ↔
      name ∈ (outside none (lines text)).filterMap lineKey ∧ name ≠ protoKey := by
    intro name
    rw [parseEnvFile, names_parseFrom, List.drop_zero]
    simp [names]
  simp only [KeysAgree, mem_envFileKeys, hparsed, List.mem_filterMap]
  constructor
  · intro h
    refine ⟨?_, ?_⟩
    · intro raw hraw hproto
      exact ((h protoKey).mp ⟨raw, hraw, hproto⟩).2 rfl
    · intro raw hraw key hkey
      exact ((h key).mp ⟨raw, (mem_lines_iff none _ raw).mpr (Or.inr hraw), hkey⟩).1
  · rintro ⟨hproto, hinside⟩ name
    constructor
    · rintro ⟨raw, hraw, hkey⟩
      refine ⟨?_, ?_⟩
      · rcases (mem_lines_iff none _ raw).mp hraw with hout | hin
        · exact ⟨raw, hout, hkey⟩
        · exact hinside raw hin name hkey
      · rintro rfl
        exact hproto raw hraw hkey
    · rintro ⟨⟨raw, hraw, hkey⟩, _⟩
      exact ⟨raw, (mem_lines_iff none _ raw).mpr (Or.inl hraw), hkey⟩

/-- A key whose text runs over three lines; the second one looks like an assignment. -/
def keyFile : Chars := "KEY=\"-----BEGIN\nQUJD=\n-----END\"".toList

/-- Its second line is reported as a name, and the parser defines no such name. -/
theorem key_text_is_reported :
    envFileKeys keyFile = ["KEY".toList, "QUJD".toList] ∧
      names (parseEnvFile (fun _ => []) keyFile []) = ["KEY".toList] ∧
      ¬ KeysAgree (fun _ => []) keyFile [] := by
  have hkeys : envFileKeys keyFile = ["KEY".toList, "QUJD".toList] := by decide
  have hparsed : names (parseEnvFile (fun _ => []) keyFile []) = ["KEY".toList] := by
    decide
  refine ⟨hkeys, hparsed, ?_⟩
  intro h
  have hname := (h "QUJD".toList).mp (by rw [hkeys]; simp)
  rw [hparsed] at hname
  revert hname
  decide

end Ccmux.Agent.Launch.EnvFile
