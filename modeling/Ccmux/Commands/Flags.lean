/- Module: Ccmux/Commands/Flags
   source: src/commands/flags.ts, src/commands/help.ts
   digest: A command line taken apart into flags, their values and arguments, and what is forwarded
     of it. -/

import Ccmux.Chat.Format

namespace Ccmux.Commands.Flags

open Ccmux.Chat.Format (utf16Length)

/-! ### What a command declares -/

inductive FlagKind where
  | boolean | string | int | list
  deriving DecidableEq, Repr

structure FlagSpec where
  name : String
  short : Option Char := none
  kind : FlagKind
  min : Option Int := none
  max : Option Int := none
  deriving DecidableEq, Repr

/-- A command: its verb, the line that tells its usage, and its flags. -/
structure Command where
  verb : String
  usageLine : String
  flags : List FlagSpec
  deriving DecidableEq, Repr

section
variable (command : Command)

/-- The letter of a flag; a one-letter name is a short flag only. -/
def letterOf (flag : FlagSpec) : Option String :=
  if utf16Length flag.name = 1 then some flag.name else flag.short.map String.singleton

def byShort (word : String) : Option FlagSpec :=
  command.flags.reverse.find? fun flag => (letterOf flag).any fun letter => "-" ++ letter == word

def byName (name : String) : Option FlagSpec :=
  command.flags.reverse.find? fun flag => flag.name == name

/-- `word.startsWith('--')` -/
def isLong (word : String) : Bool := word.toList.take 2 == ['-', '-']

/-- `word.slice(2).split('=')[0]` -/
def longName (word : String) : String :=
  String.ofList ((word.toList.drop 2).takeWhile fun c => c != '=')

/-- A message of the reader, with the line that tells the usage. -/
def usageError (message : String) : String := message ++ "\n" ++ command.usageLine

/-! ### Which words are flags -/

structure Scan where
  flagTokens : List String := []
  positionalWords : List String := []
  flagArgs : List String := []
  deriving DecidableEq, Repr

def flagOf (word : String) : Option FlagSpec :=
  if isLong word then byName command (longName word) else byShort command word

/-- The flag whose value is the next word. -/
def awaits (word : String) : Option FlagSpec :=
  (flagOf command word).filter fun flag => flag.kind != .boolean && !word.toList.contains '='

/-- The loop over the words; a value is the next word whatever it looks like, unless it is itself
a `--` flag. -/
def scan : List String → Except String Scan
  | [] => .ok {}
  | word :: rest =>
    if word = "--" then .ok { positionalWords := rest }
    else if ¬isLong word ∧ byShort command word = none then
      (scan rest).map fun s => { s with positionalWords := word :: s.positionalWords }
    else if isLong word ∧ utf16Length (longName word) = 1 then
      .error (usageError command
        ("Unknown option '" ++ word ++ "' (did you mean -" ++ longName word ++ "?)"))
    else
      match awaits command word with
      | none =>
        (scan rest).map fun s =>
          { s with flagTokens := word :: s.flagTokens, flagArgs := word :: s.flagArgs }
      | some flag =>
        match rest with
        | [] => .error (usageError command ("--" ++ flag.name ++ " needs a value"))
        | value :: rest =>
          if isLong value then .error (usageError command ("--" ++ flag.name ++ " needs a value"))
          else
            (scan rest).map fun s =>
              { s with
                flagTokens := ("--" ++ flag.name ++ "=" ++ value) :: s.flagTokens
                flagArgs := word :: value :: s.flagArgs }

/-- A flag that is not a list, given twice. -/
def givenTwice : List String → List String → Option String
  | _, [] => none
  | seen, token :: rest =>
    match flagOf command token with
    | none => givenTwice seen rest
    | some flag =>
      if flag.kind = .list then givenTwice seen rest
      else if flag.name ∈ seen then some flag.name
      else givenTwice (flag.name :: seen) rest

/-! ### The library parser, on options without positionals -/

inductive Value where
  | set
  | text (text : String)
  | texts (texts : List String)
  deriving DecidableEq, Repr

inductive Token where
  | option (name rawName : String) (value : Option String) (inline : Bool)
  | positional (arg : String)
  deriving DecidableEq, Repr

/-- The type of an option is `string`. -/
def isString (name : String) : Bool := (byName command name).any fun flag => flag.kind != .boolean

def findLongOptionForShort (letter : Char) : String :=
  ((command.flags.find? fun flag =>
    (byName command flag.name).any fun own => own.short == some letter).map FlagSpec.name).getD
      (String.singleton letter)

/-- The name and the inline value of `--name=value`. -/
def splitInline (arg : String) : Option (String × String) :=
  match arg.toList with
  | '-' :: '-' :: body =>
    if (body.drop 1).contains '=' then
      some (String.ofList (body.takeWhile fun c => c != '='),
        String.ofList ((body.dropWhile fun c => c != '=').drop 1))
    else none
  | _ => none

/-- The option of a lone `-x` or `--name`. -/
def loneOption (arg : String) : Option String :=
  match arg.toList with
  | ['-', letter] => if letter = '-' then none else some (findLongOptionForShort command letter)
  | '-' :: '-' :: body => if body = [] then none else some (String.ofList body)
  | _ => none

/-- An option that takes a text and has none inline takes the next word. -/
def argsToTokens : List String → List Token
  | [] => []
  | arg :: rest =>
    match splitInline arg with
    | some (name, value) => .option name ("--" ++ name) (some value) true :: argsToTokens rest
    | none =>
      match loneOption command arg with
      | none => .positional arg :: argsToTokens rest
      | some name =>
        if isString command name then
          match rest with
          | [] => [.option name arg none false]
          | value :: rest => .option name arg (some value) false :: argsToTokens rest
        else .option name arg none false :: argsToTokens rest

/-- `--name`, behind its letter if it has one. -/
def shortAndLong (flag : FlagSpec) : String :=
  (flag.short.map fun letter => "-" ++ String.singleton letter ++ ", ").getD "" ++ "--" ++ flag.name

/-- `values[name]`, with what another token adds to it. -/
def storeOption (flag : FlagSpec) (value : Option String) (values : List (String × Value)) :
    List (String × Value) :=
  let text := value.getD ""
  let entry : Value :=
    if flag.kind = .list then
      match values.lookup flag.name with
      | some (.texts texts) => .texts (texts ++ [text])
      | _ => .texts [text]
    else if value.isSome then .text text
    else .set
  (flag.name, entry) :: values.filter fun other => other.1 != flag.name

/-- `checkOptionUsage` and `checkOptionLikeValue`, then the store. -/
def readToken (values : List (String × Value)) : Token → Except String (List (String × Value))
  | .positional arg => .error ("Unexpected argument '" ++ arg ++
      "'. This command does not take positional arguments")
  | .option name rawName value inline =>
    match byName command name with
    | none => .error ("Unknown option '" ++ rawName ++ "'")
    | some flag =>
      if flag.kind ≠ .boolean ∧ value = none then
        .error ("Option '" ++ shortAndLong flag ++ " <value>' argument missing")
      else if flag.kind = .boolean ∧ value ≠ none then
        .error ("Option '" ++ shortAndLong flag ++ "' does not take an argument")
      else if inline = false ∧ value.any fun text =>
          decide (1 < utf16Length text) && text.toList.take 1 == ['-'] then
        .error ("Option '" ++ rawName ++ "' argument is ambiguous.")
      else .ok (storeOption flag value values)

def parseArgs (args : List String) : Except String (List (String × Value)) :=
  (argsToTokens command args).foldlM (readToken command) []

/-! ### Counts and whole numbers -/

/-- `Number(text)` where `text` is `-?\d+`. -/
def wholeNumber (text : String) : Option Int :=
  let digits (chars : List Char) : Option Nat :=
    if chars ≠ [] ∧ chars.all Char.isDigit then some (Nat.ofDigitChars 10 chars 0) else none
  match text.toList with
  | '-' :: rest => (digits rest).map fun n => -(n : Int)
  | chars => (digits chars).map fun n => (n : Int)

def maxSafeInteger : Int := 9007199254740991

/-- `String(raw)` -/
def rawText : Value → String
  | .set => "true"
  | .text text => text
  | .texts texts => String.intercalate "," texts

def boundText (word : String) (bound : Option Int) : String :=
  (bound.map fun n => word ++ toString n).getD ""

/-- The whole number of a flag, within the flag's bounds and those of a double. -/
def readInt (flag : FlagSpec) (raw : Value) : Except String Int :=
  match (wholeNumber (rawText raw)).filter fun n =>
      decide (-maxSafeInteger ≤ n ∧ n ≤ maxSafeInteger ∧
        flag.min.getD (-maxSafeInteger) ≤ n ∧ n ≤ flag.max.getD maxSafeInteger) with
  | some n => .ok n
  | none => .error (usageError command ("--" ++ flag.name ++ " expects a whole number" ++
      boundText " from " flag.min ++ boundText " to " flag.max ++ ", got '" ++ rawText raw ++ "'"))

def readInts (values : List (String × Value)) :
    List FlagSpec → List (String × Int) → Except String (List (String × Int))
  | [], ints => .ok ints
  | flag :: rest, ints =>
    if flag.kind ≠ .int then readInts values rest ints
    else
      match values.lookup flag.name with
      | none => readInts values rest ints
      | some raw =>
        match readInt command flag raw with
        | .error message => .error message
        | .ok n => readInts values rest ((flag.name, n) :: ints)

structure ParsedFlags where
  positionals : List String
  flagArgs : List String
  values : List (String × Value)
  ints : List (String × Int)
  deriving DecidableEq, Repr

/-- How many positionals a command takes, inclusive; `none` is any number. -/
structure Arity where
  min : Nat := 0
  max : Option Nat := none
  deriving DecidableEq, Repr

def checkTwice (tokens : List String) : Except String Unit :=
  match givenTwice command [] tokens with
  | some name => .error (usageError command ("--" ++ name ++ " given twice"))
  | none => .ok ()

def checkCount (arity : Arity) (positionals : List String) : Except String Unit :=
  if positionals.length < arity.min then
    .error (usageError command ("missing " ++
      (if arity.max = some arity.min then "" else "a required ") ++ "argument"))
  else
    match arity.max.filter fun most => decide (most < positionals.length) with
    | some most => .error (usageError command
        ("unexpected argument '" ++ (positionals[most]?).getD "" ++ "'"))
    | none => .ok ()

/-- What is made of the words once it is settled which of them are flags. -/
def readScan (arity : Arity) (s : Scan) : Except String ParsedFlags := do
  checkTwice command s.flagTokens
  let values ← (parseArgs command s.flagTokens).mapError (usageError command)
  checkCount command arity s.positionalWords
  let ints ← readInts command values command.flags []
  return ⟨s.positionalWords, s.flagArgs, values, ints⟩

def parseFlags (arity : Arity) (args : List String) : Except String ParsedFlags :=
  scan command args >>= readScan command arity

/-! ### Reading a flag -/

def declared (name : String) : Except String Unit :=
  if (byName command name).isSome then .ok ()
  else .error ("'" ++ command.verb ++ "' reads --" ++ name ++ ", which its spec does not declare")

def ParsedFlags.bool (p : ParsedFlags) (name : String) : Except String Bool := do
  declared command name
  return p.values.lookup name == some .set

def ParsedFlags.str (p : ParsedFlags) (name : String) : Except String (Option String) := do
  declared command name
  match p.values.lookup name with
  | some (.text text) => return some text
  | _ => return none

def ParsedFlags.int (p : ParsedFlags) (name : String) : Except String (Option Int) := do
  declared command name
  return p.ints.lookup name

/-- `item.split(',')`, without empty pieces. -/
def splitCommas (item : String) : List String :=
  ((item.toList.splitOn ',').filter fun piece => piece != []).map String.ofList

def ParsedFlags.list (p : ParsedFlags) (name : String) : Except String (List String) := do
  declared command name
  match p.values.lookup name with
  | some (.texts texts) => return texts.flatMap splitCommas
  | _ => return []

end

/-! ### What the words of a line are -/

inductive Role where
  | positional | flag | value | marker
  deriving DecidableEq, Repr

/-- The words with one role each: a flag that reads a value has it right behind, and behind the
first `--` there are only arguments. -/
inductive Classified (command : Command) : List (Role × String) → Prop where
  | nil : Classified command []
  | marker (rest : List String) :
      Classified command ((.marker, "--") :: rest.map fun word => (.positional, word))
  | positional {word : String} {words : List (Role × String)} (hlong : isLong word = false)
      (hshort : byShort command word = none) (hrest : Classified command words) :
      Classified command ((.positional, word) :: words)
  | flag {word : String} {words : List (Role × String)}
      (hflag : isLong word = true ∨ byShort command word ≠ none) (hmarker : word ≠ "--")
      (halone : awaits command word = none) (hrest : Classified command words) :
      Classified command ((.flag, word) :: words)
  | valued {word value : String} {flag : FlagSpec} {words : List (Role × String)}
      (hflag : isLong word = true ∨ byShort command word ≠ none) (hmarker : word ≠ "--")
      (hawaits : awaits command word = some flag) (hvalue : isLong value = false)
      (hrest : Classified command words) :
      Classified command ((.flag, word) :: (.value, value) :: words)

def wordsOf (roles : List Role) (words : List (Role × String)) : List String :=
  (words.filter fun word => word.1 ∈ roles).map Prod.snd

section
variable {command : Command}

@[simp] theorem wordsOf_nil (roles : List Role) : wordsOf roles [] = [] := rfl

theorem wordsOf_cons (roles : List Role) (role : Role) (word : String)
    (words : List (Role × String)) :
    wordsOf roles ((role, word) :: words) =
      if role ∈ roles then word :: wordsOf roles words else wordsOf roles words := by
  unfold wordsOf
  rw [List.filter_cons]
  split <;> simp_all

theorem wordsOf_arguments (roles : List Role) (rest : List String) :
    wordsOf roles (rest.map fun word => (.positional, word)) =
      if Role.positional ∈ roles then rest else [] := by
  induction rest with
  | nil => simp
  | cons word rest ih =>
    rw [List.map_cons, wordsOf_cons, ih]
    split <;> rfl

variable {ε α β : Type} {args : List String}

theorem ok_of_map {f : α → β} {r : Except ε α} {b : β} (h : r.map f = .ok b) :
    ∃ a, r = .ok a ∧ f a = b := by
  cases r with
  | error e => cases h
  | ok a => exact ⟨a, rfl, Except.ok.inj h⟩

theorem isFlag_of {word : String} (h : ¬(¬isLong word = true ∧ byShort command word = none)) :
    isLong word = true ∨ byShort command word ≠ none := by
  by_cases hlong : isLong word = true
  · exact .inl hlong
  · exact .inr fun hnone => h ⟨hlong, hnone⟩

structure Reads (command : Command) (args : List String) (s : Scan)
    (words : List (Role × String)) : Prop where
  classified : Classified command words
  all : words.map Prod.snd = args
  positionals : s.positionalWords = wordsOf [.positional] words
  forwarded : s.flagArgs = wordsOf [.flag, .value] words

variable {s : Scan}

theorem scan_reads (h : scan command args = .ok s) :
    ∃ words, Reads command args s words := by
  fun_induction scan command args generalizing s with
  | case1 =>
    obtain rfl := Except.ok.inj h
    exact ⟨[], .nil, rfl, rfl, rfl⟩
  | case2 rest =>
    obtain rfl := Except.ok.inj h
    refine ⟨_, .marker rest, ?_, ?_, ?_⟩
    · simp
    · rw [wordsOf_cons, wordsOf_arguments]
      rfl
    · rw [wordsOf_cons, wordsOf_arguments]
      rfl
  | case3 word rest hmarker hword ih =>
    obtain ⟨later, hlater, rfl⟩ := ok_of_map h
    obtain ⟨words, hwords⟩ := ih hlater
    have hlong : isLong word = false := by simpa using hword.1
    refine ⟨(.positional, word) :: words, .positional hlong hword.2 hwords.classified, ?_, ?_, ?_⟩
    · rw [List.map_cons, hwords.all]
    · rw [wordsOf_cons, hwords.positionals]
      rfl
    · rw [wordsOf_cons, hwords.forwarded]
      rfl
  | case4 | case6 | case7 => cases h
  | case5 word rest hmarker hword hletter halone ih =>
    obtain ⟨later, hlater, rfl⟩ := ok_of_map h
    obtain ⟨words, hwords⟩ := ih hlater
    have hflag := isFlag_of hword
    refine ⟨(.flag, word) :: words, .flag hflag hmarker halone hwords.classified, ?_, ?_, ?_⟩
    · rw [List.map_cons, hwords.all]
    · rw [wordsOf_cons, hwords.positionals]
      rfl
    · rw [wordsOf_cons, hwords.forwarded]
      rfl
  | case8 word hmarker hword hletter flag hawaits value rest hvalue ih =>
    obtain ⟨later, hlater, rfl⟩ := ok_of_map h
    obtain ⟨words, hwords⟩ := ih hlater
    have hflag := isFlag_of hword
    have hshort : isLong value = false := by simpa using hvalue
    refine ⟨(.flag, word) :: (.value, value) :: words,
      .valued hflag hmarker hawaits hshort hwords.classified, ?_, ?_, ?_⟩
    · rw [List.map_cons, List.map_cons, hwords.all]
    · rw [wordsOf_cons, wordsOf_cons, hwords.positionals]
      rfl
    · rw [wordsOf_cons, wordsOf_cons, hwords.forwarded]
      rfl

/-- The words that are forwarded are read again as they were, each with its value behind it,
whatever arguments follow them. -/
theorem scan_forwarded (h : scan command args = .ok s)
    (behind : List String) :
    scan command (s.flagArgs ++ "--" :: behind) = .ok { s with positionalWords := behind } := by
  fun_induction scan command args generalizing s with
  | case1 =>
    obtain rfl := Except.ok.inj h
    simp [scan]
  | case2 rest =>
    obtain rfl := Except.ok.inj h
    simp [scan]
  | case3 word rest hmarker hword ih =>
    obtain ⟨later, hlater, rfl⟩ := ok_of_map h
    have hrest := ih hlater
    exact hrest
  | case4 | case6 | case7 => cases h
  | case5 word rest hmarker hword hletter halone ih =>
    obtain ⟨later, hlater, rfl⟩ := ok_of_map h
    have hrest := ih hlater
    show scan command (word :: (later.flagArgs ++ "--" :: behind)) = _
    rw [scan, if_neg hmarker, if_neg hword, if_neg hletter, halone]
    simp only [hrest, Except.map]
  | case8 word hmarker hword hletter flag hawaits value rest hvalue ih =>
    obtain ⟨later, hlater, rfl⟩ := ok_of_map h
    have hrest := ih hlater
    show scan command (word :: value :: (later.flagArgs ++ "--" :: behind)) = _
    rw [scan, if_neg hmarker, if_neg hword, if_neg hletter, hawaits]
    simp only [if_neg hvalue, hrest, Except.map]

theorem ok_of_bind {r : Except ε α} {f : α → Except ε β} {b : β} (h : (r >>= f) = .ok b) :
    ∃ a, r = .ok a ∧ f a = .ok b := by
  cases r with
  | error e => cases h
  | ok a => exact ⟨a, rfl, h⟩

theorem readScan_ok {arity : Arity} {p : ParsedFlags} (h : readScan command arity s = .ok p) :
    p.positionals = s.positionalWords ∧ p.flagArgs = s.flagArgs := by
  unfold readScan at h
  obtain ⟨_, -, h⟩ := ok_of_bind h
  obtain ⟨values, -, h⟩ := ok_of_bind h
  obtain ⟨_, -, h⟩ := ok_of_bind h
  obtain ⟨ints, -, h⟩ := ok_of_bind h
  obtain rfl := Except.ok.inj h
  exact ⟨rfl, rfl⟩

/-- An accepted line is classified word by word, and what is forwarded of it is read as the line
itself: the same arguments, the same values, the same to forward. -/
theorem parseFlags_forwarded {arity : Arity} {args : List String} {p : ParsedFlags}
    (h : parseFlags command arity args = .ok p) :
    (∃ words, Classified command words ∧ words.map Prod.snd = args ∧
      p.positionals = wordsOf [.positional] words ∧ p.flagArgs = wordsOf [.flag, .value] words) ∧
    parseFlags command arity (p.flagArgs ++ "--" :: p.positionals) = .ok p := by
  obtain ⟨s, hscan, hread⟩ := ok_of_bind h
  obtain ⟨hpositionals, hforwarded⟩ := readScan_ok hread
  obtain ⟨words, hreads⟩ := scan_reads hscan
  refine ⟨⟨words, hreads.classified, hreads.all, ?_, ?_⟩, ?_⟩
  · rw [hpositionals, hreads.positionals]
  · rw [hforwarded, hreads.forwarded]
  · rw [hpositionals, hforwarded, parseFlags, scan_forwarded hscan]
    exact hread

/-- A command with a pattern to look for, a bound and a switch. -/
def transcript : Command where
  verb := "transcript"
  usageLine := "usage: ccmux transcript <name>"
  flags := [{ name := "grep", kind := .string },
    { name := "fixed-strings", short := some 'F', kind := .boolean },
    { name := "tail", kind := .int, min := some 1 }]

theorem parseFlags_forwarded_transcript :
    ∃ p, parseFlags transcript { min := 1, max := some 2 }
        ["api", "--grep", "-x", "-F", "--", "--tail"] = .ok p ∧
      (∃ words, Classified transcript words ∧
        words.map Prod.snd = ["api", "--grep", "-x", "-F", "--", "--tail"] ∧
        p.positionals = wordsOf [.positional] words ∧ p.flagArgs = wordsOf [.flag, .value] words) ∧
      parseFlags transcript { min := 1, max := some 2 } (p.flagArgs ++ "--" :: p.positionals) =
        .ok p := by
  have hread : parseFlags transcript { min := 1, max := some 2 }
      ["api", "--grep", "-x", "-F", "--", "--tail"] = .ok ⟨["api", "--tail"], ["--grep", "-x", "-F"],
        [("fixed-strings", .set), ("grep", .text "-x")], []⟩ := by decide
  exact ⟨_, hread, parseFlags_forwarded hread⟩

/-- The marker is neither an argument nor forwarded. -/
theorem marker_has_no_role :
    ∃ p, parseFlags transcript {} ["--"] = .ok p ∧ "--" ∉ p.positionals ∧ "--" ∉ p.flagArgs := by
  refine ⟨⟨[], [], [], []⟩, rfl, List.not_mem_nil, List.not_mem_nil⟩

end

end Ccmux.Commands.Flags
