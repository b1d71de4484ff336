/- Module: Ccmux/Chat/Auth
   source: src/chat/auth.ts, src/util/procStat.ts
   digest: Whether a process descends from an authenticated remote transport, as the process tree
     tells it. -/

import Ccmux.Chat.LogFeed

namespace Ccmux.Chat.Auth

open Ccmux.Chat.LogFeed (isSpace)

abbrev Text := List Char

/-! ### Reading a process -/

/-- `Number.MAX_SAFE_INTEGER` -/
def maxSafeInteger : Nat := 9007199254740991

/-- The parent behind the command: the second word, if it is a number. -/
def parentIn (suffix : Text) : Option Nat :=
  match (suffix.splitOnP isSpace).filter fun word => word ≠ [] with
  | _ :: digits :: _ =>
    if digits.all Char.isDigit then
      (some (Nat.ofDigitChars 10 digits 0)).filter fun n => decide (n ≤ maxSafeInteger)
    else none
  | _ => none

/-- `parseProcessStat`: the command is taken from the first `(` to the last `)`. -/
def parseProcessStat (raw : Text) : Option (Nat × Text) :=
  match raw.dropWhile fun c => c != '(' with
  | [] => none
  | _ :: inside =>
    match inside.reverse.dropWhile fun c => c != ')' with
    | [] => none
    | _ :: command =>
      let suffix := (inside.reverse.takeWhile fun c => c != ')').reverse
      (parentIn suffix).map fun parent => (parent, command.reverse)

structure ProcEntry where
  parent : Nat
  command : Text
  args : Text
  deriving DecidableEq, Repr

/-- `entry.command === 'sshd' || entry.command.startsWith('sshd:')` -/
def isSshd (command : Text) : Bool :=
  command == "sshd".toList || command.take 5 == "sshd:".toList

/-- The argument vector as one text, without its empty arguments. -/
def readCmdline (raw : Option Text) : Text :=
  match raw with
  | none => []
  | some raw => [' '].intercalate ((raw.splitOn '\x00').filter fun s => s ≠ [])

/-- What `/proc` holds of a process; `none` cannot be read. -/
structure Proc where
  stat : Nat → Option Text
  cmdline : Nat → Option Text

def procParent (proc : Proc) (pid : Nat) : Option ProcEntry :=
  ((proc.stat pid).bind parseProcessStat).map fun (parent, command) =>
    { parent, command, args := if isSshd command then [] else readCmdline (proc.cmdline pid) }

/-! ### The walk -/

structure TrustedAncestor where
  executable : Text
  argument : Text
  deriving DecidableEq, Repr

/-- `args.split(/\s+/)` -/
def splitBlanks (args : Text) : List Text :=
  match _h : args.dropWhile fun c => !isSpace c with
  | [] => [args]
  | _ :: rest => (args.takeWhile fun c => !isSpace c) :: splitBlanks (rest.dropWhile isSpace)
termination_by args.length
decreasing_by
  have hrest := congrArg List.length _h
  have hwhole := (List.dropWhile_sublist (l := args) fun c => !isSpace c).length_le
  have hless := (List.dropWhile_sublist (l := rest) isSpace).length_le
  simp only [List.length_cons] at hrest
  omega

def isTrustedRemoteAncestor (args : Text) (trusted : Option TrustedAncestor) : Bool :=
  match trusted with
  | none => false
  | some trusted =>
    args != [] && (splitBlanks args).contains trusted.executable &&
      (splitBlanks args).contains trusted.argument

inductive RemoteTransport where
  | ssh | remote
  deriving DecidableEq, Repr

/-- The loop over the ancestors, the nearest first; `depth` is how many it still looks at. -/
def walk (proc : Proc) (trusted : Option TrustedAncestor) : Nat → Nat → Option RemoteTransport
  | 0, _ => none
  | depth + 1, pid =>
    if pid ≤ 1 then none
    else
      match procParent proc pid with
      | none => none
      | some entry =>
        if isSshd entry.command then some .ssh
        else if isTrustedRemoteAncestor entry.args trusted then some .remote
        else if entry.parent = 0 ∨ entry.parent = pid then none
        else walk proc trusted depth entry.parent

def maxDepth : Nat := 16

def remoteTransportAncestor (proc : Proc) (trusted : Option TrustedAncestor) (startPid : Nat) :
    Option RemoteTransport :=
  walk proc trusted maxDepth startPid

/-! ### A process tree -/

/-- A process: its name, its parent, and its argument vector. `tail` is what its `stat` line holds
behind the parent: numbers, each with a blank before it. -/
structure Process where
  comm : Text
  state : Char
  ppid : Nat
  tail : Text
  argv : List Text
  state_plain : isSpace state = false ∧ state ≠ ')'
  ppid_le : ppid ≤ 4194304
  tail_blank : tail.head?.all isSpace = true
  tail_plain : ')' ∉ tail
  argv_plain : ∀ arg ∈ argv, '\x00' ∉ arg

/-- Any tree, with cycles or not; `none` is no process. -/
abbrev Tree := Nat → Option Process

/-- `pid (comm) state ppid …` -/
def Process.statLine (p : Process) (pid : Nat) : Text :=
  Nat.toDigits 10 pid ++ ' ' :: '(' :: (p.comm ++ ')' :: ' ' :: p.state :: ' ' ::
    (Nat.toDigits 10 p.ppid ++ p.tail))

/-- Each argument with a `NUL` behind it. -/
def Process.cmdline (p : Process) : Text := p.argv.flatMap fun arg => arg ++ ['\x00']

/-- `/proc` as it shows a tree. -/
def procOf (t : Tree) : Proc where
  stat pid := (t pid).map fun p => p.statLine pid
  cmdline pid := (t pid).map Process.cmdline

/-- The first ancestors, the nearest first, each with its number. -/
def ancestors (t : Tree) : Nat → Nat → List (Nat × Process)
  | 0, _ => []
  | n + 1, pid =>
    match t pid with
    | none => []
    | some p => (pid, p) :: ancestors t n p.ppid

/-! ### What is read of it -/

theorem splitOn_arguments {argv : List Text} (h : ∀ arg ∈ argv, '\x00' ∉ arg) :
    (argv.flatMap fun arg => arg ++ ['\x00']).splitOn '\x00' = argv ++ [[]] := by
  induction argv with
  | nil => rfl
  | cons arg rest ih =>
    obtain ⟨harg, hrest⟩ := List.forall_mem_cons.mp h
    rw [List.flatMap_cons, List.append_assoc, List.singleton_append,
      List.splitOn_append_cons_self_of_not_mem harg, ih hrest, List.cons_append]

/-- The text of a process's arguments: those that are not empty, with blanks between them. -/
def argsOf (p : Process) : Text := [' '].intercalate (p.argv.filter fun arg => arg ≠ [])

theorem readCmdline_cmdline (p : Process) : readCmdline (some p.cmdline) = argsOf p := by
  show [' '].intercalate ((p.cmdline.splitOn '\x00').filter fun s => s ≠ []) = _
  rw [Process.cmdline, splitOn_arguments p.argv_plain, List.filter_append]
  simp [argsOf]

/-- The parent is the second word, whatever numbers follow it. -/
theorem parentIn_statLine (p : Process) :
    parentIn (' ' :: p.state :: ' ' :: (Nat.toDigits 10 p.ppid ++ p.tail)) = some p.ppid := by
  have hdigits : ∀ c ∈ Nat.toDigits 10 p.ppid, c.isDigit = true := fun c hc =>
    Nat.isDigit_of_mem_toDigits (by decide) (by decide) hc
  have hplain : ∀ c ∈ Nat.toDigits 10 p.ppid, isSpace c = false := fun c hc =>
    LogFeed.isSpace_digit (hdigits c hc)
  have hnumber : ∃ more, (Nat.toDigits 10 p.ppid ++ p.tail).splitOnP isSpace =
      Nat.toDigits 10 p.ppid :: more := by
    cases htail : p.tail with
    | nil =>
      rw [List.append_nil]
      exact ⟨[], List.splitOnP_eq_singleton hplain⟩
    | cons sep rest =>
      have hsep : isSpace sep = true := by
        have hblank := p.tail_blank
        rw [htail] at hblank
        simpa using hblank
      exact ⟨_, List.splitOnP_append_cons_of_forall_mem hplain sep hsep rest⟩
  obtain ⟨more, hmore⟩ := hnumber
  have hstate : ∀ c ∈ [p.state], isSpace c = false := by
    simpa using p.state_plain.1
  have hsplit : (' ' :: p.state :: ' ' :: (Nat.toDigits 10 p.ppid ++ p.tail)).splitOnP isSpace =
      [] :: [p.state] :: Nat.toDigits 10 p.ppid :: more := by
    have hblank : isSpace ' ' = true := by decide
    have hnone : ∀ c ∈ ([] : Text), isSpace c = false := by simp
    have hfirst := List.splitOnP_append_cons_of_forall_mem hnone ' ' hblank
      (p.state :: ' ' :: (Nat.toDigits 10 p.ppid ++ p.tail))
    have hsecond := List.splitOnP_append_cons_of_forall_mem hstate ' ' hblank
      (Nat.toDigits 10 p.ppid ++ p.tail)
    rw [List.nil_append] at hfirst
    rw [List.singleton_append] at hsecond
    rw [hfirst, hsecond, hmore]
  have hle : p.ppid ≤ maxSafeInteger := p.ppid_le.trans (by decide)
  have hsome : Nat.toDigits 10 p.ppid ≠ [] := Nat.toDigits_ne_nil
  unfold parentIn
  rw [hsplit]
  simp [hsome, List.all_eq_true.mpr hdigits, Nat.ofDigitChars_ten_toDigits, hle]

/-- The command of a process is its name, whatever the name imitates. -/
theorem parseProcessStat_statLine (p : Process) (pid : Nat) :
    parseProcessStat (p.statLine pid) = some (p.ppid, p.comm) := by
  have hpid : ∀ c ∈ Nat.toDigits 10 pid, c ≠ '(' := by
    rintro c hc rfl
    exact absurd (Nat.isDigit_of_mem_toDigits (by decide) (by decide) hc) (by decide)
  have hppid : ')' ∉ Nat.toDigits 10 p.ppid := fun hc =>
    absurd (Nat.isDigit_of_mem_toDigits (by decide) (by decide) hc) (by decide)
  let suffix := ' ' :: p.state :: ' ' :: (Nat.toDigits 10 p.ppid ++ p.tail)
  have hclose : ∀ c ∈ suffix.reverse, (c != ')') = true := by
    intro c hc
    have hmem : c ∈ suffix := List.mem_reverse.mp hc
    rw [bne_iff_ne]
    rintro rfl
    simp only [suffix, List.mem_cons, List.mem_append] at hmem
    rcases hmem with h | h | h | h | h
    · cases h
    · exact p.state_plain.2 h.symm
    · cases h
    · exact hppid h
    · exact p.tail_plain h
  have hopen : (p.statLine pid).dropWhile (fun c => c != '(') =
      '(' :: (p.comm ++ ')' :: suffix) := by
    have hfront : ∀ c ∈ Nat.toDigits 10 pid, (c != '(') = true := fun c hc =>
      bne_iff_ne.mpr (hpid c hc)
    rw [Process.statLine, List.dropWhile_append_of_pos hfront]
    rfl
  have hreverse : (p.comm ++ ')' :: suffix).reverse = suffix.reverse ++ ')' :: p.comm.reverse := by
    simp
  have hdrop : (p.comm ++ ')' :: suffix).reverse.dropWhile (fun c => c != ')') =
      ')' :: p.comm.reverse := by
    rw [hreverse, List.dropWhile_append_of_pos hclose]
    rfl
  have htake : (p.comm ++ ')' :: suffix).reverse.takeWhile (fun c => c != ')') =
      suffix.reverse := by
    rw [hreverse, List.takeWhile_append_of_pos hclose]
    simp
  unfold parseProcessStat
  rw [hopen]
  dsimp only
  rw [hdrop, htake]
  dsimp only
  rw [List.reverse_reverse, List.reverse_reverse, parentIn_statLine]
  rfl

theorem procParent_procOf (t : Tree) (pid : Nat) :
    procParent (procOf t) pid = (t pid).map fun p =>
      { parent := p.ppid, command := p.comm,
        args := if isSshd p.comm then [] else argsOf p } := by
  cases hp : t pid with
  | none => simp [procParent, procOf, hp]
  | some p => simp [procParent, procOf, hp, parseProcessStat_statLine, readCmdline_cmdline]

/-! ### What the walk finds -/

/-- Both texts are among the words of the process's arguments. -/
def Looks (trusted : TrustedAncestor) (p : Process) : Prop :=
  isTrustedRemoteAncestor (argsOf p) (some trusted) = true

/-- Both texts are whole arguments of the process. -/
def IsTrusted (trusted : TrustedAncestor) (p : Process) : Prop :=
  trusted.executable ∈ p.argv ∧ trusted.argument ∈ p.argv

/-- One of these ancestors is so, and none of those nearer is sshd. -/
def Before (chain : List (Nat × Process)) (P : Process → Prop) : Prop :=
  ∃ front pid p behind, chain = front ++ (pid, p) :: behind ∧ P p ∧
    ∀ nearer ∈ front, isSshd nearer.2.comm = false

/-- The ancestors that the walk may look at: those ahead of the first with number 0 or 1. -/
def inReach (chain : List (Nat × Process)) : List (Nat × Process) :=
  chain.takeWhile fun ancestor => decide (1 < ancestor.1)

/-- An ancestor that the walk may look at passes for the trusted one. -/
def Passes (t : Tree) (trusted : TrustedAncestor) (startPid : Nat) : Prop :=
  Before (inReach (ancestors t maxDepth startPid)) fun p =>
    isSshd p.comm = false ∧ Looks trusted p

/-- What an answer says of the ancestors. -/
def Justified (t : Tree) (trusted : Option TrustedAncestor) (startPid : Nat) :
    Option RemoteTransport → Prop
  | some .remote => ∃ declared, trusted = some declared ∧
      Before (ancestors t maxDepth startPid) (IsTrusted declared)
  | some .ssh => ∃ ancestor ∈ ancestors t maxDepth startPid, isSshd ancestor.2.comm = true
  | none => True

/-! ### The words of the arguments -/

variable {word : Text}

theorem splitBlanks_plain (h : ∀ c ∈ word, isSpace c = false) :
    splitBlanks word = [word] := by
  have hnone : word.dropWhile (fun c => !isSpace c) = [] :=
    List.dropWhile_eq_nil_iff.mpr fun c hc => by simp [h c hc]
  rw [splitBlanks]
  split
  · rfl
  · rename_i hrest
    rw [hnone] at hrest
    cases hrest

theorem splitBlanks_append {rest : Text} {sep : Char} (h : ∀ c ∈ word, isSpace c = false)
    (hsep : isSpace sep = true) :
    splitBlanks (word ++ sep :: rest) = word :: splitBlanks (rest.dropWhile isSpace) := by
  have hplain : ∀ c ∈ word, (!isSpace c) = true := fun c hc => by simp [h c hc]
  have hdrop : (word ++ sep :: rest).dropWhile (fun c => !isSpace c) = sep :: rest := by
    rw [List.dropWhile_append_of_pos hplain]
    simp [hsep]
  have htake : (word ++ sep :: rest).takeWhile (fun c => !isSpace c) = word := by
    rw [List.takeWhile_append_of_pos hplain]
    simp [hsep]
  rw [splitBlanks]
  split
  · rename_i hrest
    rw [hdrop] at hrest
    cases hrest
  · rename_i hrest
    rw [hdrop] at hrest
    obtain ⟨-, rfl⟩ := List.cons.inj hrest
    rw [htake]

/-- Words with single blanks between them are found again. -/
theorem splitBlanks_intercalate {words : List Text} (hsome : words ≠ [])
    (hplain : ∀ word ∈ words, word ≠ [] ∧ ∀ c ∈ word, isSpace c = false) :
    splitBlanks ([' '].intercalate words) = words := by
  induction words with
  | nil => exact absurd rfl hsome
  | cons word rest ih =>
    obtain ⟨⟨-, hword⟩, hrest⟩ := List.forall_mem_cons.mp hplain
    cases rest with
    | nil =>
      have hone : [' '].intercalate [word] = word := by simp [List.intercalate]
      rw [hone]
      exact splitBlanks_plain hword
    | cons next rest =>
      have hmore : [' '].intercalate (word :: next :: rest) =
          word ++ ' ' :: [' '].intercalate (next :: rest) := by
        simp [List.intercalate]
      have hstart : ([' '].intercalate (next :: rest)).dropWhile isSpace =
          [' '].intercalate (next :: rest) := by
        obtain ⟨⟨hnext, hnextPlain⟩, -⟩ := List.forall_mem_cons.mp hrest
        cases next with
        | nil => exact absurd rfl hnext
        | cons c more =>
          have hc : isSpace c = false := hnextPlain c List.mem_cons_self
          cases rest <;> simp [List.intercalate, hc]
      rw [hmore, splitBlanks_append hword (by decide), hstart, ih (List.cons_ne_nil _ _) hrest]

/-- Where no argument holds a blank, the words are the arguments. -/
theorem looks_iff_isTrusted {trusted : TrustedAncestor} {p : Process}
    (hplain : ∀ arg ∈ p.argv, ∀ c ∈ arg, isSpace c = false)
    (htrusted : trusted.executable ≠ [] ∧ trusted.argument ≠ []) :
    Looks trusted p ↔ IsTrusted trusted p := by
  unfold Looks isTrustedRemoteAncestor IsTrusted argsOf
  have hfilter : ∀ {text : Text}, text ≠ [] →
      (text ∈ p.argv.filter (fun arg => arg ≠ []) ↔ text ∈ p.argv) := by
    intro text htext
    simp [List.mem_filter, htext]
  have hwords : ∀ word ∈ p.argv.filter (fun arg => arg ≠ []),
      word ≠ [] ∧ ∀ c ∈ word, isSpace c = false := by
    intro word hword
    obtain ⟨hmem, hne⟩ := List.mem_filter.mp hword
    exact ⟨of_decide_eq_true hne, hplain word hmem⟩
  rw [← hfilter htrusted.1, ← hfilter htrusted.2]
  cases hall : p.argv.filter (fun arg => arg ≠ []) with
  | nil => simp [List.intercalate]
  | cons first rest =>
    rw [hall] at hwords
    have hne : [' '].intercalate (first :: rest) ≠ [] := by
      have hfirst := (hwords first List.mem_cons_self).1
      cases rest <;> simp [List.intercalate, hfirst]
    simp [splitBlanks_intercalate (List.cons_ne_nil first rest) hwords, hne]

section
variable {t : Tree} {trusted : Option TrustedAncestor}

variable {pid : Nat} {p : Process}

variable {chain : List (Nat × Process)} {P : Process → Prop}

theorem before_cons :
    Before ((pid, p) :: chain) P ↔ P p ∨ isSshd p.comm = false ∧ Before chain P := by
  constructor
  · rintro ⟨front, pid', q, behind, hchain, hq, hfront⟩
    cases front with
    | nil =>
      obtain ⟨heq, -⟩ := List.cons.inj hchain
      obtain ⟨rfl, rfl⟩ := Prod.mk.inj heq
      exact .inl hq
    | cons first front =>
      obtain ⟨heq, hrest⟩ := List.cons.inj hchain
      subst heq
      refine .inr ⟨hfront _ List.mem_cons_self, front, pid', q, behind, hrest, hq, ?_⟩
      exact fun nearer hnearer => hfront nearer (List.mem_cons_of_mem _ hnearer)
  · rintro (hp | ⟨hsshd, front, pid', q, behind, rfl, hq, hfront⟩)
    · exact ⟨[], pid, p, chain, rfl, hp, fun _ h => absurd h List.not_mem_nil⟩
    · refine ⟨(pid, p) :: front, pid', q, behind, rfl, hq, ?_⟩
      exact List.forall_mem_cons.mpr ⟨hsshd, hfront⟩

theorem not_before_nil : ¬ Before [] P := by
  rintro ⟨front, pid, p, behind, hchain, -⟩
  cases front <;> cases hchain

theorem ancestors_self (hp : t pid = some p) (hself : p.ppid = pid)
    (n : Nat) : ∀ ancestor ∈ ancestors t n pid, ancestor = (pid, p) := by
  induction n with
  | zero => simp [ancestors]
  | succ n ih =>
    simp only [ancestors, hp, hself]
    exact List.forall_mem_cons.mpr ⟨rfl, ih⟩

theorem inReach_cons (h : 1 < pid) :
    inReach ((pid, p) :: chain) = (pid, p) :: inReach chain := by
  simp [inReach, h]

theorem inReach_low (h : pid ≤ 1) (n : Nat) : inReach (ancestors t n pid) = [] := by
  cases n with
  | zero => rfl
  | succ n =>
    simp only [ancestors]
    split
    · rfl
    · simp [inReach, h]

/-- The walk answers `remote` exactly when an ancestor in reach passes for the trusted one. -/
theorem walk_remote_iff (depth pid : Nat) :
    walk (procOf t) trusted depth pid = some .remote ↔ ∃ declared, trusted = some declared ∧
      Before (inReach (ancestors t depth pid)) fun p =>
        isSshd p.comm = false ∧ Looks declared p := by
  induction depth generalizing pid with
  | zero =>
    constructor
    · intro h
      cases h
    · rintro ⟨_, -, hbefore⟩
      exact absurd hbefore not_before_nil
  | succ depth ih =>
    rw [walk]
    by_cases hlow : pid ≤ 1
    · rw [if_pos hlow, inReach_low hlow]
      simp [not_before_nil]
    · rw [if_neg hlow, procParent_procOf]
      cases hp : t pid with
      | none =>
        have hnone : ancestors t (depth + 1) pid = [] := by simp [ancestors, hp]
        rw [hnone]
        simp [inReach, not_before_nil]
      | some p =>
        have hchain : inReach (ancestors t (depth + 1) pid) =
            (pid, p) :: inReach (ancestors t depth p.ppid) := by
          simp only [ancestors, hp]
          exact inReach_cons (by omega)
        simp only [Option.map_some, hchain, before_cons]
        cases hsshd : isSshd p.comm with
        | true => simp
        | false =>
          by_cases hlooks : ∃ declared, trusted = some declared ∧ Looks declared p
          · obtain ⟨declared, rfl, hlook⟩ := hlooks
            have hpasses : isTrustedRemoteAncestor (argsOf p) (some declared) = true := hlook
            simp [hpasses, hlook]
          · have hfails : isTrustedRemoteAncestor (argsOf p) trusted = false := by
              cases trusted with
              | none => rfl
              | some declared =>
                rw [Bool.eq_false_iff]
                exact fun hlook => hlooks ⟨declared, rfl, hlook⟩
            have hnot : ∀ declared, trusted = some declared → ¬ Looks declared p :=
              fun declared hdeclared hlook => hlooks ⟨declared, hdeclared, hlook⟩
            have hrest : (∃ declared, trusted = some declared ∧
                  (false = false ∧ Looks declared p ∨ false = false ∧
                    Before (inReach (ancestors t depth p.ppid)) fun p =>
                      isSshd p.comm = false ∧ Looks declared p)) ↔
                ∃ declared, trusted = some declared ∧
                  Before (inReach (ancestors t depth p.ppid)) fun p =>
                    isSshd p.comm = false ∧ Looks declared p := by
              constructor
              · rintro ⟨declared, hdeclared, ⟨-, hlook⟩ | ⟨-, hbefore⟩⟩
                · exact absurd hlook (hnot declared hdeclared)
                · exact ⟨declared, hdeclared, hbefore⟩
              · rintro ⟨declared, hdeclared, hbefore⟩
                exact ⟨declared, hdeclared, .inr ⟨rfl, hbefore⟩⟩
            rw [hrest]
            simp only [Bool.false_eq_true, if_false, hfails]
            by_cases hstop : p.ppid = 0 ∨ p.ppid = pid
            · rw [if_pos hstop]
              refine ⟨nofun, ?_⟩
              rintro ⟨declared, hdeclared, hbefore⟩
              rcases hstop with hzero | hself
              · rw [hzero, inReach_low (Nat.zero_le 1)] at hbefore
                exact absurd hbefore not_before_nil
              · -- the chain repeats a process that does not pass
                obtain ⟨front, pid', q, behind, hsplit, ⟨-, hlook⟩, -⟩ := hbefore
                have hmem : (pid', q) ∈ inReach (ancestors t depth p.ppid) := by
                  rw [hsplit]
                  exact List.mem_append_right _ List.mem_cons_self
                have hsame := ancestors_self hp hself depth (pid', q)
                  (hself ▸ (List.takeWhile_sublist _).mem hmem)
                obtain ⟨-, rfl⟩ := Prod.mk.inj hsame
                exact absurd hlook (hnot declared hdeclared)
            · rw [if_neg hstop]
              exact ih p.ppid

/-- The walk answers `ssh` only where an ancestor is sshd. -/
theorem walk_ssh {depth : Nat} (h : walk (procOf t) trusted depth pid = some .ssh) :
    ∃ ancestor ∈ ancestors t depth pid, isSshd ancestor.2.comm = true := by
  induction depth generalizing pid with
  | zero => cases h
  | succ depth ih =>
    rw [walk, procParent_procOf] at h
    split at h
    · cases h
    · cases hp : t pid with
      | none =>
        rw [hp] at h
        cases h
      | some p =>
        have hchain : ancestors t (depth + 1) pid = (pid, p) :: ancestors t depth p.ppid := by
          simp [ancestors, hp]
        rw [hchain]
        rw [hp] at h
        simp only [Option.map_some] at h
        split at h
        · rename_i hsshd
          exact ⟨(pid, p), List.mem_cons_self, hsshd⟩
        · split at h
          · cases h
          · split at h
            · cases h
            · obtain ⟨ancestor, hmem, hsshd⟩ := ih h
              exact ⟨ancestor, List.mem_cons_of_mem _ hmem, hsshd⟩

end

/-- A shell that carries a receiver's command line as one argument. -/
def shell : Process where
  comm := "sh".toList
  state := 'S'
  ppid := 1
  tail := " 100 100 0 -1".toList
  argv := ["sh".toList, "-c".toList, "/opt/relay/receiver serve".toList]
  state_plain := by decide
  ppid_le := by decide
  tail_blank := by decide
  tail_plain := by decide
  argv_plain := by decide

def receiver : TrustedAncestor where
  executable := "/opt/relay/receiver".toList
  argument := "serve".toList

def shellTree : Tree := fun pid => if pid = 100 then some shell else none

theorem shell_looks : Looks receiver shell := by
  let words := ["sh".toList, "-c".toList, receiver.executable, receiver.argument]
  have hargs : argsOf shell = [' '].intercalate words := rfl
  have hplain : ∀ word ∈ words, word ≠ [] ∧ ∀ c ∈ word, isSpace c = false := by
    have hsome : (words.all fun word => !word.isEmpty) = true := rfl
    have hnone : (words.all fun word => word.all fun c => !isSpace c) = true := rfl
    intro word hword
    have hfull := List.all_eq_true.mp hsome word hword
    have hfree := List.all_eq_true.mp (List.all_eq_true.mp hnone word hword)
    exact ⟨by simpa using hfull, fun c hc => by simpa using hfree c hc⟩
  have hwords : splitBlanks (argsOf shell) = words := by
    rw [hargs]
    exact splitBlanks_intercalate (List.cons_ne_nil _ _) hplain
  unfold Looks isTrustedRemoteAncestor
  rw [hwords]
  decide

def relay : Process :=
  { shell with
    argv := [receiver.executable, receiver.argument]
    argv_plain := by decide }

theorem looks_iff_isTrusted_relay : Looks receiver relay ↔ IsTrusted receiver relay := by
  have hnone : (relay.argv.all fun arg => arg.all fun c => !isSpace c) = true := rfl
  refine looks_iff_isTrusted ?_ ⟨by decide, by decide⟩
  intro arg harg c hc
  simpa using List.all_eq_true.mp (List.all_eq_true.mp hnone arg harg) c hc

end Ccmux.Chat.Auth
