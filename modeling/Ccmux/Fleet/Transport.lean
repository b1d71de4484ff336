/- Module: Ccmux/Fleet/Transport
   source: src/fleet/transport.ts (runRemote, runPeer), src/util/shellQuote.ts
   digest: What a call of another machine starts there: the words its login shell reads are the
     arguments that were meant. -/

import Ccmux.Lib.Shell

namespace Ccmux.Fleet.Transport

open Ccmux.Lib.Shell

/-- One character between single quotes; a quote is closed, escaped and reopened. -/
def quoteChar (c : Char) : Chars := if c = '\'' then ['\'', '\\', '\'', '\''] else [c]

def shellQuote (s : Chars) : Chars := '\'' :: (s.flatMap quoteChar ++ ['\''])

def shellJoin (argv : List Chars) : Chars := [' '].intercalate (argv.map shellQuote)

/-! ### The calls -/

inductive Delivery where
  | notSent | unknown | received
  deriving DecidableEq, Repr

structure RemoteResult where
  code : Int
  stdout : Chars
  stderr : Chars
  transportFailed : Bool
  delivery : Delivery
  fallback : Option Chars := none
  failureDetail : Option Chars := none
  deriving DecidableEq, Repr

/-- How a process that was started here ended. -/
structure RunResult where
  code : Int
  stdout : Chars
  stderr : Chars
  timedOut : Bool
  deriving DecidableEq, Repr

structure CallOptions where
  stdin : Option Chars := none
  timeoutMs : Option Nat := none
  connectTimeoutSeconds : Option Nat := none
  deriving DecidableEq, Repr

def CONNECT_TIMEOUT_SECONDS : Nat := 10

def SSH_EXIT_TRANSPORT : Int := 255

def sshOpts (connectTimeoutSeconds : Nat) : List Chars :=
  ["-o".toList, "BatchMode=yes".toList,
    "-o".toList, "ConnectTimeout=".toList ++ Nat.toDigits 10 connectTimeoutSeconds,
    "-o".toList, "ControlMaster=no".toList,
    "-o".toList, "StrictHostKeyChecking=accept-new".toList,
    "-o".toList, "ServerAliveInterval=15".toList,
    "-o".toList, "ServerAliveCountMax=3".toList]

/-- What is started on the way to another machine. -/
inductive Call where
  | adapter (machine : Chars) (argv : List Chars) (options : CallOptions)
  | spawn (full : List Chars) (timeoutMs : Nat) (input : Option Chars)
  deriving DecidableEq, Repr

/-- `full`: behind the alias stands one argument, the line of the remote login shell. -/
def sshCommand (alias_ : Chars) (argv : List Chars) (options : CallOptions) : List Chars :=
  "ssh".toList :: sshOpts (options.connectTimeoutSeconds.getD CONNECT_TIMEOUT_SECONDS) ++
    [alias_, shellJoin argv]

def runRemote (alias_ : Chars) (argv : List Chars) (options : CallOptions) (r : RunResult) :
    Call × RemoteResult :=
  let transportFailed := r.timedOut || r.code == SSH_EXIT_TRANSPORT
  (.spawn (sshCommand alias_ argv options) (options.timeoutMs.getD 30000) options.stdin,
    { code := r.code
      stdout := r.stdout
      stderr := r.stderr
      transportFailed
      delivery := if transportFailed then .unknown else .received })

def noRoute (machine : Chars) : RemoteResult :=
  { code := 1
    stdout := []
    stderr := []
    transportFailed := true
    delivery := .notSent
    failureDetail := some ("no route to '".toList ++ machine ++
      "': it is in neither the ssh fleet map nor remoteTransport.peers".toList) }

/-- `runPeer`: `remote` is the adapter's answer where the machine is one of its peers, and `r` is
how ssh ends if it is started. -/
def runPeer (machine : Chars) (alias_ : Option Chars) (argv : List Chars) (options : CallOptions)
    (remote : Option RemoteResult) (r : RunResult) : List Call × RemoteResult :=
  match remote, alias_ with
  | some remote, none => ([.adapter machine argv options], remote)
  | some remote, some name =>
    if !remote.transportFailed || remote.delivery != .notSent then
      ([.adapter machine argv options], remote)
    else
      let reason := remote.failureDetail.getD "the remote route did not dispatch the call".toList
      let ssh := runRemote name argv options r
      ([.adapter machine argv options, ssh.1], { ssh.2 with fallback := some reason })
  | none, none => ([], noRoute machine)
  | none, some name =>
    let ssh := runRemote name argv options r
    ([ssh.1], ssh.2)

/-! ### What the login shell reads -/

theorem words_quoteChars (s cur input : Chars) :
    words .single (some cur) (s.flatMap quoteChar ++ '\'' :: input) =
      words .plain (some (cur ++ s)) input := by
  induction s generalizing cur with
  | nil => simp [words]
  | cons c rest ih =>
    have hnext := ih (cur ++ [c])
    rw [List.append_assoc, List.singleton_append] at hnext
    rw [List.flatMap_cons, List.append_assoc, ← hnext]
    by_cases hc : c = '\''
    · subst hc
      -- the quote is read in three steps: closed, escaped, reopened
      simp [quoteChar, words, put, isBlank]
    · simp [quoteChar, words, put, hc]

theorem words_shellQuote (s : Chars) (cur : Option Chars) (input : Chars) :
    words .plain cur (shellQuote s ++ input) = words .plain (some (cur.getD [] ++ s)) input := by
  have hinside := words_quoteChars s (cur.getD []) input
  rw [← hinside]
  simp [shellQuote, words, isBlank]

theorem shellWords_shellJoin (argv : List Chars) : shellWords (shellJoin argv) = some argv := by
  induction argv with
  | nil => rfl
  | cons first rest ih =>
    unfold shellWords shellJoin at ih ⊢
    cases rest with
    | nil =>
      have hword := words_shellQuote first none []
      simp only [List.append_nil, Option.getD_none, List.nil_append] at hword
      simp [List.intercalate, hword, words]
    | cons next rest =>
      have hline : [' '].intercalate ((first :: next :: rest).map shellQuote) =
          shellQuote first ++ ' ' :: [' '].intercalate ((next :: rest).map shellQuote) := by
        simp [List.intercalate]
      rw [hline, words_shellQuote, words, if_pos (by decide), ih]
      simp

/-- The call carries these arguments: as they are, or as the one line of the login shell, which reads
exactly them. -/
def Call.Means (argv : List Chars) : Call → Prop
  | .adapter _ sent _ => sent = argv
  | .spawn full _ _ => ∃ seconds alias_ line,
      full = "ssh".toList :: sshOpts seconds ++ [alias_, line] ∧ shellWords line = some argv

theorem runRemote_means (alias_ : Chars) (argv : List Chars) (options : CallOptions)
    (r : RunResult) : (runRemote alias_ argv options r).1.Means argv :=
  ⟨_, alias_, shellJoin argv, rfl, shellWords_shellJoin argv⟩

/-- Whatever the arguments hold, they are the words of the line that joins them, and every call that
goes to a peer means them. -/
theorem runPeer_means (argv : List Chars) : shellWords (shellJoin argv) = some argv ∧
    ∀ machine alias_ options remote r,
      ∀ call ∈ (runPeer machine alias_ argv options remote r).1, call.Means argv := by
  refine ⟨shellWords_shellJoin argv, ?_⟩
  intro machine alias_ options remote r call hcall
  unfold runPeer at hcall
  split at hcall
  · obtain rfl := List.mem_singleton.mp hcall
    rfl
  · split at hcall
    · obtain rfl := List.mem_singleton.mp hcall
      rfl
    · rcases List.mem_cons.mp hcall with rfl | hcall
      · rfl
      · obtain rfl := List.mem_singleton.mp hcall
        exact runRemote_means _ argv options r
  · exact absurd hcall List.not_mem_nil
  · obtain rfl := List.mem_singleton.mp hcall
    exact runRemote_means _ argv options r

example : shellJoin ["it's".toList, [], "$(x)".toList] = "'it'\\''s' '' '$(x)'".toList := by
  decide

end Ccmux.Fleet.Transport
