/- Module: Ccmux/Policy/Sources
   source: src/policy/sources.ts, src/policy/errors.ts, src/policy/schema.ts, src/policy/reference.ts
   digest: Policy definitions of a host, what their schemas admit, and the checked read of a source
     whose digest is pinned. -/

import Ccmux.Lib.CodePoints
import Ccmux.Lib.Text

namespace Ccmux.Policy.Sources

open Ccmux.Lib.CodePoints
open Ccmux.Lib.Text (Chars)

def maxPolicySourceBytes : Nat := 64 * 1024

def maxPolicyBytes : Nat := 256 * 1024

/-- What a call ends with: a refusal with its reason, or the error of a schema. -/
inductive Failure where
  | unavailable (policyId : JsString) (reason : String)
  | invalid
  deriving DecidableEq

def policyUnavailable {α : Type} (policyId : JsString) (reason : String) : Except Failure α :=
  .error (.unavailable policyId reason)

/-- A native call that throws is a source that is unavailable. -/
def native {α : Type} (policyId : JsString) : Option α → Except Failure α
  | none => policyUnavailable policyId "source-unavailable"
  | some value => .ok value

/-! ### The schemas -/

structure PolicySource where
  id : JsString
  path : JsString
  sha256 : JsString
  deriving DecidableEq

structure NativeSkill where
  source : PolicySource
  name : JsString
  deriving DecidableEq

structure CodexAgentPolicy where
  revision : JsString
  trustedRoots : List JsString
  instructionSources : List PolicySource
  skills : List NativeSkill
  deriving DecidableEq

structure OpenCodeAgentPolicy where
  revision : JsString
  trustedRoots : List JsString
  name : JsString
  source : PolicySource
  denyTools : List JsString
  deriving DecidableEq

inductive HostAgentPolicy where
  | codex (policy : CodexAgentPolicy)
  | openCode (policy : OpenCodeAgentPolicy)
  deriving DecidableEq

def isAlphanumeric (c : UInt16) : Bool :=
  (48 ≤ c && c ≤ 57) || (65 ≤ c && c ≤ 90) || (97 ≤ c && c ≤ 122)

/-- `PolicyIdSchema` -/
def isPolicyId (text : JsString) : Bool :=
  text.length ≤ 128 && text.head?.any isAlphanumeric &&
    text.all fun c => isAlphanumeric c || c == 46 || c == 95 || c == 45

/-- `PolicyDigestSchema` -/
def isDigest (text : JsString) : Bool :=
  text.length == 64 && text.all fun c => (97 ≤ c && c ≤ 102) || (48 ≤ c && c ≤ 57)

def slash : UInt16 := 47

/-- The parts of a path between its slashes. -/
def parts (path : JsString) : List JsString := path.splitOn slash

/-- `PathSchema` -/
def isPath (path : JsString) : Bool :=
  path.length ≤ 4096 && path.head? == some slash && path.all (· != 0) &&
    (path == [slash] ||
      (parts path.tail).all fun part => part != [] && part != jsString "." && part != jsString "..")

def sourceFits (source : PolicySource) : Bool :=
  isPolicyId source.id && isPath source.path && isDigest source.sha256

def rootsFit (roots : List JsString) : Bool :=
  1 ≤ roots.length && roots.length ≤ 16 && roots.all isPath

/-- `HostAgentPolicySchema` -/
def policyFits : HostAgentPolicy → Bool
  | .codex policy =>
    isPolicyId policy.revision && rootsFit policy.trustedRoots &&
      policy.instructionSources.length ≤ 16 && policy.instructionSources.all sourceFits &&
      policy.skills.length ≤ 16 &&
      (policy.skills.all fun skill => sourceFits skill.source && isPolicyId skill.name) &&
      0 < policy.instructionSources.length + policy.skills.length
  | .openCode policy =>
    isPolicyId policy.revision && rootsFit policy.trustedRoots && isPolicyId policy.name &&
      sourceFits policy.source && policy.denyTools.length ≤ 64 && policy.denyTools.all isPolicyId

/-! ### The files -/

structure Stat where
  isFile : Bool
  isDirectory : Bool
  isSymbolicLink : Bool
  mode : Nat
  uid : Nat
  size : Nat
  ino : Nat
  dev : Nat
  mtimeMs : Nat
  ctimeMs : Nat

/-- What the calls on an open source give; `none` is one that throws. -/
structure Opened where
  before : Stat
  reads : Option (List (List UInt8))
  after : Option Stat
  visible : Option Stat
  realpath : Option JsString

/-- The answers of the file system while one source is read. -/
structure Disk where
  uid : Option Nat
  realpath : JsString → Option JsString
  lstat : JsString → Option Stat
  openSync : JsString → Option Opened

/-- The loop over `readSync`: it ends at an empty read or where the buffer is full. -/
def readLoop : Nat → List (List UInt8) → List UInt8
  | _, [] => []
  | room, read :: rest =>
    if room = 0 ∨ read = [] then [] else read.take room ++ readLoop (room - read.length) rest

def fileBytes (disk : Disk) (path : JsString) : Option (List UInt8) := do
  let opened ← disk.openSync path
  let reads ← opened.reads
  return readLoop (maxPolicySourceBytes + 1) reads

/-- `resolve` of an absolute path. -/
def resolvePath (path : JsString) : JsString :=
  let kept := (parts path).foldl (fun kept part =>
    if part = [] ∨ part = jsString "." then kept
    else if part = jsString ".." then kept.dropLast
    else kept ++ [part]) []
  slash :: [slash].intercalate kept

/-- `relative` of two absolute paths, by their parts. -/
def relative : List JsString → List JsString → List JsString
  | a :: from_, b :: to_ =>
    if a = b then relative from_ to_ else (a :: from_).map (fun _ => jsString "..") ++ b :: to_
  | [], to_ => to_
  | from_, [] => from_.map fun _ => jsString ".."

def names (path : JsString) : List JsString := (parts path).filter (· ≠ [])

def contains (root path : JsString) : Bool :=
  let child := relative (names root) (names path)
  child != [] && child.head? != some (jsString "..")

/-- `dirname`, from the file up to the root; the names are those of the path, the last one first. -/
def upTo (root : JsString) : List JsString → List JsString
  | [] => [[slash]]
  | name :: above =>
    let path := slash :: [slash].intercalate (name :: above).reverse
    if path = root then [path] else path :: upTo root above

def checkOwner (disk : Disk) (policyId path current : JsString) : Except Failure Unit := do
  let stat ← native policyId (disk.lstat current)
  if stat.isSymbolicLink || stat.mode &&& 0o22 != 0 ||
      (stat.uid != 0 && some stat.uid != disk.uid) then
    policyUnavailable policyId "untrusted-source-owner-or-permissions"
  else if current != path && !stat.isDirectory then
    policyUnavailable policyId "invalid-source-parent"
  else return ()

def validatePath (disk : Disk) (policyId : JsString) (roots : List JsString) (path : JsString) :
    Except Failure Unit := do
  match roots.find? (contains · path) with
  | none => policyUnavailable policyId "source-outside-trust-root"
  | some root =>
    let realRoot ← native policyId (disk.realpath root)
    if realRoot != root then policyUnavailable policyId "non-canonical-or-symlink-source"
    else
      let realPath ← native policyId (disk.realpath path)
      if realPath != path then policyUnavailable policyId "non-canonical-or-symlink-source"
      else (upTo root (names path).reverse).forM (checkOwner disk policyId path)

/-- Admission-only bounded read. A pinned digest also covers byte changes during path checks. -/
def readPolicySource (sha256 : List UInt8 → JsString) (disk : Disk) (policyId : JsString)
    (roots : List JsString) (source : PolicySource) : Except Failure Chars := do
  if resolvePath source.path != source.path then policyUnavailable policyId "non-canonical-source"
  else
    validatePath disk policyId roots source.path
    let opened ← native policyId (disk.openSync source.path)
    if !opened.before.isFile || opened.before.size < 1 ||
        maxPolicySourceBytes < opened.before.size then
      policyUnavailable policyId "invalid-source-type-or-size"
    else
      let bytes ← native policyId (fileBytes disk source.path)
      let after ← native policyId opened.after
      let visible ← native policyId opened.visible
      if bytes.length != opened.before.size || maxPolicySourceBytes < bytes.length ||
          opened.before.ino != visible.ino || opened.before.dev != visible.dev ||
          opened.before.size != after.size || opened.before.mtimeMs != after.mtimeMs ||
          opened.before.ctimeMs != after.ctimeMs then
        policyUnavailable policyId "source-changed-during-read"
      else
        let realPath ← native policyId opened.realpath
        if realPath != source.path then policyUnavailable policyId "source-changed-during-read"
        else if sha256 bytes != source.sha256 then
          policyUnavailable policyId "source-digest-mismatch"
        else
          let body ← native policyId (decodeFatal bytes)
          if body.contains (Char.ofNat 0) then policyUnavailable policyId "invalid-source-text"
          else return body

/-- `body.replace(/\r\n/g, '\n')` -/
@[grind =]
def normalizeBreaks : Chars → Chars
  | [] => []
  | [c] => [c]
  | c :: d :: rest =>
    if c = '\r' ∧ d = '\n' then '\n' :: normalizeBreaks rest else c :: normalizeBreaks (d :: rest)

/-- OpenCode's canonical agent Markdown owns frontmatter; only its system body is compared. -/
def canonicalAgentPrompt (policyId : JsString) (body : Chars) : Except Failure Chars :=
  let normalized := normalizeBreaks body
  match Lib.Text.stripPrefix "---\n".toList normalized with
  | none => .ok (Lib.Text.trim normalized)
  | some rest =>
    match Lib.Text.after "\n---\n".toList rest with
    | none => policyUnavailable policyId "invalid-agent-frontmatter"
    | some prompt => .ok (Lib.Text.trim prompt)

/-! ### What an accepted source says of its file -/

variable {α : Type} {policyId : JsString}

variable {x : Except Failure α} {a : α} {sha256 : List UInt8 → JsString}

theorem bind_ok {β : Type} {f : α → Except Failure β} {b : β} (h : (x >>= f) = .ok b) :
    ∃ a, x = .ok a ∧ f a = .ok b := by
  cases x with
  | ok a => exact ⟨a, rfl, h⟩
  | error e => exact nomatch h

theorem native_ok {value : Option α} (h : native policyId value = .ok a) :
    value = some a := by
  cases value with
  | none => exact nomatch h
  | some b => exact congrArg some (Except.ok.inj h)

theorem unless_ok {c : Bool} {reason : String}
    (h : (if c = true then policyUnavailable policyId reason else x) = .ok a) : x = .ok a := by
  cases c with
  | true => exact nomatch h
  | false => exact h

theorem readPolicySource_ok {disk : Disk} {roots : List JsString} {source : PolicySource}
    {body : Chars} (h : readPolicySource sha256 disk policyId roots source = .ok body) :
    ∃ bytes, fileBytes disk source.path = some bytes ∧ sha256 bytes = source.sha256 ∧
      decodeFatal bytes = some body := by
  unfold readPolicySource at h
  obtain ⟨-, -, h⟩ := bind_ok (unless_ok h)
  obtain ⟨opened, -, h⟩ := bind_ok h
  obtain ⟨bytes, hbytes, h⟩ := bind_ok (unless_ok h)
  obtain ⟨after, -, h⟩ := bind_ok h
  obtain ⟨visible, -, h⟩ := bind_ok h
  obtain ⟨realPath, -, h⟩ := bind_ok (unless_ok h)
  have h := unless_ok h
  by_cases hdigest : sha256 bytes = source.sha256
  · obtain ⟨text, htext, h⟩ := bind_ok (unless_ok h)
    obtain rfl := Except.ok.inj (unless_ok h)
    exact ⟨bytes, native_ok hbytes, hdigest, native_ok htext⟩
  · have hdiffers : (sha256 bytes != source.sha256) = true := bne_iff_ne.mpr hdigest
    rw [hdiffers] at h
    exact nomatch h

theorem readPolicySource_same (hsha : Function.Injective sha256)
    {disk disk' : Disk} {policyId policyId' : JsString} {roots roots' : List JsString}
    {source : PolicySource} {body body' : Chars}
    (h : readPolicySource sha256 disk policyId roots source = .ok body)
    (h' : readPolicySource sha256 disk' policyId' roots' source = .ok body') :
    body' = body ∧ fileBytes disk' source.path = fileBytes disk source.path := by
  obtain ⟨bytes, hfile, hdigest, hbody⟩ := readPolicySource_ok h
  obtain ⟨bytes', hfile', hdigest', hbody'⟩ := readPolicySource_ok h'
  obtain rfl := hsha (hdigest'.trans hdigest.symm)
  exact ⟨Option.some.inj (hbody'.symm.trans hbody), hfile'.trans hfile.symm⟩

end Ccmux.Policy.Sources
