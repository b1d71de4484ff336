/- Module: Ccmux/Util/JsonlGrowth
   source: src/util/jsonl.ts (readJsonl, appendJsonl)
   digest: A file that is only appended to, read by several readers: one keeps its policy. -/

import Ccmux.Util.JsonlRun

namespace Ccmux.Util.Jsonl

open Ccmux.Lib.Lines

section
variable {J D R : Type}

/-- Appended bytes; the first ones make the file. -/
def grow (w : World D R) (identity : String) (bytes : List UInt8) : World D R :=
  match w.file with
  | none => { w with file := some ⟨identity, bytes⟩ }
  | some file => { w with file := some ⟨file.identity, file.bytes ++ bytes⟩ }

/-- The bytes of the file; a missing one has none. -/
def World.content (w : World D R) : List UInt8 := (w.file.map File.bytes).getD []

@[simp] theorem grow_content (w : World D R) (identity : String) (bytes : List UInt8) :
    (grow w identity bytes).content = w.content ++ bytes := by
  cases hfile : w.file <;> simp [grow, World.content, hfile]

variable (b : Builtins J) (decoder : D → Option J → Nat → Except String (Option R)) [DecidableEq D]

def call (w : World D R) (chunk : Nat → Nat) (options : JsonlOptions D) :
    Except String (List R) × World D R :=
  let out := readJsonl b decoder chunk w.file w.known options
  (out.1, remember w chunk options out.2)

omit [DecidableEq D] in
/-- The memory is true of a file that only grew, and the decoder `d` only read it under `policy`. -/
structure Kept (d : D) (policy : BadLine) (w : World D R) : Prop where
  remembers : Remembers b decoder w
  missing : w.file = none → w.known = none ∧ w.seen = []
  seen : w.seen <+: w.content
  policies : ∀ known, w.known = some known → known.decode = d → ∀ p ∈ w.policies, p = policy

variable {b decoder}

variable {d : D} {policy : BadLine} {w : World D R}

theorem Kept.told (h : Kept b decoder d policy w) :
    Told w := by
  intro file known hfile _ _ _
  have hseen := h.seen
  simpa [World.content, hfile] using hseen

theorem Kept.grow {d : D} {policy : BadLine} {w : World D R} (h : Kept b decoder d policy w)
    (identity : String) (bytes : List UInt8) :
    Kept b decoder d policy (Jsonl.grow w identity bytes) := by
  have hknown : (Jsonl.grow w identity bytes).known = w.known := by
    cases hfile : w.file <;> simp [Jsonl.grow, hfile]
  have hseen : (Jsonl.grow w identity bytes).seen = w.seen := by
    cases hfile : w.file <;> simp [Jsonl.grow, hfile]
  have hpolicies : (Jsonl.grow w identity bytes).policies = w.policies := by
    cases hfile : w.file <;> simp [Jsonl.grow, hfile]
  refine ⟨?_, ?_, ?_, ?_⟩
  · intro known hk
    rw [hknown] at hk
    rw [hseen, hpolicies]
    exact h.remembers known hk
  · intro hnone
    cases hfile : w.file <;> simp [Jsonl.grow, hfile] at hnone
  · rw [hseen, grow_content]
    exact h.seen.trans (List.prefix_append _ _)
  · rw [hknown, hpolicies]
    exact h.policies

theorem call_file (w : World D R) (chunk : Nat → Nat) (options : JsonlOptions D) :
    (call b decoder w chunk options).2.file = w.file := by
  simp only [call]
  cases (readJsonl b decoder chunk w.file w.known options).2 <;> rfl

theorem call_content (w : World D R) (chunk : Nat → Nat) (options : JsonlOptions D) :
    (call b decoder w chunk options).2.content = w.content := by
  simp only [World.content, call_file]

theorem Kept.startPolicies (h : Kept b decoder d policy w) {file : File} {chunk : Nat → Nat}
    {options : JsonlOptions D}
    (hd : options.decode = d) :
    ∀ p ∈ w.policies.take (baseOf chunk file w.known options).lines, p = policy := by
  intro p hp
  rcases baseOf_cases chunk file w.known options with ⟨known, hknown, hresumes, _⟩ | hblank
  · obtain ⟨_, hdecode, _, _⟩ := resumes_iff hresumes
    exact h.policies known hknown (hdecode.trans hd) p (List.mem_of_mem_take hp)
  · rw [hblank] at hp
    simp at hp

theorem Kept.set (h : Kept b decoder d policy w)
    {file : File} {chunk : Nat → Nat} {options : JsonlOptions D} {next : Decoded D R}
    (hfile : w.file = some file) (hd : options.decode = d → options.badLine = policy)
    (hdecode : next.decode = options.decode)
    (hnext : Remembers b decoder (remember w chunk options (.set next))) :
    Kept b decoder d policy (remember w chunk options (.set next)) := by
  refine ⟨hnext, ?_, ?_, ?_⟩
  · intro hnone
    have hsame : (remember w chunk options (.set next)).file = w.file := rfl
    rw [hsame, hfile] at hnone
    cases hnone
  · show ((w.file.map File.bytes).getD []).take next.offset <+: w.content
    exact List.take_prefix _ _
  · intro known hknown hof p hp
    obtain rfl : next = known := Option.some.inj hknown
    have hlines : startLines w chunk options = (baseOf chunk file w.known options).lines := by
      simp only [startLines, hfile]
    simp only [remember, hlines, List.mem_append] at hp
    rcases hp with hold | hnew
    · exact h.startPolicies (hdecode.symm.trans hof) p hold
    · rw [List.eq_of_mem_replicate hnew]
      exact hd (hdecode.symm.trans hof)

/-- A call keeps the memory true, as long as the decoder `d` keeps its policy. -/
theorem Kept.call {d : D} {policy : BadLine} {w : World D R} (h : Kept b decoder d policy w)
    (chunk : Nat → Nat) (options : JsonlOptions D)
    (hd : options.decode = d → options.badLine = policy) :
    Kept b decoder d policy (Jsonl.call b decoder w chunk options).2 := by
  have hstep : Remembers b decoder (Jsonl.call b decoder w chunk options).2 :=
    step_remembers (e := .read chunk options) b decoder h.remembers h.told rfl
  cases hfile : w.file with
  | none =>
    have hgone : (Jsonl.call b decoder w chunk options).2 = ⟨none, none, [], []⟩ := by
      simp [Jsonl.call, hfile, readJsonl, remember]
    rw [hgone] at hstep ⊢
    refine ⟨hstep, fun _ => ⟨rfl, rfl⟩, List.nil_prefix, ?_⟩
    intro known hknown
    cases hknown
  | some file =>
    have hstart : baseOf chunk file w.known options = baseOf chunk file w.known options := rfl
    obtain ⟨_, hdecode, hroom, _⟩ := baseOf_stands b decoder h.remembers h.told hfile hstart
    rcases readJsonl_cases b decoder hstart hroom rfl with
      ⟨e, _, hcall⟩ | ⟨added, _, hcall | hcall | hcall⟩
    · have hsame : (Jsonl.call b decoder w chunk options).2 = w := by
        simp only [Jsonl.call, hfile, hcall]
        rfl
      rw [hsame]
      exact h
    · have hsame : (Jsonl.call b decoder w chunk options).2 = w := by
        simp only [Jsonl.call, hfile, hcall]
        rfl
      rw [hsame]
      exact h
    · have hset : (Jsonl.call b decoder w chunk options).2 =
          remember w chunk options (.set (baseOf chunk file w.known options)) := by
        simp only [Jsonl.call, hfile, hcall]
      rw [hset] at hstep ⊢
      exact h.set hfile hd hdecode hstep
    · have hset : (Jsonl.call b decoder w chunk options).2 =
          remember w chunk options (.set (extended file (baseOf chunk file w.known options) options
            (file.bytes.drop (baseOf chunk file w.known options).offset) added)) := by
        simp only [Jsonl.call, hfile, hcall]
      rw [hset] at hstep ⊢
      exact h.set hfile hd rfl hstep

theorem Kept.answer {options : JsonlOptions D} (h : Kept b decoder options.decode options.badLine w)
    (chunk : Nat → Nat) :
    (Jsonl.call b decoder w chunk options).1 =
      decodeLines b decoder options 0 (cut newline w.content).raws := by
  have hmeant : Meant b decoder w chunk options := by
    intro file known _ hknown hresumes i policy raw hpolicy _ _
    obtain ⟨_, hdecode, _, _⟩ := resumes_iff hresumes
    have hmem : policy ∈ w.policies := List.mem_of_getElem? hpolicy
    exact Or.inl (h.policies known hknown hdecode policy hmem)
  have hfresh := (readJsonl_fresh b decoder h.remembers h.told chunk options hmeant).1
  show (readJsonl b decoder chunk w.file w.known options).1 = _
  rw [hfresh]
  cases hfile : w.file <;> simp [World.content, hfile, freshDecode, Cut.raws, Cut.empty, decodeLines]

omit [DecidableEq D] in
theorem kept_start (d : D) (policy : BadLine) :
    Kept b decoder d policy (World.start none : World D R) := by
  refine ⟨start_remembers b decoder none, fun _ => ⟨rfl, rfl⟩, List.nil_prefix, ?_⟩
  intro known hknown
  cases hknown

end

end Ccmux.Util.Jsonl
