/- Module: Ccmux/Util/JsonlRun
   source: src/util/jsonl.ts (readJsonl)
   digest: Calls over a file that grows, is cut short or is replaced, against a decode from its first byte. -/

import Ccmux.Lib.Machine
import Ccmux.Util.Jsonl

namespace Ccmux.Util.Jsonl

open Ccmux.Lib.Lines
open Ccmux.Lib.Machine

theorem readSync_length (chunk : Nat → Nat) (bytes : List UInt8) (length position : Nat) :
    (readSync chunk bytes length position).length ≤ length := by
  simp only [readSync, List.length_take]
  omega

theorem readSync_eq_nil {chunk : Nat → Nat} {bytes : List UInt8} {length position : Nat}
    (h : readSync chunk bytes length position = []) (hroom : position + length ≤ bytes.length) :
    length = 0 := by
  have hnone : (readSync chunk bytes length position).length = 0 := by rw [h]; rfl
  simp only [readSync, List.length_take, List.length_drop] at hnone
  omega

/-- The loop fills the buffer, however the system cuts the reads. -/
theorem fill_eq (chunk : Nat → Nat) (bytes : List UInt8) (fuel length position : Nat)
    (hfuel : length ≤ fuel) (hroom : position + length ≤ bytes.length) :
    fill chunk bytes fuel length position = (bytes.drop position).take length := by
  induction fuel generalizing length position with
  | zero =>
    have hzero : length = 0 := by omega
    simp [fill, hzero]
  | succ fuel ih =>
    simp only [fill]
    by_cases hpart : readSync chunk bytes length position = []
    · have hzero : length = 0 := readSync_eq_nil hpart hroom
      rw [if_pos hpart, hzero]
      rfl
    · have hle := readSync_length chunk bytes length position
      have hpos : 0 < (readSync chunk bytes length position).length :=
        List.length_pos_iff.mpr hpart
      have hrest := ih (length - (readSync chunk bytes length position).length)
        (position + (readSync chunk bytes length position).length) (by omega) (by omega)
      rw [if_neg hpart, hrest]
      generalize hn : (readSync chunk bytes length position).length = n at hle hpos ⊢
      have htaken : readSync chunk bytes length position = (bytes.drop position).take n := by
        have hshort : min length (chunk position + 1) = n := by
          rw [← hn]
          simp only [readSync, List.length_take, List.length_drop]
          omega
        rw [← hshort]
        rfl
      rw [htaken, ← List.drop_drop, ← List.take_add]
      congr 1
      omega

theorem drop_last_append (n : Nat) (xs ys : List UInt8) :
    (xs.drop (xs.length - n) ++ ys.drop (ys.length - n)).drop
        ((xs.drop (xs.length - n) ++ ys.drop (ys.length - n)).length - n) =
      (xs ++ ys).drop ((xs ++ ys).length - n) := by
  simp only [List.length_append, List.length_drop, List.drop_append, List.drop_drop]
  by_cases h : ys.length ≤ n
  · have hfirst : xs.length - n + (xs.length - (xs.length - n) + (ys.length - (ys.length - n)) - n) =
        xs.length + ys.length - n := by omega
    have hsecond : ys.length - n + (xs.length - (xs.length - n) + (ys.length - (ys.length - n)) - n -
        (xs.length - (xs.length - n))) = xs.length + ys.length - n - xs.length := by omega
    rw [hfirst, hsecond]
  · have hnone : ∀ k, xs.length ≤ k → xs.drop k = [] := fun k hk => List.drop_eq_nil_of_le hk
    have hsecond : ys.length - n + (xs.length - (xs.length - n) + (ys.length - (ys.length - n)) - n -
        (xs.length - (xs.length - n))) = xs.length + ys.length - n - xs.length := by omega
    rw [hnone _ (by omega), hnone _ (by omega), hsecond]

theorem lastBytes_append (xs ys : List UInt8) :
    lastBytes (lastBytes xs ++ lastBytes ys) = lastBytes (xs ++ ys) := by
  unfold lastBytes
  exact drop_last_append FINGERPRINT xs ys

theorem readSync_eq {chunk : Nat → Nat} {bytes tail : List UInt8} {position : Nat}
    (h : readSync chunk bytes tail.length position = tail) :
    (bytes.drop position).take tail.length = tail := by
  have hlength := congrArg List.length h
  simp only [readSync, List.length_take] at hlength
  have hall : min tail.length (chunk position + 1) = tail.length := by omega
  rw [readSync, hall] at h
  exact h

section
variable {J D R : Type} (b : Builtins J) (decoder : D → Option J → Nat → Except String (Option R))

theorem decodeLines_append (options : JsonlOptions D) (line : Nat) (xs ys : List (List UInt8)) :
    decodeLines b decoder options line (xs ++ ys) =
      match decodeLines b decoder options line xs with
      | .error e => .error e
      | .ok first =>
        match decodeLines b decoder options (line + xs.length) ys with
        | .error e => .error e
        | .ok rest => .ok (first ++ rest) := by
  induction xs generalizing line with
  | nil =>
    simp only [List.nil_append, decodeLines, List.length_nil, Nat.add_zero]
    cases decodeLines b decoder options line ys <;> rfl
  | cons x xs ih =>
    have hline : line + 1 + xs.length = line + (x :: xs).length := by
      rw [List.length_cons]
      omega
    simp only [List.cons_append, decodeLines]
    rw [ih, hline]
    cases decodeLine b decoder options (line + 1) x with
    | error e => rfl
    | ok record =>
      cases decodeLines b decoder options (line + 1) xs with
      | error e => rfl
      | ok first =>
        cases decodeLines b decoder options (line + (x :: xs).length) ys with
        | error e => rfl
        | ok rest => simp

def unreadable (raw : List UInt8) : Bool :=
  decide (b.trim (b.utf8 raw) ≠ "") && (b.parse (b.trim (b.utf8 raw))).isNone

/-- For a line that is not JSON the decoder cannot tell the two policies apart: they are one, or
both pass over the line, the decoder leaving its marker out. -/
def SameMeaning (decode : D) (policy badLine : BadLine) (line : Nat) : Prop :=
  policy = badLine ∨
    (policy ≠ .throw ∧ badLine ≠ .throw ∧ decoder decode none line = .ok none)

variable {options : JsonlOptions D} {base : Decoded D R} {file : File}

theorem decodeLine_same {asked : JsonlOptions D} {line : Nat} {raw : List UInt8} {record : Option R}
    (hdecode : options.decode = asked.decode)
    (hmeaning : unreadable b raw = true →
      SameMeaning decoder options.decode asked.badLine options.badLine line)
    (h : decodeLine b decoder asked line raw = .ok record) :
    decodeLine b decoder options line raw = .ok record := by
  simp only [decodeLine] at h ⊢
  by_cases hblank : b.trim (b.utf8 raw) = ""
  · rw [if_pos hblank] at h ⊢
    exact h
  · rw [if_neg hblank] at h ⊢
    cases hparse : b.parse (b.trim (b.utf8 raw)) with
    | some parsed =>
      simp only [hparse] at h ⊢
      rw [hdecode]
      exact h
    | none =>
      have hbad : unreadable b raw = true := by simp [unreadable, hblank, hparse]
      simp only [hparse] at h ⊢
      rcases hmeaning hbad with hsame | ⟨hasked, hoptions, hnothing⟩
      · rw [← hsame]
        cases hpolicy : asked.badLine with
        | throw => simp [hpolicy] at h
        | skip => simpa [hpolicy] using h
        | hole => simpa [hpolicy, hdecode] using h
      · have hrecord : record = none := by
          cases hpolicy : asked.badLine with
          | throw => exact absurd hpolicy hasked
          | skip => simpa [hpolicy] using h.symm
          | hole =>
            rw [hdecode] at hnothing
            simpa [hpolicy, hnothing] using h.symm
        rw [hrecord]
        cases hpolicy : options.badLine with
        | throw => exact absurd hpolicy hoptions
        | skip => rfl
        | hole => exact hnothing

/-- Lines decoded under one policy decode the same under another that means the same for each of
them. -/
theorem decodeLines_same {asked : JsonlOptions D} {line : Nat} {raws : List (List UInt8)}
    {records : List R} (hdecode : options.decode = asked.decode)
    (hmeaning : ∀ i raw, raws[i]? = some raw → unreadable b raw = true →
      SameMeaning decoder options.decode asked.badLine options.badLine (line + i + 1))
    (h : decodeLines b decoder asked line raws = .ok records) :
    decodeLines b decoder options line raws = .ok records := by
  induction raws generalizing line records with
  | nil => exact h
  | cons raw rest ih =>
    simp only [decodeLines] at h ⊢
    cases hfirst : decodeLine b decoder asked (line + 1) raw with
    | error e => simp [hfirst] at h
    | ok record =>
      have hone := decodeLine_same b decoder hdecode (hmeaning 0 raw rfl) hfirst
      cases hmore : decodeLines b decoder asked (line + 1) rest with
      | error e => simp [hfirst, hmore] at h
      | ok added =>
        have hrest : decodeLines b decoder options (line + 1) rest = .ok added := by
          apply ih _ hmore
          intro i later hlater hbad
          have hplace : line + 1 + i + 1 = line + (i + 1) + 1 := by omega
          rw [hplace]
          exact hmeaning (i + 1) later hlater hbad
        simp only [hfirst, hmore] at h
        simp only [hone, hrest]
        exact h

/-- Each line that is not JSON means the same under its policy and under `badLine`. -/
def Agree (seen : List UInt8) (policies : List BadLine) (decode : D) (badLine : BadLine) : Prop :=
  ∀ (i : Nat) (policy : BadLine) (raw : List UInt8), policies[i]? = some policy →
    (cut newline seen).raws[i]? = some raw → unreadable b raw = true →
      SameMeaning decoder decode policy badLine (i + 1)

/-- What is remembered is of the bytes `seen`, whole lines each read under its policy. -/
structure Stands (seen : List UInt8) (policies : List BadLine) (d : Decoded D R) : Prop where
  offset : d.offset = seen.length
  whole : (cut newline seen).tail = []
  lines : d.lines = (cut newline seen).raws.length
  counted : policies.length = d.lines
  tail : d.tail = lastBytes seen
  records : ∀ options : JsonlOptions D, options.decode = d.decode →
    Agree b decoder seen policies d.decode options.badLine →
      decodeLines b decoder options 0 (cut newline seen).raws = .ok d.records

theorem stands_blank (identity : String) (decode : D) :
    Stands b decoder [] []
      { identity := identity
        offset := 0
        lines := 0
        records := []
        decode := decode
        tail := [] } := by
  refine ⟨rfl, rfl, rfl, rfl, ?_, ?_⟩
  · simp [lastBytes]
  · intro options _ _
    rfl

/-- More whole lines, decoded under one policy. -/
theorem Stands.extend {seen added : List UInt8} {policies : List BadLine} {records : List R}
    (identity : String)
    (h : Stands b decoder seen policies base) (hdecode : base.decode = options.decode)
    (hwhole : (cut newline added).tail = [])
    (hadded : decodeLines b decoder options base.lines (cut newline added).raws = .ok records) :
    Stands b decoder (seen ++ added)
      (policies ++ List.replicate (cut newline added).raws.length options.badLine)
      { identity := identity
        offset := base.offset + added.length
        lines := base.lines + (cut newline added).raws.length
        records := base.records ++ records
        decode := options.decode
        tail := lastBytes (base.tail ++ lastBytes added) } := by
  obtain ⟨hraws, _, htail⟩ := cut_after_whole h.whole added
  have hcounted := h.counted
  have hlines := h.lines
  refine ⟨?_, ?_, ?_, ?_, ?_, ?_⟩
  · show base.offset + added.length = (seen ++ added).length
    rw [h.offset, List.length_append]
  · rw [htail, hwhole]
  · show base.lines + (cut newline added).raws.length = (cut newline (seen ++ added)).raws.length
    rw [hraws, List.length_append, h.lines]
  · show (policies ++ List.replicate _ options.badLine).length = base.lines + _
    rw [List.length_append, List.length_replicate, h.counted]
  · have hlast := lastBytes_append seen added
    rw [← h.tail] at hlast
    dsimp only
    exact hlast
  · intro other hother hagree
    have hold : decodeLines b decoder other 0 (cut newline seen).raws = .ok base.records := by
      apply h.records other (by rw [hother, hdecode])
      intro i policy raw hpolicy hraw hbad
      rw [hdecode]
      have hi : i < policies.length := (List.getElem?_eq_some_iff.mp hpolicy).1
      refine hagree i policy raw ?_ ?_ hbad
      · rw [List.getElem?_append_left hi]
        exact hpolicy
      · rw [hraws, List.getElem?_append_left (by omega)]
        exact hraw
    have hnew : decodeLines b decoder other base.lines (cut newline added).raws = .ok records := by
      apply decodeLines_same b decoder hother _ hadded
      intro i raw hraw hbad
      have hi : i < (cut newline added).raws.length := (List.getElem?_eq_some_iff.mp hraw).1
      rw [hother]
      apply hagree (base.lines + i) options.badLine raw _ _ hbad
      · rw [List.getElem?_append_right (by omega), List.getElem?_replicate, if_pos (by omega)]
      · rw [hraws, List.getElem?_append_right (by omega), ← hlines]
        have hback : base.lines + i - base.lines = i := by omega
        rw [hback]
        exact hraw
    rw [hraws, decodeLines_append, hold, Nat.zero_add, ← hlines, hnew]

/-- What is remembered after more whole lines. -/
def extended (file : File) (base : Decoded D R) (options : JsonlOptions D) (rest : List UInt8)
    (added : List R) : Decoded D R :=
  let whole := cut newline rest
  { identity := file.identity
    offset := base.offset + whole.start
    lines := base.lines + whole.raws.length
    records := base.records ++ added
    decode := options.decode
    tail := lastBytes (base.tail ++ lastBytes (rest.take whole.start)) }

theorem extended_stands {seen rest : List UInt8} {policies : List BadLine} {added : List R}
    (h : Stands b decoder seen policies base) (hdecode : base.decode = options.decode)
    (hadded : decodeLines b decoder options base.lines (cut newline rest).raws = .ok added) :
    Stands b decoder (seen ++ rest.take (cut newline rest).start)
      (policies ++ List.replicate (cut newline rest).raws.length options.badLine)
      (extended file base options rest added) := by
  have hcut : cut newline (rest.take (cut newline rest).start) =
      ⟨(cut newline rest).lines, (cut newline rest).start, []⟩ := cut_take_start rest
  have hraws : (cut newline (rest.take (cut newline rest).start)).raws = (cut newline rest).raws := by
    rw [hcut]
    rfl
  have hwhole : (cut newline (rest.take (cut newline rest).start)).tail = [] := by rw [hcut]
  have hlength : (rest.take (cut newline rest).start).length = (cut newline rest).start := by
    have hle : (cut newline rest).start ≤ rest.length := cut_start_le rest
    rw [List.length_take]
    omega
  rw [← hraws] at hadded
  have hnext := Stands.extend b decoder file.identity h hdecode hwhole hadded
  rw [hraws, hlength] at hnext
  exact hnext

/-- A file, what is remembered of it, and for the proofs the bytes behind that memory and the
policy each of their lines was read under. -/
structure World (D R : Type) where
  file : Option File
  known : Option (Decoded D R)
  seen : List UInt8
  policies : List BadLine

def World.start {D R : Type} (file : Option File) : World D R := ⟨file, none, [], []⟩

/-- The file grows by any bytes, or becomes any other file; a call is made, or one that cannot read
the file. -/
inductive Event (D : Type) where
  | append (bytes : List UInt8)
  | change (file : Option File)
  | read (chunk : Nat → Nat) (options : JsonlOptions D)
  | failed (options : JsonlOptions D)

/-- What is remembered is of the bytes behind it. -/
def Remembers (w : World D R) : Prop :=
  ∀ known, w.known = some known → Stands b decoder w.seen w.policies known

theorem start_remembers (file : Option File) : Remembers b decoder (World.start file : World D R) := by
  intro known hknown
  cases hknown

variable [DecidableEq D]

def startLines (w : World D R) (chunk : Nat → Nat) (options : JsonlOptions D) : Nat :=
  match w.file with
  | none => 0
  | some file => (baseOf chunk file w.known options).lines

def remember (w : World D R) (chunk : Nat → Nat) (options : JsonlOptions D) :
    Effect D R → World D R
  | .keep => w
  | .delete => ⟨w.file, none, [], []⟩
  | .set next =>
    let before := startLines w chunk options
    { file := w.file
      known := some next
      seen := ((w.file.map File.bytes).getD []).take next.offset
      policies :=
        w.policies.take before ++ List.replicate (next.lines - before) options.badLine }

def step (w : World D R) : Event D → Option (World D R)
  | .append bytes =>
    w.file.map fun file => { w with file := some { file with bytes := file.bytes ++ bytes } }
  | .change file => some { w with file := file }
  | .read chunk options =>
    some (remember w chunk options (readJsonl b decoder chunk w.file w.known options).2)
  | .failed _ => some w

/-- A file that is not the decoded one grown longer differs from it in its inode or in the last
decoded bytes. -/
def Told (w : World D R) : Prop :=
  ∀ file known, w.file = some file → w.known = some known → known.identity = file.identity →
    (file.bytes.drop (w.seen.length - FINGERPRINT)).take (lastBytes w.seen).length =
      lastBytes w.seen → w.seen <+: file.bytes

def Event.Told (w : World D R) : Event D → Prop
  | .read _ _ => Jsonl.Told w
  | _ => True

/-- A call that resumes means by its policy what each line already decoded was read by. -/
def Meant (w : World D R) (chunk : Nat → Nat) (options : JsonlOptions D) : Prop :=
  ∀ file known, w.file = some file → w.known = some known →
    resumes chunk file known options = true →
      Agree b decoder w.seen w.policies options.decode options.badLine

variable {chunk : Nat → Nat} {w : World D R}

theorem resumes_iff {known : Decoded D R} (h : resumes chunk file known options = true) :
    known.identity = file.identity ∧ known.decode = options.decode ∧
      known.offset ≤ file.bytes.length ∧
      readSync chunk file.bytes known.tail.length (known.offset - known.tail.length) =
        known.tail := by
  simpa [resumes, sameTail, and_assoc] using h

theorem baseOf_cases (chunk : Nat → Nat) (file : File) (known : Option (Decoded D R))
    (options : JsonlOptions D) :
    (∃ d, known = some d ∧ resumes chunk file d options = true ∧
      baseOf chunk file known options = d) ∨
    baseOf chunk file known options =
      { identity := file.identity
        offset := 0
        lines := 0
        records := []
        decode := options.decode
        tail := [] } := by
  cases known with
  | none => exact Or.inr rfl
  | some d =>
    by_cases h : resumes chunk file d options = true
    · refine Or.inl ⟨d, rfl, h, ?_⟩
      simp [baseOf, Option.filter, h]
    · refine Or.inr ?_
      simp [baseOf, Option.filter, h]

/-- The start of a call, resumed or not, stands for the file's own first bytes. -/
theorem baseOf_stands (hw : Remembers b decoder w)
    (htold : Told w)
    (hfile : w.file = some file) (hstart : baseOf chunk file w.known options = base) :
    Stands b decoder (file.bytes.take base.offset) (w.policies.take base.lines) base ∧
      base.decode = options.decode ∧ base.offset ≤ file.bytes.length ∧
      (Meant b decoder w chunk options →
        Agree b decoder (file.bytes.take base.offset) (w.policies.take base.lines) base.decode
          options.badLine) := by
  rcases baseOf_cases chunk file w.known options with ⟨d, hknown, hresumes, hbase⟩ | hbase
  · rw [← hstart, hbase]
    obtain ⟨hidentity, hdecode, hroom, htail⟩ := resumes_iff hresumes
    have hstands := hw d hknown
    have hlength : (lastBytes w.seen).length = w.seen.length - (w.seen.length - FINGERPRINT) :=
      List.length_drop
    have hplace : w.seen.length - (lastBytes w.seen).length = w.seen.length - FINGERPRINT := by
      generalize FINGERPRINT = n at hlength ⊢
      omega
    have hsame := readSync_eq htail
    rw [hstands.tail, hstands.offset, hplace] at hsame
    have hgrown := htold file d hfile hknown hidentity hsame
    have htake : file.bytes.take d.offset = w.seen := by
      rw [hstands.offset]
      exact (List.prefix_iff_eq_take.mp hgrown).symm
    have hpolicies : w.policies.take d.lines = w.policies := by
      rw [← hstands.counted, List.take_length]
    rw [htake, hpolicies]
    refine ⟨hstands, hdecode, hroom, ?_⟩
    intro hmeant
    rw [hdecode]
    exact hmeant file d hfile hknown hresumes
  · rw [← hstart, hbase]
    have hblank := stands_blank (R := R) b decoder file.identity options.decode
    refine ⟨by simpa using hblank, rfl, Nat.zero_le _, ?_⟩
    intro _ i policy raw hpolicy
    simp at hpolicy

/-- A call decodes the lines after its start: a refusal is answered and nothing is remembered, or
the new records follow the known ones. -/
theorem readJsonl_cases {known : Option (Decoded D R)} {rest : List UInt8}
    (hstart : baseOf chunk file known options = base) (hroom : base.offset ≤ file.bytes.length)
    (hrest : file.bytes.drop base.offset = rest) :
    (∃ e, decodeLines b decoder options base.lines (cut newline rest).raws = .error e ∧
      readJsonl b decoder chunk (some file) known options = (.error e, .keep)) ∨
    (∃ added, decodeLines b decoder options base.lines (cut newline rest).raws = .ok added ∧
      (readJsonl b decoder chunk (some file) known options = (.ok (base.records ++ added), .keep) ∨
        (readJsonl b decoder chunk (some file) known options =
          (.ok (base.records ++ added), .set base)) ∨
        (readJsonl b decoder chunk (some file) known options =
          (.ok (base.records ++ added), .set (extended file base options rest added))))) := by
  have hlength : rest.length = file.bytes.length - base.offset := by
    rw [← hrest, List.length_drop]
  have hfill : fill chunk file.bytes (file.bytes.length - base.offset)
      (file.bytes.length - base.offset) base.offset = rest := by
    rw [fill_eq chunk file.bytes _ _ _ (Nat.le_refl _) (by omega), hrest, ← hlength,
      List.take_length]
  simp only [readJsonl, hstart, hfill]
  by_cases hend : base.offset = file.bytes.length
  · have hnone : rest = [] := List.length_eq_zero_iff.mp (by omega)
    rw [if_pos hend, hnone]
    refine Or.inr ⟨[], rfl, Or.inl ?_⟩
    rw [List.append_nil]
  · rw [if_neg hend]
    by_cases hlines : (cut newline rest).lines = []
    · have hraws : (cut newline rest).raws = [] := by simp [Cut.raws, hlines]
      rw [if_pos hlines, hraws]
      refine Or.inr ⟨[], rfl, Or.inr (Or.inl ?_)⟩
      rw [List.append_nil]
    · rw [if_neg hlines]
      cases hdecoded : decodeLines b decoder options base.lines (cut newline rest).raws with
      | error e => exact Or.inl ⟨e, rfl, rfl⟩
      | ok added => exact Or.inr ⟨added, rfl, Or.inr (Or.inr rfl)⟩

theorem remember_set_stands {next : Decoded D R} (hfile : w.file = some file)
    (hstart : baseOf chunk file w.known options = base)
    (hnext : Stands b decoder (file.bytes.take next.offset)
      (w.policies.take base.lines ++ List.replicate (next.lines - base.lines) options.badLine) next) :
    Remembers b decoder (remember w chunk options (.set next)) := by
  intro known hknown
  obtain rfl : next = known := Option.some.inj hknown
  have hlines : startLines w chunk options = base.lines := by
    simp only [startLines, hfile, hstart]
  simp only [remember, hfile, hlines, Option.map_some, Option.getD_some]
  exact hnext

theorem step_remembers {v : World D R} {e : Event D} (hw : Remembers b decoder w)
    (htold : e.Told w) (hstep : step b decoder w e = some v) : Remembers b decoder v := by
  cases e with
  | append bytes =>
    simp only [step, Option.map_eq_some_iff] at hstep
    obtain ⟨file, _, rfl⟩ := hstep
    exact hw
  | change file =>
    obtain rfl := Option.some.inj hstep
    exact hw
  | failed options =>
    obtain rfl := Option.some.inj hstep
    exact hw
  | read chunk options =>
    obtain rfl := Option.some.inj hstep
    cases hfile : w.file with
    | none =>
      intro known hknown
      simp [readJsonl, remember] at hknown
    | some file =>
      have hstart : baseOf chunk file w.known options = baseOf chunk file w.known options := rfl
      obtain ⟨hstands, hdecode, hroom, _⟩ := baseOf_stands b decoder hw htold hfile hstart
      rcases readJsonl_cases b decoder hstart hroom rfl with ⟨e, _, hcall⟩ | ⟨added, hadded, hcall | hcall | hcall⟩
      · rw [hcall]
        exact hw
      · rw [hcall]
        exact hw
      · rw [hcall]
        apply remember_set_stands b decoder hfile rfl
        rw [Nat.sub_self, List.replicate_zero, List.append_nil]
        exact hstands
      · rw [hcall]
        apply remember_set_stands b decoder hfile rfl
        have hnext : Stands b decoder _ _
            (extended file (baseOf chunk file w.known options) options _ added) :=
          extended_stands b decoder hstands hdecode hadded
        simp only [extended] at hnext ⊢
        rw [List.take_add, Nat.add_sub_cancel_left]
        exact hnext

/-- A call on a memory that is true of the file, by a policy that means what it was read by, answers
what a decode from the first byte answers; one that throws changes nothing. -/
theorem readJsonl_fresh (hw : Remembers b decoder w) (hnow : Told w)
    (chunk : Nat → Nat) (options : JsonlOptions D) (hmeant : Meant b decoder w chunk options) :
    (readJsonl b decoder chunk w.file w.known options).1 = freshDecode b decoder options w.file ∧
      ∀ e, (readJsonl b decoder chunk w.file w.known options).1 = .error e →
        step b decoder w (.read chunk options) = some w := by
  cases hfile : w.file with
  | none =>
    refine ⟨rfl, ?_⟩
    intro e he
    cases he
  | some f =>
    have hstart : baseOf chunk f w.known options = baseOf chunk f w.known options := rfl
    obtain ⟨hstands, hdecode, hroom, hagree⟩ := baseOf_stands b decoder hw hnow hfile hstart
    have hbase : decodeLines b decoder options 0
        (cut newline (f.bytes.take (baseOf chunk f w.known options).offset)).raws =
          .ok (baseOf chunk f w.known options).records :=
      hstands.records options hdecode.symm (hagree hmeant)
    have hfresh : freshDecode b decoder options (some f) =
        match decodeLines b decoder options (baseOf chunk f w.known options).lines
          (cut newline (f.bytes.drop (baseOf chunk f w.known options).offset)).raws with
        | .error e => .error e
        | .ok added => .ok ((baseOf chunk f w.known options).records ++ added) := by
      obtain ⟨hraws, _, _⟩ := cut_after_whole hstands.whole
        (f.bytes.drop (baseOf chunk f w.known options).offset)
      rw [List.take_append_drop] at hraws
      simp only [freshDecode]
      rw [hraws, decodeLines_append, hbase, hstands.lines, Nat.zero_add]
    rcases readJsonl_cases b decoder hstart hroom rfl with
      ⟨e, herror, hcall⟩ | ⟨added, hadded, hcall⟩
    · rw [hcall, hfresh, herror]
      refine ⟨rfl, ?_⟩
      intro _ _
      show some (remember w chunk options (readJsonl b decoder chunk w.file w.known options).2) = _
      rw [hfile, hcall]
      rfl
    · have hanswer : (readJsonl b decoder chunk (some f) w.known options).1 =
          .ok ((baseOf chunk f w.known options).records ++ added) := by
        rcases hcall with hcall | hcall | hcall <;> rw [hcall]
      rw [hanswer, hfresh, hadded]
      refine ⟨rfl, ?_⟩
      intro _ he
      cases he

/-- In every run over a file that is appended to, cut short or replaced, a call whose policy means
what the lines already decoded were read by answers what a decode of the whole lines from the first
byte answers; and a call that throws changes nothing. -/
theorem calls_decode_whole_lines {file : Option File} {events : List (Event D)} {w : World D R}
    (hrun : run (step b decoder) (World.start file) events = some w)
    (htold : Along (step b decoder) (fun w e => e.Told w) (World.start file) events)
    (hnow : Told w) (chunk : Nat → Nat) (options : JsonlOptions D)
    (hmeant : Meant b decoder w chunk options) :
    (readJsonl b decoder chunk w.file w.known options).1 = freshDecode b decoder options w.file ∧
      ∀ e, (readJsonl b decoder chunk w.file w.known options).1 = .error e →
        step b decoder w (.read chunk options) = some w := by
  have hw : Remembers b decoder w :=
    run_invariant_along (fun s e t hs he hst => step_remembers b decoder hs he hst) hrun htold
      (start_remembers b decoder file)
  exact readJsonl_fresh b decoder hw hnow chunk options hmeant

end

/-- Bytes as text where each is `1`, `x` or a newline; only `1` is JSON. -/
def plainText : Builtins Nat where
  utf8 := fun bytes => if bytes = [] then "" else if bytes = [49] then "1" else "x"
  trim := id
  parse := fun text => if text = "1" then some 1 else none

/-- A decoder that keeps each value with its line number. -/
def numbered (_ : Unit) (parsed : Option Nat) (line : Nat) : Except String (Option (Option Nat × Nat)) :=
  .ok (some (parsed, line))

def wholeReads (_ : Nat) : Nat := 255

def ledgerOptions (badLine : BadLine) : JsonlOptions Unit := ⟨"ledger", badLine, ()⟩

/-- What a first call left of a file, after which the file grew by a second line. -/
def grownWorld : World Unit (Option Nat × Nat) :=
  { file := some ⟨"1:2", [49, 10, 49, 10]⟩
    known := some ⟨"1:2", 2, 1, [(some 1, 1)], (), [49, 10]⟩
    seen := [49, 10]
    policies := [.throw] }

theorem calls_decode_whole_lines_grown :
    (readJsonl plainText numbered wholeReads grownWorld.file grownWorld.known (ledgerOptions .throw)).1 =
        freshDecode plainText numbered (ledgerOptions .throw) grownWorld.file ∧
      ∀ e, (readJsonl plainText numbered wholeReads grownWorld.file grownWorld.known
          (ledgerOptions .throw)).1 = .error e →
        step plainText numbered grownWorld (.read wholeReads (ledgerOptions .throw)) = some grownWorld := by
  have hrun : run (step plainText numbered) (World.start (some ⟨"1:2", [49, 10]⟩))
      [.read wholeReads (ledgerOptions .throw), .append [49, 10]] = some grownWorld := by
    rfl
  have htold : Along (step plainText numbered) (fun w e => e.Told w)
      (World.start (some ⟨"1:2", [49, 10]⟩))
      [.read wholeReads (ledgerOptions .throw), .append [49, 10]] := by
    refine ⟨?_, fun _ _ => ⟨trivial, fun _ _ => trivial⟩⟩
    intro file known _ hknown
    cases hknown
  have hnow : Told grownWorld := by
    intro file known hfile _ _ _
    obtain rfl := Option.some.inj hfile
    exact ⟨[49, 10], rfl⟩
  have hmeant : Meant plainText numbered grownWorld wholeReads (ledgerOptions .throw) := by
    intro file known _ _ _ i policy raw hpolicy _ _
    refine Or.inl ?_
    match i, hpolicy with
    | 0, h => exact (Option.some.inj h).symm
  exact calls_decode_whole_lines plainText numbered hrun htold hnow wholeReads (ledgerOptions .throw) hmeant

/-- A file whose one line is not JSON, first read with such lines left out, is not refused by a
later call of the same decoder that refuses them. -/
theorem refusing_call_is_not_refused :
    ¬ ∀ (file : Option File) (events : List (Event Unit)) (w : World Unit (Option Nat × Nat)),
      run (step plainText numbered) (World.start file) events = some w →
      Along (step plainText numbered) (fun w e => e.Told w) (World.start file) events →
      Told w → ∀ options, (readJsonl plainText numbered wholeReads w.file w.known options).1 =
        freshDecode plainText numbered options w.file := by
  intro h
  let left : World Unit (Option Nat × Nat) :=
    { file := some ⟨"1:2", [120, 10]⟩
      known := some ⟨"1:2", 2, 1, [], (), [120, 10]⟩
      seen := [120, 10]
      policies := [.skip] }
  have hrun : run (step plainText numbered) (World.start (some ⟨"1:2", [120, 10]⟩))
      [.read wholeReads (ledgerOptions .skip)] = some left := by
    rfl
  have htold : Along (step plainText numbered) (fun w e => e.Told w)
      (World.start (some ⟨"1:2", [120, 10]⟩)) [.read wholeReads (ledgerOptions .skip)] := by
    refine ⟨?_, fun _ _ => trivial⟩
    intro file known _ hknown
    cases hknown
  have hnow : Told left := by
    intro file known hfile _ _ _
    obtain rfl := Option.some.inj hfile
    exact ⟨[], rfl⟩
  have hsame := h _ _ left hrun htold hnow (ledgerOptions .throw)
  have hcall : (readJsonl plainText numbered wholeReads left.file left.known (ledgerOptions .throw)).1 =
      .ok [] := by
    rfl
  rw [hcall] at hsame
  have hfresh : freshDecode plainText numbered (ledgerOptions .throw) left.file =
      .error "ledger:1 — invalid JSON" := by
    rfl
  rw [hfresh] at hsame
  cases hsame

end Ccmux.Util.Jsonl
