/- Module: Ccmux/External/ResidentFrames
   source: src/external/residentFrames.ts
   digest: The external status stream by change, and the reader that folds its frames. -/

import Ccmux.External.ResidentSchema
import Mathlib

namespace Ccmux.External

structure ExternalStatusRenewal where
  generation : String
  after : Nat
  sequence : Nat
  observedAt : Option Instant
  expiresAt : Option Instant
  deriving DecidableEq, Repr

inductive ExternalStatusFrame where
  | snapshot (snapshot : ExternalStatusSnapshot)
  | renewal (renewal : ExternalStatusRenewal)
  deriving DecidableEq, Repr

/-- A row whose turn-state times were the snapshot's own moves with them. -/
def renewRow (held : ExternalStatusSnapshot) (r : ExternalStatusRenewal) (row : ExternalStatusRow) :
    ExternalStatusRow :=
  if row.turnState.observedAt = held.observedAt ∧ row.turnState.expiresAt = held.expiresAt then
    { row with turnState :=
      { row.turnState with observedAt := r.observedAt, expiresAt := r.expiresAt } }
  else row

def renew (held : ExternalStatusSnapshot) (r : ExternalStatusRenewal) : ExternalStatusSnapshot :=
  { held with
    sequence := r.sequence
    observedAt := r.observedAt
    expiresAt := r.expiresAt
    sessions := held.sessions.map (renewRow held r) }

/-- The snapshot a frame leaves the reader holding; none when a renewal does not follow it. -/
def applyExternalStatusFrame (held : Option ExternalStatusSnapshot) :
    ExternalStatusFrame → Option ExternalStatusSnapshot
  | .snapshot snapshot => some snapshot
  | .renewal r =>
    match held with
    | none => none
    | some held =>
      if held.generation ≠ r.generation ∨ held.sequence ≠ r.after then none
      else some (renew held r)

def renewalTo (held next : ExternalStatusSnapshot) : ExternalStatusRenewal :=
  { generation := next.generation, after := held.sequence, sequence := next.sequence,
    observedAt := next.observedAt, expiresAt := next.expiresAt }

/-- The encoder's answer to the next snapshot: a renewal wherever one reproduces it. -/
def frameFor (held : Option ExternalStatusSnapshot) (next : ExternalStatusSnapshot) :
    ExternalStatusFrame :=
  match held with
  | none => .snapshot next
  | some held =>
    let renewal := .renewal (renewalTo held next)
    if applyExternalStatusFrame (some held) renewal = some next then renewal else .snapshot next

/-- The frames of one encoder that holds `held`. -/
def encodeFrom : Option ExternalStatusSnapshot → List ExternalStatusSnapshot →
    List ExternalStatusFrame
  | _, [] => []
  | held, next :: rest => frameFor held next :: encodeFrom (some next) rest

/-- `createExternalStatusEncoder`, fed with the published snapshots in order. -/
def encode (published : List ExternalStatusSnapshot) : List ExternalStatusFrame :=
  encodeFrom none published

def hold (frames : List ExternalStatusFrame) : Option ExternalStatusSnapshot :=
  frames.foldl applyExternalStatusFrame none

/-- The published snapshots, each with the frame that was emitted for it. -/
def emitted (published : List ExternalStatusSnapshot) :
    List (ExternalStatusSnapshot × ExternalStatusFrame) :=
  published.zip (encode published)

section
variable {held : Option ExternalStatusSnapshot} {next snapshot : ExternalStatusSnapshot}
  {published : List ExternalStatusSnapshot} {frame : ExternalStatusFrame}

theorem hold_append_singleton (frames : List ExternalStatusFrame) (frame : ExternalStatusFrame) :
    hold (frames ++ [frame]) = applyExternalStatusFrame (hold frames) frame := by
  simp [hold]

theorem apply_frameFor : applyExternalStatusFrame held (frameFor held next) = some next := by
  unfold frameFor
  cases held with
  | none => rfl
  | some held =>
    dsimp only
    split
    · assumption
    · rfl

theorem foldl_encodeFrom (published : List ExternalStatusSnapshot)
    (held : Option ExternalStatusSnapshot) (i : Nat) (hi : i < published.length) :
    ((encodeFrom held published).take (i + 1)).foldl applyExternalStatusFrame held =
      published[i]? := by
  induction published generalizing held i with
  | nil => simp at hi
  | cons next rest ih =>
    simp only [encodeFrom, List.take_succ_cons, List.foldl_cons, apply_frameFor]
    cases i with
    | zero => simp
    | succ i =>
      rw [List.getElem?_cons_succ]
      exact ih (some next) i (Nat.lt_of_succ_lt_succ hi)

theorem hold_encode (published : List ExternalStatusSnapshot) (i : Nat)
    (hi : i < published.length) : hold ((encode published).take (i + 1)) = published[i]? :=
  foldl_encodeFrom published none i hi

/-- A renewal extends a snapshot that was published before, and reproduces its own. -/
theorem renewal_follows {r : ExternalStatusRenewal}
    (h : (snapshot, .renewal r) ∈ published.zip (encodeFrom held published)) :
    ∃ before, (held = some before ∨ before ∈ published) ∧
      applyExternalStatusFrame (some before) (.renewal r) = some snapshot ∧
      r.after = before.sequence := by
  induction published generalizing held with
  | nil => simp at h
  | cons next rest ih =>
    simp only [encodeFrom, List.zip_cons_cons, List.mem_cons] at h
    rcases h with hhead | htail
    · obtain ⟨rfl, hframe⟩ := Prod.mk.inj hhead
      cases held with
      | none => cases hframe
      | some before =>
        refine ⟨before, .inl rfl, ?_, ?_⟩
        · rw [hframe]
          exact apply_frameFor
        · unfold frameFor at hframe
          dsimp only at hframe
          split at hframe
          · rw [ExternalStatusFrame.renewal.inj hframe]
            rfl
          · cases hframe
    · obtain ⟨before, hbefore, happly, hafter⟩ := ih htail
      refine ⟨before, .inr ?_, happly, hafter⟩
      rcases hbefore with hnext | hrest
      · obtain rfl := Option.some.inj hnext
        exact List.mem_cons_self
      · exact List.mem_cons_of_mem _ hrest

theorem emitted_snapshot {other : ExternalStatusSnapshot}
    (h : (snapshot, .snapshot other) ∈ published.zip (encodeFrom held published)) :
    other = snapshot := by
  induction published generalizing held with
  | nil => simp at h
  | cons next rest ih =>
    simp only [encodeFrom, List.zip_cons_cons, List.mem_cons] at h
    rcases h with hhead | htail
    · obtain ⟨rfl, hframe⟩ := Prod.mk.inj hhead
      unfold frameFor at hframe
      split at hframe
      · exact ExternalStatusFrame.snapshot.inj hframe
      · dsimp only at hframe
        split at hframe
        · cases hframe
        · exact ExternalStatusFrame.snapshot.inj hframe
    · exact ih htail

/-- No two different snapshots of the stream carry the same numbers. -/
def Numbered (published : List ExternalStatusSnapshot) : Prop :=
  ∀ a ∈ published, ∀ b ∈ published, sameNumbers a b = true → a = b

/-- What a frame of the stream leaves a reader holding, who held nothing or a published snapshot. -/
theorem apply_emitted (hnumbered : Numbered published)
    (hheld : ∀ s, held = some s → s ∈ published) (hframe : (snapshot, frame) ∈ emitted published) :
    applyExternalStatusFrame held frame = none ∨
      applyExternalStatusFrame held frame = some snapshot := by
  cases frame with
  | snapshot other =>
    right
    obtain rfl := emitted_snapshot hframe
    rfl
  | renewal r =>
    obtain ⟨before, hbefore, happly, hafter⟩ := renewal_follows hframe
    have hmem : before ∈ published := by
      rcases hbefore with hnone | hmem
      · cases hnone
      · exact hmem
    have hgen : before.generation = r.generation := by
      by_contra hne
      simp [applyExternalStatusFrame, hne] at happly
    cases held with
    | none => exact .inl rfl
    | some s =>
      by_cases hfollows : s.generation ≠ r.generation ∨ s.sequence ≠ r.after
      · exact .inl (by simp only [applyExternalStatusFrame, if_pos hfollows])
      · right
        simp only [not_or, not_not] at hfollows
        have hsame : sameNumbers s before = true := by
          rw [sameNumbers_iff]
          exact ⟨hfollows.1.trans hgen.symm, hfollows.2.trans hafter⟩
        rw [hnumbered s (hheld s rfl) before hmem hsame]
        exact happly

theorem hold_received (hnumbered : Numbered published)
    (received : List (ExternalStatusSnapshot × ExternalStatusFrame))
    (last : ExternalStatusSnapshot × ExternalStatusFrame)
    (hreceived : ∀ x ∈ received ++ [last], x ∈ emitted published) :
    hold ((received ++ [last]).map Prod.snd) = none ∨
      hold ((received ++ [last]).map Prod.snd) = some last.1 := by
  induction received using List.reverseRecOn generalizing last with
  | nil =>
    rw [List.map_append, List.map_singleton, hold_append_singleton]
    exact apply_emitted hnumbered (fun s hs => by cases hs) (hreceived last (by simp))
  | append_singleton received before ih =>
    rw [List.map_append, List.map_singleton, hold_append_singleton]
    refine apply_emitted hnumbered ?_ (hreceived last (by simp))
    intro s hs
    have hbefore := hreceived before (by simp)
    rcases ih before (fun x hx => hreceived x (List.mem_append_left _ hx)) with hnone | hsome
    · rw [hnone] at hs
      cases hs
    · rw [hsome] at hs
      obtain rfl := Option.some.inj hs
      exact (List.of_mem_zip hbefore).1

end

end Ccmux.External
