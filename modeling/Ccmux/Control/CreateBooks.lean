/- Module: Ccmux/Control/CreateBooks
   source: src/control/lifecycle.ts, src/control/createReceipts.ts
   digest: What the stores and the callers say of each receipt, and which changes keep it. -/

import Ccmux.Control.Create
import Mathlib

namespace Ccmux.Control.Create

open Ccmux.Control.CreateReceipts
open Ccmux.Lib.Machine
open Ccmux.Registry

/-- What was ever registered under the generation. -/
def born (created : List Session) (generation : String) : List Session :=
  created.filter fun s => s.registrationGeneration == some generation

def Registered (r : Rows) (row : CreateRow) : Prop :=
  ∃ s ∈ r.sessions, s.name = row.name ∧ s.registrationGeneration = some row.generation

/-- The caller is where a failed create is recorded. -/
def Point.handles : Point → Bool
  | .thrown | .failing => true
  | _ => false

def Stage.handles : Stage → Bool
  | .working _ _ point => point.handles
  | _ => false

/-- No session is removed while its receipt is pending, but in the rollback of a caller that then
records the failure: no `rm` of such a session, no end of that caller before it has written, and no
such rollback of a fork, whose failure is not recorded. -/
def allowed (w : World) : Event → Bool
  | .rm name => w.registry.sessions.all fun s => s.name != name ||
      w.receipts.all fun row =>
        row.status != .pending || s.registrationGeneration != some row.generation
  | .crash k =>
    match w.calls k with
    | some ⟨_, _, .working row _ point⟩ =>
      !point.handles || (born w.created row.generation).isEmpty ||
        (matchingSession w.registry.sessions row).isSome
    | _ => true
  | .turn k (.proceeds _) =>
    match w.calls k with
    | some ⟨_, _, .working row _ .removingSession⟩ =>
      row.forkSource.isNone || (matchingSession w.registry.sessions row).isNone
    | _ => true
  | _ => true

structure Kept (r : Rows) (created : List Session) (row : CreateRow) : Prop where
  digest : row.fingerprint = fingerprint row.toCanonical
  pendingNames : ∀ p ∈ r.pending, p.generation = row.generation → p.session.name = row.name
  createdNames : ∀ s ∈ created, s.registrationGeneration = some row.generation → s.name = row.name
  unborn : ∀ p ∈ r.pending, p.generation = row.generation → born created row.generation = []
  once : (born created row.generation).length ≤ 1
  complete : row.status = .complete → born created row.generation ≠ [] ∧ row.threadId.isSome = true

structure Books (receipts : List CreateRow) (r : Rows) (created : List Session) : Prop where
  ids : (receipts.map fun row => row.requestId).Nodup
  generations : (receipts.map fun row => row.generation).Nodup
  names : (r.sessions.map fun s => s.name).Nodup
  known : ∀ s ∈ r.sessions, ∃ b ∈ created, b.name = s.name ∧
    b.registrationGeneration = s.registrationGeneration
  each : ∀ row ∈ receipts, Kept r created row

/-- The session was registered for the receipt. -/
structure Of (created : List Session) (row : CreateRow) (s : Session) : Prop where
  name : s.name = row.name
  generation : s.registrationGeneration = some row.generation
  born : born created row.generation ≠ []

/-- The row a caller works on is the stored one, up to its own last write. -/
def PointHeld (receipts : List CreateRow) (created : List Session) (row : CreateRow) : Point → Prop
  | .accepted => row ∈ receipts
  | .found s => row ∈ receipts ∧ Of created row s
  | .verified s => row ∈ receipts ∧ Of created row s ∧ s.agent = row.agent ∧
      (row.threadId = none ∨ row.threadId = some s.uuid)
  | .completed s => row.completed s.uuid ∈ receipts ∧ Of created row s ∧ s.agent = row.agent
  | .starting s | .undoing s =>
    row ∈ receipts ∧ row.status = .pending ∧ row.forkSource = none ∧ Of created row s
  | _ => row ∈ receipts ∧ row.status = .pending

structure Held (w : World) (k : Nat) (c : Call) : Prop where
  lock : c.stage.holds = true → w.requestLock c.requestId = some k
  row : ∀ row duplicate point, c.stage = .working row duplicate point →
    c.requestId = row.requestId ∧ row.toCanonical = c.canonical ∧
      PointHeld w.receipts w.created row point

/-- A caller is about to record that the create of this receipt failed. -/
def Pursued (calls : Nat → Option Call) (row : CreateRow) : Prop :=
  row.forkSource = none ∧
    ∃ k c, calls k = some c ∧ c.requestId = row.requestId ∧ c.stage.handles = true

/-- What was registered for a pending receipt is registered, or its removal is being recorded. -/
def Traced (receipts : List CreateRow) (r : Rows) (created : List Session)
    (calls : Nat → Option Call) : Prop :=
  ∀ row ∈ receipts, row.status = .pending → born created row.generation ≠ [] →
    Registered r row ∨ Pursued calls row

/-- The session an answer names is the one its completed receipt names. -/
def Told (rcPrefix : String) (receipts : List CreateRow) (o : Outcome) : Prop :=
  ∀ a, o.reply = .ok a → ∃ row ∈ receipts, ∃ threadId, row.requestId = o.requestId ∧
    row.toCanonical = o.canonical ∧ row.status = .complete ∧ row.threadId = some threadId ∧
      a.target = ⟨rcPrefix, row.agent, row.name, threadId⟩ ∧
      a.registrationGeneration = row.generation

structure Sound (rcPrefix : String) (w : World) : Prop where
  books : Books w.receipts w.registry w.created
  traced : Traced w.receipts w.registry w.created w.calls
  told : ∀ o ∈ w.outcomes, Told rcPrefix w.receipts o
  held : ∀ k c, w.calls k = some c → Held w k c

section
variable {rcPrefix : String} {receipts : List CreateRow} {r after : Rows} {created : List Session}
variable {row other : CreateRow} {s : Session} {w v : World} {k : Nat} {c : Call}

variable {generation requestId : String} {more : List CreateRow} {calls : Nat → Option Call}

theorem mem_born : s ∈ born created generation ↔
    s ∈ created ∧ s.registrationGeneration = some generation := by
  simp [born]

theorem born_ne_nil (h : s ∈ created)
    (hgeneration : s.registrationGeneration = some generation) : born created generation ≠ [] :=
  List.ne_nil_of_mem (mem_born.mpr ⟨h, hgeneration⟩)

theorem born_append_self (h : s.registrationGeneration = some generation) :
    born (created ++ [s]) generation = born created generation ++ [s] := by
  simp [born, h]

theorem born_append_other (h : s.registrationGeneration ≠ some generation) :
    born (created ++ [s]) generation = born created generation := by
  simp [born, h]

theorem born_mono {more : List Session} (h : ∀ s ∈ created, s ∈ more)
    (hborn : born created generation ≠ []) : born more generation ≠ [] := by
  obtain ⟨s, hs⟩ := List.exists_mem_of_ne_nil _ hborn
  obtain ⟨hmem, hgeneration⟩ := mem_born.mp hs
  exact born_ne_nil (h s hmem) hgeneration

theorem Of.mono {more : List Session} (h : Of created row s) (hmore : ∀ s ∈ created, s ∈ more) :
    Of more row s :=
  ⟨h.name, h.generation, born_mono hmore h.born⟩

theorem Books.unique (h : Books receipts r created) (hrow : row ∈ receipts)
    (hother : other ∈ receipts) (hid : row.requestId = other.requestId) : row = other :=
  List.inj_on_of_nodup_map h.ids hrow hother hid

theorem Books.unique_generation (h : Books receipts r created) (hrow : row ∈ receipts)
    (hother : other ∈ receipts) (hgeneration : row.generation = other.generation) : row = other :=
  List.inj_on_of_nodup_map h.generations hrow hother hgeneration

theorem Books.unique_name {t : Session} (h : Books receipts r created) (hs : s ∈ r.sessions)
    (ht : t ∈ r.sessions) (hname : s.name = t.name) : s = t :=
  List.inj_on_of_nodup_map h.names hs ht hname

theorem Books.of_session (h : Books receipts r created) (hrow : row ∈ receipts)
    (hs : s ∈ r.sessions) (hgeneration : s.registrationGeneration = some row.generation) :
    Of created row s := by
  obtain ⟨b, hb, hname, hsame⟩ := h.known s hs
  have hbgeneration : b.registrationGeneration = some row.generation := by rw [hsame, hgeneration]
  refine ⟨?_, hgeneration, born_ne_nil hb hbgeneration⟩
  rw [← hname]
  exact (h.each row hrow).createdNames b hb hbgeneration

theorem registered_of_match (h : matchingSession r.sessions row = some s) : Registered r row := by
  obtain ⟨hmem, hname, hgeneration⟩ := matchingSession_some h
  exact ⟨s, hmem, hname, hgeneration⟩

theorem not_registered_of_match (h : matchingSession r.sessions row = none) :
    ¬ Registered r row := by
  rintro ⟨s, hmem, hname, hgeneration⟩
  exact matchingSession_none h hmem hname hgeneration

theorem Kept.pending_sub (h : Kept r created row)
    (hsub : ∀ p ∈ after.pending, ∃ q ∈ r.pending, q.generation = p.generation ∧
      q.session.name = p.session.name) : Kept after created row := by
  refine ⟨h.digest, ?_, h.createdNames, ?_, h.once, h.complete⟩
  · intro p hp hgeneration
    obtain ⟨q, hq, hqgeneration, hqname⟩ := hsub p hp
    rw [← hqname]
    exact h.pendingNames q hq (hqgeneration.trans hgeneration)
  · intro p hp hgeneration
    obtain ⟨q, hq, hqgeneration, _⟩ := hsub p hp
    exact h.unborn q hq (hqgeneration.trans hgeneration)

variable {p : PendingSession} {canonical : Canonical} {point : Point} {o : Option Call}

theorem Kept.reserved (h : Kept r created row)
    (hpending : after.pending = r.pending ++ [p])
    (hown : p.generation = row.generation → p.session.name = row.name ∧
      born created row.generation = []) : Kept after created row := by
  refine ⟨h.digest, ?_, h.createdNames, ?_, h.once, h.complete⟩
  · intro q hq hgeneration
    rw [hpending] at hq
    rcases List.mem_append.mp hq with hold | hnew
    · exact h.pendingNames q hold hgeneration
    · rw [List.mem_singleton.mp hnew] at hgeneration ⊢
      exact (hown hgeneration).1
  · intro q hq hgeneration
    rw [hpending] at hq
    rcases List.mem_append.mp hq with hold | hnew
    · exact h.unborn q hold hgeneration
    · rw [List.mem_singleton.mp hnew] at hgeneration
      exact (hown hgeneration).2

/-- A registration under the receipt's generation is the first, has its name and leaves no launch. -/
theorem Kept.registered (h : Kept r created row)
    (hsub : ∀ p ∈ after.pending, p ∈ r.pending)
    (hown : s.registrationGeneration = some row.generation → s.name = row.name ∧
      born created row.generation = [] ∧ ∀ p ∈ after.pending, p.generation ≠ row.generation) :
    Kept after (created ++ [s]) row := by
  have hnames : ∀ p ∈ after.pending, p.generation = row.generation → p.session.name = row.name :=
    fun p hp => h.pendingNames p (hsub p hp)
  have hcreated : ∀ t ∈ created ++ [s], t.registrationGeneration = some row.generation →
      t.name = row.name := by
    intro t ht hgeneration
    rcases List.mem_append.mp ht with hold | hnew
    · exact h.createdNames t hold hgeneration
    · rw [List.mem_singleton.mp hnew] at hgeneration ⊢
      exact (hown hgeneration).1
  by_cases hs : s.registrationGeneration = some row.generation
  · obtain ⟨_, hempty, hgone⟩ := hown hs
    refine ⟨h.digest, hnames, hcreated, ?_, ?_, ?_⟩
    · intro p hp hgeneration
      exact absurd hgeneration (hgone p hp)
    · rw [born_append_self hs, hempty]
      simp
    · intro hcomplete
      exact absurd hempty (h.complete hcomplete).1
  · refine ⟨h.digest, hnames, hcreated, ?_, ?_, ?_⟩
    · intro p hp hgeneration
      rw [born_append_other hs]
      exact h.unborn p (hsub p hp) hgeneration
    · rw [born_append_other hs]
      exact h.once
    · rw [born_append_other hs]
      exact h.complete

theorem Books.pending_sub (h : Books receipts r created) (hsessions : after.sessions = r.sessions)
    (hsub : ∀ p ∈ after.pending, ∃ q ∈ r.pending, q.generation = p.generation ∧
      q.session.name = p.session.name) : Books receipts after created := by
  refine ⟨h.ids, h.generations, ?_, ?_, ?_⟩
  · rw [hsessions]
    exact h.names
  · rw [hsessions]
    exact h.known
  · intro row hrow
    exact (h.each row hrow).pending_sub hsub

theorem Books.unlaunched (h : Books receipts r created) (generation : String) :
    Books receipts (removePendingSession r generation) created := by
  refine h.pending_sub rfl ?_
  intro p hp
  exact ⟨p, (List.mem_filter.mp hp).1, rfl, rfl⟩

theorem Books.removed (h : Books receipts r created) (name : String) :
    Books receipts (removeSession r name) created := by
  refine ⟨h.ids, h.generations, ?_, ?_, ?_⟩
  · exact h.names.sublist (List.Sublist.map _ List.filter_sublist)
  · intro s hs
    exact h.known s (mem_removeSession.mp hs).1
  · intro row hrow
    exact (h.each row hrow).pending_sub fun p hp => ⟨p, hp, rfl, rfl⟩

theorem Books.edited (h : Books receipts r created) {change : Session → Session}
    (hname : ∀ s, (change s).name = s.name)
    (hgeneration : ∀ s, (change s).registrationGeneration = s.registrationGeneration) :
    Books receipts { r with sessions := r.sessions.map change } created := by
  refine ⟨h.ids, h.generations, ?_, ?_, ?_⟩
  · have hsame : (r.sessions.map change).map (fun s => s.name) = r.sessions.map fun s => s.name := by
      rw [List.map_map]
      exact List.map_congr_left fun s _ => hname s
    show ((r.sessions.map change).map fun s => s.name).Nodup
    rw [hsame]
    exact h.names
  · intro s hs
    obtain ⟨t, ht, rfl⟩ := List.mem_map.mp hs
    obtain ⟨b, hb, hbname, hbgeneration⟩ := h.known t ht
    exact ⟨b, hb, by rw [hbname, hname], by rw [hbgeneration, hgeneration]⟩
  · intro row hrow
    exact (h.each row hrow).pending_sub fun p hp => ⟨p, hp, rfl, rfl⟩

theorem Books.reserved (h : Books receipts r created)
    (hafter : after = { r with pending := r.pending ++ [p] })
    (hown : ∀ row ∈ receipts, p.generation = row.generation → p.session.name = row.name ∧
      born created row.generation = []) : Books receipts after created := by
  subst hafter
  exact ⟨h.ids, h.generations, h.names, h.known,
    fun row hrow => (h.each row hrow).reserved rfl (hown row hrow)⟩

theorem Books.registered (h : Books receipts r created)
    (hsessions : after.sessions = r.sessions ++ [s]) (hfree : ∀ t ∈ r.sessions, t.name ≠ s.name)
    (hsub : ∀ p ∈ after.pending, p ∈ r.pending)
    (hown : ∀ row ∈ receipts, s.registrationGeneration = some row.generation → s.name = row.name ∧
      born created row.generation = [] ∧ ∀ p ∈ after.pending, p.generation ≠ row.generation) :
    Books receipts after (created ++ [s]) := by
  refine ⟨h.ids, h.generations, ?_, ?_, ?_⟩
  · rw [hsessions, List.map_append, List.nodup_append]
    refine ⟨h.names, by simp, ?_⟩
    intro name hname other hother
    obtain ⟨t, ht, rfl⟩ := List.mem_map.mp hname
    simp only [List.map_cons, List.map_nil, List.mem_singleton] at hother
    rw [hother]
    exact hfree t ht
  · intro t ht
    rw [hsessions] at ht
    rcases List.mem_append.mp ht with hold | hnew
    · obtain ⟨b, hb, hname, hgeneration⟩ := h.known t hold
      exact ⟨b, List.mem_append_left _ hb, hname, hgeneration⟩
    · rw [List.mem_singleton.mp hnew]
      exact ⟨s, by simp, rfl, rfl⟩
  · intro row hrow
    exact (h.each row hrow).registered hsub (hown row hrow)

theorem Books.updated {change : CreateRow → CreateRow} (h : Books receipts r created)
    (hid : ∀ row, (change row).requestId = row.requestId)
    (hgeneration : ∀ row, (change row).generation = row.generation)
    (hkept : ∀ row ∈ receipts, row.requestId = requestId → Kept r created (change row)) :
    Books (updateReceipt receipts requestId change) r created := by
  refine ⟨?_, ?_, h.names, h.known, ?_⟩
  · rw [map_updateReceipt hid]
    exact h.ids
  · rw [map_updateReceipt hgeneration]
    exact h.generations
  · intro found hfound
    rcases mem_updateReceipt hfound with ⟨hold, _⟩ | ⟨row, hrow, hrequest, rfl⟩
    · exact h.each found hold
    · exact hkept row hrow hrequest

theorem Kept.failed (h : Kept r created row) : Kept r created row.failed :=
  ⟨h.digest, h.pendingNames, h.createdNames, h.unborn, h.once, fun hcomplete => by cases hcomplete⟩

theorem Kept.completed (h : Kept r created row) (hborn : born created row.generation ≠ [])
    (threadId : String) : Kept r created (row.completed threadId) :=
  ⟨h.digest, h.pendingNames, h.createdNames, h.unborn, h.once, fun _ => ⟨hborn, rfl⟩⟩

/-- A receipt with a generation that nothing has. -/
theorem Books.accepted (h : Books receipts r created)
    (hid : ∀ row ∈ receipts, row.requestId ≠ requestId)
    (hreceipts : ∀ row ∈ receipts, row.generation ≠ generation)
    (hpending : ∀ p ∈ r.pending, p.generation ≠ generation)
    (hcreated : ∀ s ∈ created, s.registrationGeneration ≠ some generation) :
    Books (receipts ++ [pendingRow requestId generation canonical]) r created := by
  have hempty : born created generation = [] := by
    rw [List.eq_nil_iff_forall_not_mem]
    intro s hs
    exact hcreated s (mem_born.mp hs).1 (mem_born.mp hs).2
  refine ⟨?_, ?_, h.names, h.known, ?_⟩
  · rw [List.map_append, List.nodup_append]
    refine ⟨h.ids, by simp, ?_⟩
    intro name hname other hother
    obtain ⟨row, hrow, rfl⟩ := List.mem_map.mp hname
    simp only [List.map_cons, List.map_nil, List.mem_singleton, pendingRow_requestId] at hother
    rw [hother]
    exact hid row hrow
  · rw [List.map_append, List.nodup_append]
    refine ⟨h.generations, by simp, ?_⟩
    intro name hname other hother
    obtain ⟨row, hrow, rfl⟩ := List.mem_map.mp hname
    simp only [List.map_cons, List.map_nil, List.mem_singleton, pendingRow_generation] at hother
    rw [hother]
    exact hreceipts row hrow
  · intro row hrow
    rcases List.mem_append.mp hrow with hold | hnew
    · exact h.each row hold
    · rw [List.mem_singleton.mp hnew]
      refine ⟨rfl, ?_, ?_, ?_, ?_, ?_⟩
      · intro p hp hgeneration
        exact absurd hgeneration (hpending p hp)
      · intro s hs hgeneration
        exact absurd hgeneration (hcreated s hs)
      · intro p hp hgeneration
        exact absurd hgeneration (hpending p hp)
      · rw [pendingRow_generation, hempty]
        exact Nat.zero_le 1
      · intro hcomplete
        cases hcomplete

theorem Told.mono {out : Outcome} (h : Told rcPrefix receipts out)
    (hmore : ∀ row ∈ receipts, row.status = .complete → row ∈ more) : Told rcPrefix more out := by
  intro a ha
  obtain ⟨row, hrow, threadId, hid, hsame, hcomplete, hrest⟩ := h a ha
  exact ⟨row, hmore row hrow hcomplete, threadId, hid, hsame, hcomplete, hrest⟩

theorem told_error {failure : AppError} :
    Told rcPrefix receipts ⟨requestId, canonical, .error failure⟩ := by
  intro a ha
  cases ha

theorem PointHeld.mono {later : List Session} (h : PointHeld receipts created row point)
    (hrows : ∀ found ∈ receipts, found.requestId = row.requestId → found ∈ more)
    (hlater : ∀ s ∈ created, s ∈ later) : PointHeld more later row point := by
  cases point with
  | accepted => exact hrows row h rfl
  | found s => exact ⟨hrows row h.1 rfl, h.2.mono hlater⟩
  | verified s => exact ⟨hrows row h.1 rfl, h.2.1.mono hlater, h.2.2⟩
  | completed s => exact ⟨hrows _ h.1 rfl, h.2.1.mono hlater, h.2.2⟩
  | starting s => exact ⟨hrows row h.1 rfl, h.2.1, h.2.2.1, h.2.2.2.mono hlater⟩
  | undoing s => exact ⟨hrows row h.1 rfl, h.2.1, h.2.2.1, h.2.2.2.mono hlater⟩
  | _ => exact ⟨hrows row h.1 rfl, h.2⟩

theorem PointHeld.stored (h : PointHeld receipts created row point)
    (hhandles : point.handles = true) : row ∈ receipts := by
  cases point with
  | thrown => exact h.1
  | failing => exact h.1
  | _ => cases hhandles

theorem Held.frame (h : Held w k c)
    (hlock : c.stage.holds = true → v.requestLock c.requestId = w.requestLock c.requestId)
    (hrows : c.stage.holds = true → ∀ row ∈ w.receipts, row.requestId = c.requestId →
      row ∈ v.receipts)
    (hcreated : ∀ s ∈ w.created, s ∈ v.created) : Held v k c := by
  refine ⟨?_, ?_⟩
  · intro hholds
    rw [hlock hholds]
    exact h.lock hholds
  · intro row duplicate point hstage
    have hholds : c.stage.holds = true := by rw [hstage]; rfl
    obtain ⟨hid, hsame, hpoint⟩ := h.row row duplicate point hstage
    refine ⟨hid, hsame, hpoint.mono ?_ hcreated⟩
    intro found hfound hrequest
    exact hrows hholds found hfound (hrequest.trans hid.symm)

/-- A step of one caller, for the request `i`: while another caller has its lock, the step leaves
the locks and the receipts. -/
theorem Sound.stepped {i : String} (h : Sound rcPrefix w)
    (hcalls : v.calls = Function.update w.calls k o)
    (hfree : ∀ j, j ≠ k → w.requestLock i = some j →
      v.requestLock = w.requestLock ∧ v.receipts = w.receipts)
    (hlocks : ∀ other, other ≠ i → v.requestLock other = w.requestLock other)
    (hrows : ∀ row ∈ w.receipts, row.requestId ≠ i → row ∈ v.receipts)
    (hcreated : ∀ s ∈ w.created, s ∈ v.created)
    (hbooks : Books v.receipts v.registry v.created)
    (htraced : Traced v.receipts v.registry v.created v.calls)
    (hsettled : ∀ row ∈ w.receipts, row.status = .complete → row ∈ v.receipts)
    (htold : ∀ out ∈ v.outcomes, out ∈ w.outcomes ∨ Told rcPrefix v.receipts out)
    (hown : ∀ d, o = some d → Held v k d) : Sound rcPrefix v := by
  refine ⟨hbooks, htraced, ?_, ?_⟩
  · intro out hout
    rcases htold out hout with hold | hnew
    · exact (h.told out hold).mono hsettled
    · exact hnew
  · intro j d hd
    rw [hcalls] at hd
    by_cases hjk : j = k
    · rw [hjk, Function.update_self] at hd
      rw [hjk]
      exact hown d hd
    · rw [Function.update_of_ne hjk] at hd
      have hheld := h.held j d hd
      by_cases hid : d.requestId = i
      · refine hheld.frame ?_ ?_ hcreated
        · intro hholds
          have hlock := hheld.lock hholds
          rw [hid] at hlock
          rw [(hfree j hjk hlock).1]
        · intro hholds row hrow _
          have hlock := hheld.lock hholds
          rw [hid] at hlock
          rw [(hfree j hjk hlock).2]
          exact hrow
      · refine hheld.frame (fun _ => hlocks _ hid) ?_ hcreated
        intro _ row hrow hrequest
        apply hrows row hrow
        rw [hrequest]
        exact hid

theorem Sound.host (h : Sound rcPrefix w) (hreceipts : v.receipts = w.receipts)
    (hcalls : v.calls = w.calls) (hlock : v.requestLock = w.requestLock)
    (houtcomes : v.outcomes = w.outcomes) (hcreated : ∀ s ∈ w.created, s ∈ v.created)
    (hbooks : Books w.receipts v.registry v.created)
    (htraced : Traced w.receipts v.registry v.created w.calls) : Sound rcPrefix v := by
  refine ⟨?_, ?_, ?_, ?_⟩
  · rw [hreceipts]
    exact hbooks
  · rw [hreceipts, hcalls]
    exact htraced
  · rw [hreceipts, houtcomes]
    exact h.told
  · intro j d hd
    rw [hcalls] at hd
    refine (h.held j d hd).frame (fun _ => by rw [hlock]) ?_ hcreated
    intro _ row hrow _
    rw [hreceipts]
    exact hrow

theorem Traced.rows (h : Traced receipts r created calls)
    (hsub : ∀ row ∈ more, row.status = .pending → born created row.generation ≠ [] →
      row ∈ receipts) : Traced more r created calls := by
  intro row hrow hpending hborn
  exact h row (hsub row hrow hpending hborn) hpending hborn

theorem Traced.called (h : Traced receipts r created calls)
    (hleft : ∀ d, calls k = some d → d.stage.handles = true → ∀ row ∈ receipts,
      row.requestId = d.requestId → row.status = .pending → row.forkSource = none →
      born created row.generation ≠ [] → Registered r row ∨ ∃ next, o = some next ∧
        next.requestId = d.requestId ∧ next.stage.handles = true) :
    Traced receipts r created (Function.update calls k o) := by
  intro row hrow hpending hborn
  rcases h row hrow hpending hborn with hregistered | ⟨hfork, j, d, hd, hid, hhandles⟩
  · exact Or.inl hregistered
  · by_cases hjk : j = k
    · rw [hjk] at hd
      rcases hleft d hd hhandles row hrow hid.symm hpending hfork hborn with
        hfound | ⟨next, ho, hsame, hmore⟩
      · exact Or.inl hfound
      · refine Or.inr ⟨hfork, k, next, ?_, hsame.trans hid, hmore⟩
        rw [ho, Function.update_self]
    · refine Or.inr ⟨hfork, j, d, ?_, hid, hhandles⟩
      rw [Function.update_of_ne hjk, hd]

theorem Registered.grown (h : Registered r row) (hmore : ∀ s ∈ r.sessions, s ∈ after.sessions) :
    Registered after row := by
  obtain ⟨s, hs, hrest⟩ := h
  exact ⟨s, hmore s hs, hrest⟩

theorem Traced.sessions (h : Traced receipts r created calls)
    (hmore : ∀ row, Registered r row → Registered after row) :
    Traced receipts after created calls := by
  intro row hrow hpending hborn
  exact (h row hrow hpending hborn).imp_left (hmore row)

theorem Traced.registered (h : Traced receipts r created calls)
    (hsessions : after.sessions = r.sessions ++ [s])
    (hname : ∀ row ∈ receipts, s.registrationGeneration = some row.generation → s.name = row.name) :
    Traced receipts after (created ++ [s]) calls := by
  intro row hrow hpending hborn
  by_cases hs : s.registrationGeneration = some row.generation
  · refine Or.inl ⟨s, ?_, hname row hrow hs, hs⟩
    rw [hsessions]
    simp
  · rw [born_append_other hs] at hborn
    refine (h row hrow hpending hborn).imp_left fun hregistered => hregistered.grown ?_
    intro t ht
    rw [hsessions]
    exact List.mem_append_left _ ht

theorem Traced.removed {name : String} (h : Traced receipts r created calls)
    (hown : ∀ row ∈ receipts, row.status = .pending → ∀ s ∈ r.sessions, s.name = name →
      s.registrationGeneration = some row.generation → Pursued calls row) :
    Traced receipts (removeSession r name) created calls := by
  intro row hrow hpending hborn
  rcases h row hrow hpending hborn with ⟨s, hs, hname, hgeneration⟩ | hpursued
  · by_cases hremoved : s.name = name
    · exact Or.inr (hown row hrow hpending s hs hremoved hgeneration)
    · exact Or.inl ⟨s, mem_removeSession.mpr ⟨hs, hremoved⟩, hname, hgeneration⟩
  · exact Or.inr hpursued

end

end Ccmux.Control.Create
