/- Module: Ccmux/Context/ForkRun
   source: src/context/fork.ts
   digest: A fork is dispatched at most once, and an accepted record whose writer was not told of an
     error never changes and is the one that every later admission resumes. -/

import Ccmux.Context.Fork

namespace Ccmux.Context.Fork

open Ccmux.Lib.Machine

/-- The record is accepted with this native id, which is not the source's. -/
def NativeForkIntent.Accepted (row : NativeForkIntent) (nativeId : String) : Prop :=
  row.state = .accepted ∧ row.nativeId = some nativeId ∧ nativeId ≠ row.source.nativeId

section
variable {T : Type}

/-- The record is accepted, and no admission is about to record doubt over it. -/
structure World.Settled (w : World T) (row : NativeForkIntent) (nativeId : String) : Prop where
  intent : w.intent = some row
  accepted : row.Accepted nativeId
  calm : ∀ point ∈ w.tasks, point.doubts = false

variable (identity : T → String)

/-- The answer names the id, if its admission forked; the others asked to resume the id. -/
def Answer.Names (answer : Answer T) (nativeId : String) : Prop :=
  match answer.asked with
  | none => identity answer.response = nativeId
  | some asked => asked = nativeId

/-- What an admission at this point knows of the journal. -/
@[grind =]
def World.AtPoint (w : World T) : Point T → Prop
  | .waiting => True
  | .ended => True
  | .dispatching intent => w.intent = some intent ∧ intent.state = .reserved
  | .forking intent => w.intent = some { intent with state := .dispatching } ∧ w.forked = []
  | .forked intent => w.intent = some { intent with state := .dispatching }
  | .accepting intent response =>
    w.intent = some { intent with state := .dispatching } ∧
      identity response ≠ intent.source.nativeId
  | .doubting intent =>
    (∃ row, w.intent = some row ∧ row.state ≠ .reserved ∧ row.source = intent.source) ∧
      w.answers = [] ∧ w.resumed = []
  | .resuming nativeId => ∃ row, w.intent = some row ∧ row.Accepted nativeId
  | .resumed nativeId => ∃ row, w.intent = some row ∧ row.Accepted nativeId

/-- What the journal and the histories agree on. -/
structure World.Kept (w : World T) : Prop where
  once : w.forked.length ≤ 1
  fresh : (∀ row, w.intent = some row → row.state = .reserved) → w.forked = []
  sources : ∀ source ∈ w.forked, ∃ row, w.intent = some row ∧ row.source = source
  accepted : ∀ row, w.intent = some row → row.state = .accepted → ∃ id, row.Accepted id
  answered : ∀ answer ∈ w.answers, ∃ row id, w.intent = some row ∧ row.Accepted id ∧
    answer.Names identity id
  resumed : ∀ id ∈ w.resumed, ∃ row, w.intent = some row ∧ row.Accepted id
  preparing : ∀ source, w.preparing = some source → w.intent = none

/-- One admission at a time is inside the lock, and it knows the journal. -/
structure World.Inv (w : World T) : Prop where
  kept : w.Kept identity
  held : ∀ i point, w.tasks[i]? = some point → point.locked = true → w.lock = some i
  points : ∀ point ∈ w.tasks, w.AtPoint identity point

variable {identity}

variable {w w' : World T}

variable {point : Point T} {row : NativeForkIntent}

theorem atPoint_of_unlocked (h : point.locked = false) :
    w.AtPoint identity point := by
  cases point with
  | waiting => trivial
  | ended => trivial
  | _ => cases h

theorem inv_start : (startWorld T).Inv identity := by
  have hkept : (startWorld T).Kept identity := by
    constructor <;> simp [startWorld]
  refine ⟨hkept, ?_, ?_⟩ <;> simp [startWorld]

theorem NativeForkIntent.Accepted.unique {a b : String} (ha : row.Accepted a) (hb : row.Accepted b)
    : a = b :=
  Option.some.inj (ha.2.1.symm.trans hb.2.1)

/-! ### The one admission inside the lock -/

theorem World.Inv.unlocked (h : w.Inv identity) {i j : Nat} {point : Point T}
    (hlock : w.lock = some i ∨ w.lock = none) (hj : w.tasks[j]? = some point) (hne : j ≠ i) :
    point.locked = false := by
  cases hlocked : point.locked with
  | false => rfl
  | true =>
    have hheld := h.held j point hj hlocked
    rcases hlock with hlock | hlock
    · exact absurd (Option.some.inj (hheld.symm.trans hlock)) hne
    · rw [hlock] at hheld
      cases hheld

/-- The admission in the lock goes on in a journal that is kept, at a point that knows it. -/
theorem World.Inv.goOn (h : w.Inv identity) {i : Nat} {point : Point T}
    (hlock : w.lock = some i ∨ w.lock = none) (htasks : w'.tasks = w.tasks)
    (hlock' : w'.lock = some i) (hkept : w'.Kept identity) (hpoint : w'.AtPoint identity point) :
    (w'.goOn i point).Inv identity where
  kept :=
    { once := hkept.once
      fresh := hkept.fresh
      sources := hkept.sources
      accepted := hkept.accepted
      answered := hkept.answered
      resumed := hkept.resumed
      preparing := hkept.preparing }
  held := by
    intro j other hj hlocked
    simp only [World.goOn, List.getElem?_set, htasks] at hj
    split at hj
    · rename_i hij
      split at hj
      · obtain rfl := Option.some.inj hj
        simp [World.goOn, hlock', hlocked, hij]
      · cases hj
    · rename_i hij
      have hfree := h.unlocked hlock hj (Ne.symm hij)
      rw [hlocked] at hfree
      cases hfree
  points := by
    intro other hother
    obtain ⟨j, hj⟩ := List.mem_iff_getElem?.mp hother
    simp only [World.goOn, List.getElem?_set, htasks] at hj
    have hknows : w'.AtPoint identity other := by
      split at hj
      · split at hj
        · obtain rfl := Option.some.inj hj
          exact hpoint
        · cases hj
      · rename_i hij
        exact atPoint_of_unlocked (h.unlocked hlock hj (Ne.symm hij))
    cases other <;> exact hknows

theorem World.Kept.enter (h : w.Kept identity) (lock : Option Nat) :
    World.Kept identity { w with lock := lock } :=
  ⟨h.once, h.fresh, h.sources, h.accepted, h.answered, h.resumed, h.preparing⟩

/-- The journal is written over a record of the same source that no answer and no resumption relies
on. -/
theorem World.Kept.write {w : World T} (h : w.Kept identity) {row : NativeForkIntent}
    (hanswers : w.answers = []) (hresumed : w.resumed = [])
    (hsource : ∀ old, w.intent = some old → row.source = old.source)
    (hold : ∃ old, w.intent = some old)
    (hfresh : row.state = .reserved → w.forked = [])
    (haccepted : row.state = .accepted → ∃ id, row.Accepted id) :
    World.Kept identity { w with intent := some row } where
  once := h.once
  fresh hall := hfresh (hall row rfl)
  sources source hmem := by
    obtain ⟨old, hold, heq⟩ := h.sources source hmem
    exact ⟨row, rfl, (hsource old hold).trans heq⟩
  accepted other hother hstate := by
    obtain rfl := Option.some.inj hother
    exact haccepted hstate
  answered answer hmem := by
    rw [hanswers] at hmem
    cases hmem
  resumed id hmem := by
    rw [hresumed] at hmem
    cases hmem
  preparing source hpreparing := by
    obtain ⟨old, hold⟩ := hold
    rw [h.preparing source hpreparing] at hold
    cases hold

theorem World.Kept.quiet (h : w.Kept identity)
    (hnot : ∀ row, w.intent = some row → row.state ≠ .accepted) :
    w.answers = [] ∧ w.resumed = [] := by
  constructor
  · refine List.eq_nil_iff_forall_not_mem.mpr fun answer hmem => ?_
    obtain ⟨row, id, hrow, haccepted, -⟩ := h.answered answer hmem
    exact hnot row hrow haccepted.1
  · refine List.eq_nil_iff_forall_not_mem.mpr fun id hmem => ?_
    obtain ⟨row, hrow, haccepted⟩ := h.resumed id hmem
    exact hnot row hrow haccepted.1

/-! ### What an admission writes -/

theorem locked_of_row (hrow : point.row identity = some row) : point.locked = true := by
  cases point <;> first | rfl | cases hrow

theorem World.Kept.quiet_of_row (h : w.Kept identity) {point : Point T}
    {row : NativeForkIntent} (hpoint : w.AtPoint identity point)
    (hrow : point.row identity = some row) : w.answers = [] ∧ w.resumed = [] := by
  cases point with
  | dispatching intent =>
    obtain ⟨hintent, hstate⟩ := hpoint
    refine h.quiet fun other hother => ?_
    obtain rfl := Option.some.inj (hintent.symm.trans hother)
    rw [hstate]
    decide
  | accepting intent response =>
    obtain ⟨hintent, -⟩ := hpoint
    refine h.quiet fun other hother => ?_
    obtain rfl := Option.some.inj (hintent.symm.trans hother)
    nofun
  | doubting intent => exact hpoint.2
  | _ => cases hrow

/-- The journal is kept when a write of an admission lands. -/
theorem World.Kept.landed (h : w.Kept identity) {point : Point T}
    {row : NativeForkIntent} (hpoint : w.AtPoint identity point)
    (hrow : point.row identity = some row) :
    World.Kept identity { w with intent := some row } := by
  obtain ⟨hanswers, hresumed⟩ := h.quiet_of_row hpoint hrow
  cases point with
  | dispatching intent =>
    obtain ⟨hintent, -⟩ := hpoint
    obtain rfl := Option.some.inj hrow
    refine h.write hanswers hresumed ?_ ⟨intent, hintent⟩ nofun nofun
    intro old hold
    obtain rfl := Option.some.inj (hintent.symm.trans hold)
    rfl
  | accepting intent response =>
    obtain ⟨hintent, hother⟩ := hpoint
    obtain rfl := Option.some.inj hrow
    refine h.write hanswers hresumed ?_ ⟨_, hintent⟩ nofun fun _ => ⟨_, rfl, rfl, hother⟩
    intro old hold
    obtain rfl := Option.some.inj (hintent.symm.trans hold)
    rfl
  | doubting intent =>
    obtain ⟨⟨old, hintent, -, hsource⟩, -⟩ := hpoint
    obtain rfl := Option.some.inj hrow
    refine h.write hanswers hresumed ?_ ⟨old, hintent⟩ nofun nofun
    intro other hother
    obtain rfl := Option.some.inj (hintent.symm.trans hother)
    exact hsource.symm
  | _ => cases hrow

/-! ### Steps -/

theorem atPoint_congr (hintent : w'.intent = w.intent)
    (hforked : w'.forked = w.forked) (hanswers : w'.answers = w.answers)
    (hresumed : w'.resumed = w.resumed) (point : Point T) :
    w'.AtPoint identity point ↔ w.AtPoint identity point := by
  cases point <;> simp only [World.AtPoint, hintent, hforked, hanswers, hresumed]

theorem World.Inv.leave (h : w.Inv identity) (i : Nat) :
    (w.goOn i .ended).Inv identity := by
  by_cases hlock : w.lock = some i
  · exact h.goOn (.inl hlock) rfl hlock h.kept trivial
  · have hstays : (w.goOn i .ended).lock = w.lock := by simp [World.goOn, hlock]
    refine ⟨⟨h.kept.once, h.kept.fresh, h.kept.sources, h.kept.accepted, h.kept.answered,
      h.kept.resumed, h.kept.preparing⟩, ?_, ?_⟩
    · intro j point hj hlocked
      rw [hstays]
      simp only [World.goOn, List.getElem?_set] at hj
      split at hj
      · split at hj
        · obtain rfl := Option.some.inj hj
          cases hlocked
        · cases hj
      · exact h.held j point hj hlocked
    · intro point hpoint
      refine (atPoint_congr rfl rfl rfl rfl point).mpr ?_
      rcases List.mem_or_eq_of_mem_set hpoint with hmem | rfl
      · exact h.points point hmem
      · trivial

theorem atPoint_admitted (h : w.Kept identity) (readable aborted : Bool) :
    w.AtPoint identity (admitted w.intent readable aborted) := by
  unfold admitted
  split
  · trivial
  · rename_i intent hintent
    split
    · trivial
    · split
      · rename_i nativeId hstate hnative
        obtain ⟨id, haccepted⟩ := h.accepted intent hintent hstate
        obtain rfl := Option.some.inj (hnative.symm.trans haccepted.2.1)
        exact ⟨intent, hintent, haccepted⟩
      · rename_i hstate
        split
        · trivial
        · exact ⟨hintent, hstate⟩
      · trivial

theorem World.Inv.unlocked_of_missing (h : w.Inv identity) (hnone : w.intent = none)
    {point : Point T} (hmem : point ∈ w.tasks) : point.locked = false := by
  have hpoint := h.points point hmem
  cases point <;> first | rfl | simp [World.AtPoint, hnone] at hpoint

variable {generation : String} {w t : World T}

theorem inv_prepares (h : w.Inv identity) {source : NativeForkSource} {readable : Bool}
    (hstep : step identity generation w (.prepares source readable) = some t) :
    t.Inv identity := by
  have hreply : ∀ reply, (w.reply reply).Inv identity := by
    intro reply
    exact ⟨⟨h.kept.once, h.kept.fresh, h.kept.sources, h.kept.accepted, h.kept.answered,
      h.kept.resumed, h.kept.preparing⟩, h.held, fun point hpoint =>
        (atPoint_congr rfl rfl rfl rfl point).mpr (h.points point hpoint)⟩
  simp only [step] at hstep
  split at hstep
  · cases hstep
  · rename_i hnone
    obtain rfl := Option.some.inj hstep
    exact ⟨⟨h.kept.once, h.kept.fresh, h.kept.sources, h.kept.accepted, h.kept.answered,
      h.kept.resumed, fun _ _ => hnone⟩, h.held, fun point hpoint =>
        (atPoint_congr rfl rfl rfl rfl point).mpr (h.points point hpoint)⟩
  · split at hstep
    · exact Option.some.inj hstep ▸ hreply _
    · split at hstep
      · exact Option.some.inj hstep ▸ hreply _
      · exact Option.some.inj hstep ▸ hreply _

theorem inv_prepareWrites (h : w.Inv identity) {write : Write}
    (hstep : step identity generation w (.prepareWrites write) = some t) : t.Inv identity := by
  simp only [step, Option.map_eq_some_iff] at hstep
  obtain ⟨source, hpreparing, rfl⟩ := hstep
  have hnone : w.intent = none := h.kept.preparing source hpreparing
  have hforked : w.forked = [] := h.kept.fresh (by simp [hnone])
  obtain ⟨hanswers, hresumed⟩ := h.kept.quiet (by simp [hnone])
  have hpoints : ∀ w' : World T, ∀ point ∈ w.tasks, w'.AtPoint identity point := fun _ _ hmem =>
    atPoint_of_unlocked (h.unlocked_of_missing hnone hmem)
  cases hland : write.landed with
  | false =>
    exact ⟨⟨h.kept.once, h.kept.fresh, h.kept.sources, h.kept.accepted, h.kept.answered,
      h.kept.resumed, nofun⟩, h.held, hpoints _⟩
  | true =>
    refine ⟨⟨h.kept.once, fun _ => hforked, ?_, ?_, ?_, ?_, nofun⟩, h.held, hpoints _⟩
    · simp [World.land, hforked]
    · intro row hrow hstate
      obtain rfl := Option.some.inj hrow
      cases hstate
    · simp [World.land, hanswers]
    · simp [World.land, hresumed]

theorem inv_locks (h : w.Inv identity) {i : Nat} {readable aborted : Bool}
    (hstep : step identity generation w (.locks i readable aborted) = some t) :
    t.Inv identity := by
  simp only [step] at hstep
  split at hstep
  · rename_i hlock
    obtain rfl := Option.some.inj hstep
    have hkept := h.kept.enter (some i)
    exact h.goOn (.inr hlock) rfl rfl hkept (atPoint_admitted hkept readable aborted)
  · cases hstep

theorem inv_writes (h : w.Inv identity) {i : Nat} {write : Write}
    (hstep : step identity generation w (.writes i write) = some t) : t.Inv identity := by
  simp only [step] at hstep
  split at hstep
  · rename_i point hi
    obtain ⟨row, hrow, rfl⟩ := Option.map_eq_some_iff.mp hstep
    have hlock := h.held i point hi (locked_of_row hrow)
    have hpoint := h.points point (List.mem_of_getElem? hi)
    obtain ⟨hanswers, hresumed⟩ := h.kept.quiet_of_row hpoint hrow
    have hland : ∀ landed, (w.land landed row).Kept identity := by
      intro landed
      cases landed with
      | false => exact h.kept
      | true => exact h.kept.landed hpoint hrow
    have hsame : ∀ landed, (w.land landed row).tasks = w.tasks ∧
        (w.land landed row).lock = some i := by
      intro landed
      cases landed <;> exact ⟨rfl, hlock⟩
    have hended : ∀ landed, ((w.land landed row).goOn i .ended).Inv identity := fun landed =>
      h.goOn (.inl hlock) (hsame landed).1 (hsame landed).2 (hland landed) trivial
    cases point with
    | dispatching intent =>
      obtain ⟨hintent, hstate⟩ := hpoint
      obtain rfl := Option.some.inj hrow
      have hforked : w.forked = [] := by
        refine h.kept.fresh fun other hother => ?_
        obtain rfl := Option.some.inj (hintent.symm.trans hother)
        exact hstate
      simp only [Point.answer, List.append_nil]
      cases write with
      | written =>
        exact h.goOn (.inl hlock) (hsame true).1 (hsame true).2 (hland true) ⟨rfl, hforked⟩
      | failed landed => cases landed <;> exact hended _
    | accepting intent response =>
      obtain ⟨hintent, hother⟩ := hpoint
      obtain rfl := Option.some.inj hrow
      cases write with
      | written =>
        have hkept := hland true
        refine h.goOn (.inl hlock) rfl hlock ⟨hkept.once, hkept.fresh, hkept.sources,
          hkept.accepted, ?_, hkept.resumed, hkept.preparing⟩ trivial
        intro answer hmem
        rw [hanswers] at hmem
        obtain rfl := List.mem_singleton.mp hmem
        exact ⟨_, _, rfl, ⟨rfl, rfl, hother⟩, rfl⟩
      | failed landed =>
        have hdoubt : (w.land landed { intent with
            state := .accepted, nativeId := some (identity response) }).AtPoint identity
              (.doubting intent) := by
          cases landed with
          | false => exact ⟨⟨_, hintent, nofun, rfl⟩, hanswers, hresumed⟩
          | true => exact ⟨⟨_, rfl, nofun, rfl⟩, hanswers, hresumed⟩
        simp only [Point.answer, List.append_nil]
        cases landed with
        | false => exact h.goOn (.inl hlock) rfl hlock (hland false) hdoubt
        | true => exact h.goOn (.inl hlock) rfl hlock (hland true) hdoubt
    | doubting intent =>
      simp only [Point.answer, List.append_nil]
      cases write with
      | written => exact hended true
      | failed landed => cases landed <;> exact hended _
    | _ => cases hrow
  · cases hstep

theorem inv_calls (h : w.Inv identity) {i : Nat}
    (hstep : step identity generation w (.calls i) = some t) : t.Inv identity := by
  simp only [step] at hstep
  split at hstep
  · rename_i nativeId hi
    obtain rfl := Option.some.inj hstep
    have hpoint := h.points _ (List.mem_of_getElem? hi)
    refine h.goOn (.inl (h.held i _ hi rfl)) rfl (h.held i _ hi rfl) ?_ hpoint
    refine ⟨h.kept.once, h.kept.fresh, h.kept.sources, h.kept.accepted, h.kept.answered, ?_,
      h.kept.preparing⟩
    intro id hmem
    rcases List.mem_append.mp hmem with hmem | hmem
    · exact h.kept.resumed id hmem
    · obtain rfl := List.mem_singleton.mp hmem
      exact hpoint
  · rename_i intent hi
    obtain rfl := Option.some.inj hstep
    obtain ⟨hintent, hforked⟩ := h.points _ (List.mem_of_getElem? hi)
    refine h.goOn (.inl (h.held i _ hi rfl)) rfl (h.held i _ hi rfl) ?_ hintent
    refine ⟨?_, ?_, ?_, h.kept.accepted, h.kept.answered, h.kept.resumed, h.kept.preparing⟩
    · simp [hforked]
    · intro hall
      cases hall _ hintent
    · intro source hmem
      rw [hforked] at hmem
      obtain rfl := List.mem_singleton.mp hmem
      exact ⟨_, hintent, rfl⟩
  · cases hstep

theorem inv_returns (h : w.Inv identity) {i : Nat} {answer : Option T}
    (hstep : step identity generation w (.returns i answer) = some t) : t.Inv identity := by
  simp only [step] at hstep
  split at hstep
  · rename_i nativeId hi
    obtain rfl := Option.some.inj hstep
    obtain ⟨row, hintent, haccepted⟩ := h.points _ (List.mem_of_getElem? hi)
    refine h.goOn (.inl (h.held i _ hi rfl)) rfl (h.held i _ hi rfl) ?_ trivial
    refine ⟨h.kept.once, h.kept.fresh, h.kept.sources, h.kept.accepted, ?_, h.kept.resumed,
      h.kept.preparing⟩
    intro answer' hmem
    rcases List.mem_append.mp hmem with hmem | hmem
    · exact h.kept.answered answer' hmem
    · obtain ⟨response, -, rfl⟩ := Option.map_eq_some_iff.mp (Option.mem_toList.mp hmem)
      exact ⟨row, nativeId, hintent, haccepted, rfl⟩
  · rename_i intent hi
    obtain rfl := Option.some.inj hstep
    have hintent := h.points _ (List.mem_of_getElem? hi)
    obtain ⟨hanswers, hresumed⟩ := h.kept.quiet fun row hrow => by
      obtain rfl := Option.some.inj (hintent.symm.trans hrow)
      nofun
    refine h.goOn (.inl (h.held i _ hi rfl)) rfl (h.held i _ hi rfl) h.kept ?_
    have hdoubt : w.AtPoint identity (.doubting intent) :=
      ⟨⟨_, hintent, nofun, rfl⟩, hanswers, hresumed⟩
    unfold returned
    split
    · exact hdoubt
    · split
      · rename_i hgood
        exact ⟨hintent, hgood.2⟩
      · exact hdoubt
  · cases hstep

theorem inv_stops (h : w.Inv identity) {i : Nat} {landed : Bool}
    (hstep : step identity generation w (.stops i landed) = some t) : t.Inv identity := by
  simp only [step] at hstep
  split at hstep
  · rename_i point hi
    obtain rfl := Option.some.inj hstep
    cases hlanding : (point.row identity).filter fun _ => landed with
    | none => exact h.leave i
    | some row =>
      obtain ⟨hrow, -⟩ := Option.filter_eq_some_iff.mp hlanding
      have hlock := h.held i point hi (locked_of_row hrow)
      have hpoint := h.points point (List.mem_of_getElem? hi)
      exact h.goOn (.inl hlock) rfl hlock (h.kept.landed hpoint hrow) trivial
  · cases hstep

theorem inv_step (h : w.Inv identity) {e : Event T}
    (hstep : step identity generation w e = some t) : t.Inv identity := by
  cases e with
  | prepares source readable => exact inv_prepares h hstep
  | prepareWrites write => exact inv_prepareWrites h hstep
  | admits =>
    obtain rfl := Option.some.inj hstep
    refine ⟨⟨h.kept.once, h.kept.fresh, h.kept.sources, h.kept.accepted, h.kept.answered,
      h.kept.resumed, h.kept.preparing⟩, ?_, ?_⟩
    · intro j point hj hlocked
      have htask : (w.tasks ++ [Point.waiting])[j]? = some point := hj
      rw [List.getElem?_append] at htask
      split at htask
      · exact h.held j point htask hlocked
      · obtain rfl := List.mem_singleton.mp (List.mem_of_getElem? htask)
        cases hlocked
    · intro point hpoint
      refine (atPoint_congr rfl rfl rfl rfl point).mpr ?_
      rcases List.mem_append.mp hpoint with hmem | hmem
      · exact h.points point hmem
      · obtain rfl := List.mem_singleton.mp hmem
        trivial
  | locks i readable aborted => exact inv_locks h hstep
  | writes i write => exact inv_writes h hstep
  | calls i => exact inv_calls h hstep
  | returns i answer => exact inv_returns h hstep
  | stops i landed => exact inv_stops h hstep

/-! ### An accepted record -/

variable {row : NativeForkIntent} {nativeId : String}

theorem World.Inv.point_of_settled (h : w.Inv identity) (hs : w.Settled row nativeId)
    {point : Point T} (hmem : point ∈ w.tasks) : point = .waiting ∨ point = .ended ∨
      point = .resuming nativeId ∨ point = .resumed nativeId := by
  have hpoint := h.points point hmem
  have hstate : ∀ {other : NativeForkIntent}, w.intent = some other →
      other.state = .accepted := by
    intro other hother
    obtain rfl := Option.some.inj (hs.intent.symm.trans hother)
    exact hs.accepted.1
  have hsame : ∀ {asked : String}, (∃ other, w.intent = some other ∧ other.Accepted asked) →
      asked = nativeId := by
    rintro asked ⟨other, hother, haccepted⟩
    obtain rfl := Option.some.inj (hs.intent.symm.trans hother)
    exact haccepted.unique hs.accepted
  cases point with
  | waiting => exact .inl rfl
  | ended => exact .inr (.inl rfl)
  | dispatching intent => exact absurd (hstate hpoint.1) (by rw [hpoint.2]; decide)
  | forking intent => cases hstate hpoint.1
  | forked intent => cases hstate hpoint
  | accepting intent response => cases hstate hpoint.1
  | doubting intent => cases hs.calm _ hmem
  | resuming asked => exact .inr (.inr (.inl (congrArg Point.resuming (hsame hpoint))))
  | resumed asked => exact .inr (.inr (.inr (congrArg Point.resumed (hsame hpoint))))

theorem World.Settled.goOn (hs : w.Settled row nativeId) {i : Nat} {point : Point T}
    (hintent : w'.intent = w.intent) (htasks : w'.tasks = w.tasks) (hpoint : point.doubts = false) :
    (w'.goOn i point).Settled row nativeId where
  intent := hintent.trans hs.intent
  accepted := hs.accepted
  calm other hmem := by
    rcases List.mem_or_eq_of_mem_set hmem with hmem | rfl
    · exact hs.calm other (htasks ▸ hmem)
    · exact hpoint

theorem admitted_accepted (h : row.Accepted nativeId) (aborted : Bool) :
    admitted (T := T) (some row) true aborted = .resuming nativeId := by
  obtain ⟨hstate, hnative, -⟩ := h
  simp [admitted, hstate, hnative]

/-- A step leaves an accepted record as it is, forks nothing and resumes no other id. -/
theorem settled_step (h : w.Inv identity) (hs : w.Settled row nativeId) {e : Event T}
    (hstep : step identity generation w e = some t) :
    t.Settled row nativeId ∧ t.forked = w.forked ∧
      (t.resumed = w.resumed ∨ t.resumed = w.resumed ++ [nativeId]) := by
  have hpoints := fun {point : Point T} (hmem : point ∈ w.tasks) => h.point_of_settled hs hmem
  cases e with
  | prepares source readable =>
    simp only [step, hs.intent] at hstep
    split at hstep
    · cases hstep
    · rename_i hnone
      cases hnone
    · split at hstep
      · exact Option.some.inj hstep ▸ ⟨⟨hs.intent, hs.accepted, hs.calm⟩, rfl, .inl rfl⟩
      · split at hstep
        · exact Option.some.inj hstep ▸ ⟨⟨hs.intent, hs.accepted, hs.calm⟩, rfl, .inl rfl⟩
        · exact Option.some.inj hstep ▸ ⟨⟨hs.intent, hs.accepted, hs.calm⟩, rfl, .inl rfl⟩
  | prepareWrites write =>
    obtain ⟨source, hpreparing, -⟩ := Option.map_eq_some_iff.mp hstep
    have hnone := h.kept.preparing source hpreparing
    rw [hs.intent] at hnone
    cases hnone
  | admits =>
    obtain rfl := Option.some.inj hstep
    refine ⟨⟨hs.intent, hs.accepted, ?_⟩, rfl, .inl rfl⟩
    intro point hmem
    rcases List.mem_append.mp hmem with hmem | hmem
    · exact hs.calm point hmem
    · obtain rfl := List.mem_singleton.mp hmem
      rfl
  | locks i readable aborted =>
    simp only [step] at hstep
    split at hstep
    · obtain rfl := Option.some.inj hstep
      have hpoint : (admitted (T := T) w.intent readable aborted).doubts = false := by
        rw [hs.intent]
        cases readable with
        | false => rfl
        | true => rw [admitted_accepted hs.accepted]; rfl
      exact ⟨hs.goOn rfl rfl hpoint, rfl, .inl rfl⟩
    · cases hstep
  | writes i write =>
    simp only [step] at hstep
    split at hstep
    · rename_i point hi
      obtain ⟨written, hrow, -⟩ := Option.map_eq_some_iff.mp hstep
      rcases hpoints (List.mem_of_getElem? hi) with rfl | rfl | rfl | rfl <;> cases hrow
    · cases hstep
  | calls i =>
    simp only [step] at hstep
    split at hstep
    · rename_i asked hi
      obtain rfl := Option.some.inj hstep
      have hasked : asked = nativeId := by
        rcases hpoints (List.mem_of_getElem? hi) with heq | heq | heq | heq <;> cases heq
        rfl
      subst hasked
      exact ⟨hs.goOn rfl rfl rfl, rfl, .inr rfl⟩
    · rename_i intent hi
      rcases hpoints (List.mem_of_getElem? hi) with heq | heq | heq | heq <;> cases heq
    · cases hstep
  | returns i answer =>
    simp only [step] at hstep
    split at hstep
    · obtain rfl := Option.some.inj hstep
      exact ⟨hs.goOn rfl rfl rfl, rfl, .inl rfl⟩
    · rename_i intent hi
      rcases hpoints (List.mem_of_getElem? hi) with heq | heq | heq | heq <;> cases heq
    · cases hstep
  | stops i landed =>
    simp only [step] at hstep
    split at hstep
    · rename_i point hi
      obtain rfl := Option.some.inj hstep
      have hrow : point.row identity = none := by
        rcases hpoints (List.mem_of_getElem? hi) with rfl | rfl | rfl | rfl <;> rfl
      have hlanding : ((point.row identity).filter fun _ => landed) = none := by rw [hrow]; rfl
      rw [hlanding]
      exact ⟨hs.goOn rfl rfl rfl, rfl, .inl rfl⟩
    · cases hstep

theorem settled_run (h : w.Inv identity) (hs : w.Settled row nativeId) {es : List (Event T)}
    (hrun : run (step identity generation) w es = some t) :
    t.Settled row nativeId ∧ t.forked = w.forked ∧
      ∃ k, t.resumed = w.resumed ++ List.replicate k nativeId := by
  induction es generalizing w with
  | nil =>
    obtain rfl := Option.some.inj hrun
    exact ⟨hs, rfl, 0, (List.append_nil _).symm⟩
  | cons e es ih =>
    obtain ⟨m, hm, ht⟩ := run_cons.mp hrun
    obtain ⟨hsettled, hforked, hresumed⟩ := settled_step h hs hm
    obtain ⟨hend, hforks, k, hk⟩ := ih (inv_step h hm) hsettled ht
    refine ⟨hend, hforks.trans hforked, ?_⟩
    rcases hresumed with hsame | hmore
    · exact ⟨k, by rw [hk, hsame]⟩
    · exact ⟨k + 1, by rw [hk, hmore, List.append_assoc, List.singleton_append,
        List.replicate_succ]⟩

/-- The journal changes by a caller's reservation, or by the write of an admission: one it goes on
from, or one it stopped at. -/
theorem step_intent {e : Event T} (hstep : step identity generation w e = some t) :
    t.intent = w.intent ∨
    (∃ source, t.intent = some (reserved generation source)) ∨
    ∃ i point row next, w.tasks[i]? = some point ∧ point.row identity = some row ∧
      t.intent = some row ∧ t.tasks = w.tasks.set i next ∧
      ((∃ write, e = .writes i write ∧ write.landed = true ∧ next = point.afterWrite write) ∨
        next = .ended) := by
  cases e with
  | prepares source readable =>
    simp only [step] at hstep
    split at hstep
    · cases hstep
    · exact .inl (Option.some.inj hstep ▸ rfl)
    · split at hstep
      · exact .inl (Option.some.inj hstep ▸ rfl)
      · split at hstep <;> exact .inl (Option.some.inj hstep ▸ rfl)
  | prepareWrites write =>
    obtain ⟨source, -, rfl⟩ := Option.map_eq_some_iff.mp hstep
    cases hland : write.landed with
    | false => exact .inl rfl
    | true => exact .inr (.inl ⟨source, rfl⟩)
  | admits => exact .inl (Option.some.inj hstep ▸ rfl)
  | locks i readable aborted =>
    simp only [step] at hstep
    split at hstep
    · exact .inl (Option.some.inj hstep ▸ rfl)
    · cases hstep
  | writes i write =>
    simp only [step] at hstep
    split at hstep
    · rename_i point hi
      obtain ⟨row, hrow, rfl⟩ := Option.map_eq_some_iff.mp hstep
      cases hland : write.landed with
      | false => exact .inl rfl
      | true =>
        exact .inr (.inr ⟨i, point, row, _, hi, hrow, rfl, rfl, .inl ⟨write, rfl, hland, rfl⟩⟩)
    · cases hstep
  | calls i =>
    simp only [step] at hstep
    split at hstep
    · exact .inl (Option.some.inj hstep ▸ rfl)
    · exact .inl (Option.some.inj hstep ▸ rfl)
    · cases hstep
  | returns i answer =>
    simp only [step] at hstep
    split at hstep
    · exact .inl (Option.some.inj hstep ▸ rfl)
    · exact .inl (Option.some.inj hstep ▸ rfl)
    · cases hstep
  | stops i landed =>
    simp only [step] at hstep
    split at hstep
    · rename_i point hi
      obtain rfl := Option.some.inj hstep
      cases hlanding : (point.row identity).filter fun _ => landed with
      | none => exact .inl rfl
      | some row =>
        have hrow := (Option.filter_eq_some_iff.mp hlanding).1
        exact .inr (.inr ⟨i, point, row, .ended, hi, hrow, rfl, rfl, .inr rfl⟩)
    · cases hstep

/-- A record is accepted by the write of its admission; unless that write reports an error, it is
settled then. -/
theorem settled_of_accepted (h : w.Inv identity) {e : Event T}
    (hstep : step identity generation w e = some t) (hrow : t.intent = some row)
    (hstate : row.state = .accepted) :
    w.intent = some row ∨ (∃ id, t.Settled row id) ∨ ∃ i, e = .writes i (.failed true) := by
  obtain ⟨id, haccepted⟩ := (inv_step h hstep).kept.accepted row hrow hstate
  rcases step_intent hstep with hsame | ⟨source, hreserved⟩ |
    ⟨i, point, written, next, hi, hwritten, hintent, htasks, hnext⟩
  · exact .inl (hsame.symm.trans hrow)
  · obtain rfl := Option.some.inj (hreserved.symm.trans hrow)
    cases hstate
  · have hlock := h.held i point hi (locked_of_row hwritten)
    by_cases hdoubts : next.doubts = false
    · -- the admission that writes is alone in the lock, so nobody else doubts
      refine .inr (.inl ⟨id, hrow, haccepted, ?_⟩)
      intro other hmem
      obtain ⟨j, hj⟩ := List.mem_iff_getElem?.mp (htasks ▸ hmem)
      rw [List.getElem?_set] at hj
      split at hj
      · split at hj
        · exact Option.some.inj hj ▸ hdoubts
        · cases hj
      · rename_i hij
        have hfree := h.unlocked (.inl hlock) hj (Ne.symm hij)
        cases other <;> first | rfl | cases hfree
    · rcases hnext with ⟨write, rfl, hland, rfl⟩ | rfl
      · cases write with
        | written => exact absurd (by cases point <;> rfl) hdoubts
        | failed landed =>
          obtain rfl : landed = true := hland
          exact .inr (.inr ⟨i, rfl⟩)
      · exact absurd rfl hdoubts

/-- In every run `adapter.fork` is called at most once; an answer names the id of the accepted
record, or answers the resumption of that id; a settled record lasts, and every admission that
reads it resumes its id; a record is settled when it is accepted, unless its write reports an error;
and a changed source is refused. -/
theorem native_fork_settles {es : List (Event T)}
    (hrun : run (step identity generation) (startWorld T) es = some w) :
    w.forked.length ≤ 1 ∧
    (∀ source ∈ w.forked, ∃ row, w.intent = some row ∧ row.source = source) ∧
    (∀ answer ∈ w.answers, ∃ row id, w.Settled row id ∧ answer.Names identity id) ∧
    (∀ row id, w.Settled row id →
      (∀ fs t, run (step identity generation) w fs = some t →
        t.Settled row id ∧ t.forked = w.forked ∧
          ∃ k, t.resumed = w.resumed ++ List.replicate k id) ∧
      ∀ i aborted, w.tasks[i]? = some .waiting → w.lock = none →
        ∃ t, step identity generation w (.locks i true aborted) = some t ∧
          t.tasks[i]? = some (.resuming id)) ∧
    (∀ e t row, step identity generation w e = some t → t.intent = some row →
      row.state = .accepted →
      w.intent = some row ∨ (∃ id, t.Settled row id) ∨ ∃ i, e = .writes i (.failed true)) ∧
    ∀ row source, w.intent = some row → row.source ≠ source →
      step identity generation w (.prepares source true) = some (w.reply .changed) := by
  have h : w.Inv identity := run_invariant (fun _ _ _ hs he => inv_step hs he) hrun inv_start
  refine ⟨h.kept.once, h.kept.sources, ?_, ?_, ?_, ?_⟩
  · intro answer hmem
    obtain ⟨row, id, hintent, haccepted, hnames⟩ := h.kept.answered answer hmem
    refine ⟨row, id, ⟨hintent, haccepted, ?_⟩, hnames⟩
    intro point hpoint
    have hknows := h.points point hpoint
    cases point with
    | doubting intent =>
      rw [hknows.2.1] at hmem
      cases hmem
    | _ => rfl
  · intro row id hs
    refine ⟨fun fs t ht => settled_run h hs ht, ?_⟩
    intro i aborted hi hlock
    have hlt : i < w.tasks.length := (List.getElem?_eq_some_iff.mp hi).1
    refine ⟨World.goOn { w with lock := some i } i (admitted w.intent true aborted),
      by simp only [step, hi, hlock], ?_⟩
    simp [World.goOn, hs.intent, admitted_accepted hs.accepted, hlt]
  · intro e t row hstep hrow hstate
    exact settled_of_accepted h hstep hrow hstate
  · intro row source hintent hne
    have hnone : w.preparing = none := by
      cases hpreparing : w.preparing with
      | none => rfl
      | some other =>
        have hmissing := h.kept.preparing other hpreparing
        rw [hintent] at hmissing
        cases hmissing
    simp [step, hnone, hintent, hne]

end

/-! ### Two runs -/

def sourceOf (nativeId : String) : NativeForkSource where
  target := { machine := "m", agent := .codex, session := "a", threadId := nativeId }
  registration := "r"
  generation := "g"
  nativeId := nativeId
  turnId := none
  selection := none

/-- An admission forks and is answered with `b`. -/
def forks : List (Event String) :=
  [.prepares (sourceOf "a") true, .prepareWrites .written, .admits, .locks 0 true false,
    .writes 0 .written, .calls 0, .returns 0 (some "b")]

def acceptedRow : NativeForkIntent :=
  { destination := "d", source := sourceOf "a", state := .accepted, nativeId := some "b" }

def forkedWorld : World String :=
  { startWorld String with
    intent := some acceptedRow, tasks := [.ended], forked := [sourceOf "a"],
    answers := [⟨none, "b"⟩], replies := [.prepared] }

theorem native_fork_settles_forks :
    run (step id "d") (startWorld String) (forks ++ [.writes 0 .written]) = some forkedWorld ∧
      forkedWorld.forked.length ≤ 1 ∧
        ∀ answer ∈ forkedWorld.answers, ∃ row id, forkedWorld.Settled row id := by
  have hrun : run (step id "d") (startWorld String) (forks ++ [.writes 0 .written]) =
      some forkedWorld := by rfl
  obtain ⟨honce, -, hanswers, -⟩ := native_fork_settles hrun
  refine ⟨hrun, honce, fun answer hmem => ?_⟩
  obtain ⟨row, id, hsettled, -⟩ := hanswers answer hmem
  exact ⟨row, id, hsettled⟩

/-- A write that lands and reports an error is written over, and an answer to a resumption names
whatever it names. -/
theorem accepted_record_changes :
    (∃ w t, run (step id "d") (startWorld String) (forks ++ [.writes 0 (.failed true)]) = some w ∧
      w.intent = some acceptedRow ∧
      run (step id "d") w [.writes 0 .written] = some t ∧ t.intent ≠ some acceptedRow) ∧
    ∃ w, run (step id "d") (startWorld String) (forks ++ [.writes 0 .written, .admits,
        .locks 1 true false, .calls 1, .returns 1 (some "c")]) = some w ∧
      w.intent = some acceptedRow ∧ ⟨some "b", "c"⟩ ∈ w.answers := by
  refine ⟨⟨_, _, rfl, rfl, rfl, ?_⟩, _, rfl, rfl, ?_⟩
  · decide
  · decide

end Ccmux.Context.Fork
