/- Module: Ccmux/Control/CreateCallers
   source: src/control/lifecycle.ts, src/session/create.ts
   digest: Each step of a caller keeps what holds of the receipts. -/

import Ccmux.Control.CreateBooks

namespace Ccmux.Control.Create

open Ccmux.Chat.Identity (ManagedPeer)
open Ccmux.Control.CreateReceipts
open Ccmux.Lib.Machine
open Ccmux.Registry

section
variable {rcPrefix : String} {receipts : List CreateRow} {r after : Rows} {created : List Session}
variable {row other : CreateRow} {s : Session} {w v : World} {k : Nat} {c : Call}

theorem Sound.holder (h : Sound rcPrefix w) (hc : w.calls k = some c)
    (hholds : c.stage.holds = true) {j : Nat} (hjk : j ≠ k) :
    w.requestLock c.requestId ≠ some j := by
  rw [(h.held k c hc).lock hholds]
  intro hsame
  exact hjk (Option.some.inj hsame).symm

variable {duplicate : Bool} {next point : Point}

/-- A caller with the lock comes to a point with its receipt, after a change `v` of the stores. -/
theorem Sound.placed (h : Sound rcPrefix w)
    (hc : w.calls k = some c) (hholds : c.stage.holds = true)
    (hid : c.requestId = row.requestId) (hsame : row.toCanonical = c.canonical)
    (hcalls : v.calls = w.calls) (hlock : v.requestLock = w.requestLock)
    (houtcomes : v.outcomes = w.outcomes)
    (hrows : ∀ found ∈ w.receipts, found.requestId ≠ c.requestId → found ∈ v.receipts)
    (hcreated : ∀ s ∈ w.created, s ∈ v.created)
    (hbooks : Books v.receipts v.registry v.created)
    (htraced : Traced v.receipts v.registry v.created
      (Function.update w.calls k (some { c with stage := .working row duplicate next })))
    (hsettled : ∀ found ∈ w.receipts, found.status = .complete → found ∈ v.receipts)
    (hnext : PointHeld v.receipts v.created row next) :
    Sound rcPrefix (v.moveTo k c (.working row duplicate next)) := by
  have hmoved : (v.moveTo k c (.working row duplicate next)).calls =
      Function.update w.calls k (some { c with stage := .working row duplicate next }) := by
    rw [← hcalls]
    rfl
  refine h.stepped hmoved ?_ ?_ hrows hcreated hbooks ?_ hsettled ?_ ?_
  · intro j hjk hlocked
    exact absurd hlocked (h.holder hc hholds hjk)
  · intro other _
    exact congrFun hlock other
  · rw [hmoved]
    exact htraced
  · intro out hout
    exact Or.inl (houtcomes ▸ hout)
  · intro d hd
    obtain rfl := Option.some.inj hd
    refine ⟨?_, ?_⟩
    · intro _
      show v.requestLock c.requestId = some k
      rw [hlock]
      exact (h.held k c hc).lock hholds
    · intro found again at_ hfound
      simp only [Stage.working.injEq] at hfound
      obtain ⟨rfl, rfl, rfl⟩ := hfound
      exact ⟨hid, hsame, hnext⟩

theorem Sound.moves (h : Sound rcPrefix w)
    (hc : w.calls k = some c) (hstage : c.stage = .working row duplicate point)
    (hcalls : v.calls = w.calls) (hlock : v.requestLock = w.requestLock)
    (houtcomes : v.outcomes = w.outcomes)
    (hrows : ∀ found ∈ w.receipts, found.requestId ≠ c.requestId → found ∈ v.receipts)
    (hcreated : ∀ s ∈ w.created, s ∈ v.created)
    (hbooks : Books v.receipts v.registry v.created)
    (htraced : Traced v.receipts v.registry v.created
      (Function.update w.calls k (some { c with stage := .working row duplicate next })))
    (hsettled : ∀ found ∈ w.receipts, found.status = .complete → found ∈ v.receipts)
    (hnext : PointHeld v.receipts v.created row next) :
    Sound rcPrefix (v.moveTo k c (.working row duplicate next)) := by
  obtain ⟨hid, hsame, _⟩ := (h.held k c hc).row row duplicate point hstage
  exact h.placed hc (by rw [hstage]; rfl) hid hsame hcalls hlock houtcomes hrows hcreated hbooks
    htraced hsettled hnext

/-- A caller ends, after a change `v` of the stores. -/
theorem Sound.ends {outcomes : List Outcome} (h : Sound rcPrefix w)
    (hheld : c.stage.holds = true → w.requestLock c.requestId = some k)
    (hcalls : v.calls = w.calls) (hlock : v.requestLock = w.requestLock)
    (hwaiting : c.stage.holds = false → v.receipts = w.receipts)
    (hrows : ∀ found ∈ w.receipts, found.requestId ≠ c.requestId → found ∈ v.receipts)
    (hcreated : ∀ s ∈ w.created, s ∈ v.created)
    (hbooks : Books v.receipts v.registry v.created)
    (htraced : Traced v.receipts v.registry v.created (Function.update w.calls k none))
    (hsettled : ∀ found ∈ w.receipts, found.status = .complete → found ∈ v.receipts)
    (htold : ∀ out ∈ outcomes, out ∈ w.outcomes ∨ Told rcPrefix v.receipts out) :
    Sound rcPrefix { v.leave k c with outcomes := outcomes } := by
  have hleft : (v.leave k c).calls = Function.update w.calls k none := by
    rw [← hcalls]
    rfl
  refine h.stepped (o := none) (i := c.requestId) hleft ?_ ?_ hrows hcreated hbooks ?_ hsettled
    htold ?_
  · intro j hjk hlocked
    by_cases hholds : c.stage.holds = true
    · rw [hheld hholds] at hlocked
      exact absurd (Option.some.inj hlocked).symm hjk
    · refine ⟨?_, hwaiting (by simpa using hholds)⟩
      show (if c.stage.holds then Function.update v.requestLock c.requestId none
        else v.requestLock) = w.requestLock
      rw [if_neg hholds, hlock]
  · intro other hother
    show (if c.stage.holds then Function.update v.requestLock c.requestId none
      else v.requestLock) other = w.requestLock other
    split
    · rw [Function.update_of_ne hother, hlock]
    · rw [hlock]
  · rw [hleft]
    exact htraced
  · intro d hd
    cases hd

theorem Sound.goes (h : Sound rcPrefix w)
    (hc : w.calls k = some c) (hstage : c.stage = .working row duplicate point)
    (hnext : PointHeld w.receipts w.created row next)
    (hleft : point.handles = true → Registered w.registry row ∨ next.handles = true) :
    Sound rcPrefix (w.moveTo k c (.working row duplicate next)) := by
  obtain ⟨hid, _, hpoint⟩ := (h.held k c hc).row row duplicate point hstage
  refine h.moves hc hstage rfl rfl rfl (fun _ hmem _ => hmem) (fun _ hmem => hmem) h.books ?_
    (fun _ hmem _ => hmem) hnext
  apply h.traced.called
  intro d hd hhandles found hfound hrequest _ _ _
  rw [hc] at hd
  obtain rfl := Option.some.inj hd
  rw [hstage] at hhandles
  have hrow := hpoint.stored hhandles
  have hsame : found = row := h.books.unique hfound hrow (hrequest.trans hid)
  rcases hleft hhandles with hregistered | hmore
  · exact Or.inl (hsame ▸ hregistered)
  · exact Or.inr ⟨_, rfl, rfl, hmore⟩

theorem Sound.walks (h : Sound rcPrefix w)
    (hc : w.calls k = some c) (hstage : c.stage = .working row duplicate point)
    (hquiet : point.handles = false) (hnext : PointHeld w.receipts w.created row next) :
    Sound rcPrefix (w.moveTo k c (.working row duplicate next)) := by
  refine h.goes hc hstage hnext ?_
  intro hhandles
  rw [hquiet] at hhandles
  cases hhandles

variable {failure : AppError} {generation : String}

theorem Sound.refused (h : Sound rcPrefix w) (hc : w.calls k = some c)
    (hstage : c.stage = .working row duplicate point)
    (hleft : point.handles = true → row.forkSource ≠ none) :
    Sound rcPrefix (w.finish k c (.error failure)) := by
  have hheld := h.held k c hc
  obtain ⟨hid, _, hpoint⟩ := hheld.row row duplicate point hstage
  refine h.ends hheld.lock rfl rfl (fun _ => rfl) (fun _ hmem _ => hmem) (fun _ hmem => hmem)
    h.books ?_ (fun _ hmem _ => hmem) ?_
  · apply h.traced.called
    intro d hd hhandles found hfound hrequest _ hfork _
    rw [hc] at hd
    obtain rfl := Option.some.inj hd
    rw [hstage] at hhandles
    have hrow := hpoint.stored hhandles
    rw [h.books.unique hfound hrow (hrequest.trans hid)] at hfork
    exact absurd hfork (hleft hhandles)
  · intro out hout
    rcases List.mem_append.mp hout with hold | hnew
    · exact Or.inl hold
    · rw [List.mem_singleton.mp hnew]
      exact Or.inr told_error

theorem Sound.unborn_of_free (h : Sound rcPrefix w) (hrow : row ∈ w.receipts)
    (hpending : row.status = .pending) (hfree : ∀ s ∈ w.registry.sessions, s.name ≠ row.name)
    (hunpursued : ¬ Pursued w.calls row) : born w.created row.generation = [] := by
  by_contra hborn
  rcases h.traced row hrow hpending hborn with ⟨s, hs, hname, _⟩ | hpursued
  · exact hfree s hs hname
  · exact hunpursued hpursued

theorem Sound.unpursued (h : Sound rcPrefix w)
    (hc : w.calls k = some c) (hstage : c.stage = .working row duplicate point)
    (hpoint : point.handles = false) : ¬ Pursued w.calls row := by
  rintro ⟨_, j, d, hd, hid, hhandles⟩
  have hholds : c.stage.holds = true := by rw [hstage]; rfl
  obtain ⟨hrequest, _, _⟩ := (h.held k c hc).row row duplicate point hstage
  have hlock := (h.held k c hc).lock hholds
  have hdholds : d.stage.holds = true := by
    cases hd' : d.stage with
    | waiting => simp [hd', Stage.handles] at hhandles
    | locked => rfl
    | working _ _ _ => rfl
  have hdlock := (h.held j d hd).lock hdholds
  rw [hid, ← hrequest, hlock] at hdlock
  obtain rfl := Option.some.inj hdlock
  rw [hc] at hd
  obtain rfl := Option.some.inj hd
  rw [hstage] at hhandles
  rw [show (Stage.working row duplicate point).handles = point.handles from rfl, hpoint] at hhandles
  cases hhandles

theorem traced_unhandled {calls : Nat → Option Call} {o : Option Call}
    (h : Traced receipts r created calls) (hc : calls k = some c)
    (hunhandled : c.stage.handles = false) :
    Traced receipts r created (Function.update calls k o) := by
  apply h.called
  intro d hd hhandles
  rw [hc] at hd
  obtain rfl := Option.some.inj hd
  rw [hunhandled] at hhandles
  cases hhandles

theorem sound_launch (h : Sound rcPrefix w) (hc : w.calls k = some c)
    (hstage : c.stage = .working row duplicate .launching) (fresh : String) :
    Sound rcPrefix (launch w k c row duplicate fresh) := by
  obtain ⟨_, _, hrow, hpending⟩ := (h.held k c hc).row row duplicate _ hstage
  have hunpursued := h.unpursued hc hstage rfl
  have hunhandled : c.stage.handles = false := by rw [hstage]; rfl
  have hthrown : Sound rcPrefix (w.moveTo k c (.working row duplicate .thrown)) :=
    h.walks hc hstage rfl ⟨hrow, hpending⟩
  have hown : ∀ other ∈ w.receipts, row.generation = other.generation → other = row :=
    fun other hother hgeneration => h.books.unique_generation hother hrow hgeneration.symm
  unfold launch
  split
  · rename_i hclaude
    simp only [Bool.and_eq_true, Option.isNone_iff_eq_none] at hclaude
    dsimp only
    split
    · exact hthrown
    · rename_i registry hregistry
      obtain ⟨hfree, hlaunches, hafter⟩ := appendSession_some hregistry
      have hempty := h.unborn_of_free hrow hpending hfree hunpursued
      have hsub : ∀ p ∈ registry.pending, p ∈ w.registry.pending := by
        intro p hp
        rw [hafter] at hp
        exact hp
      refine h.moves hc hstage rfl rfl rfl (fun _ hmem _ => hmem)
        (fun _ hmem => List.mem_append_left _ hmem) ?_ ?_ (fun _ hmem _ => hmem) ?_
      · apply h.books.registered (by rw [hafter]) hfree hsub
        intro other hother hgeneration
        obtain rfl := hown other hother (Option.some.inj hgeneration)
        refine ⟨rfl, hempty, ?_⟩
        intro p hp hsame
        have hlaunch := hsub p hp
        exact hlaunches p hlaunch ((h.books.each other hother).pendingNames p hlaunch hsame)
      · apply traced_unhandled _ hc hunhandled
        apply h.traced.registered (by rw [hafter])
        intro other hother hgeneration
        rw [hown other hother (Option.some.inj hgeneration)]
        rfl
      · refine ⟨hrow, hpending, hclaude.1.1, rfl, rfl, ?_⟩
        exact born_ne_nil (List.mem_append_right _ (List.mem_singleton.mpr rfl)) rfl
  · dsimp only
    split
    · exact hthrown
    · rename_i registry hregistry
      obtain ⟨hfree, _, hafter⟩ := reservePendingSession_some hregistry
      have hempty := h.unborn_of_free hrow hpending hfree hunpursued
      refine h.moves hc hstage rfl rfl rfl (fun _ hmem _ => hmem) (fun _ hmem => hmem) ?_ ?_
        (fun _ hmem _ => hmem) ⟨hrow, hpending⟩
      · apply h.books.reserved hafter
        intro other hother hgeneration
        rw [hown other hother hgeneration]
        exact ⟨rfl, hempty⟩
      · apply traced_unhandled _ hc hunhandled
        apply h.traced.sessions
        intro other hregistered
        rw [hafter]
        exact hregistered

theorem poll_held (hbooks : Books receipts r created) (hrow : row ∈ receipts)
    (hpending : row.status = .pending) : PointHeld receipts created row (poll r row) := by
  unfold poll
  split
  · rename_i ready hready
    split
    · rename_i hgeneration
      exact ⟨hrow, hbooks.of_session hrow (findSession_mem hready).1 hgeneration⟩
    · exact ⟨hrow, hpending⟩
  · split
    · exact ⟨hrow, hpending⟩
    · split
      · exact ⟨hrow, hpending⟩
      · exact ⟨hrow, hpending⟩

theorem Sound.removes (h : Sound rcPrefix w)
    (hc : w.calls k = some c) (hstage : c.stage = .working row duplicate point)
    (hunhandled : point.handles = false) (hrow : row ∈ w.receipts)
    (hpending : row.status = .pending)
    (hafter : after = w.registry ∨ (row.forkSource = none ∧ after = removeSession w.registry row.name ∧
      ∃ s ∈ w.registry.sessions, s.name = row.name ∧
        s.registrationGeneration = some row.generation)) :
    Sound rcPrefix ({ w with registry := after }.moveTo k c (.working row duplicate .thrown)) := by
  have hquiet : c.stage.handles = false := by rw [hstage]; exact hunhandled
  obtain ⟨hid, _, _⟩ := (h.held k c hc).row row duplicate point hstage
  rcases hafter with rfl | ⟨hfork, rfl, s, hs, hname, hgeneration⟩
  · exact h.walks hc hstage hunhandled ⟨hrow, hpending⟩
  · refine h.moves hc hstage rfl rfl rfl (fun _ hmem _ => hmem) (fun _ hmem => hmem)
      (h.books.removed row.name) ?_ (fun _ hmem _ => hmem) ⟨hrow, hpending⟩
    apply (traced_unhandled h.traced hc hquiet).removed
    intro other hother _ t ht htname htgeneration
    have hsame : t = s := h.books.unique_name ht hs (htname.trans hname.symm)
    rw [hsame, hgeneration] at htgeneration
    obtain rfl := h.books.unique_generation hother hrow (Option.some.inj htgeneration).symm
    exact ⟨hfork, k, _, Function.update_self _ _ _, hid, rfl⟩

theorem verify_none {sessions : List Session} (h : verify rcPrefix sessions row s = none) :
    describes row s = true := by
  unfold verify at h
  split at h
  · cases h
  · rename_i hdescribes
    simpa using hdescribes

theorem describes_agent (h : describes row s = true) : s.agent = row.agent := by
  simp only [describes, Bool.and_eq_true, beq_iff_eq] at h
  exact h.1.1.1.1.1.1.1.1.2

theorem settled_failing (h : Sound rcPrefix w) (hc : w.calls k = some c)
    (hstage : c.stage = .working row duplicate .failing) (hfound : other ∈ w.receipts)
    (hcomplete : other.status = .complete) :
    other ∈ updateReceipt w.receipts row.requestId CreateRow.failed := by
  obtain ⟨_, _, hrow, hpending⟩ := (h.held k c hc).row row duplicate _ hstage
  apply updateReceipt_other hfound
  intro hsame
  rw [h.books.unique hfound hrow hsame, hpending] at hcomplete
  cases hcomplete

theorem sound_failing (h : Sound rcPrefix w) (hc : w.calls k = some c)
    (hstage : c.stage = .working row duplicate .failing) :
    Sound rcPrefix ({ w with
      receipts := updateReceipt w.receipts row.requestId CreateRow.failed }.finish k c
        (.error createFailed)) := by
  have hheld := h.held k c hc
  have hholds : c.stage.holds = true := by rw [hstage]; rfl
  obtain ⟨hid, _, hrow, hpending⟩ := hheld.row row duplicate _ hstage
  refine h.ends hheld.lock rfl rfl ?_ ?_ (fun _ hmem => hmem) ?_ ?_ ?_ ?_
  · intro hnot
    rw [hholds] at hnot
    cases hnot
  · intro found hfound hne
    exact updateReceipt_other hfound (hid ▸ hne)
  · refine h.books.updated (fun _ => rfl) (fun _ => rfl) ?_
    intro found hfound _
    exact (h.books.each found hfound).failed
  · have hstored : Traced (updateReceipt w.receipts row.requestId CreateRow.failed) w.registry
        w.created w.calls := by
      apply h.traced.rows
      intro found hfound hstill _
      rcases mem_updateReceipt hfound with ⟨hold, _⟩ | ⟨old, _, _, rfl⟩
      · exact hold
      · cases hstill
    apply hstored.called
    intro d hd _ found hfound hrequest hstill _ _
    rw [hc] at hd
    obtain rfl := Option.some.inj hd
    rcases mem_updateReceipt hfound with ⟨_, hne⟩ | ⟨old, _, _, rfl⟩
    · exact absurd (hrequest.trans hid) hne
    · cases hstill
  · intro found hfound hcomplete
    exact settled_failing h hc hstage hfound hcomplete
  · intro out hout
    rcases List.mem_append.mp hout with hold | hnew
    · exact Or.inl hold
    · rw [List.mem_singleton.mp hnew]
      exact Or.inr told_error

theorem completed_same {uuid : String} (hcomplete : row.status = .complete)
    (hthread : row.threadId = some uuid) : row.completed uuid = row := by
  cases row
  simp only [CreateRow.completed, CreateRow.mk.injEq, true_and]
  exact ⟨hcomplete.symm, hthread.symm⟩

theorem settled_verified (h : Sound rcPrefix w) (hc : w.calls k = some c)
    (hstage : c.stage = .working row duplicate (.verified s)) (hfound : other ∈ w.receipts)
    (hcomplete : other.status = .complete) :
    other ∈ updateReceipt w.receipts row.requestId (CreateRow.completed s.uuid) := by
  obtain ⟨_, _, hrow, _, _, hthread⟩ := (h.held k c hc).row row duplicate _ hstage
  by_cases hsame : other.requestId = row.requestId
  · obtain rfl := h.books.unique hfound hrow hsame
    rcases hthread with hnone | hsome
    · have hset := ((h.books.each other hfound).complete hcomplete).2
      rw [hnone] at hset
      cases hset
    · have hself := @updateReceipt_self w.receipts other _ (CreateRow.completed s.uuid) hrow rfl
      rw [completed_same hcomplete hsome] at hself
      exact hself
  · exact updateReceipt_other hfound hsame

theorem sound_verified (h : Sound rcPrefix w) (hc : w.calls k = some c)
    (hstage : c.stage = .working row duplicate (.verified s)) :
    Sound rcPrefix ({ w with
      receipts := updateReceipt w.receipts row.requestId (CreateRow.completed s.uuid) }.moveTo k c
        (.working row duplicate (.completed s))) := by
  obtain ⟨hid, _, hrow, hof, hagent, _⟩ := (h.held k c hc).row row duplicate _ hstage
  have hself := @updateReceipt_self w.receipts row row.requestId (CreateRow.completed s.uuid) hrow rfl
  refine h.moves hc hstage rfl rfl rfl ?_ (fun _ hmem => hmem) ?_ ?_ ?_ ⟨hself, hof, hagent⟩
  · intro found hfound hne
    exact updateReceipt_other hfound (hid ▸ hne)
  · refine h.books.updated (fun _ => rfl) (fun _ => rfl) ?_
    intro found hfound hsame
    obtain rfl := h.books.unique hfound hrow hsame
    exact (h.books.each found hfound).completed hof.born s.uuid
  · apply traced_unhandled _ hc (by rw [hstage]; rfl)
    apply h.traced.rows
    intro found hfound hpending _
    rcases mem_updateReceipt hfound with ⟨hold, _⟩ | ⟨old, _, _, rfl⟩
    · exact hold
    · cases hpending
  · intro found hfound hcomplete
    exact settled_verified h hc hstage hfound hcomplete

theorem sound_completed (h : Sound rcPrefix w) (hc : w.calls k = some c)
    (hstage : c.stage = .working row duplicate (.completed s)) :
    Sound rcPrefix (w.finish k c (.ok (answerOf rcPrefix row duplicate s))) := by
  have hheld := h.held k c hc
  obtain ⟨hid, hsame, hrow, hof, hagent⟩ := hheld.row row duplicate _ hstage
  refine h.ends hheld.lock rfl rfl (fun _ => rfl) (fun _ hmem _ => hmem) (fun _ hmem => hmem)
    h.books ?_ (fun _ hmem _ => hmem) ?_
  · exact traced_unhandled h.traced hc (by rw [hstage]; rfl)
  · intro out hout
    rcases List.mem_append.mp hout with hold | hnew
    · exact Or.inl hold
    · rw [List.mem_singleton.mp hnew]
      refine Or.inr ?_
      intro a ha
      obtain rfl := (Except.ok.inj ha).symm
      refine ⟨_, hrow, s.uuid, hid.symm, hsame, rfl, rfl, ?_, rfl⟩
      show ManagedPeer.mk rcPrefix s.agent s.name s.uuid = ⟨rcPrefix, row.agent, row.name, s.uuid⟩
      rw [hagent, hof.name]

/-- What goes on at a point keeps what holds, also a removal where it is allowed. -/
theorem sound_proceed (h : Sound rcPrefix w)
    (hc : w.calls k = some c) (hstage : c.stage = .working row duplicate point) (fresh : String)
    (hallowed : allowed w (.turn k (.proceeds fresh)) = true) :
    Sound rcPrefix (proceed rcPrefix w k c row duplicate fresh point) := by
  obtain ⟨hid, hsame, hpoint⟩ := (h.held k c hc).row row duplicate point hstage
  have hfound : ∀ {session : Session}, row ∈ w.receipts →
      matchingSession w.registry.sessions row = some session →
      PointHeld w.receipts w.created row (.found session) := by
    intro session hrow hmatch
    obtain ⟨hmem, _, hgeneration⟩ := matchingSession_some hmatch
    exact ⟨hrow, h.books.of_session hrow hmem hgeneration⟩
  cases point with
  | accepted =>
    simp only [proceed]
    split
    · exact h.refused hc hstage fun hhandles => by cases hhandles
    · rename_i hfailed
      split
      · rename_i session hmatch
        exact h.walks hc hstage rfl (hfound hpoint hmatch)
      · split
        · exact h.refused hc hstage fun hhandles => by cases hhandles
        · rename_i hcomplete
          have hpending : row.status = .pending := by
            cases hstatus : row.status with
            | pending => rfl
            | complete => exact absurd hstatus hcomplete
            | failed => exact absurd hstatus hfailed
          exact h.walks hc hstage rfl ⟨hpoint, hpending⟩
  | unmatched =>
    simp only [proceed]
    split
    · exact h.walks hc hstage rfl hpoint
    · exact h.walks hc hstage rfl hpoint
  | preparing =>
    simp only [proceed]
    split
    · exact h.walks hc hstage rfl hpoint
    · split
      · exact h.walks hc hstage rfl hpoint
      · exact h.moves hc hstage rfl rfl rfl (fun _ hmem _ => hmem) (fun _ hmem => hmem) h.books
          (traced_unhandled h.traced hc (by rw [hstage]; rfl)) (fun _ hmem _ => hmem) hpoint
  | launching => exact sound_launch h hc hstage fresh
  | starting session =>
    exact h.walks hc hstage rfl ⟨hpoint.1, hpoint.2.2.2⟩
  | undoing session =>
    obtain ⟨hrow, hpending, hfork, hof⟩ := hpoint
    have hregistered : Registered w.registry row := by
      rcases h.traced row hrow hpending hof.born with hregistered | hpursued
      · exact hregistered
      · exact absurd hpursued (h.unpursued hc hstage rfl)
    refine h.removes hc hstage rfl hrow hpending ?_
    rcases @removeSessionIfUuid_cases w.registry session.name session.uuid with
      hleft | ⟨hremoved, _⟩
    · exact Or.inl hleft
    · rw [hof.name] at hremoved
      exact Or.inr ⟨hfork, by rw [← hremoved, hof.name], hregistered⟩
  | awaiting =>
    refine h.walks hc hstage rfl (poll_held h.books hpoint.1 hpoint.2)
  | rollingBack =>
    simp only [proceed]
    split
    · exact h.walks hc hstage rfl hpoint
    · exact h.walks hc hstage rfl hpoint
  | removingPending =>
    refine h.moves hc hstage rfl rfl rfl (fun _ hmem _ => hmem) (fun _ hmem => hmem)
      (h.books.unlaunched row.generation) ?_ (fun _ hmem _ => hmem) hpoint
    apply traced_unhandled _ hc (by rw [hstage]; rfl)
    exact h.traced.sessions fun _ hregistered => hregistered
  | removingSession =>
    obtain ⟨hrow, hpending⟩ := hpoint
    refine h.removes hc hstage rfl hrow hpending ?_
    rcases @removeSessionIfGeneration_cases w.registry row.name row.generation with
      hleft | ⟨hremoved, s, hs, hname, hgeneration⟩
    · exact Or.inl hleft
    · refine Or.inr ⟨?_, hremoved, s, hs, hname, hgeneration⟩
      obtain ⟨requestId, canonical, stage⟩ := c
      simp only at hstage
      rw [hstage] at hc
      simp only [allowed, hc, Bool.or_eq_true, Option.isNone_iff_eq_none] at hallowed
      rcases hallowed with hfork | hnone
      · exact hfork
      · exact absurd ⟨s, hs, hname, hgeneration⟩ (not_registered_of_match hnone)
  | thrown =>
    simp only [proceed]
    split
    · rename_i session hmatch
      exact h.goes hc hstage (hfound hpoint.1 hmatch) fun _ => Or.inl (registered_of_match hmatch)
    · split
      · rename_i hfork
        refine h.refused hc hstage fun _ hnone => ?_
        rw [hnone] at hfork
        cases hfork
      · exact h.goes hc hstage hpoint fun _ => Or.inr rfl
  | failing => exact sound_failing h hc hstage
  | reconciling =>
    simp only [proceed]
    split
    · rename_i session hmatch
      exact h.walks hc hstage rfl (hfound hpoint.1 hmatch)
    · exact h
  | found session =>
    simp only [proceed]
    split
    · exact h.refused hc hstage fun hhandles => by cases hhandles
    · rename_i hverify
      have hdescribes := verify_none hverify
      exact h.walks hc hstage rfl
        ⟨hpoint.1, hpoint.2, describes_agent hdescribes, describes_threadId hdescribes⟩
  | verified session => exact sound_verified h hc hstage
  | completed session => exact sound_completed h hc hstage

theorem sound_fail (h : Sound rcPrefix w)
    (hc : w.calls k = some c) (hstage : c.stage = .working row duplicate point)
    (hfail : fail w k c row duplicate point = some v) : Sound rcPrefix v := by
  obtain ⟨_, _, hpoint⟩ := (h.held k c hc).row row duplicate point hstage
  cases point with
  | preparing => exact Option.some.inj hfail ▸ h.walks hc hstage rfl hpoint
  | launching => exact Option.some.inj hfail ▸ h.walks hc hstage rfl hpoint
  | rollingBack => exact Option.some.inj hfail ▸ h.walks hc hstage rfl hpoint
  | removingPending => exact Option.some.inj hfail ▸ h.walks hc hstage rfl hpoint
  | removingSession => exact Option.some.inj hfail ▸ h.walks hc hstage rfl hpoint
  | undoing session =>
    exact Option.some.inj hfail ▸ h.walks hc hstage rfl ⟨hpoint.1, hpoint.2.1⟩
  | starting session => exact Option.some.inj hfail ▸ h.walks hc hstage rfl hpoint
  | awaiting => exact Option.some.inj hfail ▸ h.walks hc hstage rfl hpoint
  | reconciling =>
    exact Option.some.inj hfail ▸ h.refused hc hstage fun hhandles => by cases hhandles
  | _ => cases hfail

theorem Sound.rejected (h : Sound rcPrefix w)
    (hheld : c.stage.holds = true → w.requestLock c.requestId = some k)
    (hquiet : ∀ d, w.calls k = some d → d.stage.handles = false) :
    Sound rcPrefix (w.finish k c (.error failure)) := by
  refine h.ends hheld rfl rfl (fun _ => rfl) (fun _ hmem _ => hmem) (fun _ hmem => hmem)
    h.books ?_ (fun _ hmem _ => hmem) ?_
  · apply h.traced.called
    intro d hd hhandles
    rw [hquiet d hd] at hhandles
    cases hhandles
  · intro out hout
    rcases List.mem_append.mp hout with hold | hnew
    · exact Or.inl hold
    · rw [List.mem_singleton.mp hnew]
      exact Or.inr told_error

theorem unused (h : w.used generation = false) :
    (∀ row ∈ w.receipts, row.generation ≠ generation) ∧
      (∀ p ∈ w.registry.pending, p.generation ≠ generation) ∧
      ∀ s ∈ w.created, s.registrationGeneration ≠ some generation := by
  simp only [World.used, Bool.or_eq_false_iff, List.any_eq_false, beq_iff_eq] at h
  exact ⟨h.1.1, h.1.2, h.2⟩

theorem sound_accept (h : Sound rcPrefix w) (hc : w.calls k = some c)
    (hstage : c.stage = .locked) (haccept : accept w k c generation = some v) :
    Sound rcPrefix v := by
  have hheld := h.held k c hc
  have hholds : c.stage.holds = true := by rw [hstage]; rfl
  have hunhandled : c.stage.handles = false := by rw [hstage]; rfl
  have hquiet : ∀ d, w.calls k = some d → d.stage.handles = false := by
    intro d hd
    rw [hc] at hd
    obtain rfl := Option.some.inj hd
    exact hunhandled
  unfold accept at haccept
  split at haccept
  · rename_i row hfound
    obtain ⟨hrow, hid⟩ := receiptOf_some hfound
    split at haccept
    · exact Option.some.inj haccept ▸ h.rejected hheld.lock hquiet
    · rename_i hdigest
      have hsame : row.toCanonical = c.canonical := by
        have hprint := (h.books.each row hrow).digest
        rw [not_not.mp hdigest] at hprint
        exact (congrArg Fingerprint.stableJson hprint).symm
      rw [← Option.some.inj haccept]
      exact h.placed hc hholds hid.symm hsame rfl rfl rfl (fun _ hmem _ => hmem)
        (fun _ hmem => hmem) h.books (traced_unhandled h.traced hc hunhandled)
        (fun _ hmem _ => hmem) hrow
  · rename_i hnone
    split at haccept
    · exact Option.some.inj haccept ▸ h.rejected hheld.lock hquiet
    · split at haccept
      · cases haccept
      · rename_i hused
        obtain ⟨hreceipts, hpending, hcreated⟩ := unused (by simpa using hused)
        rw [← Option.some.inj haccept]
        refine h.placed hc hholds rfl rfl rfl rfl rfl ?_ (fun _ hmem => hmem) ?_ ?_ ?_ ?_
        · intro found hfound _
          exact List.mem_append_left _ hfound
        · exact h.books.accepted (receiptOf_none.mp hnone) hreceipts hpending hcreated
        · refine traced_unhandled ?_ hc hunhandled
          apply h.traced.rows
          intro found hfound _ hborn
          rcases List.mem_append.mp hfound with hold | hnew
          · exact hold
          · rw [List.mem_singleton.mp hnew, pendingRow_generation] at hborn
            obtain ⟨s, hs⟩ := List.exists_mem_of_ne_nil _ hborn
            obtain ⟨hmem, hgeneration⟩ := mem_born.mp hs
            exact absurd hgeneration (hcreated s hmem)
        · intro found hfound _
          exact List.mem_append_left _ hfound
        · exact List.mem_append_right _ (List.mem_singleton.mpr rfl)

/-- A caller comes to a stage where it has no receipt; the lock it takes was free. -/
theorem Sound.arrives {d : Call} {lock : String → Option Nat} (h : Sound rcPrefix w)
    (hquiet : ∀ c, w.calls k = some c → c.stage.handles = false)
    (hstage : ∀ row duplicate point, d.stage ≠ .working row duplicate point)
    (hlock : lock = w.requestLock ∨ (w.requestLock d.requestId = none ∧
      lock = Function.update w.requestLock d.requestId (some k)))
    (hheld : d.stage.holds = true → lock d.requestId = some k) :
    Sound rcPrefix { w with
      calls := Function.update w.calls k (some d)
      requestLock := lock } := by
  refine h.stepped (i := d.requestId) rfl ?_ ?_ (fun _ hmem _ => hmem) (fun _ hmem => hmem)
    h.books ?_ (fun _ hmem _ => hmem) (fun _ hout => Or.inl hout) ?_
  · intro j _ hlocked
    rcases hlock with rfl | ⟨hnone, _⟩
    · exact ⟨rfl, rfl⟩
    · rw [hnone] at hlocked
      cases hlocked
  · intro other hother
    rcases hlock with rfl | ⟨_, rfl⟩
    · rfl
    · exact Function.update_of_ne hother _ _
  · apply h.traced.called
    intro c hc hhandles
    rw [hquiet c hc] at hhandles
    cases hhandles
  · intro c hc
    obtain rfl := Option.some.inj hc
    exact ⟨hheld, fun row duplicate point hworking => absurd hworking (hstage row duplicate point)⟩

theorem sound_request {requestId : String} {canonical : Canonical} (h : Sound rcPrefix w)
    (hk : w.calls k = none) : Sound rcPrefix (request w k requestId canonical) := by
  have hquiet : ∀ c, w.calls k = some c → c.stage.handles = false := by
    intro c hc
    rw [hk] at hc
    cases hc
  have hwaits : Sound rcPrefix (w.moveTo k ⟨requestId, canonical, .waiting⟩ .waiting) := by
    refine @Sound.arrives rcPrefix w k ⟨requestId, canonical, .waiting⟩ w.requestLock h hquiet ?_
      (Or.inl rfl) ?_
    · intro row duplicate point hworking
      cases hworking
    · intro hholds
      cases hholds
  unfold request
  dsimp only
  split
  · split
    · apply h.rejected _ hquiet
      intro hholds
      cases hholds
    · exact hwaits
  · exact hwaits

theorem sound_turn {t : Turn} (h : Sound rcPrefix w) (hc : w.calls k = some c)
    (hallowed : allowed w (.turn k t) = true) (hadvance : advance rcPrefix w k c t = some v) :
    Sound rcPrefix v := by
  cases hstage : c.stage with
  | waiting =>
    cases t with
    | proceeds fresh =>
      simp only [advance, hstage] at hadvance
      split at hadvance
      · cases hadvance
      · rename_i hfree
        rw [← Option.some.inj hadvance]
        refine @Sound.arrives rcPrefix w k { c with stage := .locked } _ h ?_ ?_
          (Or.inr ⟨by simpa using hfree, rfl⟩) ?_
        · intro d hd
          rw [hc] at hd
          obtain rfl := Option.some.inj hd
          rw [hstage]
          rfl
        · intro row duplicate point hworking
          cases hworking
        · intro _
          exact Function.update_self _ _ _
    | fails => simp [advance, hstage] at hadvance
  | locked =>
    cases t with
    | proceeds fresh =>
      simp only [advance, hstage] at hadvance
      exact sound_accept h hc hstage hadvance
    | fails => simp [advance, hstage] at hadvance
  | working row duplicate point =>
    cases t with
    | proceeds fresh =>
      simp only [advance, hstage] at hadvance
      exact Option.some.inj hadvance ▸ sound_proceed h hc hstage fresh hallowed
    | fails =>
      simp only [advance, hstage] at hadvance
      exact sound_fail h hc hstage hadvance

theorem sound_crash (h : Sound rcPrefix w) (hc : w.calls k = some c)
    (hallowed : allowed w (.crash k) = true) : Sound rcPrefix (w.leave k c) := by
  have hheld := h.held k c hc
  show Sound rcPrefix { w.leave k c with outcomes := w.outcomes }
  refine h.ends hheld.lock rfl rfl (fun _ => rfl) (fun _ hmem _ => hmem)
    (fun _ hmem => hmem) h.books ?_ (fun _ hmem _ => hmem) (fun _ hout => Or.inl hout)
  apply h.traced.called
  intro d hd hhandles found hfound hrequest _ _ hborn
  rw [hc] at hd
  obtain rfl := Option.some.inj hd
  cases hstage : c.stage with
  | waiting => simp [hstage, Stage.handles] at hhandles
  | locked => simp [hstage, Stage.handles] at hhandles
  | working row duplicate point =>
    have hpointHandles : point.handles = true := by rw [hstage] at hhandles; exact hhandles
    obtain ⟨hid, _, hpoint⟩ := hheld.row row duplicate point hstage
    have hrow := hpoint.stored hpointHandles
    obtain rfl := h.books.unique hfound hrow (hrequest.trans hid)
    obtain ⟨requestId, canonical, stage⟩ := c
    simp only at hstage
    rw [hstage] at hc
    simp only [allowed, hc, hpointHandles, Bool.not_true, Bool.false_or, Bool.or_eq_true,
      List.isEmpty_iff] at hallowed
    rcases hallowed with hempty | hmatch
    · exact absurd hempty hborn
    · obtain ⟨session, hsession⟩ := Option.isSome_iff_exists.mp hmatch
      exact Or.inl (registered_of_match hsession)

end

end Ccmux.Control.Create
