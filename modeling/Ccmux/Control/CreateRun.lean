/- Module: Ccmux/Control/CreateRun
   source: src/control/lifecycle.ts, src/control/createReceipts.ts
   digest: A create registers one session and names it in every answer, over any run of callers. -/

import Ccmux.Control.CreateCallers

namespace Ccmux.Control.Create

open Ccmux.Control.CreateReceipts
open Ccmux.Lib.Machine
open Ccmux.Registry

section
variable {rcPrefix : String} {receipts : List CreateRow} {r after : Rows} {created : List Session}
variable {row other : CreateRow} {s : Session} {w v : World} {k : Nat} {c : Call}

variable {generation : String} {e : Event}

theorem sound_promote {uuid : String} {native : Option NativeSession} (h : Sound rcPrefix w)
    (hstep : promote w generation uuid native = some v) :
    Sound rcPrefix v := by
  unfold promote at hstep
  split at hstep
  · cases hstep
  · obtain ⟨⟨registry, ready⟩, hpromoted, rfl⟩ := Option.map_eq_some_iff.mp hstep
    obtain ⟨p, hp, hgeneration, hready, hfree, hsessions, hpending⟩ :=
      promotePendingSession_some hpromoted
    have hname : ∀ row ∈ w.receipts, ready.registrationGeneration = some row.generation →
        p.generation = row.generation := by
      intro row _ hsame
      rw [hready, promoted_generation] at hsame
      exact Option.some.inj hsame
    refine h.host rfl rfl rfl rfl (fun _ hmem => List.mem_append_left _ hmem) ?_ ?_
    · apply h.books.registered hsessions
      · rw [hready]
        exact hfree
      · intro q hq
        rw [hpending] at hq
        exact (List.mem_filter.mp hq).1
      · intro row hrow hsame
        have hown := hname row hrow hsame
        have hkept := h.books.each row hrow
        refine ⟨?_, hkept.unborn p hp hown, ?_⟩
        · rw [hready]
          exact hkept.pendingNames p hp hown
        · intro q hq hqgeneration
          rw [hpending] at hq
          have hother := (List.mem_filter.mp hq).2
          rw [hqgeneration, ← hown, hgeneration] at hother
          simp at hother
    · apply h.traced.registered hsessions
      intro row hrow hsame
      rw [hready]
      exact (h.books.each row hrow).pendingNames p hp (hname row hrow hsame)

theorem sound_clear (h : Sound rcPrefix w)
    (hstep : clearBlocked w generation = some v) : Sound rcPrefix v := by
  unfold clearBlocked at hstep
  split at hstep
  · cases hstep
  · rename_i item hitem
    have hmem := List.mem_of_find?_eq_some hitem
    have hgeneration : item.generation = generation := by
      have hfound := List.find?_some hitem
      simpa using hfound
    split at hstep
    · cases hstep
    · split at hstep
      · cases hstep
      · rw [← Option.some.inj hstep]
        refine h.host rfl rfl rfl rfl (fun _ hs => hs) ?_ ?_
        · apply Books.unlaunched
          rcases @removeSessionIfGeneration_cases w.registry item.session.name generation with
            hleft | ⟨hremoved, _⟩
          · rw [hleft]
            exact h.books
          · rw [hremoved]
            exact h.books.removed _
        · rcases @removeSessionIfGeneration_cases w.registry item.session.name generation with
            hleft | ⟨hremoved, t, ht, htname, htgeneration⟩
          · rw [hleft]
            exact h.traced.sessions fun _ hregistered => hregistered
          · rw [hremoved]
            -- The launch is still there, so nothing was registered under its generation.
            intro row hrow hpending hborn
            refine Traced.removed h.traced ?_ row hrow hpending hborn
            intro other hother _ s hs hsname hsgeneration
            have hsame : s = t := h.books.unique_name hs ht (hsname.trans htname.symm)
            rw [hsame, htgeneration] at hsgeneration
            have hown : item.generation = other.generation := by
              rw [hgeneration]
              exact Option.some.inj hsgeneration
            have hempty := (h.books.each other hother).unborn item hmem hown
            have hof := h.books.of_session hother ht (by rw [htgeneration, ← hgeneration, hown])
            exact absurd hempty hof.born

theorem sound_edit {change : Session → Session} (h : Sound rcPrefix w)
    (hname : ∀ s, (change s).name = s.name)
    (hgeneration : ∀ s, (change s).registrationGeneration = s.registrationGeneration) :
    Sound rcPrefix { w with
      registry := { w.registry with sessions := w.registry.sessions.map change } } := by
  refine h.host rfl rfl rfl rfl (fun _ hs => hs) (h.books.edited hname hgeneration) ?_
  apply h.traced.sessions
  rintro row ⟨s, hs, hsname, hsgeneration⟩
  exact ⟨change s, List.mem_map.mpr ⟨s, hs, rfl⟩, by rw [hname, hsname],
    by rw [hgeneration, hsgeneration]⟩

variable {registry : Rows} {duplicate : Bool} {point : Point}

theorem sound_register {session : Session} (h : Sound rcPrefix w)
    (hunused : session.registrationGeneration.any w.used = false)
    (happend : appendSession w.registry session = some registry) :
    Sound rcPrefix { w with registry := registry, created := w.created ++ [session] } := by
  obtain ⟨hfree, _, hafter⟩ := appendSession_some happend
  have hforeign : ∀ row ∈ w.receipts, session.registrationGeneration ≠ some row.generation := by
    intro row hrow hsame
    rw [hsame] at hunused
    exact (unused hunused).1 row hrow rfl
  refine h.host rfl rfl rfl rfl (fun _ hs => List.mem_append_left _ hs) ?_ ?_
  · apply h.books.registered (by rw [hafter]) hfree
    · intro p hp
      rw [hafter] at hp
      exact hp
    · intro row hrow hsame
      exact absurd hsame (hforeign row hrow)
  · apply h.traced.registered (by rw [hafter])
    intro row hrow hsame
    exact absurd hsame (hforeign row hrow)

theorem sound_reserve {pending : PendingSession} (h : Sound rcPrefix w)
    (hunused : w.used pending.generation = false)
    (hreserve : reservePendingSession w.registry pending = some registry) :
    Sound rcPrefix { w with registry := registry } := by
  obtain ⟨_, _, hafter⟩ := reservePendingSession_some hreserve
  refine h.host rfl rfl rfl rfl (fun _ hs => hs) ?_ ?_
  · apply h.books.reserved hafter
    intro row hrow hsame
    exact absurd hsame.symm ((unused hunused).1 row hrow)
  · apply h.traced.sessions
    intro row hregistered
    rw [hafter]
    exact hregistered

theorem sound_rm {name : String} (h : Sound rcPrefix w) (hallowed : allowed w (.rm name) = true) :
    Sound rcPrefix { w with registry := removeSession w.registry name } := by
  refine h.host rfl rfl rfl rfl (fun _ hs => hs) (h.books.removed name) ?_
  apply h.traced.removed
  intro row hrow hpending s hs hname hgeneration
  have hcheck := List.all_eq_true.mp hallowed s hs
  simp only [hname, bne_self_eq_false, Bool.false_or, List.all_eq_true] at hcheck
  have hrowcheck := hcheck row hrow
  simp [hpending, hgeneration] at hrowcheck

/-- Where a step is allowed, it keeps what holds. -/
theorem sound_step (h : Sound rcPrefix w) (hallowed : allowed w e = true)
    (hstep : step rcPrefix w e = some v) : Sound rcPrefix v := by
  cases e with
  | request k requestId canonical =>
    simp only [step] at hstep
    split at hstep
    · cases hstep
    · rename_i hk
      exact Option.some.inj hstep ▸ sound_request h (by simpa using hk)
  | turn k t =>
    obtain ⟨c, hc, hadvance⟩ := Option.bind_eq_some_iff.mp hstep
    exact sound_turn h hc hallowed hadvance
  | crash k =>
    obtain ⟨c, hc, rfl⟩ := Option.map_eq_some_iff.mp hstep
    exact sound_crash h hc hallowed
  | promote generation uuid native => exact sound_promote h hstep
  | block generation =>
    rw [← Option.some.inj hstep]
    refine h.host rfl rfl rfl rfl (fun _ hs => hs) ?_ ?_
    · refine h.books.pending_sub rfl ?_
      intro p hp
      obtain ⟨q, hq, rfl⟩ := List.mem_map.mp hp
      refine ⟨q, hq, ?_⟩
      split <;> exact ⟨rfl, rfl⟩
    · exact h.traced.sessions fun _ hregistered => hregistered
  | clear generation => exact sound_clear h hstep
  | fork generation state =>
    rw [← Option.some.inj hstep]
    exact h.host rfl rfl rfl rfl (fun _ hs => hs) h.books h.traced
  | register session =>
    simp only [step] at hstep
    split at hstep
    · cases hstep
    · rename_i hunused
      obtain ⟨registry, happend, rfl⟩ := Option.map_eq_some_iff.mp hstep
      exact sound_register h (by simpa using hunused) happend
  | reserve pending =>
    simp only [step] at hstep
    split at hstep
    · cases hstep
    · rename_i hunused
      obtain ⟨registry, hreserve, rfl⟩ := Option.map_eq_some_iff.mp hstep
      exact sound_reserve h (by simpa using hunused) hreserve
  | edit name fields =>
    rw [← Option.some.inj hstep]
    apply sound_edit h
    · intro s
      show (if s.name == name then
        { s with toSessionFields := { fields with name := s.name } } else s).name = s.name
      split <;> rfl
    · intro s
      show (if s.name == name then { s with toSessionFields :=
        { fields with name := s.name } } else s).registrationGeneration = s.registrationGeneration
      split <;> rfl
  | repin name uuid =>
    obtain ⟨registry, hupdate, rfl⟩ := Option.map_eq_some_iff.mp hstep
    unfold updateSessionUuid at hupdate
    split at hupdate
    · exact Option.some.inj hupdate ▸ h
    · split at hupdate
      · cases hupdate
      · rw [← Option.some.inj hupdate]
        apply sound_edit h
        · intro s
          show (if s.name == name then { s with uuid := uuid } else s).name = s.name
          split <;> rfl
        · intro s
          show (if s.name == name then
            { s with uuid := uuid } else s).registrationGeneration = s.registrationGeneration
          split <;> rfl
  | rm name => exact Option.some.inj hstep ▸ sound_rm h hallowed

theorem sound_empty (rcPrefix : String) : Sound rcPrefix World.empty := by
  refine ⟨⟨by simp [World.empty], by simp [World.empty], by simp [World.empty], ?_, ?_⟩, ?_, ?_, ?_⟩
  · intro s hs
    cases hs
  · intro row hrow
    cases hrow
  · intro row hrow
    cases hrow
  · intro out hout
    cases hout
  · intro k c hc
    cases hc

inductive Wrote (w v : World) : Prop where
  | nothing (h : v.receipts = w.receipts)
  | accepted (row : CreateRow) (h : v.receipts = w.receipts ++ [row])
  | failed (k : Nat) (c : Call) (row : CreateRow) (duplicate : Bool) (hc : w.calls k = some c)
    (hstage : c.stage = .working row duplicate .failing)
    (h : v.receipts = updateReceipt w.receipts row.requestId CreateRow.failed)
  | completed (k : Nat) (c : Call) (row : CreateRow) (duplicate : Bool) (s : Session)
    (hc : w.calls k = some c) (hstage : c.stage = .working row duplicate (.verified s))
    (h : v.receipts = updateReceipt w.receipts row.requestId (CreateRow.completed s.uuid))

theorem proceed_wrote (hc : w.calls k = some c)
    (hstage : c.stage = .working row duplicate point) (fresh : String) :
    Wrote w (proceed rcPrefix w k c row duplicate fresh point) ∧
      w.created <+: (proceed rcPrefix w k c row duplicate fresh point).created := by
  cases point with
  | failing => exact ⟨.failed k c row duplicate hc hstage rfl, List.prefix_rfl⟩
  | verified s => exact ⟨.completed k c row duplicate s hc hstage rfl, List.prefix_rfl⟩
  | launching =>
    simp only [proceed, launch]
    split
    · split
      · exact ⟨.nothing rfl, List.prefix_rfl⟩
      · exact ⟨.nothing rfl, List.prefix_append _ _⟩
    · split
      · exact ⟨.nothing rfl, List.prefix_rfl⟩
      · exact ⟨.nothing rfl, List.prefix_rfl⟩
  | accepted =>
    simp only [proceed]
    split
    · exact ⟨.nothing rfl, List.prefix_rfl⟩
    · split
      · exact ⟨.nothing rfl, List.prefix_rfl⟩
      · split <;> exact ⟨.nothing rfl, List.prefix_rfl⟩
  | preparing =>
    simp only [proceed]
    split
    · exact ⟨.nothing rfl, List.prefix_rfl⟩
    · split <;> exact ⟨.nothing rfl, List.prefix_rfl⟩
  | thrown =>
    simp only [proceed]
    split
    · exact ⟨.nothing rfl, List.prefix_rfl⟩
    · split <;> exact ⟨.nothing rfl, List.prefix_rfl⟩
  | unmatched => simp only [proceed]; split <;> exact ⟨.nothing rfl, List.prefix_rfl⟩
  | rollingBack => simp only [proceed]; split <;> exact ⟨.nothing rfl, List.prefix_rfl⟩
  | reconciling => simp only [proceed]; split <;> exact ⟨.nothing rfl, List.prefix_rfl⟩
  | found s => simp only [proceed]; split <;> exact ⟨.nothing rfl, List.prefix_rfl⟩
  | _ => exact ⟨.nothing rfl, List.prefix_rfl⟩

theorem fail_wrote (hfail : fail w k c row duplicate point = some v) :
    Wrote w v ∧ w.created <+: v.created := by
  cases point with
  | preparing => exact Option.some.inj hfail ▸ ⟨.nothing rfl, List.prefix_rfl⟩
  | launching => exact Option.some.inj hfail ▸ ⟨.nothing rfl, List.prefix_rfl⟩
  | undoing s => exact Option.some.inj hfail ▸ ⟨.nothing rfl, List.prefix_rfl⟩
  | rollingBack => exact Option.some.inj hfail ▸ ⟨.nothing rfl, List.prefix_rfl⟩
  | removingPending => exact Option.some.inj hfail ▸ ⟨.nothing rfl, List.prefix_rfl⟩
  | removingSession => exact Option.some.inj hfail ▸ ⟨.nothing rfl, List.prefix_rfl⟩
  | starting s => exact Option.some.inj hfail ▸ ⟨.nothing rfl, List.prefix_rfl⟩
  | awaiting => exact Option.some.inj hfail ▸ ⟨.nothing rfl, List.prefix_rfl⟩
  | reconciling => exact Option.some.inj hfail ▸ ⟨.nothing rfl, List.prefix_rfl⟩
  | _ => cases hfail

theorem accept_wrote (haccept : accept w k c generation = some v) :
    Wrote w v ∧ w.created <+: v.created := by
  unfold accept at haccept
  split at haccept
  · split at haccept
    · exact Option.some.inj haccept ▸ ⟨.nothing rfl, List.prefix_rfl⟩
    · exact Option.some.inj haccept ▸ ⟨.nothing rfl, List.prefix_rfl⟩
  · split at haccept
    · exact Option.some.inj haccept ▸ ⟨.nothing rfl, List.prefix_rfl⟩
    · split at haccept
      · cases haccept
      · exact Option.some.inj haccept ▸ ⟨.accepted _ rfl, List.prefix_rfl⟩

theorem step_wrote (hstep : step rcPrefix w e = some v) :
    Wrote w v ∧ w.created <+: v.created := by
  cases e with
  | request k requestId canonical =>
    simp only [step] at hstep
    split at hstep
    · cases hstep
    · rw [← Option.some.inj hstep]
      unfold request
      dsimp only
      split
      · split <;> exact ⟨.nothing rfl, List.prefix_rfl⟩
      · exact ⟨.nothing rfl, List.prefix_rfl⟩
  | turn k t =>
    obtain ⟨c, hc, hadvance⟩ := Option.bind_eq_some_iff.mp hstep
    cases hstage : c.stage with
    | waiting =>
      cases t with
      | proceeds fresh =>
        simp only [advance, hstage] at hadvance
        split at hadvance
        · cases hadvance
        · exact Option.some.inj hadvance ▸ ⟨.nothing rfl, List.prefix_rfl⟩
      | fails => simp [advance, hstage] at hadvance
    | locked =>
      cases t with
      | proceeds fresh =>
        simp only [advance, hstage] at hadvance
        exact accept_wrote hadvance
      | fails => simp [advance, hstage] at hadvance
    | working row duplicate point =>
      cases t with
      | proceeds fresh =>
        simp only [advance, hstage] at hadvance
        exact Option.some.inj hadvance ▸ proceed_wrote hc hstage fresh
      | fails =>
        simp only [advance, hstage] at hadvance
        exact fail_wrote hadvance
  | crash k =>
    obtain ⟨c, hc, rfl⟩ := Option.map_eq_some_iff.mp hstep
    exact ⟨.nothing rfl, List.prefix_rfl⟩
  | promote generation uuid native =>
    simp only [step, promote] at hstep
    split at hstep
    · cases hstep
    · obtain ⟨⟨registry, ready⟩, _, rfl⟩ := Option.map_eq_some_iff.mp hstep
      exact ⟨.nothing rfl, List.prefix_append _ _⟩
  | clear generation =>
    simp only [step, clearBlocked] at hstep
    split at hstep
    · cases hstep
    · split at hstep
      · cases hstep
      · split at hstep
        · cases hstep
        · exact Option.some.inj hstep ▸ ⟨.nothing rfl, List.prefix_rfl⟩
  | register session =>
    simp only [step] at hstep
    split at hstep
    · cases hstep
    · obtain ⟨registry, _, rfl⟩ := Option.map_eq_some_iff.mp hstep
      exact ⟨.nothing rfl, List.prefix_append _ _⟩
  | reserve pending =>
    simp only [step] at hstep
    split at hstep
    · cases hstep
    · obtain ⟨registry, _, rfl⟩ := Option.map_eq_some_iff.mp hstep
      exact ⟨.nothing rfl, List.prefix_rfl⟩
  | repin name uuid =>
    obtain ⟨registry, _, rfl⟩ := Option.map_eq_some_iff.mp hstep
    exact ⟨.nothing rfl, List.prefix_rfl⟩
  | block generation => exact Option.some.inj hstep ▸ ⟨.nothing rfl, List.prefix_rfl⟩
  | fork generation state => exact Option.some.inj hstep ▸ ⟨.nothing rfl, List.prefix_rfl⟩
  | edit name fields => exact Option.some.inj hstep ▸ ⟨.nothing rfl, List.prefix_rfl⟩
  | rm name => exact Option.some.inj hstep ▸ ⟨.nothing rfl, List.prefix_rfl⟩

theorem Wrote.settled (h : Wrote w v) (hsound : Sound rcPrefix w) (hrow : row ∈ w.receipts)
    (hcomplete : row.status = .complete) : row ∈ v.receipts := by
  cases h with
  | nothing hsame =>
    rw [hsame]
    exact hrow
  | accepted added hadded =>
    rw [hadded]
    exact List.mem_append_left _ hrow
  | failed k c failing duplicate hc hstage hwritten =>
    rw [hwritten]
    exact settled_failing hsound hc hstage hrow hcomplete
  | completed k c verified duplicate s hc hstage hwritten =>
    rw [hwritten]
    exact settled_verified hsound hc hstage hrow hcomplete

theorem Wrote.kept (h : Wrote w v) (hrow : row ∈ w.receipts) : ∃ found ∈ v.receipts,
    found.requestId = row.requestId ∧ found.generation = row.generation ∧
      found.toCanonical = row.toCanonical := by
  have hupdate : ∀ (requestId : String) (change : CreateRow → CreateRow),
      (∀ item, (change item).requestId = item.requestId ∧
        (change item).generation = item.generation ∧
        (change item).toCanonical = item.toCanonical) →
      ∃ found ∈ updateReceipt w.receipts requestId change, found.requestId = row.requestId ∧
        found.generation = row.generation ∧ found.toCanonical = row.toCanonical := by
    intro requestId change hchange
    by_cases hid : row.requestId = requestId
    · exact ⟨change row, updateReceipt_self hrow hid, hchange row⟩
    · exact ⟨row, updateReceipt_other hrow hid, rfl, rfl, rfl⟩
  cases h with
  | nothing hsame => exact ⟨row, by rw [hsame]; exact hrow, rfl, rfl, rfl⟩
  | accepted added hadded =>
    exact ⟨row, by rw [hadded]; exact List.mem_append_left _ hrow, rfl, rfl, rfl⟩
  | failed k c failing duplicate hc hstage hwritten =>
    rw [hwritten]
    exact hupdate _ _ fun _ => ⟨rfl, rfl, rfl⟩
  | completed k c verified duplicate s hc hstage hwritten =>
    rw [hwritten]
    exact hupdate _ _ fun _ => ⟨rfl, rfl, rfl⟩

/-- Whose step an event is: the request it is for and the payload it came with. -/
def payload (w : World) : Event → Option (String × Canonical)
  | .request _ requestId canonical => some (requestId, canonical)
  | .turn k _ | .crash k => (w.calls k).map fun c => (c.requestId, c.canonical)
  | _ => none

/-- Nothing is written and nobody is answered, except that the payload changed. -/
def Refused (w v : World) (requestId : String) (canonical : Canonical) : Prop :=
  v.receipts = w.receipts ∧ v.registry = w.registry ∧ v.forks = w.forks ∧
    v.created = w.created ∧ (v.outcomes = w.outcomes ∨
      v.outcomes = w.outcomes ++ [⟨requestId, canonical, .error payloadChanged⟩])

/-- What a step is to keep: a request has one receipt, whose generation is registered at most once
and under its name; what is completed stays, and nothing more is registered for it; a changed
payload is refused; and the answers for a request name one session, which was registered for it. -/
structure SafeStep (w : World) (e : Event) (v : World) : Prop where
  receipts : (v.receipts.map fun row => row.requestId).Nodup
  kept : ∀ row ∈ w.receipts, ∃ found ∈ v.receipts, found.requestId = row.requestId ∧
    found.generation = row.generation ∧ found.toCanonical = row.toCanonical
  once : ∀ row ∈ v.receipts, (born v.created row.generation).length ≤ 1 ∧
    ∀ s ∈ born v.created row.generation, s.name = row.name
  settled : ∀ row ∈ w.receipts, row.status = .complete → row ∈ v.receipts ∧
    born v.created row.generation = born w.created row.generation
  refused : ∀ requestId canonical, payload w e = some (requestId, canonical) →
    ∀ row ∈ w.receipts, row.requestId = requestId → row.toCanonical ≠ canonical →
      Refused w v requestId canonical
  agreed : ∀ o ∈ v.outcomes, ∀ p ∈ v.outcomes, ∀ a b, o.reply = .ok a → p.reply = .ok b →
    o.requestId = p.requestId → a.target = b.target ∧
      a.registrationGeneration = b.registrationGeneration
  answered : ∀ o ∈ v.outcomes, ∀ a, o.reply = .ok a → ∃ row ∈ v.receipts,
    row.requestId = o.requestId ∧ row.generation = a.registrationGeneration ∧
      row.name = a.target.session ∧ born v.created row.generation ≠ []

theorem refused_turn {t : Turn} (h : Sound rcPrefix w) (hc : w.calls k = some c)
    (hrow : row ∈ w.receipts) (hid : row.requestId = c.requestId)
    (hchanged : row.toCanonical ≠ c.canonical) (hadvance : advance rcPrefix w k c t = some v) :
    Refused w v c.requestId c.canonical := by
  cases hstage : c.stage with
  | waiting =>
    cases t with
    | proceeds fresh =>
      simp only [advance, hstage] at hadvance
      split at hadvance
      · cases hadvance
      · exact Option.some.inj hadvance ▸ ⟨rfl, rfl, rfl, rfl, Or.inl rfl⟩
    | fails => simp [advance, hstage] at hadvance
  | locked =>
    cases t with
    | proceeds fresh =>
      simp only [advance, hstage] at hadvance
      unfold accept at hadvance
      split at hadvance
      · rename_i found hfound
        split at hadvance
        · exact Option.some.inj hadvance ▸ ⟨rfl, rfl, rfl, rfl, Or.inr rfl⟩
        · rename_i hdigest
          obtain ⟨hmem, hrequest⟩ := receiptOf_some hfound
          obtain rfl := h.books.unique hmem hrow (hrequest.trans hid.symm)
          have hprint := (h.books.each found hmem).digest
          rw [not_not.mp hdigest] at hprint
          exact absurd (congrArg Fingerprint.stableJson hprint).symm hchanged
      · rename_i hnone
        exact absurd hid (receiptOf_none.mp hnone row hrow)
    | fails => simp [advance, hstage] at hadvance
  | working accepted duplicate point =>
    obtain ⟨hrequest, hsame, hpoint⟩ := (h.held k c hc).row accepted duplicate point hstage
    have hown : row.toCanonical = accepted.toCanonical := by
      have hstored : ∀ found ∈ w.receipts, found.requestId = accepted.requestId →
          found.toCanonical = accepted.toCanonical → row.toCanonical = accepted.toCanonical := by
        intro found hfound hfoundId hfoundSame
        rw [h.books.unique hrow hfound (hid.trans (hrequest.trans hfoundId.symm)), hfoundSame]
      cases point with
      | accepted => exact hstored _ hpoint rfl rfl
      | completed s => exact hstored _ hpoint.1 rfl rfl
      | _ => exact hstored _ hpoint.1 rfl rfl
    exact absurd (hown.trans hsame) hchanged

theorem refused_step {requestId : String} {canonical : Canonical} (h : Sound rcPrefix w)
    (hstep : step rcPrefix w e = some v)
    (hpayload : payload w e = some (requestId, canonical)) (hrow : row ∈ w.receipts)
    (hid : row.requestId = requestId) (hchanged : row.toCanonical ≠ canonical) :
    Refused w v requestId canonical := by
  cases e with
  | request k asked payload =>
    obtain ⟨rfl, rfl⟩ := Prod.mk.inj (Option.some.inj hpayload)
    simp only [step] at hstep
    split at hstep
    · cases hstep
    · rw [← Option.some.inj hstep]
      unfold request
      dsimp only
      split
      · rename_i found hfound
        split
        · exact ⟨rfl, rfl, rfl, rfl, Or.inr rfl⟩
        · rename_i hdigest
          obtain ⟨hmem, hrequest⟩ := receiptOf_some hfound
          obtain rfl := h.books.unique hmem hrow (hrequest.trans hid.symm)
          have hprint := (h.books.each found hmem).digest
          rw [not_not.mp hdigest] at hprint
          exact absurd (congrArg Fingerprint.stableJson hprint).symm hchanged
      · rename_i hnone
        exact absurd hid (receiptOf_none.mp hnone row hrow)
  | turn k t =>
    obtain ⟨c, hc, hadvance⟩ := Option.bind_eq_some_iff.mp hstep
    simp only [payload, hc, Option.map_some, Option.some.injEq, Prod.mk.injEq] at hpayload
    obtain ⟨rfl, rfl⟩ := hpayload
    exact refused_turn h hc hrow hid hchanged hadvance
  | crash k =>
    obtain ⟨c, hc, rfl⟩ := Option.map_eq_some_iff.mp hstep
    exact ⟨rfl, rfl, rfl, rfl, Or.inl rfl⟩
  | _ => cases hpayload

/-- An allowed step from where the invariant holds is safe. -/
theorem safeStep (h : Sound rcPrefix w) (hallowed : allowed w e = true)
    (hstep : step rcPrefix w e = some v) : SafeStep w e v := by
  have hnext := sound_step h hallowed hstep
  obtain ⟨hwrote, hprefix⟩ := step_wrote hstep
  refine ⟨hnext.books.ids, fun row hrow => hwrote.kept hrow, ?_, ?_, ?_, ?_, ?_⟩
  · intro row hrow
    have hkept := hnext.books.each row hrow
    refine ⟨hkept.once, ?_⟩
    intro s hs
    exact hkept.createdNames s (mem_born.mp hs).1 (mem_born.mp hs).2
  · intro row hrow hcomplete
    have hstays := hwrote.settled h hrow hcomplete
    refine ⟨hstays, ?_⟩
    have hsub : born w.created row.generation <+: born v.created row.generation :=
      hprefix.filter _
    have hsome := List.length_pos_of_ne_nil ((h.books.each row hrow).complete hcomplete).1
    have hone := (hnext.books.each row hstays).once
    exact (hsub.eq_of_length_le (by omega)).symm
  · intro requestId canonical hpayload row hrow hid hchanged
    exact refused_step h hstep hpayload hrow hid hchanged
  · intro o ho p hp a b ha hb hsame
    obtain ⟨row, hrow, threadId, hid, _, _, hthread, htarget, hgeneration⟩ := hnext.told o ho a ha
    obtain ⟨row', hrow', threadId', hid', _, _, hthread', htarget', hgeneration'⟩ :=
      hnext.told p hp b hb
    obtain rfl := hnext.books.unique hrow hrow' (hid.trans (hsame.trans hid'.symm))
    rw [hthread] at hthread'
    obtain rfl := Option.some.inj hthread'
    exact ⟨htarget.trans htarget'.symm, hgeneration.trans hgeneration'.symm⟩
  · intro o ho a ha
    obtain ⟨row, hrow, threadId, hid, _, hcomplete, _, htarget, hgeneration⟩ := hnext.told o ho a ha
    refine ⟨row, hrow, hid, hgeneration.symm, by rw [htarget], ?_⟩
    exact ((hnext.books.each row hrow).complete hcomplete).1

theorem sound_run {events : List Event} (h : Sound rcPrefix w)
    (hall : Along (step rcPrefix) (fun w e => allowed w e = true) w events) :
    Along (step rcPrefix) (fun w e => ∀ v, step rcPrefix w e = some v → SafeStep w e v)
      w events := by
  induction events generalizing w with
  | nil => trivial
  | cons e es ih =>
    refine ⟨fun v hv => safeStep h hall.1 hv, ?_⟩
    intro v hv
    exact ih (sound_step h hall.1 hv) (hall.2 v hv)

/-- In every run of callers, retries, crashes and bootstraps in which no session of a pending
receipt is removed before the failure is recorded, every step is safe. -/
theorem create_is_once (rcPrefix : String) {events : List Event}
    (hall : Along (step rcPrefix) (fun w e => allowed w e = true) World.empty events) :
    Along (step rcPrefix) (fun w e => ∀ v, step rcPrefix w e = some v → SafeStep w e v)
      World.empty events :=
  sound_run (sound_empty rcPrefix) hall

/-- In such a run no generation is in two receipts and no name in two sessions, and each session of
the registry was registered under its name and generation. -/
theorem create_keeps_names {events : List Event}
    (hrun : run (step rcPrefix) World.empty events = some w)
    (hall : Along (step rcPrefix) (fun w e => allowed w e = true) World.empty events) :
    (w.receipts.map fun row => row.generation).Nodup ∧
      (w.registry.sessions.map fun s => s.name).Nodup ∧
        ∀ s ∈ w.registry.sessions, ∃ b ∈ w.created, b.name = s.name ∧
          b.registrationGeneration = s.registrationGeneration := by
  have h : Sound rcPrefix w := run_invariant_along
    (fun _ _ _ h hallowed hstep => sound_step h hallowed hstep) hrun hall (sound_empty rcPrefix)
  exact ⟨h.books.generations, h.books.names, h.books.known⟩

end

def codexWorker : Canonical :=
  { name := "worker"
    workspace := "/work"
    flags := []
    runtime := none
    envFile := none
    launchRecipe := none
    modelSelection := none
    initialization := none
    applicationPolicy := none
    delegation := none
    delegationRequest := none
    mode := none
    forkSource := none }

/-- The caller comes with the request, takes its lock and goes on to the point where it waits for
the bootstrap: a first call draws the generation, a retry finds it. -/
def comes (k : Nat) (generation : String) : List Event :=
  [.request k "r" codexWorker, .turn k (.proceeds ""), .turn k (.proceeds generation),
    .turn k (.proceeds ""), .turn k (.proceeds ""), .turn k (.proceeds ""), .turn k (.proceeds "")]

/-- A caller dies while its bootstrap runs, and the retry completes the receipt. -/
def lostReply : List Event :=
  comes 0 "g" ++ [.crash 0, .promote "g" "u" none, .request 1 "r" codexWorker] ++
    List.replicate 6 (.turn 1 (.proceeds ""))

theorem create_is_once_lostReply :
    Along (step "host") (fun w e => ∀ v, step "host" w e = some v → SafeStep w e v)
      World.empty lostReply := by
  apply create_is_once
  apply along_of_check
  decide

theorem create_keeps_names_lostReply : ∃ w, run (step "host") World.empty lostReply = some w ∧
    w.registry.sessions ≠ [] ∧ ∀ s ∈ w.registry.sessions, ∃ b ∈ w.created, b.name = s.name ∧
      b.registrationGeneration = s.registrationGeneration := by
  have hruns : ((run (step "host") World.empty lostReply).any fun w =>
      decide (w.registry.sessions ≠ [])) = true := by decide
  obtain ⟨w, hw, hsome⟩ := (Option.any_eq_true _ _).mp hruns
  refine ⟨w, hw, of_decide_eq_true hsome, (create_keeps_names hw ?_).2.2⟩
  apply along_of_check
  decide

/-- A create times out as its bootstrap is promoted, and its caller dies after the rollback has
removed the session and before the failure is recorded. -/
def crashedRollback : List Event :=
  comes 0 "g" ++ [.turn 0 .fails, .promote "g" "u" none] ++
    List.replicate 4 (.turn 0 (.proceeds "")) ++ [.crash 0] ++ comes 1 "g" ++
    [.promote "g" "v" none]

/-- The retry registers a second session under the generation. -/
theorem rolled_back_session_is_created_again : ∃ w, run (step "host") World.empty crashedRollback =
    some w ∧ ∃ row ∈ w.receipts, ¬ (born w.created row.generation).length ≤ 1 := by
  have hrun : ((run (step "host") World.empty crashedRollback).any fun w =>
      w.receipts.any fun row => !decide ((born w.created row.generation).length ≤ 1)) = true := by
    decide
  obtain ⟨w, hw, hany⟩ := (Option.any_eq_true _ _).mp hrun
  obtain ⟨row, hrow, htwice⟩ := List.any_eq_true.mp hany
  exact ⟨w, hw, row, hrow, by simpa using htwice⟩

end Ccmux.Control.Create
