/- Module: Ccmux/Events/FeedFollow
   source: src/events/feed.ts (followEvents), src/util/readLines.ts (tailLines)
   digest: The follower's backlog, start and drains: when every appended event is passed on. -/

import Ccmux.Events.FeedRun

namespace Ccmux.Events.Feed

open Ccmux.Lib.Lines
open Ccmux.Lib.Machine

section
variable {c : Codec} {opts : FollowOptions} {w v : World}

theorem Kept.listed (hw : Kept c opts w) (hreader : w.reader = .waiting) :
    Kept c opts { w with reader := .backlog (feedFiles w.directory) } := by
  refine ⟨hw.reads, hw.fresh, hw.known, hw.positioned, hw.writing, hw.held, hw.free, hw.whole, ?_, ?_⟩
  · intro tail h
    cases h
  · intro e he hselects
    rcases hw.awaited e he hselects with hdelivered | ⟨⟨file, hsight, hpending⟩, hage⟩
    · exact Or.inl hdelivered
    · refine Or.inr ⟨⟨file, ?_, hpending⟩, fun _ => hage ?_⟩
      · rw [sight, hreader] at hsight
        obtain ⟨path, hpath, hfile⟩ := List.mem_filterMap.mp hsight
        refine List.mem_append_left _ (List.mem_filterMap.mpr ⟨path, ?_, hfile⟩)
        exact List.mem_filter.mpr ⟨hpath, by rw [hfile]; rfl⟩
      · intro tail h
        rw [hreader] at h
        cases h

theorem Kept.readBacklog {path : Path} {rest : List Path} (hw : Kept c opts w)
    (hreader : w.reader = .backlog (path :: rest)) :
    Kept c opts (Feed.readBacklog c opts w path rest) := by
  have hbefore : Before w := by
    intro tail h
    rw [hreader] at h
    cases h
  unfold Feed.readBacklog
  cases hfile : w.directory.file path with
  | none =>
    refine ⟨hw.reads, hw.fresh, hw.known, hw.positioned, hw.writing, hw.held, hw.free, hw.whole, ?_, ?_⟩
    · intro tail h
      cases h
    · intro e he hselects
      rcases hw.awaited e he hselects with hdelivered | ⟨⟨file, hsight, hpending⟩, hage⟩
      · exact Or.inl hdelivered
      · refine Or.inr ⟨⟨file, ?_, hpending⟩, fun _ => hage hbefore⟩
        rw [sight, hreader] at hsight
        simpa [sight, hfile] using hsight
  | some file =>
    have hlt := hw.known path file hfile
    have hseen : ∀ other, other ≠ file →
        put w.seen file (cut newline (w.contents file)).start other = w.seen other :=
      fun other hne => put_of_ne _ _ hne
    refine ⟨hw.reads, ?_, hw.known, hw.positioned, hw.writing, hw.held, hw.free, ?_, ?_, ?_⟩
    · intro other hle
      obtain ⟨hcontents, hzero, hfree⟩ := hw.fresh other hle
      have hne : other ≠ file := by
        have hle' : w.next ≤ other := hle
        omega
      exact ⟨hcontents, (hseen other hne).trans hzero, hfree⟩
    · intro other
      show put w.seen file (cut newline (w.contents file)).start other ≤ (w.contents other).length ∧
        (cut newline ((w.contents other).take
          (put w.seen file (cut newline (w.contents file)).start other))).tail = []
      by_cases hother : other = file
      · rw [hother, put_self]
        exact ⟨cut_start_le _, by rw [cut_take_start]⟩
      · rw [hseen other hother]
        exact hw.whole other
    · intro tail h
      cases h
    · intro e he hselects
      rcases hw.awaited e he hselects with hdelivered | ⟨⟨other, hsight, hpending⟩, hage⟩
      · exact Or.inl (List.mem_append_left _ hdelivered)
      · by_cases hother : other = file
        · -- what was unread of the file is part of what is read now
          refine Or.inl (List.mem_append_right _ (selected_backlogOf ?_ hselects (hage hbefore)))
          rw [hother] at hpending
          rw [eventsOf_drop (hw.whole file).2]
          exact List.mem_append_right _ hpending
        · refine Or.inr ⟨⟨other, ?_, ?_⟩, fun _ => hage hbefore⟩
          · rw [sight, hreader] at hsight
            simpa [sight, hfile, hother] using hsight
          · show e ∈ eventsOf c ((w.contents other).drop
              (put w.seen file (cut newline (w.contents file)).start other))
            rw [hseen other hother]
            exact hpending

variable {file writer : Nat} {tail : Tail} {e : Event}

theorem pending_of_seen (h : w.size file = w.seen file) : pending c w file = [] := by
  have hempty : unread w file = [] := by
    unfold unread
    exact List.drop_eq_nil_of_le (Nat.le_of_eq h)
  rw [pending, hempty]
  rfl

theorem Kept.started (hw : Kept c opts w) (hreader : w.reader = .backlog [])
    (hread : ∀ file, w.directory.current = some file → w.size file = w.seen file) :
    Kept c opts (startAt w) := by
  have hdelivered : ∀ e ∈ w.expected, selects opts e = true → e ∈ w.delivered := by
    intro e he hselects
    rcases hw.awaited e he hselects with hdelivered | ⟨⟨file, hsight, hpending⟩, _⟩
    · exact hdelivered
    · have hcurrent : w.directory.current = some file := by
        rw [sight, hreader] at hsight
        simpa using hsight
      rw [pending_of_seen (hread file hcurrent)] at hpending
      cases hpending
  unfold startAt
  cases hcurrent : w.directory.current with
  | none =>
    refine ⟨hw.reads, hw.fresh, hw.known, ?_, hw.writing, hw.held, hw.free, hw.whole, ?_, ?_⟩
    · intro file h
      cases h
    · intro tail h
      obtain rfl := Reader.following.inj h
      refine ⟨Nat.le_refl _, fun _ => rfl, ?_, ?_, fun x hx => nomatch hx⟩
      · intro file h
        rw [hcurrent] at h
        cases h
      · intro file h
        rw [hcurrent] at h
        cases h
    · exact fun e he hselects => Or.inl (hdelivered e he hselects)
  | some file =>
    refine ⟨hw.reads, hw.fresh, hw.known, ?_, hw.writing, hw.held, hw.free, hw.whole, ?_, ?_⟩
    · intro other h
      obtain rfl := Option.some.inj h
      exact hw.known .current _ hcurrent
    · intro tail h
      obtain rfl := Reader.following.inj h
      refine ⟨Nat.zero_le _, fun h => (nomatch h), ?_, ?_, fun x hx => nomatch hx⟩
      · intro other _ h
        obtain rfl := Option.some.inj h
        exact ⟨(hread _ hcurrent).symm, Nat.le_refl _, rfl⟩
      · intro other hother hne
        have heq : some file = some other := hcurrent.symm.trans hother
        exact absurd heq hne
    · exact fun e he hselects => Or.inl (hdelivered e he hselects)

/-- From where it stands a read takes exactly what is unread, and stands behind its whole lines. -/
theorem Kept.read (hw : Kept c opts w)
    (hreader : w.reader = .following tail) (hcurrent : w.directory.current = some file)
    (hfits : w.position = some file ∨ w.size file < tail.offset ∨ tail.offset = 0) :
    (tail.read (w.contents file)).1 = (cut newline (unread w file)).raws ∧
      (tail.read (w.contents file)).2 =
        ⟨w.size file, (cut newline (unread w file)).tail⟩ := by
  have hplaced := hw.placed tail hreader
  obtain ⟨from_, hfrom, hfromSeen, hroom, hcarry, hfree⟩ : ∃ from_ : Tail,
      (if (w.contents file).length < tail.offset then Tail.reset else tail) = from_ ∧
        w.seen file + from_.carry.length = from_.offset ∧ from_.offset ≤ w.size file ∧
        from_.carry = (unread w file).take from_.carry.length ∧
        ∀ x ∈ from_.carry, x ≠ newline := by
    refine ⟨_, rfl, ?_⟩
    by_cases hposition : w.position = some file
    · obtain ⟨hoffset, hroom, hcarry⟩ := hplaced.here file hcurrent hposition
      have hnot : ¬ (w.contents file).length < tail.offset := Nat.not_lt.mpr hroom
      rw [if_neg hnot]
      exact ⟨hoffset, hroom, hcarry, hplaced.free⟩
    · have hzero := hplaced.away file hcurrent hposition
      by_cases hshrank : (w.contents file).length < tail.offset
      · rw [if_pos hshrank, hzero]
        exact ⟨rfl, Nat.zero_le _, rfl, fun x hx => nomatch hx⟩
      · have hstart : tail.offset = 0 := by
          rcases hfits with h | h | h
          · exact absurd h hposition
          · exact absurd h hshrank
          · exact h
        have hcarry := hplaced.carry
        have hnone : tail.carry = [] := List.eq_nil_of_length_eq_zero (by omega)
        rw [if_neg hshrank, hzero, hnone, hstart]
        exact ⟨rfl, Nat.zero_le _, rfl, fun x hx => nomatch hx⟩
  have hall : from_.carry ++ (w.contents file).drop from_.offset = unread w file := by
    have hdrop : (w.contents file).drop from_.offset = (unread w file).drop from_.carry.length := by
      rw [unread, List.drop_drop, hfromSeen]
    have hparts := List.take_append_drop from_.carry.length (unread w file)
    rw [← hcarry, ← hdrop] at hparts
    exact hparts
  simp only [Tail.read, hfrom]
  by_cases hnothing : (w.contents file).length = from_.offset
  · -- nothing came: the bytes held are all that is unread, and no line of them has an end
    have hnone : (w.contents file).drop from_.offset = [] :=
      List.drop_eq_nil_of_le (Nat.le_of_eq hnothing)
    rw [hnone, List.append_nil] at hall
    have hsize : w.size file = from_.offset := hnothing
    rw [if_pos hnothing, ← hall, cut_free hfree, hsize]
    exact ⟨rfl, rfl⟩
  · rw [if_neg hnothing, hall]
    exact ⟨rfl, rfl⟩

/-- A drain that reads the file passes on all it has not read. -/
theorem Kept.drained (hw : Kept c opts w) (hreader : w.reader = .following tail)
    (hfits : Fits w) :
    ∀ e ∈ w.expected, selects opts e = true → e ∈ (drain c opts w tail true).delivered := by
  intro e he hselects
  have hawaited := hw.awaited e he hselects
  cases hcurrent : w.directory.current with
  | none =>
    rw [drain_missing tail hcurrent]
    rcases hawaited with hdelivered | ⟨⟨file, hsight, _⟩, _⟩
    · exact hdelivered
    · rw [sight, hreader, hcurrent] at hsight
      cases hsight
  | some file =>
    obtain ⟨hlines, _⟩ := hw.read hreader hcurrent (hfits tail file hreader hcurrent)
    rw [drain_readable tail hcurrent]
    show e ∈ w.delivered ++
      ((tail.read (w.contents file)).1.filterMap c.parse).filter (selects opts)
    rw [hlines]
    rcases hawaited with hdelivered | ⟨⟨other, hsight, hpending⟩, _⟩
    · exact List.mem_append_left _ hdelivered
    · have hother : other = file := by
        rw [sight, hreader, hcurrent] at hsight
        simpa using hsight
      rw [hother] at hpending
      exact List.mem_append_right _ (List.mem_filter.mpr ⟨hpending, hselects⟩)

theorem Kept.missing (hw : Kept c opts w) (hreader : w.reader = .following tail)
    (hcurrent : w.directory.current = none) : Kept c opts w.reset := by
  refine ⟨hw.reads, hw.fresh, hw.known, ?_, hw.writing, hw.held, hw.free, hw.whole, ?_, ?_⟩
  · intro file h
    cases h
  · intro after h
    obtain rfl := Reader.following.inj h
    have hnone : ∀ file, w.reset.directory.current ≠ some file := by
      intro file h
      have h : w.directory.current = some file := h
      rw [hcurrent] at h
      cases h
    exact ⟨Nat.le_refl _, fun _ => rfl, fun file h => absurd h (hnone file),
      fun file h => absurd h (hnone file), fun x hx => nomatch hx⟩
  · intro e he hselects
    rcases hw.awaited e he hselects with hdelivered | ⟨⟨file, hsight, _⟩, _⟩
    · exact Or.inl hdelivered
    · rw [sight, hreader, hcurrent] at hsight
      cases hsight

/-- A file that cannot be read is read again from its first byte. -/
theorem Kept.unreadable (hw : Kept c opts w)
    (hreader : w.reader = .following tail) (hcurrent : w.directory.current = some file) :
    Kept c opts { w.reset with seen := put w.seen file 0 } := by
  have hlt := hw.known .current file hcurrent
  refine ⟨hw.reads, ?_, hw.known, ?_, hw.writing, hw.held, hw.free, ?_, ?_, ?_⟩
  · intro other hle
    obtain ⟨hcontents, hzero, hfree⟩ := hw.fresh other hle
    refine ⟨hcontents, ?_, hfree⟩
    have hne : other ≠ file := by
      have hle' : w.next ≤ other := hle
      omega
    show put w.seen file 0 other = 0
    rw [put_of_ne _ _ hne, hzero]
  · intro other h
    cases h
  · intro other
    show put w.seen file 0 other ≤ (w.contents other).length ∧
      (cut newline ((w.contents other).take (put w.seen file 0 other))).tail = []
    by_cases hother : other = file
    · rw [hother, put_self]
      exact ⟨Nat.zero_le _, rfl⟩
    · rw [put_of_ne _ _ hother]
      exact hw.whole other
  · intro after h
    obtain rfl := Reader.following.inj h
    refine ⟨Nat.le_refl _, fun _ => rfl, ?_, ?_, fun x hx => nomatch hx⟩
    · intro other _ hposition
      cases hposition
    · intro other hother _
      obtain rfl := Option.some.inj (hcurrent.symm.trans hother)
      show put w.seen file 0 file = 0
      rw [put_self]
  · intro e he hselects
    rcases hw.awaited e he hselects with hdelivered | ⟨⟨other, hsight, hpending⟩, hage⟩
    · exact Or.inl hdelivered
    · refine Or.inr ⟨⟨other, ?_, ?_⟩, ?_⟩
      · rw [sight, hreader] at hsight
        exact hsight
      · show e ∈ eventsOf c ((w.contents other).drop (put w.seen file 0 other))
        by_cases hother : other = file
        · rw [hother] at hpending ⊢
          rw [put_self, List.drop_zero, eventsOf_drop (hw.whole file).2]
          exact List.mem_append_right _ hpending
        · rw [put_of_ne _ _ hother]
          exact hpending
      · intro hbefore
        exact absurd rfl (hbefore Tail.reset)

theorem Kept.read_whole {n : Nat} (hw : Kept c opts w)
    (hn : n = w.seen file + (cut newline (unread w file)).start) :
    n ≤ w.size file ∧ (cut newline ((w.contents file).take n)).tail = [] := by
  have hle := (hw.whole file).1
  have hstart : (cut newline (unread w file)).start ≤ (unread w file).length := cut_start_le _
  have hlength : (unread w file).length = w.size file - w.seen file := by
    simp [unread, World.size]
  refine ⟨by omega, ?_⟩
  have htake : (w.contents file).take n = (w.contents file).take (w.seen file) ++
      (unread w file).take (cut newline (unread w file)).start := by
    rw [hn, List.take_add]
    rfl
  rw [htake, (cut_after_whole (hw.whole file).2 _).2.2, cut_take_start]

theorem Kept.taken (hw : Kept c opts w)
    (hreader : w.reader = .following tail) (hcurrent : w.directory.current = some file)
    (hfits : Fits w) : Kept c opts (readCurrent c opts w tail file) := by
  have hlt := hw.known .current file hcurrent
  have hall := hw.drained hreader hfits
  rw [drain_readable tail hcurrent] at hall
  obtain ⟨_, hafter⟩ := hw.read hreader hcurrent (hfits tail file hreader hcurrent)
  have hplace : (cut newline (unread w file)).start +
      (cut newline (unread w file)).tail.length = (unread w file).length := cut_place _
  have hle := (hw.whole file).1
  have hlength : (unread w file).length = w.size file - w.seen file := by
    simp [unread, World.size]
  have hseen : w.size file - (tail.read (w.contents file)).2.carry.length =
      w.seen file + (cut newline (unread w file)).start := by
    rw [hafter]
    show w.size file - (cut newline (unread w file)).tail.length = _
    omega
  have hother : ∀ other, other ≠ file →
      (readCurrent c opts w tail file).seen other = w.seen other :=
    fun other hne => put_of_ne _ _ hne
  have hself : (readCurrent c opts w tail file).seen file =
      w.seen file + (cut newline (unread w file)).start := (put_self _ _ _).trans hseen
  refine ⟨hw.reads, ?_, hw.known, ?_, hw.writing, hw.held, hw.free, ?_, ?_, ?_⟩
  · intro other hle
    obtain ⟨hcontents, hzero, hfree⟩ := hw.fresh other hle
    have hne : other ≠ file := by
      have hle' : w.next ≤ other := hle
      omega
    exact ⟨hcontents, (hother other hne).trans hzero, hfree⟩
  · intro other h
    obtain rfl := Option.some.inj h
    exact hlt
  · intro other
    by_cases heq : other = file
    · rw [heq]
      exact hw.read_whole hself
    · rw [hother other heq]
      exact hw.whole other
  · intro after h
    have hsame : (tail.read (w.contents file)).2 = after := Reader.following.inj h
    rw [hafter] at hsame
    rw [← hsame]
    refine ⟨?_, ?_, ?_, ?_, cut_tail_free _⟩
    · show (cut newline (unread w file)).tail.length ≤ w.size file
      omega
    · intro hposition
      cases hposition
    · intro other _ hposition
      obtain rfl := Option.some.inj hposition
      refine ⟨?_, Nat.le_refl _, ?_⟩
      · rw [hself]
        show w.seen file + (cut newline (unread w file)).start +
          (cut newline (unread w file)).tail.length = w.size file
        omega
      · have hrest : unread (readCurrent c opts w tail file) file =
            (unread w file).drop (cut newline (unread w file)).start := by
          show (w.contents file).drop ((readCurrent c opts w tail file).seen file) = _
          rw [hself, unread, List.drop_drop]
        rw [hrest, cut_drop_start, List.take_length]
    · intro other hother hne
      have heq : some file = some other := hcurrent.symm.trans hother
      exact absurd heq hne
  · exact fun e he hselects => Or.inl (hall e he hselects)

theorem Kept.drain {readable : Bool} (hw : Kept c opts w)
    (hreader : w.reader = .following tail) (hfits : readable = true → Fits w) :
    Kept c opts (Feed.drain c opts w tail readable) := by
  cases hcurrent : w.directory.current with
  | none =>
    rw [drain_missing tail hcurrent]
    exact hw.missing hreader hcurrent
  | some file =>
    cases readable with
    | true =>
      rw [drain_readable tail hcurrent]
      exact hw.taken hreader hcurrent (hfits rfl)
    | false =>
      rw [drain_unreadable tail hcurrent]
      exact hw.unreadable hreader hcurrent

theorem step_writer (h : step c opts w e = some v)
    (hreads : BuildsRead c e) (hw : Kept c opts w)
    (he : (∃ event, e = .build writer event) ∨ e = .check writer) : Kept c opts v := by
  rcases he with ⟨event, rfl⟩ | rfl
  · simp only [step, Option.ite_none_right_eq_some, Option.some.injEq] at h
    obtain ⟨⟨hnone, _⟩, rfl⟩ := h
    refine hw.writer hreads ?_ ?_
    · intro _ _ _ heq
      cases heq
    · intro _ _ _ heq
      rw [hnone] at heq
      cases heq
  · simp only [step] at h
    split at h
    · rename_i event hphase
      obtain rfl := Option.some.inj h
      have hread : c.Reads event := hw.reads writer _ hphase
      refine hw.writer hread ?_ ?_
      · intro _ _ _ heq
        cases heq
      · intro _ _ _ heq
        rw [hphase] at heq
        cases heq
    · cases h

theorem step_rotate (h : step c opts w (.rotate writer) = some v)
    (hallowed : Allowed c opts w (.rotate writer)) (hw : Kept c opts w) : Kept c opts v := by
  simp only [step] at h
  split at h
  · rename_i event full hphase
    obtain rfl := Option.some.inj h
    have hbefore : ∀ event file rest, w.writers writer ≠ some (.writing event file rest) := by
      intro _ _ _ heq
      rw [hphase] at heq
      cases heq
    have hready : ∀ u : World, Kept c opts u → u.writers = w.writers →
        Kept c opts { u with writers := put u.writers writer (some (.ready event)) } := by
      intro u hu hsame
      have hread : c.Reads event := hw.reads writer _ hphase
      refine hu.writer hread (fun _ _ _ heq => nomatch heq) ?_
      rw [hsame]
      exact hbefore
    cases full with
    | true => exact hready _ (hw.rotated (hallowed ⟨event, hphase⟩)) rfl
    | false => exact hready w hw rfl
  · cases h

theorem step_open (h : step c opts w (.openFile writer) = some v)
    (hw : Kept c opts w) : Kept c opts v := by
  simp only [step] at h
  split at h
  · rename_i event hphase
    have hbefore : ∀ event file rest, w.writers writer ≠ some (.writing event file rest) := by
      intro _ _ _ heq
      rw [hphase] at heq
      cases heq
    have hreads : c.Reads event := hw.reads writer _ hphase
    split at h
    · rename_i file hcurrent
      obtain rfl := Option.some.inj h
      exact hw.opened hreads (hw.known .current file hcurrent) hbefore
    · rename_i hnone
      obtain rfl := Option.some.inj h
      exact (hw.created hnone).opened hreads (Nat.lt_succ_self _) hbefore
  · cases h

theorem step_write {count : Nat} (h : step c opts w (.write writer count) = some v)
    (hallowed : Allowed c opts w (.write writer count)) (hw : Kept c opts w) : Kept c opts v := by
  simp only [step] at h
  split at h
  · rename_i event file rest hphase
    simp only [Option.ite_none_right_eq_some, Option.some.injEq] at h
    obtain ⟨⟨_, hlock⟩, rfl⟩ := h
    refine hw.wrote hphase hlock ?_
    intro hleft
    exact hallowed event file rest hphase (List.drop_eq_nil_iff.mp hleft)
  · cases h

theorem kept_step (hw : Kept c opts w) (hallowed : Allowed c opts w e)
    (hreads : BuildsRead c e) (h : step c opts w e = some v) : Kept c opts v := by
  cases e with
  | tick now =>
    simp only [step, Option.ite_none_right_eq_some, Option.some.injEq] at h
    obtain ⟨_, rfl⟩ := h
    refine ⟨hw.reads, hw.fresh, hw.known, hw.positioned, hw.writing, hw.held, hw.free, hw.whole,
      ?_, hw.awaited⟩
    intro tail hreader
    have hplaced := hw.placed tail hreader
    exact ⟨hplaced.carry, hplaced.reset, hplaced.here, hplaced.away, hplaced.free⟩
  | build writer event => exact step_writer h hreads hw (Or.inl ⟨event, rfl⟩)
  | check writer => exact step_writer h hreads hw (Or.inr rfl)
  | rotate writer => exact step_rotate h hallowed hw
  | openFile writer => exact step_open h hw
  | write writer count => exact step_write h hallowed hw
  | list =>
    simp only [step] at h
    split at h
    · rename_i hreader
      obtain rfl := Option.some.inj h
      exact hw.listed hreader
    · cases h
  | readFile =>
    simp only [step] at h
    split at h
    · rename_i path rest hreader
      obtain rfl := Option.some.inj h
      exact hw.readBacklog hreader
    · cases h
  | stat =>
    simp only [step] at h
    split at h
    · rename_i hreader
      obtain rfl := Option.some.inj h
      exact hw.started hreader hallowed
    · cases h
  | drain readable =>
    simp only [step] at h
    split at h
    · rename_i tail hreader
      obtain rfl := Option.some.inj h
      exact hw.drain hreader hallowed
    · cases h

theorem kept_start (now : Int) : Kept c opts (World.start now) := by
  refine ⟨fun _ _ h => (nomatch h), fun _ _ => ⟨rfl, rfl, rfl⟩, ?_, fun _ h => (nomatch h),
    fun _ _ _ _ h => (nomatch h), fun _ _ h => (nomatch h), fun _ _ => rfl,
    fun _ => ⟨Nat.le_refl _, rfl⟩, fun _ h => (nomatch h), fun _ h => (nomatch h)⟩
  intro path file h
  cases path <;> cases h

/-- What was passed on stays so. -/
theorem step_delivered (h : step c opts w e = some v) : w.delivered <+: v.delivered := by
  cases e with
  | readFile =>
    simp only [step] at h
    split at h
    · rename_i path rest _
      obtain rfl := Option.some.inj h
      unfold readBacklog
      split
      · exact List.prefix_rfl
      · exact List.prefix_append _ _
    · cases h
  | stat =>
    simp only [step] at h
    split at h
    · obtain rfl := Option.some.inj h
      unfold startAt
      split <;> exact List.prefix_rfl
    · cases h
  | drain readable =>
    simp only [step] at h
    split at h
    · obtain rfl := Option.some.inj h
      unfold drain
      split
      · exact List.prefix_rfl
      · exact List.prefix_append _ _
      · exact List.prefix_rfl
    · cases h
  | tick now =>
    simp only [step, Option.ite_none_right_eq_some, Option.some.injEq] at h
    exact h.2 ▸ List.prefix_rfl
  | build writer event =>
    simp only [step, Option.ite_none_right_eq_some, Option.some.injEq] at h
    exact h.2 ▸ List.prefix_rfl
  | check writer =>
    simp only [step] at h
    split at h
    · exact Option.some.inj h ▸ List.prefix_rfl
    · cases h
  | rotate writer =>
    simp only [step] at h
    split at h
    · exact Option.some.inj h ▸ List.prefix_rfl
    · cases h
  | openFile writer =>
    simp only [step] at h
    split at h
    · split at h <;> exact Option.some.inj h ▸ List.prefix_rfl
    · cases h
  | write writer count =>
    simp only [step] at h
    split at h
    · simp only [Option.ite_none_right_eq_some, Option.some.injEq] at h
      exact h.2 ▸ List.prefix_rfl
    · cases h
  | list =>
    simp only [step] at h
    split at h
    · exact Option.some.inj h ▸ List.prefix_rfl
    · cases h

/-- A drain that reads passes on, at the latest, every event appended since the instant: when the
lines end in the reader's sight and no older than its cursor, the start offset is where the backlog
ended, no rotation takes an unread event out of sight, and the first drain after one finds the new
file missing or shorter than the old position. -/
theorem events_are_passed_on {now : Int} {events more : List Event} {u : World}
    (hreads : ∀ e ∈ events, BuildsRead c e)
    (hrun : run (step c opts) (World.start now) events = some w)
    (hallowed : Along (step c opts) (Allowed c opts) (World.start now) events)
    (hfits : Fits w) (hdrain : step c opts w (.drain true) = some v)
    (hmore : run (step c opts) v more = some u) :
    ∀ e ∈ w.expected, selects opts e = true → e ∈ u.delivered := by
  have hkept : Kept c opts w := by
    have hboth := along_and hallowed (along_of_forall (fun e he _ => hreads e he) _)
    have keeps : ∀ s e t, Kept c opts s → Allowed c opts s e ∧ BuildsRead c e →
        step c opts s e = some t → Kept c opts t :=
      fun _ _ _ hs he hstep => kept_step hs he.1 he.2 hstep
    exact run_invariant_along keeps hrun hboth (kept_start now)
  intro e he hselects
  have hnow : e ∈ v.delivered := by
    simp only [step] at hdrain
    split at hdrain
    · rename_i tail hreader
      rw [← Option.some.inj hdrain]
      exact hkept.drained hreader hfits e he hselects
    · cases hdrain
  have stays : ∀ s f t, e ∈ s.delivered → step c opts s f = some t → e ∈ t.delivered :=
    fun _ _ _ hs hstep => (step_delivered hstep).subset hs
  exact run_invariant stays hmore hnow

end

/-- The end of a turn, and the line it is written as. -/
def turnEnd : SessionEvent :=
  { id := "e1"
    ts := "2026-01-01T00:00:00.000Z"
    machine := "dev"
    session := "api"
    agent := .claude
    threadId := "5e1f"
    event := .turnEnd }

def turnEndText : List UInt8 :=
  ("\x7b\"v\":1,\"id\":\"e1\",\"ts\":\"2026-01-01T00:00:00.000Z\",\"machine\":\"dev\"," ++
    "\"session\":\"api\",\"agent\":\"claude\",\"threadId\":\"5e1f\",\"event\":\"turn-end\"\x7d").toUTF8.toList

def turnEndCodec : Codec :=
  { render := fun _ => turnEndText
    parse := fun bytes => if bytes = turnEndText then some turnEnd else none
    dateParse := fun text => if text = "2026-01-01T00:00:00.000Z" then some 0 else none }

def sinceStart : FollowOptions := { since := "2026-01-01T00:00:00.000Z" }

theorem turnEnd_reads : turnEndCodec.Reads turnEnd := by
  refine ⟨if_pos rfl, ?_⟩
  show ∀ x ∈ turnEndText, x ≠ newline
  decide +kernel

/-- A whole call of `appendEvent` by one writer. -/
def append : List Event := [.build 0 turnEnd, .check 0, .rotate 0, .openFile 0, .write 0 1000]

theorem early_start_allowed : Along (step turnEndCodec sinceStart) (Allowed turnEndCodec sinceStart)
    (World.start 0) ([.list, .stat] ++ append) := by
  refine ⟨trivial, fun listed h => ?_⟩
  obtain rfl := Option.some.inj h
  refine ⟨fun _ h => (nomatch h), fun started h => ?_⟩
  obtain rfl := Option.some.inj h
  refine ⟨trivial, fun built h => ?_⟩
  obtain rfl := Option.some.inj h
  refine ⟨trivial, fun checked h => ?_⟩
  obtain rfl := Option.some.inj h
  refine ⟨fun hfull => ?_, fun ready h => ?_⟩
  · obtain ⟨event, hphase⟩ := hfull
    cases hphase
  obtain rfl := Option.some.inj h
  refine ⟨trivial, fun opened h => ?_⟩
  obtain rfl := Option.some.inj h
  refine ⟨?_, fun _ _ => trivial⟩
  intro event file rest hphase _ _ _
  obtain ⟨_, rfl, _⟩ := Phase.writing.inj (Option.some.inj hphase)
  refine ⟨List.mem_singleton.mpr rfl, fun hbefore => ?_⟩
  exact absurd rfl (hbefore ⟨0, []⟩)

theorem events_are_passed_on_early :
    ∃ w v, run (step turnEndCodec sinceStart) (World.start 0) ([.list, .stat] ++ append) = some w ∧
      step turnEndCodec sinceStart w (.drain true) = some v ∧ w.expected = [turnEnd] ∧
      turnEnd ∈ v.delivered := by
  have hends : ((run (step turnEndCodec sinceStart) (World.start 0)
      ([.list, .stat] ++ append)).any fun w =>
        decide (w.reader = .following ⟨0, []⟩ ∧ w.expected = [turnEnd])) = true := by
    decide +kernel
  obtain ⟨w, hrun, hw⟩ := (Option.any_eq_true _ _).mp hends
  obtain ⟨hreader, hexpected⟩ := of_decide_eq_true hw
  have hreads : ∀ e ∈ [Event.list, .stat] ++ append, BuildsRead turnEndCodec e := by
    intro e he
    cases e with
    | build writer event =>
      have hevent : writer = 0 ∧ event = turnEnd := by simpa [append] using he
      rw [hevent.2]
      exact turnEnd_reads
    | _ => trivial
  have hfits : Fits w := by
    intro tail file htail _
    obtain rfl := Reader.following.inj (hreader.symm.trans htail)
    exact Or.inr (Or.inr rfl)
  have hdrain : step turnEndCodec sinceStart w (.drain true) =
      some (drain turnEndCodec sinceStart w ⟨0, []⟩ true) := by
    simp only [step, hreader]
  have hpassed := events_are_passed_on hreads hrun early_start_allowed hfits hdrain (run_nil _ _)
  refine ⟨w, _, hrun, hdrain, hexpected, hpassed turnEnd ?_ rfl⟩
  rw [hexpected]
  exact List.mem_singleton.mpr rfl

theorem drain_idle {c : Codec} {opts : FollowOptions} {w : World} {tail : Tail} {file : Nat}
    (hcurrent : w.directory.current = some file) (hsize : w.size file = tail.offset) :
    (drain c opts w tail true).reader = .following tail ∧
      (drain c opts w tail true).directory = w.directory ∧
      (drain c opts w tail true).size file = w.size file ∧
      (drain c opts w tail true).delivered = w.delivered := by
  have hread : tail.read (w.contents file) = ([], tail) := by
    have hlength : (w.contents file).length = tail.offset := hsize
    simp [Tail.read, hlength]
  rw [drain_readable tail hcurrent]
  unfold readCurrent
  rw [hread]
  exact ⟨rfl, rfl, rfl, List.append_nil _⟩

/-- An event appended between the backlog and the start offset is never passed on. -/
theorem event_before_start_is_lost :
    ∃ w, run (step turnEndCodec sinceStart) (World.start 0) ([.list] ++ append ++ [.stat]) = some w ∧
      turnEnd ∈ w.expected ∧ selects sinceStart turnEnd = true ∧
      ∀ n v, run (step turnEndCodec sinceStart) w (List.replicate n (.drain true)) = some v →
        turnEnd ∉ v.delivered := by
  have hends : ((run (step turnEndCodec sinceStart) (World.start 0)
      ([.list] ++ append ++ [.stat])).any fun w =>
        decide (w.reader = .following ⟨w.size 0, []⟩ ∧ w.directory.current = some 0 ∧
          w.delivered = [] ∧ w.expected = [turnEnd])) = true := by
    decide +kernel
  obtain ⟨w, hrun, hw⟩ := (Option.any_eq_true _ _).mp hends
  obtain ⟨hreader, hcurrent, hdelivered, hexpected⟩ := of_decide_eq_true hw
  refine ⟨w, hrun, by rw [hexpected]; exact List.mem_singleton.mpr rfl, rfl, ?_⟩
  intro n
  clear hrun hw hends hexpected
  induction n generalizing w with
  | zero =>
    intro v hv
    obtain rfl := Option.some.inj hv
    rw [hdelivered]
    exact List.not_mem_nil
  | succ n ih =>
    intro v hv
    rw [List.replicate_succ] at hv
    obtain ⟨m, hm, hrest⟩ := run_cons.mp hv
    simp only [step, hreader] at hm
    obtain rfl := Option.some.inj hm
    obtain ⟨hafter, hdirectory, hsize, hsame⟩ := @drain_idle turnEndCodec sinceStart w
      ⟨w.size 0, []⟩ 0 hcurrent rfl
    refine ih _ ?_ ?_ ?_ v hrest
    · rw [hafter, hsize]
    · rw [hdirectory, hcurrent]
    · rw [hsame, hdelivered]

end Ccmux.Events.Feed
