/- Module: Ccmux/Context/CompleteHistory
   source: src/context/nativeTranscriptHistory.ts
   digest: The whole of a native history, gathered page by page under a budget. -/

import Ccmux.Context.History
import Ccmux.Lib.CursorWalk

namespace Ccmux.Context.CompleteHistory

open Ccmux.Chat.Identity (AgentKind)
open Ccmux.Context.History
open Ccmux.Lib.CursorWalk

/-- `MAX_ENTRIES` -/
def transcriptEntries : Nat := 65536

/-- `MAX_BYTES` -/
def transcriptBytes : Nat := 32 * 1024 * 1024

abbrev Identity := AgentKind × String × Nat

def identityOf (page : NativeHistoryPage) : Identity := (page.runtime, page.nativeId, page.revision)

/-- What the loop holds between two reads. -/
structure Gathered where
  pages : List (List NativeHistoryEntry) := []
  cursors : List String := []
  ids : List String := []
  bytes : Nat := 0
  identity : Option Identity := none

/-- `ids` with those of a page; `none` when one of them is there already. -/
def addIds (ids : List String) : List NativeHistoryEntry → Option (List String)
  | [] => some ids
  | entry :: rest =>
    if entry.itemId ∈ ids then none else addIds (entry.itemId :: ids) rest

inductive Turn where
  | thrown (message : String)
  | done (entries : List NativeHistoryEntry)
  | onward (g : Gathered) (cursor : String)

def overBudget : String := "native history exceeds transcript budget"

/-- What one turn of the loop does with its page; `size` is the bytes of the entries' JSON. -/
def takePage (size : List NativeHistoryEntry → Nat) (g : Gathered) (page : NativeHistoryPage) :
    Turn :=
  let identity := g.identity.getD (identityOf page)
  let bytes := g.bytes + size page.entries
  if identity ≠ identityOf page then .thrown "native history identity changed"
  else if page.omittedItems ≠ 0 ∨ page.completeness = .unknown then
    .thrown "native history is incomplete"
  else if transcriptBytes < bytes ∨ transcriptEntries < g.ids.length + page.entries.length then
    .thrown overBudget
  else
    match addIds g.ids page.entries with
    | none => .thrown "native history repeats an entry"
    | some ids =>
      let pages := g.pages ++ [page.entries]
      if page.completeness = .complete then
        if page.nextCursor ≠ none then .thrown "native history has contradictory bounds"
        else .done pages.reverse.flatten
      else
        match page.nextCursor with
        | none => .thrown "native history cursor does not advance"
        | some cursor =>
          if cursor ∈ g.cursors then .thrown "native history cursor does not advance"
          else .onward ⟨pages, cursor :: g.cursors, ids, bytes, some identity⟩ cursor

/-- `none` when the loop outlasts the fuel. -/
def completeNativeHistory (size : List NativeHistoryEntry → Nat)
    (read : Option String → Except HistoryError NativeHistoryPage) :
    Nat → Gathered → Option String → Option (Except HistoryError (List NativeHistoryEntry))
  | 0, _, _ => none
  | fuel + 1, g, cursor =>
    match read cursor with
    | .error e => some (.error e)
    | .ok page =>
      match takePage size g page with
      | .thrown message => some (.error (.thrown message))
      | .done entries => some (.ok entries)
      | .onward g cursor => completeNativeHistory size read fuel g (some cursor)

/-! ### The loop on a reader that serves -/

/-- A page of the one history, with nothing left out and its stage told by its cursor. -/
structure Whole (identity : Identity) (page : NativeHistoryPage) : Prop where
  identity : identityOf page = identity
  omitted : page.omittedItems = 0
  stage : page.completeness = if page.nextCursor = none then .complete else .more

theorem addIds_fresh {entries : List NativeHistoryEntry} {ids : List String}
    (hfresh : ∀ entry ∈ entries, entry.itemId ∉ ids)
    (hnodup : (entries.map NativeHistoryEntry.itemId).Nodup) :
    addIds ids entries = some ((entries.map NativeHistoryEntry.itemId).reverse ++ ids) := by
  induction entries generalizing ids with
  | nil => rfl
  | cons entry rest ih =>
    obtain ⟨hhead, htail⟩ := List.nodup_cons.mp (List.map_cons ▸ hnodup)
    rw [addIds, if_neg (hfresh entry List.mem_cons_self), ih ?_ htail]
    · simp
    · intro other hother hmem
      rcases List.mem_cons.mp hmem with heq | hold
      · exact hhead (heq ▸ List.mem_map_of_mem hother)
      · exact hfresh other (List.mem_cons_of_mem _ hother) hold

section
variable {size : List NativeHistoryEntry → Nat} {g : Gathered} {page : NativeHistoryPage}
  {identity : Identity}

/-- The page goes over what the loop may gather. -/
def Over (size : List NativeHistoryEntry → Nat) (g : Gathered) (page : NativeHistoryPage) : Prop :=
  transcriptBytes < g.bytes + size page.entries ∨
    transcriptEntries < g.ids.length + page.entries.length

instance : Decidable (Over size g page) := by unfold Over; infer_instance

/-- The loop after a page within the budget, before the next cursor is looked at. -/
def Gathered.add (size : List NativeHistoryEntry → Nat) (g : Gathered) (page : NativeHistoryPage)
    (cursor : String) : Gathered where
  pages := g.pages ++ [page.entries]
  cursors := cursor :: g.cursors
  ids := (page.entries.map NativeHistoryEntry.itemId).reverse ++ g.ids
  bytes := g.bytes + size page.entries
  identity := some (identityOf page)

theorem takePage_whole (size : List NativeHistoryEntry → Nat) (hwhole : Whole identity page)
    (hidentity : ∀ known, g.identity = some known → known = identity)
    (hfresh : ∀ entry ∈ page.entries, entry.itemId ∉ g.ids)
    (hnodup : (page.entries.map NativeHistoryEntry.itemId).Nodup) :
    takePage size g page =
      if Over size g page then .thrown overBudget
      else
        match page.nextCursor with
        | none => .done (g.pages ++ [page.entries]).reverse.flatten
        | some cursor =>
          if cursor ∈ g.cursors then .thrown "native history cursor does not advance"
          else .onward (g.add size page cursor) cursor := by
  have hsame : g.identity.getD (identityOf page) = identityOf page := by
    cases hknown : g.identity with
    | none => rfl
    | some known => rw [Option.getD_some, hidentity known hknown, hwhole.identity]
  unfold takePage
  simp only [hsame, hwhole.omitted, addIds_fresh hfresh hnodup, hwhole.stage]
  cases hnext : page.nextCursor with
  | none => simp [Over]
  | some cursor => simp [Over, Gathered.add]

end

section
variable {ρ α : Type} {read : ρ → Option String → Except HistoryError NativeHistoryPage}
  {At : Option String → Prop} {left : Option String → List α} {rank : Option String → Nat}
  {Shows : ρ → NativeHistoryPage → List α → Prop} {Fails : HistoryError → Prop}
  {size : List NativeHistoryEntry → Nat} {identity : Identity} {idOf : α → String}

/-- The bytes and the entries of the pages of a walk. -/
def pageBytes (size : List NativeHistoryEntry → Nat)
    (w : Walk ρ NativeHistoryPage HistoryError) : Nat :=
  (w.pages.map fun served => size served.2.entries).sum

def pageEntries (w : Walk ρ NativeHistoryPage HistoryError) : Nat :=
  (w.pages.map fun served => served.2.entries.length).sum

/-- What the loop gathers from the pages of a walk: all of them, or an error of the walk or of the
budget. -/
def Gathers (size : List NativeHistoryEntry → Nat) (g : Gathered)
    (w : Walk ρ NativeHistoryPage HistoryError) :
    Except HistoryError (List NativeHistoryEntry) → Prop
  | .ok entries => w.error = none ∧ g.bytes + pageBytes size w ≤ transcriptBytes ∧
      g.ids.length + pageEntries w ≤ transcriptEntries ∧
      entries = (g.pages ++ w.pages.map fun served => served.2.entries).reverse.flatten
  | .error e => w.error = some e ∨ e = .thrown overBudget ∧
      (transcriptBytes < g.bytes + pageBytes size w ∨
        transcriptEntries < g.ids.length + pageEntries w)

/-- Where the loop stands: of one history, with nothing gathered that is still left, and beyond
every cursor it followed. -/
structure Stands (identity : Identity) (left : Option String → List α) (idOf : α → String)
    (rank : Option String → Nat) (g : Gathered) (cursor : Option String) : Prop where
  identity : ∀ known, g.identity = some known → known = identity
  nodup : ((left cursor).map idOf).Nodup
  fresh : ∀ row ∈ left cursor, idOf row ∉ g.ids
  beyond : ∀ seen ∈ g.cursors, rank cursor ≤ rank (some seen)

theorem Stands.add {g : Gathered} {cursor : Option String} {page : NativeHistoryPage}
    {later : String} {rows : List α} (h : Stands identity left idOf rank g cursor)
    (hwhole : Whole identity page)
    (hids : page.entries.map NativeHistoryEntry.itemId = (rows.map idOf).reverse)
    (hleft : left cursor = rows ++ left (some later)) (hrank : rank (some later) ≤ rank cursor) :
    Stands identity left idOf rank (g.add size page later) (some later) := by
  have hnodup := h.nodup
  rw [hleft, List.map_append] at hnodup
  obtain ⟨-, hlater, hapart⟩ := List.nodup_append.mp hnodup
  refine ⟨?_, hlater, ?_, ?_⟩
  · intro known hknown
    rw [← hwhole.identity]
    exact (Option.some.inj hknown).symm
  · intro row hrow hmem
    rcases List.mem_append.mp hmem with hpage | hold
    · rw [hids, List.reverse_reverse] at hpage
      exact hapart _ hpage _ (List.mem_map_of_mem hrow) rfl
    · exact h.fresh row (by rw [hleft]; exact List.mem_append_right _ hrow) hold
  · intro seen hseen
    rcases List.mem_cons.mp hseen with rfl | hold
    · exact Nat.le_refl _
    · exact hrank.trans (h.beyond seen hold)

theorem Gathers.cons {g : Gathered} {w : Walk ρ NativeHistoryPage HistoryError} {request : ρ}
    {page : NativeHistoryPage} {later : String}
    {r : Except HistoryError (List NativeHistoryEntry)}
    (h : Gathers size (g.add size page later) w r) :
    Gathers size g { w with pages := (request, page) :: w.pages } r := by
  have hbytes : (g.add size page later).bytes + pageBytes size w =
      g.bytes + pageBytes size { w with pages := (request, page) :: w.pages } := by
    simp [Gathered.add, pageBytes, Nat.add_assoc]
  have hentries : (g.add size page later).ids.length + pageEntries w =
      g.ids.length + pageEntries { w with pages := (request, page) :: w.pages } := by
    simp [Gathered.add, pageEntries]
    omega
  cases r with
  | ok entries =>
    obtain ⟨hnone, hinBytes, hinEntries, hpages⟩ := h
    refine ⟨hnone, hbytes ▸ hinBytes, hentries ▸ hinEntries, ?_⟩
    rw [hpages]
    simp [Gathered.add]
  | error e =>
    rcases h with herror | ⟨he, hover⟩
    · exact .inl herror
    · exact .inr ⟨he, by rwa [hbytes, hentries] at hover⟩

/-- On a reader that serves whole pages the loop gathers the pages of the walk. -/
theorem completeNativeHistory_gathers (size : List NativeHistoryEntry → Nat)
    (h : Serves read NativeHistoryPage.nextCursor At left rank Shows Fails)
    (hshows : ∀ request page rows, Shows request page rows → Whole identity page ∧
      page.entries.map NativeHistoryEntry.itemId = (rows.map idOf).reverse)
    (request : ρ) {fuel n : Nat} {cursor : Option String} {g : Gathered} (hat : At cursor)
    (hfuel : rank cursor < fuel) (hg : Stands identity left idOf rank g cursor) :
    ∃ w r, walk read NativeHistoryPage.nextCursor (fun _ => request) fuel n cursor = some w ∧
      completeNativeHistory size (read request) fuel g cursor = some r ∧ Gathers size g w r := by
  induction fuel generalizing n cursor g with
  | zero => omega
  | succ fuel ih =>
    cases hread : read request cursor with
    | error e =>
      exact ⟨⟨[], some e⟩, .error e, by simp [walk, hread], by simp [completeNativeHistory, hread],
        .inl rfl⟩
    | ok page =>
      obtain ⟨rows, hrows, htakes⟩ := h.shown _ _ _ hat hread
      obtain ⟨hwhole, hids⟩ := hshows _ _ _ hrows
      have hsub : ∃ rest, left cursor = rows ++ rest := by
        unfold Takes at htakes
        split at htakes
        · exact ⟨[], by rw [htakes, List.append_nil]⟩
        · exact ⟨_, htakes.2.1⟩
      obtain ⟨rest, hrest⟩ := hsub
      have hleft := hg.nodup
      rw [hrest, List.map_append] at hleft
      have hfresh : ∀ entry ∈ page.entries, entry.itemId ∉ g.ids := by
        intro entry hentry
        have hmem : entry.itemId ∈ page.entries.map NativeHistoryEntry.itemId :=
          List.mem_map_of_mem hentry
        rw [hids, List.mem_reverse] at hmem
        obtain ⟨row, hrow, hid⟩ := List.mem_map.mp hmem
        rw [← hid]
        exact hg.fresh row (by rw [hrest]; exact List.mem_append_left _ hrow)
      have hnodup : (page.entries.map NativeHistoryEntry.itemId).Nodup := by
        rw [hids]
        exact List.nodup_reverse.mpr (List.nodup_append.mp hleft).1
      have htake := takePage_whole size hwhole hg.identity hfresh hnodup
      by_cases hover : Over size g page
      · -- The walk goes on where the loop stops; its pages hold the one that was too much.
        obtain ⟨w, parts, hwalk, -⟩ := walk_delivers h (fun _ => request) n hat hfuel
        refine ⟨w, .error (.thrown overBudget), hwalk, ?_, .inr ⟨rfl, ?_⟩⟩
        · simp [completeNativeHistory, hread, htake, hover]
        · have hpages : ∃ others, w.pages = (request, page) :: others := by
            rw [walk, hread] at hwalk
            dsimp only at hwalk
            split at hwalk
            · exact ⟨[], by rw [← Option.some.inj hwalk]⟩
            · obtain ⟨later, -, rfl⟩ := Option.map_eq_some_iff.mp hwalk
              exact ⟨later.pages, rfl⟩
          obtain ⟨others, hothers⟩ := hpages
          simp only [pageBytes, pageEntries, hothers, List.map_cons, List.sum_cons]
          unfold Over at hover
          omega
      · cases hnext : page.nextCursor with
        | none =>
          refine ⟨⟨[(request, page)], none⟩, .ok (g.pages ++ [page.entries]).reverse.flatten,
            by simp [walk, hread, hnext], ?_, rfl, ?_, ?_, rfl⟩
          · simp [completeNativeHistory, hread, htake, hover, hnext]
          · unfold Over at hover
            simp [pageBytes]
            omega
          · unfold Over at hover
            simp [pageEntries]
            omega
        | some later =>
          rw [hnext] at htakes
          obtain ⟨hlater, hparts, hrank⟩ : At (some later) ∧ left cursor = rows ++ left (some later) ∧
            rank (some later) < rank cursor := htakes
          have hseen : later ∉ g.cursors := by
            intro hmem
            have := hg.beyond later hmem
            omega
          have hstands : Stands identity left idOf rank (g.add size page later) (some later) :=
            hg.add hwhole hids hparts (Nat.le_of_lt hrank)
          obtain ⟨w, r, hwalk, hloop, hr⟩ := ih (n := n + 1) hlater (by omega) hstands
          refine ⟨{ w with pages := (request, page) :: w.pages }, r,
            by simp [walk, hread, hnext, hwalk], ?_, ?_⟩
          · simp [completeNativeHistory, hread, htake, hover, hnext, hseen, hloop]
          · exact hr.cons

end

end Ccmux.Context.CompleteHistory
