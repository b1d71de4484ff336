/- Module: Ccmux/Lib/Tally
   digest: Rows of running totals by key, kept by signed updates, as the tally of a multiset. -/

import Mathlib

namespace Ccmux.Lib.Tally

universe u v

/-- One row: a key with the total and the number of its items. -/
structure Row (κ : Type u) (ν : Type v) where
  key : κ
  total : ν
  count : Int
  deriving DecidableEq, Repr

variable {κ : Type u} {ν : Type v} [DecidableEq κ]

section
variable [AddCommGroup ν]

/-- The rows with one for the key, opened at zero when there is room. -/
def withRow (limit : Nat) (rows : List (Row κ ν)) (key : κ) : Option (List (Row κ ν)) :=
  if rows.any fun row => decide (row.key = key) then some rows
  else if limit ≤ rows.length then none
  else some (rows ++ [⟨key, 0, 0⟩])

variable [LinearOrder ν]

/-- One row after a signed item of its key; a total never falls below zero. -/
def Row.post (row : Row κ ν) (key : κ) (value : ν) (sign : Int) : Row κ ν :=
  if row.key = key then ⟨key, max 0 (row.total + sign • value), row.count + sign⟩ else row

/-- A signed item on the rows; rows without items go away. -/
def post (limit : Nat) (rows : List (Row κ ν)) (key : κ) (value : ν) (sign : Int) :
    Option (List (Row κ ν)) :=
  (withRow limit rows key).map fun opened =>
    (opened.map fun row => row.post key value sign).filter fun row => decide (0 < row.count)

end

def countOf (key : κ) (items : Multiset (κ × ν)) : Nat :=
  (items.filter fun item => item.1 = key).card

@[simp] theorem countOf_zero (key : κ) : countOf key (0 : Multiset (κ × ν)) = 0 := by
  simp [countOf]

theorem countOf_cons (key : κ) (item : κ × ν) (items : Multiset (κ × ν)) :
    countOf key (item ::ₘ items) = countOf key items + if item.1 = key then 1 else 0 := by
  by_cases h : item.1 = key <;> simp [countOf, h]

theorem countOf_pos {key : κ} {items : Multiset (κ × ν)} :
    0 < countOf key items ↔ key ∈ items.map Prod.fst := by
  rw [countOf, Multiset.card_pos_iff_exists_mem, Multiset.mem_map]
  constructor
  · intro ⟨item, hmem⟩
    obtain ⟨hitem, hkey⟩ := Multiset.mem_filter.mp hmem
    exact ⟨item, hitem, hkey⟩
  · intro ⟨item, hitem, hkey⟩
    exact ⟨item, Multiset.mem_filter.mpr ⟨hitem, hkey⟩⟩

section
variable [AddCommMonoid ν]

def totalOf (key : κ) (items : Multiset (κ × ν)) : ν :=
  ((items.filter fun item => item.1 = key).map Prod.snd).sum

structure Tallies (rows : List (Row κ ν)) (items : Multiset (κ × ν)) : Prop where
  keys : (rows.map Row.key).Nodup
  mem : ∀ row, row ∈ rows ↔ 0 < countOf row.key items ∧ row.total = totalOf row.key items ∧
    row.count = countOf row.key items

@[simp] theorem totalOf_zero (key : κ) : totalOf key (0 : Multiset (κ × ν)) = 0 := by
  simp [totalOf]

theorem totalOf_cons (key : κ) (item : κ × ν) (items : Multiset (κ × ν)) :
    totalOf key (item ::ₘ items) = totalOf key items + if item.1 = key then item.2 else 0 := by
  by_cases h : item.1 = key
  · simp [totalOf, h, add_comm]
  · simp [totalOf, h]

theorem totalOf_eq_zero {key : κ} {items : Multiset (κ × ν)} (h : countOf key items = 0) :
    totalOf key items = 0 := by
  have hnone : items.filter (fun item => item.1 = key) = 0 := Multiset.card_eq_zero.mp h
  simp [totalOf, hnone]

theorem Tallies.nil : Tallies ([] : List (Row κ ν)) 0 := by
  constructor <;> simp

theorem Tallies.key_mem {rows : List (Row κ ν)} {items : Multiset (κ × ν)} {key : κ}
    (h : Tallies rows items) : key ∈ rows.map Row.key ↔ 0 < countOf key items := by
  constructor
  · intro hmem
    obtain ⟨row, hrow, rfl⟩ := List.mem_map.mp hmem
    exact ((h.mem row).mp hrow).1
  · intro hpos
    have hrow : (⟨key, totalOf key items, countOf key items⟩ : Row κ ν) ∈ rows :=
      (h.mem _).mpr ⟨hpos, rfl, rfl⟩
    exact List.mem_map.mpr ⟨_, hrow, rfl⟩

theorem Tallies.perm {rows other : List (Row κ ν)} {items : Multiset (κ × ν)}
    (h : Tallies rows items) (h' : Tallies other items) : rows.Perm other := by
  apply (List.perm_ext_iff_of_nodup (List.Nodup.of_map _ h.keys) (List.Nodup.of_map _ h'.keys)).mpr
  intro row
  rw [h.mem, h'.mem]

theorem Tallies.length {rows : List (Row κ ν)} {items : Multiset (κ × ν)}
    (h : Tallies rows items) : rows.length = (items.map Prod.fst).toFinset.card := by
  have hkeys : (rows.map Row.key).toFinset = (items.map Prod.fst).toFinset := by
    ext key
    rw [List.mem_toFinset, Multiset.mem_toFinset, h.key_mem, countOf_pos]
  rw [← hkeys, List.toFinset_card_of_nodup h.keys, List.length_map]

end

section
variable [AddCommGroup ν] [LinearOrder ν]

omit [LinearOrder ν] in
/-- The opened rows: those of the other keys, and one for the key. -/
theorem Tallies.withRow {limit : Nat} {rows opened : List (Row κ ν)} {items : Multiset (κ × ν)}
    {key : κ} (h : Tallies rows items) (hopen : withRow limit rows key = some opened) :
    (opened.map Row.key).Nodup ∧ (rows.length ≤ limit → opened.length ≤ limit) ∧
    ∀ row, row ∈ opened ↔ (row.key ≠ key ∧ row ∈ rows) ∨
      row = ⟨key, totalOf key items, countOf key items⟩ := by
  unfold Tally.withRow at hopen
  by_cases hany : (rows.any fun row => decide (row.key = key)) = true
  · rw [if_pos hany] at hopen
    obtain rfl := Option.some.inj hopen
    refine ⟨h.keys, id, ?_⟩
    intro row
    have hpos : 0 < countOf key items := by
      obtain ⟨found, hfound, hkey⟩ := List.any_eq_true.mp hany
      rw [← h.key_mem]
      exact List.mem_map.mpr ⟨found, hfound, of_decide_eq_true hkey⟩
    by_cases hkey : row.key = key
    · rw [h.mem]
      constructor
      · intro ⟨_, htotal, hcount⟩
        right
        rw [← hkey, ← htotal, ← hcount]
      · intro hcase
        rcases hcase with ⟨hother, _⟩ | hsame
        · exact absurd hkey hother
        · rw [hsame]
          exact ⟨hpos, rfl, rfl⟩
    · constructor
      · intro hmem
        exact Or.inl ⟨hkey, hmem⟩
      · intro hcase
        rcases hcase with ⟨_, hmem⟩ | hsame
        · exact hmem
        · rw [hsame] at hkey
          exact absurd rfl hkey
  · rw [if_neg hany] at hopen
    by_cases hfull : limit ≤ rows.length
    · simp [hfull] at hopen
    · rw [if_neg hfull] at hopen
      obtain rfl := Option.some.inj hopen
      have hnew : key ∉ rows.map Row.key := by
        intro hmem
        obtain ⟨found, hfound, hkey⟩ := List.mem_map.mp hmem
        exact hany (List.any_eq_true.mpr ⟨found, hfound, by simpa using hkey⟩)
      have hzero : countOf key items = 0 := by
        have hnot := mt h.key_mem.mpr hnew
        omega
      refine ⟨?_, ?_, ?_⟩
      · simp only [List.map_append, List.map_cons, List.map_nil]
        refine List.nodup_append.mpr ⟨h.keys, List.nodup_singleton _, ?_⟩
        intro a ha b hb hab
        have hb' : b = key := by simpa using hb
        rw [hab, hb'] at ha
        exact hnew ha
      · intro _
        simp only [List.length_append, List.length_singleton]
        omega
      · intro row
        rw [List.mem_append, List.mem_singleton, hzero, totalOf_eq_zero hzero]
        constructor
        · intro hcase
          rcases hcase with hmem | hsame
          · left
            refine ⟨?_, hmem⟩
            intro hkey
            exact hnew (List.mem_map.mpr ⟨row, hmem, hkey⟩)
          · exact Or.inr (by simpa using hsame)
        · intro hcase
          rcases hcase with ⟨_, hmem⟩ | hsame
          · exact Or.inl hmem
          · exact Or.inr (by simpa using hsame)

/-- A signed item turns the tally of some items into that of others when it accounts for the
difference. -/
theorem Tallies.post {limit : Nat} {rows posted : List (Row κ ν)}
    {items others : Multiset (κ × ν)} {key : κ} {value : ν} {sign : Int} (h : Tallies rows items)
    (hpost : post limit rows key value sign = some posted)
    (hrest : ∀ k, k ≠ key → countOf k others = countOf k items ∧ totalOf k others = totalOf k items)
    (hcount : (countOf key others : Int) = countOf key items + sign)
    (htotal : totalOf key others = max 0 (totalOf key items + sign • value)) :
    Tallies posted others ∧ (rows.length ≤ limit → posted.length ≤ limit) := by
  obtain ⟨opened, hopen, rfl⟩ := Option.map_eq_some_iff.mp hpost
  obtain ⟨hkeys, hlength, hmem⟩ := h.withRow hopen
  have hpostKey (row : Row κ ν) : (row.post key value sign).key = row.key := by
    by_cases hkey : row.key = key <;> simp [Row.post, hkey]
  have hsame : (opened.map fun row => row.post key value sign).map Row.key =
      opened.map Row.key := by
    simp [hpostKey]
  refine ⟨⟨?_, ?_⟩, ?_⟩
  · rw [← hsame] at hkeys
    exact (List.Sublist.map _ List.filter_sublist).nodup hkeys
  · intro row
    rw [List.mem_filter, List.mem_map, decide_eq_true_eq]
    by_cases hkey : row.key = key
    · constructor
      · intro ⟨⟨source, hsource, heq⟩, hpos⟩
        have hsourceKey : source.key = key := by rw [← hpostKey source, heq, hkey]
        rcases (hmem source).mp hsource with ⟨hother, _⟩ | hrow
        · exact absurd hsourceKey hother
        · rw [hrow] at heq
          simp only [Row.post, if_true] at heq
          rw [← heq] at hpos ⊢
          simp only at hpos ⊢
          rw [← hcount] at hpos ⊢
          exact ⟨by omega, htotal.symm, rfl⟩
      · intro ⟨hpos, hrowTotal, hrowCount⟩
        rw [hkey] at hpos hrowTotal hrowCount
        refine ⟨⟨⟨key, totalOf key items, countOf key items⟩, (hmem _).mpr (Or.inr rfl), ?_⟩, by omega⟩
        simp only [Row.post, if_true]
        rw [← htotal, ← hcount, ← hrowTotal, ← hrowCount, ← hkey]
    · obtain ⟨hkeptCount, hkeptTotal⟩ := hrest row.key hkey
      rw [hkeptCount, hkeptTotal, ← h.mem]
      constructor
      · intro ⟨⟨source, hsource, heq⟩, _⟩
        have hsourceKey : source.key ≠ key := by
          rw [← hpostKey source, heq]
          exact hkey
        have hstay : source.post key value sign = source := by simp [Row.post, hsourceKey]
        rw [hstay] at heq
        rw [← heq]
        rcases (hmem source).mp hsource with ⟨_, hrow⟩ | hrow
        · exact hrow
        · rw [hrow] at hsourceKey
          exact absurd rfl hsourceKey
      · intro hrow
        have hpos := ((h.mem row).mp hrow).1
        have hrowCount := ((h.mem row).mp hrow).2.2
        refine ⟨⟨row, (hmem row).mpr (Or.inl ⟨hkey, hrow⟩), by simp [Row.post, hkey]⟩, by omega⟩
  · intro hle
    calc _ ≤ (opened.map fun row => row.post key value sign).length := List.length_filter_le _ _
      _ = opened.length := List.length_map _
      _ ≤ limit := hlength hle

theorem Tallies.post_some {limit : Nat} {rows : List (Row κ ν)} {items : Multiset (κ × ν)}
    {key : κ} (value : ν) (sign : Int) (h : Tallies rows items)
    (hroom : 0 < countOf key items ∨ rows.length < limit) :
    ∃ posted, Tally.post limit rows key value sign = some posted := by
  unfold Tally.post Tally.withRow
  by_cases hany : (rows.any fun row => decide (row.key = key)) = true
  · simp [hany]
  · have hfull : ¬ limit ≤ rows.length := by
      rcases hroom with hpos | hlt
      · obtain ⟨row, hrow, hkey⟩ := List.mem_map.mp (h.key_mem.mpr hpos)
        exact absurd (List.any_eq_true.mpr ⟨row, hrow, by simpa using hkey⟩) hany
      · omega
    rw [if_neg hany, if_neg hfull]
    exact ⟨_, rfl⟩

variable [IsOrderedAddMonoid ν]

theorem totalOf_nonneg {key : κ} {items : Multiset (κ × ν)} (h : ∀ item ∈ items, 0 ≤ item.2) :
    0 ≤ totalOf key items := by
  apply Multiset.sum_nonneg
  intro value hvalue
  obtain ⟨item, hitem, rfl⟩ := Multiset.mem_map.mp hvalue
  exact h item (Multiset.mem_filter.mp hitem).1

theorem Tallies.add {limit : Nat} {rows posted : List (Row κ ν)} {items : Multiset (κ × ν)}
    {key : κ} {value : ν} (h : Tallies rows items)
    (hnonneg : ∀ item ∈ (key, value) ::ₘ items, 0 ≤ item.2)
    (hpost : Tally.post limit rows key value 1 = some posted) :
    Tallies posted ((key, value) ::ₘ items) ∧ (rows.length ≤ limit → posted.length ≤ limit) := by
  apply h.post hpost
  · intro k hk
    simp [countOf_cons, totalOf_cons, hk.symm]
  · simp [countOf_cons]
  · have hold : 0 ≤ totalOf key items :=
      totalOf_nonneg fun item hitem => hnonneg item (Multiset.mem_cons_of_mem hitem)
    have hnew : 0 ≤ value := hnonneg (key, value) (Multiset.mem_cons_self _ _)
    simp [totalOf_cons, max_eq_right (add_nonneg hold hnew)]

theorem Tallies.remove {limit : Nat} {rows posted : List (Row κ ν)} {items : Multiset (κ × ν)}
    {key : κ} {value : ν} (h : Tallies rows ((key, value) ::ₘ items))
    (hnonneg : ∀ item ∈ items, 0 ≤ item.2)
    (hpost : Tally.post limit rows key value (-1) = some posted) :
    Tallies posted items ∧ (rows.length ≤ limit → posted.length ≤ limit) := by
  apply h.post hpost
  · intro k hk
    simp [countOf_cons, totalOf_cons, hk.symm]
  · simp [countOf_cons]
  · simp [totalOf_cons, max_eq_right (totalOf_nonneg hnonneg)]

end

end Ccmux.Lib.Tally
