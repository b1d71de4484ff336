/- Module: Ccmux/Lib/Keys
   digest: Lists whose elements carry keys that do not repeat. -/

import Mathlib

namespace Ccmux.Lib.Keys

universe u v

variable {α : Type u} {κ : Type v} {key : α → Option κ}

variable {first : α} {rest : List α}

theorem nodup_tail (h : ((first :: rest).filterMap key).Nodup) :
    (rest.filterMap key).Nodup := by
  cases hfirst : key first with
  | none => simpa [List.filterMap_cons, hfirst] using h
  | some k =>
    rw [List.filterMap_cons_some hfirst] at h
    exact (List.nodup_cons.mp h).2

theorem not_mem_tail {k : κ} (h : ((first :: rest).filterMap key).Nodup)
    (hfirst : key first = some k) :
    ∀ b ∈ rest, key b ≠ some k := by
  rw [List.filterMap_cons_some hfirst] at h
  intro b hb hkey
  exact (List.nodup_cons.mp h).1 (List.mem_filterMap.mpr ⟨b, hb, hkey⟩)

theorem eq_of_key {items : List α} (h : (items.filterMap key).Nodup) {a b : α} {k : κ}
    (ha : a ∈ items) (hb : b ∈ items) (hka : key a = some k) (hkb : key b = some k) : a = b := by
  induction items with
  | nil => cases ha
  | cons first rest ih =>
    rcases List.mem_cons.mp ha with ha | ha
    · rcases List.mem_cons.mp hb with hb | hb
      · rw [ha, hb]
      · exact absurd hkb (not_mem_tail h (by rw [← ha, hka]) b hb)
    · rcases List.mem_cons.mp hb with hb | hb
      · exact absurd hka (not_mem_tail h (by rw [← hb, hkb]) a ha)
      · exact ih (nodup_tail h) ha hb

end Ccmux.Lib.Keys
