/- Module: Ccmux/Lib/Number
   digest: The natural numbers a double holds: which one decimal digits are read as, and the digits
     each is printed with. -/

import Mathlib

namespace Ccmux.Lib.Number

/-- The nearest number with a mantissa of 53 bits, the even one of two. -/
def nearest (n : Nat) : Nat :=
  if n < 2 ^ 53 then n
  else
    let unit := 2 ^ (n.log2 - 52)
    let low := n / unit
    let rest := n % unit
    if rest * 2 < unit ∨ (rest * 2 = unit ∧ low % 2 = 0) then low * unit else (low + 1) * unit

/-- The double a whole number is read as; `none` is infinity. -/
def toNumber (n : Nat) : Option Nat := if nearest n < 2 ^ 1024 then some (nearest n) else none

def IsNumber (x : Nat) : Prop := nearest x = x ∧ x < 2 ^ 1024

instance (x : Nat) : Decidable (IsNumber x) := inferInstanceAs (Decidable (_ ∧ _))

/-- The multiple of the unit that is read as the number; of two the closer one, or the even one. -/
def pick (x unit : Nat) : Option Nat :=
  let low := x / unit * unit
  let high := low + unit
  if nearest low = x then
    if nearest high = x then
      if x - low < high - x then some low
      else if high - x < x - low then some high
      else if x / unit % 2 = 0 then some low else some high
    else some low
  else if nearest high = x then some high
  else none

/-- The first pick, from a power of ten down to one. -/
def shortestFrom (x : Nat) : Nat → Nat
  | 0 => x
  | power + 1 => (pick x (10 ^ (power + 1))).getD (shortestFrom x power)

/-- The number with the fewest significant digits that is read as this one. -/
def shortest (x : Nat) : Nat := shortestFrom x ((Nat.toDigits 10 x).length - 1)

/-- The digits after the first one, without the zeros at the end, behind a point. -/
def fraction (digits : List Char) : List Char :=
  let trimmed := (digits.reverse.dropWhile fun c => c == '0').reverse
  if trimmed = [] then [] else '.' :: trimmed

/-- The printed number: from `10 ^ 21` on with an exponent. -/
def printNumber (x : Nat) : List Char :=
  let digits := Nat.toDigits 10 (shortest x)
  if shortest x < 10 ^ 21 then digits
  else
    digits.take 1 ++ fraction (digits.drop 1) ++
      'e' :: '+' :: Nat.toDigits 10 (digits.length - 1)

variable {n x : Nat}

theorem nearest_of_lt (h : n < 2 ^ 53) : nearest n = n := if_pos h

theorem le_nearest (h : 2 ^ 53 ≤ n) : 2 ^ 53 ≤ nearest n := by
  have hne : n ≠ 0 := by
    rintro rfl
    exact absurd h (by decide)
  have hlog : 53 ≤ n.log2 := (Nat.le_log2 hne).mpr h
  have hbig : 2 ^ n.log2 ≤ n := Nat.log2_self_le hne
  have hunit : 2 ^ 52 * 2 ^ (n.log2 - 52) = 2 ^ n.log2 := by
    rw [← Nat.pow_add]
    congr 1
    omega
  have hlow : 2 ^ 52 ≤ n / 2 ^ (n.log2 - 52) := by
    rw [Nat.le_div_iff_mul_le (Nat.two_pow_pos _), hunit]
    exact hbig
  have hproduct : 2 ^ 53 ≤ n / 2 ^ (n.log2 - 52) * 2 ^ (n.log2 - 52) :=
    calc 2 ^ 53 ≤ 2 ^ n.log2 := Nat.pow_le_pow_right (by decide) hlog
      _ = 2 ^ 52 * 2 ^ (n.log2 - 52) := hunit.symm
      _ ≤ n / 2 ^ (n.log2 - 52) * 2 ^ (n.log2 - 52) := Nat.mul_le_mul_right _ hlow
  unfold nearest
  rw [if_neg (by omega)]
  dsimp only
  split
  · exact hproduct
  · rw [Nat.succ_mul]
    omega

theorem eq_of_nearest_lt (h : nearest n = x) (hx : x < 2 ^ 53) : n = x := by
  by_cases hn : n < 2 ^ 53
  · rw [← h, nearest_of_lt hn]
  · have hbig := le_nearest (Nat.le_of_not_lt hn)
    omega

theorem isNumber_of_lt (h : x < 2 ^ 53) : IsNumber x := by
  refine ⟨nearest_of_lt h, Nat.lt_of_lt_of_le h ?_⟩
  have hle : ∀ n : Nat, 53 ≤ n → 2 ^ 53 ≤ 2 ^ n := fun n hn => Nat.pow_le_pow_right Nat.two_pos hn
  exact hle 1024 (by decide)

theorem toNumber_of_lt (h : n < 2 ^ 53) : toNumber n = some n := by
  rw [toNumber, nearest_of_lt h, if_pos (isNumber_of_lt h).2]

theorem nearest_pick {unit y : Nat} (h : pick x unit = some y) : nearest y = x := by
  unfold pick at h
  dsimp only at h
  split at h
  · next hlow =>
    split at h
    · next hhigh =>
      split at h
      · exact Option.some.inj h ▸ hlow
      · split at h
        · exact Option.some.inj h ▸ hhigh
        · split at h
          · exact Option.some.inj h ▸ hlow
          · exact Option.some.inj h ▸ hhigh
    · exact Option.some.inj h ▸ hlow
  · split at h
    · next hhigh => exact Option.some.inj h ▸ hhigh
    · cases h

theorem nearest_shortestFrom (h : nearest x = x) (power : Nat) :
    nearest (shortestFrom x power) = x := by
  induction power with
  | zero => exact h
  | succ power ih =>
    rw [shortestFrom]
    cases hpick : pick x (10 ^ (power + 1)) with
    | none => exact ih
    | some y => exact nearest_pick hpick

theorem nearest_shortest (h : nearest x = x) : nearest (shortest x) = x :=
  nearest_shortestFrom h _

theorem shortest_of_lt (h : x < 2 ^ 53) : shortest x = x :=
  eq_of_nearest_lt (nearest_shortest (nearest_of_lt h)) h

theorem toNumber_shortest (h : IsNumber x) : toNumber (shortest x) = some x := by
  rw [toNumber, nearest_shortest h.1, if_pos h.2]

theorem printNumber_exponent (h : ¬ shortest x < 10 ^ 21) :
    ∃ c next rest, printNumber x = c :: next :: rest ∧ c.isDigit = true ∧ next.isDigit = false := by
  cases hdigits : Nat.toDigits 10 (shortest x) with
  | nil => exact absurd hdigits Nat.toDigits_ne_nil
  | cons c digits =>
    have hc : c.isDigit = true := by
      refine Nat.isDigit_of_mem_toDigits (by decide) (by decide)
        (?_ : c ∈ Nat.toDigits 10 (shortest x))
      rw [hdigits]
      exact List.mem_cons_self
    simp only [printNumber, h, if_false, hdigits, List.take_succ_cons, List.take_zero,
      List.drop_succ_cons, List.drop_zero]
    unfold fraction
    dsimp only
    split
    · exact ⟨c, 'e', _, rfl, hc, by decide⟩
    · exact ⟨c, '.', _, rfl, hc, by decide⟩

theorem le_of_exponent (h : ¬ shortest x < 10 ^ 21) : 2 ^ 53 ≤ x := by
  by_contra hlt
  have hsmall : (2 : Nat) ^ 53 < 10 ^ 21 := by decide
  rw [shortest_of_lt (Nat.lt_of_not_le hlt)] at h
  omega

end Ccmux.Lib.Number
