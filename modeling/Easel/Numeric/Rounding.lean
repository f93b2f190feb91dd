/-!
# Rounding a quotient

`roundDiv num den` is the integer nearest to `num / den`; a quotient halfway between two integers
goes to the even one. It is the only place where the library rounds: decimal numerals and products
of doubles are both brought to a grid by it.

* `div_le_roundDiv`, `roundDiv_le_div_add_one` — the result is one of the quotient's two
  neighbours;
* `roundDiv_mul_right` — a quotient that is an integer is kept.
-/

namespace Easel

/-- The integer nearest to `num / den`, the even one of two equally near. It is found from the
remainder, without fractions. -/
def roundDiv (num den : Nat) : Nat :=
  let below := num / den
  let twiceRest := 2 * (num % den)
  if den < twiceRest ∨ (twiceRest = den ∧ below % 2 = 1) then below + 1 else below

/-- Rounding never goes below the quotient cut to an integer. -/
theorem div_le_roundDiv (num den : Nat) : num / den ≤ roundDiv num den := by
  unfold roundDiv
  dsimp only
  split <;> omega

/-- Rounding goes up by at most one. -/
theorem roundDiv_le_div_add_one (num den : Nat) : roundDiv num den ≤ num / den + 1 := by
  unfold roundDiv
  dsimp only
  split <;> omega

/-- An integer is not rounded. -/
@[simp] theorem roundDiv_mul_right (n : Nat) {den : Nat} (h : 0 < den) :
    roundDiv (n * den) den = n := by
  simp [roundDiv, Nat.mul_div_cancel n h, Nat.mul_mod_left]
  omega

end Easel
