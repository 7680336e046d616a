/-! Quotients rounded to the nearest whole number, ties to the even one. -/

namespace InfixCalculator.Number

/-- `num / den` rounded to nearest, a half to the even neighbour. -/
def divRoundEven (num den : Nat) : Nat :=
  let q := num / den
  let twice := 2 * (num % den)
  if twice < den then q else if den < twice then q + 1 else q + q % 2

theorem divRoundEven_mul (q : Nat) {den : Nat} (h : 0 < den) : divRoundEven (q * den) den = q := by
  simp [divRoundEven, Nat.mul_div_cancel _ h, h]

/-- The rounded quotient is at most half a unit away. -/
theorem divRoundEven_near (num : Nat) {den : Nat} (h : 0 < den) :
    2 * (divRoundEven num den * den) ≤ 2 * num + den ∧
      2 * num ≤ 2 * (divRoundEven num den * den) + den := by
  have hd := Nat.div_add_mod' num den
  have hr := Nat.mod_lt num h
  have hs : (num / den + 1) * den = num / den * den + den := Nat.succ_mul _ _
  unfold divRoundEven
  simp only
  split
  · omega
  · split
    · omega
    · rcases Nat.mod_two_eq_zero_or_one (num / den) with he | he <;>
        simp only [he, Nat.add_zero] <;> omega

/-- A quotient half a unit away is even. -/
theorem divRoundEven_tie {num den : Nat} (h : 0 < den)
    (tie : 2 * (divRoundEven num den * den) = 2 * num + den ∨
      2 * num = 2 * (divRoundEven num den * den) + den) :
    divRoundEven num den % 2 = 0 := by
  have hd := Nat.div_add_mod' num den
  have hr := Nat.mod_lt num h
  have hs : (num / den + 1) * den = num / den * den + den := Nat.succ_mul _ _
  unfold divRoundEven at tie ⊢
  simp only at tie ⊢
  split at tie
  · omega
  · split at tie
    · omega
    · rename_i h₁ h₂
      simp only [h₁, h₂, if_false]
      omega

end InfixCalculator.Number
