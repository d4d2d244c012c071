import Mathlib

/-!
# Numerals of a fixed width

Decimal numerals with leading zeros are in the order of the numbers.
-/

namespace Numerals

def digit (d : ℕ) : Char := Char.ofNat (48 + d)

def padded : ℕ → ℕ → List Char
  | 0, _ => []
  | width + 1, n => padded width (n / 10) ++ [digit (n % 10)]

theorem digit_lt {a b : ℕ} (h : a < b) (hb : b < 10) : digit a < digit b := by
  have ha : ∀ b : Fin 10, ∀ a : Fin 10, a < b → digit a < digit b := by decide
  exact ha ⟨b, hb⟩ ⟨a, h.trans hb⟩ h

theorem padded_append_lt : ∀ {width n m : ℕ} (x y : List Char), n < m → m < 10 ^ width →
    padded width n ++ x < padded width m ++ y
  | 0, n, m, x, y, h, hm => by
    omega
  | width + 1, n, m, x, y, h, hm => by
    rw [padded, padded, List.append_assoc, List.append_assoc]
    have hq : m / 10 < 10 ^ width := by
      omega
    by_cases hlt : n / 10 < m / 10
    · exact padded_append_lt _ _ hlt hq
    have heq : n / 10 = m / 10 := by omega
    rw [heq]
    refine List.append_left_lt (List.cons_lt_cons_iff.2 (.inl (digit_lt ?_ ?_))) <;> omega

end Numerals
