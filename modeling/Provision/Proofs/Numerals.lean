import Provision.Text.Numeral

/-!
# Numerals read back

The digits of a number are digits, and their value is the number again (`value_digits`). So numbers
written in decimal are told apart by what is written (`ofNat_inj`).
-/

namespace Provision.Numeral

variable {m n : Nat}

theorem toNat_digit (h : n < 10) : (digit n).toNat = '0'.toNat + n := by
  have hv : ('0'.toNat + n).isValidChar := .inl (by simp; omega)
  rw [digit, Char.ofNat, dif_pos hv]
  rfl

theorem digitValue_digit (h : n < 10) : digitValue (digit n) = n := by
  rw [digitValue, toNat_digit h, Nat.add_sub_cancel_left]

theorem isDigit_digit (h : n < 10) : (digit n).isDigit = true := by
  have hn := toNat_digit h
  simp only [Char.isDigit, Bool.and_eq_true, decide_eq_true_eq]
  constructor
  · show '0'.toNat ≤ (digit n).toNat
    omega
  · show (digit n).toNat ≤ '9'.toNat
    simp only [hn]
    simp
    omega

theorem value_snoc (ds : List Char) (d : Char) :
    value (ds ++ [d]) = 10 * value ds + digitValue d := by
  simp [value]

/-- The value of the digits of a number is the number. -/
@[simp] theorem value_digits (n : Nat) : value (digits n) = n := by
  fun_induction digits n with
  | case1 n h => simp [value, digitValue_digit h]
  | case2 n _ ih =>
    rw [value_snoc, ih, digitValue_digit (Nat.mod_lt n (by omega))]
    omega

theorem isDigit_of_mem_digits {c : Char} (h : c ∈ digits n) : c.isDigit = true := by
  fun_induction digits n with
  | case1 n hn =>
    rw [List.mem_singleton.1 h]
    exact isDigit_digit hn
  | case2 n _ ih =>
    rcases List.mem_append.1 h with h | h
    · exact ih h
    · rw [List.mem_singleton.1 h]
      exact isDigit_digit (Nat.mod_lt n (by omega))

theorem digits_ne_nil : digits n ≠ [] := by
  fun_induction digits n with
  | case1 => simp
  | case2 => simp

/-- Numbers with one numeral are one number. -/
theorem ofNat_inj : ofNat m = ofNat n ↔ m = n := by
  refine ⟨fun h => ?_, congrArg ofNat⟩
  have hd : digits m = digits n := String.ofList_injective h
  rw [← value_digits m, hd, value_digits]

end Provision.Numeral
