import Crosswalk.Decimal.Basic

/-!
# Digits of natural numbers

* `digits_lt`, `digits_ge`: the two equations of `digits`.
* `isDigit_of_mem_digits`: the digits of a number are digits.
* `digitValue?_digitChar`: a digit has the value for which it was written.
* `readDigits_digits`: the digits of a number are read as that number.
-/

namespace Crosswalk.Decimal

theorem digitValue?_digitChar : ∀ d < 10, digitValue? (digitChar d) = some d := by decide

theorem isDigit_digitChar {d : Nat} (h : d < 10) : isDigit (digitChar d) = true := by
  rw [isDigit, digitValue?_digitChar d h]
  rfl

theorem digits_lt {n : Nat} (h : n < 10) : digits n = [digitChar n] := by
  rw [digits, if_pos h]

theorem digits_ge {n : Nat} (h : 10 ≤ n) :
    digits n = digits (n / 10) ++ [digitChar (n % 10)] := by
  rw [digits, if_neg (by omega)]

/-- What holds of one digit, and of a number if it holds of the number without its last digit, holds
of every number. -/
theorem digitInduct {P : Nat → Prop} (lt : ∀ n < 10, P n) (ge : ∀ n, 10 ≤ n → P (n / 10) → P n)
    (n : Nat) : P n := by
  induction n using Nat.strongRecOn with
  | ind n ih =>
    by_cases h : n < 10
    · exact lt n h
    · exact ge n (by omega) (ih (n / 10) (by omega))

theorem isDigit_of_mem_digits {n : Nat} {c : Char} (h : c ∈ digits n) : isDigit c = true := by
  induction n using digitInduct with
  | lt n hn =>
    rw [digits_lt hn, List.mem_singleton] at h
    exact h ▸ isDigit_digitChar hn
  | ge n hn ih =>
    rw [digits_ge hn, List.mem_append, List.mem_singleton] at h
    rcases h with h | h
    · exact ih h
    · exact h ▸ isDigit_digitChar (Nat.mod_lt _ (by omega))

theorem readDigits_append (n : Nat) (cs ds : List Char) :
    readDigits n (cs ++ ds) = readDigits (readDigits n cs) ds := List.foldl_append

theorem readDigits_digits (n : Nat) : readDigits 0 (digits n) = n := by
  induction n using digitInduct with
  | lt n hn => simp [digits_lt hn, readDigits, digitValue?_digitChar n hn]
  | ge n hn ih =>
    have hlast : digitValue? (digitChar (n % 10)) = some (n % 10) :=
      digitValue?_digitChar _ (Nat.mod_lt _ (by omega))
    rw [digits_ge hn, readDigits_append, ih, readDigits, List.foldl_cons, hlast]
    exact Nat.div_add_mod' n 10

theorem digits_ne_nil (n : Nat) : digits n ≠ [] := by
  by_cases h : n < 10
  · simp [digits_lt h]
  · simp [digits_ge (Nat.le_of_not_lt h)]

end Crosswalk.Decimal
