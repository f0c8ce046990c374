/-
Integers as they are written and read. What is written of an integer is a
minus sign, where it is negative, and the decimal digits of its magnitude
(`Text.ofInt_eq`). Read again it has the same value (`value_ofInt`), and as
many digits as its magnitude needs and no more (`digitCount_ofInt_le_iff`):
an integer that was read from a text takes at most as many digits when it is
written again, because leading zeros are not (`natAbs_value_lt`).
-/
import Mathlib.Algebra.Group.Nat.Defs
import VarSection.Proofs.Scanner.Lexemes

namespace VarSection

-- ========================================================= natural numbers

/-- The decimal digits of a natural number. -/
def Text.digitsOf (n : Nat) : Text := (Nat.toDigits 10 n).map CodePoint.char

theorem Text.digitsOf_ne_nil (n : Nat) : Text.digitsOf n ≠ [] := by
  simp [Text.digitsOf]

theorem isDigit_char {c : Char} (h : c.isDigit = true) :
    isDigit (CodePoint.char c) = true := by
  simp only [Char.isDigit, Bool.and_eq_true, decide_eq_true_eq] at h
  simp only [isDigit, CodePoint.within, CodePoint.code, Bool.and_eq_true]
  exact ⟨decide_eq_true h.1, decide_eq_true h.2⟩

theorem isDigit_of_mem_digitsOf {n : Nat} {c : CodePoint}
    (h : c ∈ Text.digitsOf n) : isDigit c = true := by
  obtain ⟨d, hd, rfl⟩ := List.mem_map.1 h
  apply isDigit_char
  exact Nat.isDigit_of_mem_toDigits (by decide) (by decide) hd

namespace Numeral

/-- The value of a digit of a source text. -/
theorem digitValue?_char {c : Char} (h : c.isDigit = true) :
    Text.digitValue? (.char c) = some (c.toNat - '0'.toNat) := by
  have hzero : Text.digitZeros = '0'.toNat :: Text.digitZeros.tail := rfl
  have hdigit := isDigit_char h
  simp only [isDigit, CodePoint.within] at hdigit
  unfold Text.digitValue?
  rw [hzero, List.find?_cons_of_pos]
  · rfl
  · exact hdigit

/-- Digits of a source text are read digit by digit, behind what was read
before. -/
theorem foldl_digitValue?_char (cs : List Char) (m : Nat)
    (h : ∀ c ∈ cs, c.isDigit = true) :
    (cs.map CodePoint.char).foldl
        (fun m c => 10 * m + (Text.digitValue? c).getD 0) m
      = Nat.ofDigitChars 10 cs m := by
  induction cs generalizing m with
  | nil => simp
  | cons c cs ih =>
    rw [List.map_cons, List.foldl_cons,
      digitValue?_char (h c List.mem_cons_self), Nat.ofDigitChars_cons]
    apply ih
    intro d hd
    exact h d (List.mem_cons_of_mem c hd)

theorem natValue_digitsOf (n : Nat) : natValue (Text.digitsOf n) = n := by
  unfold natValue Text.digitsOf
  rw [foldl_digitValue?_char]
  · exact Nat.ofDigitChars_ten_toDigits
  · intro c hc
    exact Nat.isDigit_of_mem_toDigits (by decide) (by decide) hc

/-- A digit counts less than ten. -/
theorem digitValue?_getD_lt (c : CodePoint) :
    (Text.digitValue? c).getD 0 < 10 := by
  unfold Text.digitValue?
  cases hfirst : Text.digitZeros.find? fun first =>
      first ≤ c.code && c.code ≤ first + 9 with
  | none => simp
  | some first =>
    have hvalue := List.find?_some hfirst
    simp only [Bool.and_eq_true, decide_eq_true_eq] at hvalue
    simp only [Option.map_some, Option.getD_some]
    omega

/-- Each digit behind a number takes it to the next power of ten at most. -/
theorem foldl_digitValue?_lt (ds : Text) {m k : Nat} (hm : m < 10 ^ k) :
    ds.foldl (fun m c => 10 * m + (Text.digitValue? c).getD 0) m
      < 10 ^ (k + ds.length) := by
  induction ds generalizing m k with
  | nil => exact hm
  | cons c ds ih =>
    have hc := digitValue?_getD_lt c
    have hstep : 10 * m + (Text.digitValue? c).getD 0 < 10 ^ (k + 1) := by
      rw [Nat.pow_succ]
      omega
    rw [List.foldl_cons, List.length_cons, Nat.add_comm ds.length,
      ← Nat.add_assoc]
    exact ih hstep

/-- The value of digits is bounded by their number. -/
theorem natValue_lt (ds : Text) : natValue ds < 10 ^ ds.length := by
  have hzero : 0 < 10 ^ 0 := by decide
  have h := foldl_digitValue?_lt ds hzero
  rwa [Nat.zero_add] at h

end Numeral

-- ================================================================ integers

/-- What is written of an integer. -/
theorem Text.ofInt_eq (n : Int) :
    Text.ofInt n
      = if n < 0 then CodePoint.char '-' :: Text.digitsOf n.natAbs
        else Text.digitsOf n.natAbs := by
  cases n with
  | ofNat m =>
    rw [if_neg (by simp)]
    show List.map _ (toString (Int.ofNat m)).toList = _
    rw [show toString (Int.ofNat m) = m.repr from rfl, Nat.toList_repr]
    rfl
  | negSucc m =>
    rw [if_pos (Int.negSucc_lt_zero m)]
    show List.map _ (toString (Int.negSucc m)).toList = _
    rw [show toString (Int.negSucc m) = "-" ++ (m + 1).repr from rfl,
      String.toList_append, Nat.toList_repr]
    rfl

theorem Text.ofInt_ne_nil (n : Int) : Text.ofInt n ≠ [] := by
  rw [Text.ofInt_eq]
  split
  · exact List.cons_ne_nil _ _
  · exact Text.digitsOf_ne_nil _

theorem Text.eq_minus_or_isDigit_of_mem_ofInt {n : Int} {c : CodePoint}
    (h : c ∈ Text.ofInt n) : c = .char '-' ∨ isDigit c = true := by
  rw [Text.ofInt_eq] at h
  split at h
  · rcases List.mem_cons.1 h with h | h
    · exact .inl h
    · exact .inr (isDigit_of_mem_digitsOf h)
  · exact .inr (isDigit_of_mem_digitsOf h)

namespace Numeral

theorem oneLine_ofInt (n : Int) :
    ∀ c ∈ Text.ofInt n, isLineBreak c = false := by
  intro c hc
  rcases Text.eq_minus_or_isDigit_of_mem_ofInt hc with rfl | hdigit
  · decide
  · exact isLineBreak_eq_false_of_isDigit hdigit

/-- The digits of a written integer are those of its magnitude. -/
theorem digits_ofInt (n : Int) :
    digits (Text.ofInt n) = Text.digitsOf n.natAbs := by
  unfold digits
  rw [dropFinalBreak_eq_self (oneLine_ofInt n), Text.ofInt_eq]
  by_cases hn : n < 0
  · rw [if_pos hn]
    rfl
  · rw [if_neg hn]
    cases hdigits : Text.digitsOf n.natAbs with
    | nil => exact absurd hdigits (Text.digitsOf_ne_nil _)
    | cons c more =>
      apply unsigned_of_isDigit
      apply isDigit_of_mem_digitsOf (n := n.natAbs)
      rw [hdigits]
      exact List.mem_cons_self

/-- A written integer has the value that was written. -/
theorem value_ofInt (n : Int) : value (Text.ofInt n) = n := by
  unfold value
  rw [digits_ofInt, natValue_digitsOf, Text.ofInt_eq]
  by_cases hn : n < 0
  · rw [if_pos hn, if_pos List.head?_cons]
    omega
  · rw [if_neg hn, if_neg]
    · omega
    · intro hhead
      have hminus : CodePoint.char '-' ∈ Text.digitsOf n.natAbs :=
        List.mem_of_mem_head? hhead
      exact absurd (isDigit_of_mem_digitsOf hminus) (by decide)

/-- A written integer has as many digits as its magnitude needs. -/
theorem digitCount_ofInt_le_iff (n : Int) {k : Nat} (hk : 0 < k) :
    digitCount (Text.ofInt n) ≤ k ↔ n.natAbs < 10 ^ k := by
  unfold digitCount
  rw [digits_ofInt, Text.digitsOf, List.length_map]
  exact Nat.length_toDigits_le_iff (by decide) hk

/-- The magnitude of an integer is bounded by the number of its digits. -/
theorem natAbs_value_lt (text : Text) :
    (value text).natAbs < 10 ^ digitCount text := by
  have hdigits := natValue_lt (digits text)
  unfold value digitCount
  split
  · rwa [Int.natAbs_neg, Int.natAbs_natCast]
  · rwa [Int.natAbs_natCast]

end Numeral

end VarSection
