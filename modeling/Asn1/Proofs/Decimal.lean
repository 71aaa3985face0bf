import Mathlib.Data.List.Basic
import Mathlib.Algebra.Ring.Nat
import Asn1.Decimal

/-!
# Decimal texts and their numbers

A text is read as a number of 64 bits exactly when it denotes that number (`read_eq_ok_iff`). The
digits that a number is written with denote it (`denotes_toDigits`), and they are its only plain text
(`eq_toDigits_iff`).
-/

namespace Asn1.Decimal

variable {text digits : List Char} {n : UInt64} {value : Nat}

/-! ## Digits -/

theorem toNat_of_isDigit {digit : Char} (h : digit.isDigit) :
    48 ≤ digit.toNat ∧ digit.toNat ≤ 57 :=
  Char.isDigit_iff_toNat.mp h

/-- A digit is written as itself. -/
theorem toDigits_digit {digit : Char} (h : digit.isDigit) :
    Nat.toDigits 10 (digit.toNat - 48) = [digit] := by
  have hrange := toNat_of_isDigit h
  have hdigit : Nat.digitChar (digit.toNat - 48) = digit := by
    apply Char.toNat_inj.mp
    rw [Nat.toNat_digitChar_of_lt_ten (by omega)]
    omega
  rw [Nat.toDigits_of_lt_base (by omega), hdigit]

/-- Digits never make the number smaller that stands in front of them. -/
theorem le_ofDigitChars (digits : List Char) (value : Nat) :
    value ≤ Nat.ofDigitChars 10 digits value := by
  induction digits generalizing value with
  | nil => simp
  | cons digit digits ih =>
    have hle := ih (10 * value + (digit.toNat - '0'.toNat))
    rw [Nat.ofDigitChars_cons]
    omega

/-! ## Reading -/

theorem readDigits_eq_ok_iff (h : value < UInt64.size) :
    readDigits value digits = .ok n ↔
      (∀ digit ∈ digits, digit.isDigit) ∧ Nat.ofDigitChars 10 digits value = n.toNat := by
  induction digits generalizing value with
  | nil =>
    rw [readDigits, Except.ok.injEq, ← UInt64.toNat_inj, UInt64.toNat_ofNat_of_lt' h]
    simp
  | cons digit digits ih =>
    have hstep : 10 * value + (digit.toNat - '0'.toNat) = value * 10 + (digit.toNat - 48) := by
      rw [Nat.mul_comm]
      rfl
    rw [readDigits, Nat.ofDigitChars_cons, hstep, List.forall_mem_cons]
    by_cases hdigit : digit.isDigit
    · rw [if_pos hdigit]
      by_cases hfits : value * 10 + (digit.toNat - 48) < UInt64.size
      · simp only [if_pos hfits, ih hfits, hdigit, true_and]
      · -- A number that is too large stays so, whatever digits follow.
        have hle := le_ofDigitChars digits (value * 10 + (digit.toNat - 48))
        have hn := n.toNat_lt
        simp only [if_neg hfits, UInt64.size] at hfits ⊢
        constructor
        · intro hread
          nomatch hread
        · intro hread
          omega
    · simp [hdigit]

theorem read_of_areDigits (h : AreDigits text) : read text = readDigits 0 text := by
  unfold read
  split
  · exact absurd rfl h.1
  · exact absurd (h.2 '+' List.mem_cons_self) (by decide)
  · rfl

theorem read_signed (h : AreDigits text) : read ('+' :: text) = readDigits 0 text := by
  cases text with
  | nil => exact absurd rfl h.1
  | cons first rest => rfl

theorem readDigits_eq_ok_iff_areDigits (hne : text ≠ []) :
    readDigits 0 text = .ok n ↔ AreDigits text ∧ Nat.ofDigitChars 10 text 0 = n.toNat := by
  rw [readDigits_eq_ok_iff (by decide), AreDigits, and_iff_right hne]

theorem read_eq_ok_iff : read text = .ok n ↔ Denotes text n.toNat := by
  constructor
  · intro h
    unfold read at h
    split at h
    · nomatch h
    · obtain ⟨hdigits, hvalue⟩ := (readDigits_eq_ok_iff_areDigits (by simp)).mp h
      rw [← hvalue]
      exact .signed hdigits
    · rename_i hne _
      obtain ⟨hdigits, hvalue⟩ := (readDigits_eq_ok_iff_areDigits hne).mp h
      rw [← hvalue]
      exact .digits hdigits
  · intro h
    generalize hvalue : n.toNat = value at h
    cases h with
    | digits hdigits =>
      rw [read_of_areDigits hdigits, readDigits_eq_ok_iff_areDigits hdigits.1]
      exact ⟨hdigits, hvalue.symm⟩
    | signed hdigits =>
      rw [read_signed hdigits, readDigits_eq_ok_iff_areDigits hdigits.1]
      exact ⟨hdigits, hvalue.symm⟩

theorem exists_read_iff : (∃ n, read text = .ok n) ↔ ∃ value < 2 ^ 64, Denotes text value := by
  constructor
  · rintro ⟨n, h⟩
    exact ⟨n.toNat, n.toNat_lt, read_eq_ok_iff.mp h⟩
  · rintro ⟨value, hvalue, h⟩
    refine ⟨UInt64.ofNat value, read_eq_ok_iff.mpr ?_⟩
    rwa [UInt64.toNat_ofNat_of_lt' hvalue]

/-! ## Writing -/

theorem areDigits_toDigits (value : Nat) : AreDigits (Nat.toDigits 10 value) :=
  ⟨Nat.toDigits_ne_nil, fun _ h => Nat.isDigit_of_mem_toDigits (by decide) (by decide) h⟩

theorem denotes_toDigits (value : Nat) : Denotes (Nat.toDigits 10 value) value := by
  have h := Denotes.digits (areDigits_toDigits value)
  rwa [Nat.ofDigitChars_ten_toDigits] at h

/-- Digits behind those of a number are the digits of the longer number. -/
theorem toDigits_append (hvalue : 0 < value) (h : ∀ digit ∈ digits, digit.isDigit) :
    Nat.toDigits 10 value ++ digits = Nat.toDigits 10 (Nat.ofDigitChars 10 digits value) := by
  induction digits generalizing value with
  | nil => simp
  | cons digit digits ih =>
    obtain ⟨hdigit, hdigits⟩ := List.forall_mem_cons.mp h
    have hrange := toNat_of_isDigit hdigit
    have hnext : Nat.toDigits 10 value ++ [digit] =
        Nat.toDigits 10 (10 * value + (digit.toNat - 48)) := by
      rw [← toDigits_digit hdigit]
      exact Nat.toDigits_append_toDigits (by decide) hvalue (by omega)
    rw [List.append_cons, hnext, ih (by omega) hdigits, Nat.ofDigitChars_cons]
    rfl

theorem toDigits_ofDigitChars (h : AreDigits text) (hplain : IsPlain text) :
    Nat.toDigits 10 (Nat.ofDigitChars 10 text 0) = text := by
  cases text with
  | nil => exact absurd rfl h.1
  | cons first rest =>
    obtain ⟨hfirst, hrest⟩ := List.forall_mem_cons.mp h.2
    have hrange := toNat_of_isDigit hfirst
    by_cases hzero : first = '0'
    · rw [hplain.2 (by rw [hzero]; rfl)]
      rfl
    · have hpos : 0 < first.toNat - 48 := by
        have hne : first.toNat ≠ 48 := fun heq => hzero (Char.toNat_inj.mp heq)
        omega
      have happend := toDigits_append hpos hrest
      rw [toDigits_digit hfirst, List.singleton_append] at happend
      rw [Nat.ofDigitChars_cons, Nat.mul_zero, Nat.zero_add]
      exact happend.symm

/-- Only zero is written with a zero in front. -/
theorem eq_zero_of_head?_toDigits (h : (Nat.toDigits 10 value).head? = some '0') : value = 0 := by
  induction value using Nat.strongRecOn with
  | ind value ih =>
    rcases Nat.lt_or_ge value 10 with hlast | hmore
    · rw [Nat.toDigits_of_lt_base hlast, List.head?_cons, Option.some.injEq] at h
      exact Nat.digitChar_eq_zero.mp h
    · rw [Nat.toDigits_of_base_le (by decide) hmore,
        List.head?_append_of_ne_nil _ Nat.toDigits_ne_nil] at h
      have hquot := ih (value / 10) (by omega) h
      omega

theorem isPlain_toDigits (value : Nat) : IsPlain (Nat.toDigits 10 value) := by
  constructor
  · intro hsign
    exact absurd ((areDigits_toDigits value).2 '+' hsign) (by decide)
  · intro hzero
    rw [eq_zero_of_head?_toDigits hzero]
    rfl

/-- The digits of a number are its only plain text. -/
theorem eq_toDigits_iff (h : Denotes text value) :
    text = Nat.toDigits 10 value ↔ IsPlain text := by
  constructor
  · intro heq
    rw [heq]
    exact isPlain_toDigits value
  · intro hplain
    cases h with
    | digits hdigits => exact (toDigits_ofDigitChars hdigits hplain).symm
    | signed hdigits => exact absurd List.mem_cons_self hplain.1

end Asn1.Decimal
