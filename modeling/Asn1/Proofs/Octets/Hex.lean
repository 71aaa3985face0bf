import Asn1.Octets.Hex

/-!
# Octets and their hexadecimal digits

Two digits determine an octet, so an unbroken run of digits determines the octet string
(`text_inj`). All that is written of octets consists of digits and of the separators.
-/

namespace Asn1.Hex

/-- The characters that octets are written with. -/
def digitChars : List Char := "0123456789abcdef".toList

theorem digit_mem_digitChars {n : Nat} (h : n < 16) : digit n ∈ digitChars := by
  have hall : ∀ n : Fin 16, digit n ∈ digitChars := by decide
  exact hall ⟨n, h⟩

/-- The number of a digit. -/
def digitValue (c : Char) : Nat :=
  if c.isDigit then c.toNat - 48 else c.toNat - 87

theorem digitValue_digit {n : Nat} (h : n < 16) : digitValue (digit n) = n := by
  have hall : ∀ n : Fin 16, digitValue (digit n) = n := by decide
  exact hall ⟨n, h⟩

theorem digit_inj {m n : Nat} (hm : m < 16) (hn : n < 16) (h : digit m = digit n) : m = n := by
  rw [← digitValue_digit hm, h, digitValue_digit hn]

theorem mem_digitChars_of_mem_digits {octet : UInt8} {c : Char} (h : c ∈ digits octet) :
    c ∈ digitChars := by
  have hlt := octet.toNat_lt
  simp only [digits, List.mem_cons, List.not_mem_nil, or_false] at h
  rcases h with rfl | rfl
  · exact digit_mem_digitChars (by omega)
  · exact digit_mem_digitChars (by omega)

theorem digits_inj {octet other : UInt8} (h : digits octet = digits other) : octet = other := by
  have hlt := octet.toNat_lt
  have hlt' := other.toNat_lt
  simp only [digits, List.cons.injEq, and_true] at h
  have hhigh := digit_inj (by omega) (by omega) h.1
  have hlow := digit_inj (by omega) (by omega) h.2
  exact UInt8.toNat_inj.mp (by omega)

theorem flatMap_digits_inj {octets others : Octets}
    (h : octets.flatMap digits = others.flatMap digits) : octets = others := by
  induction octets generalizing others with
  | nil =>
    cases others with
    | nil => rfl
    | cons other others => simp [digits] at h
  | cons octet octets ih =>
    cases others with
    | nil => simp [digits] at h
    | cons other others =>
      rw [List.flatMap_cons, List.flatMap_cons] at h
      obtain ⟨hfirst, hrest⟩ := List.append_inj h rfl
      rw [digits_inj hfirst, ih hrest]

theorem text_inj {octets others : Octets} (h : text octets = text others) : octets = others :=
  flatMap_digits_inj (String.ofList_injective h)

theorem mem_digitChars_of_mem_text {octets : Octets} {c : Char} (h : c ∈ (text octets).toList) :
    c ∈ digitChars := by
  rw [text, String.toList_ofList] at h
  obtain ⟨octet, -, hc⟩ := List.mem_flatMap.mp h
  exact mem_digitChars_of_mem_digits hc

theorem mem_of_mem_intercalate {separator : List Char} {parts : List (List Char)} {c : Char}
    (h : c ∈ separator.intercalate parts) : c ∈ separator ∨ ∃ part ∈ parts, c ∈ part := by
  induction parts with
  | nil => simp at h
  | cons part parts ih =>
    by_cases hlast : parts = []
    · rw [hlast, List.intercalate_singleton] at h
      exact .inr ⟨part, List.mem_cons_self, h⟩
    · rw [List.intercalate_cons_of_ne_nil hlast, List.mem_append, List.mem_append] at h
      rcases h with (h | h) | h
      · exact .inr ⟨part, List.mem_cons_self, h⟩
      · exact .inl h
      · rcases ih h with h | ⟨other, hother, h⟩
        · exact .inl h
        · exact .inr ⟨other, List.mem_cons_of_mem _ hother, h⟩

theorem preview_eq (octets : Octets) (limit : Nat) :
    preview octets limit =
      String.intercalate " " ((octets.take limit).map octet) ++
        if limit < octets.length then " ..." else "" := by
  rw [preview]
  split
  · rfl
  · rw [String.append_empty]

/-- A preview holds digits, blanks and dots. -/
theorem mem_of_mem_preview {octets : Octets} {limit : Nat} {c : Char}
    (h : c ∈ (preview octets limit).toList) : c ∈ digitChars ∨ c = ' ' ∨ c = '.' := by
  rw [preview_eq, String.toList_append, List.mem_append] at h
  rcases h with h | h
  · rw [String.toList_intercalate, List.map_map] at h
    rcases mem_of_mem_intercalate h with h | ⟨part, hpart, h⟩
    · exact .inr (.inl (by simpa using h))
    · obtain ⟨octet, -, rfl⟩ := List.mem_map.mp hpart
      simp only [Function.comp_apply, Hex.octet, String.toList_ofList] at h
      exact .inl (mem_digitChars_of_mem_digits h)
  · split at h
    · exact .inr (by simpa using h)
    · simp at h

end Asn1.Hex
