import Asn1.Json
import Asn1.Proofs.Octets.Hex
import Mathlib.Tactic.SplitIfs

/-!
# Reading JSON documents back

The text of a document tells where it ends, whatever follows, so two documents that are written
alike up to some point are the same (`render_inj`), and so are two with the same text
(`pretty_inj`). Characters of a string are read back one by one (`unescape_escape`), the digits of
a number end where no digit follows (`StopsNumber`), and the first character tells the kind of a
document (`lead_eq`).
-/

namespace Asn1.Json

variable {front back : List Char}

/-! ## Strings -/

/-- Reads one character of a string as it is written, and returns what follows it. -/
def unescape : List Char → Option (Char × List Char)
  | [] => none
  | '\\' :: 'u' :: _ :: _ :: high :: low :: tail =>
    some (Char.ofNat (16 * Hex.digitValue high + Hex.digitValue low), tail)
  | '\\' :: 'b' :: tail => some ('\x08', tail)
  | '\\' :: 't' :: tail => some ('\t', tail)
  | '\\' :: 'n' :: tail => some ('\n', tail)
  | '\\' :: 'f' :: tail => some ('\x0c', tail)
  | '\\' :: 'r' :: tail => some ('\r', tail)
  | '\\' :: c :: tail => some (c, tail)
  | c :: tail => some (c, tail)

theorem unescape_of_ne {c : Char} (h : c ≠ '\\') (tail : List Char) :
    unescape (c :: tail) = some (c, tail) := by
  simp [unescape, h]

/-- A control character is read back from the digits of its number. -/
theorem unescape_control {c : Char} (h : c.toNat < 0x20) (tail : List Char) :
    unescape (['\\', 'u', '0', '0', Hex.digit (c.toNat / 16), Hex.digit (c.toNat % 16)] ++ tail) =
      some (c, tail) := by
  have hvalue : 16 * (c.toNat / 16) + c.toNat % 16 = c.toNat := Nat.div_add_mod _ _
  simp only [List.cons_append, List.nil_append, unescape,
    Hex.digitValue_digit (show c.toNat / 16 < 16 by omega),
    Hex.digitValue_digit (show c.toNat % 16 < 16 by omega), hvalue, Char.ofNat_toNat]

/-- A character is written behind a backslash from which it is read back, or it is no quote and no
backslash and stands for itself. -/
theorem escape_cases (c : Char) :
    (∃ written, escape c = '\\' :: written ∧
        ∀ tail, unescape ('\\' :: written ++ tail) = some (c, tail)) ∨
      escape c = [c] ∧ c ≠ '"' ∧ c ≠ '\\' := by
  rw [escape]
  split_ifs with hquote hbackslash hbackspace htab hnewline hformFeed hreturn hcontrol
  · exact .inl ⟨_, rfl, fun _ => by rw [hquote]; rfl⟩
  · exact .inl ⟨_, rfl, fun _ => by rw [hbackslash]; rfl⟩
  · exact .inl ⟨_, rfl, fun _ => by rw [hbackspace]; rfl⟩
  · exact .inl ⟨_, rfl, fun _ => by rw [htab]; rfl⟩
  · exact .inl ⟨_, rfl, fun _ => by rw [hnewline]; rfl⟩
  · exact .inl ⟨_, rfl, fun _ => by rw [hformFeed]; rfl⟩
  · exact .inl ⟨_, rfl, fun _ => by rw [hreturn]; rfl⟩
  · exact .inl ⟨_, rfl, unescape_control hcontrol⟩
  · exact .inr ⟨rfl, hquote, hbackslash⟩

theorem unescape_escape (c : Char) (tail : List Char) :
    unescape (escape c ++ tail) = some (c, tail) := by
  rcases escape_cases c with ⟨written, hescape, hread⟩ | ⟨hescape, -, hbackslash⟩
  · rw [hescape, hread]
  · rw [hescape]
    exact unescape_of_ne hbackslash tail

/-- A quote inside of a string is never taken for the one at its end. -/
theorem escape_append_ne (c : Char) (tail : List Char) : escape c ++ tail ≠ '"' :: back := by
  intro h
  rcases escape_cases c with ⟨written, hescape, -⟩ | ⟨hescape, hquote, -⟩
  · rw [hescape] at h
    exact absurd (List.head_eq_of_cons_eq h) (by decide)
  · rw [hescape] at h
    exact hquote (List.head_eq_of_cons_eq h)

theorem flatMap_escape_inj {s t : List Char}
    (h : s.flatMap escape ++ '"' :: front = t.flatMap escape ++ '"' :: back) :
    s = t ∧ front = back := by
  induction s generalizing t with
  | nil =>
    cases t with
    | nil => exact ⟨rfl, List.tail_eq_of_cons_eq h⟩
    | cons d t =>
      rw [List.flatMap_cons, List.append_assoc] at h
      exact absurd h.symm (escape_append_ne d _)
  | cons c s ih =>
    rw [List.flatMap_cons, List.append_assoc] at h
    cases t with
    | nil => exact absurd h (escape_append_ne c _)
    | cons d t =>
      have hread := congrArg unescape h
      rw [List.flatMap_cons, List.append_assoc, unescape_escape, unescape_escape] at hread
      obtain ⟨rfl, hrest⟩ := Prod.ext_iff.mp (Option.some.inj hread)
      obtain ⟨rfl, hback⟩ := ih hrest
      exact ⟨rfl, hback⟩

theorem renderString_inj {s t : String} (h : renderString s front = renderString t back) :
    s = t ∧ front = back := by
  obtain ⟨hchars, hback⟩ := flatMap_escape_inj (List.tail_eq_of_cons_eq h)
  exact ⟨String.toList_inj.mp hchars, hback⟩

/-! ## Numbers -/

/-- No digit follows, so a number that ends here is at its end. -/
def StopsNumber (tail : List Char) : Prop :=
  ∀ c ∈ tail.head?, c.isDigit = false

theorem stopsNumber_nil : StopsNumber [] := by
  simp [StopsNumber]

theorem stopsNumber_cons {c : Char} (h : c.isDigit = false) (tail : List Char) :
    StopsNumber (c :: tail) := by
  simp [StopsNumber, h]

theorem stopsNumber_append {front : List Char} (h : front.head?.map Char.isDigit = some false)
    (tail : List Char) : StopsNumber (front ++ tail) := by
  cases front with
  | nil => simp at h
  | cons c front => exact stopsNumber_cons (by simpa using h) _

theorem takeWhile_isDigit_append {digits tail : List Char} (hdigits : ∀ c ∈ digits, c.isDigit)
    (htail : StopsNumber tail) :
    (digits ++ tail).takeWhile Char.isDigit = digits := by
  rw [List.takeWhile_append_of_pos hdigits]
  cases tail with
  | nil => simp
  | cons c tail => simp [htail c rfl]

theorem toDigits_append_inj {m n : Nat} (hfront : StopsNumber front) (hback : StopsNumber back)
    (h : Nat.toDigits 10 m ++ front = Nat.toDigits 10 n ++ back) : m = n ∧ front = back := by
  have hdigits (n : Nat) : ∀ c ∈ Nat.toDigits 10 n, c.isDigit :=
    fun _ hc => Nat.isDigit_of_mem_toDigits (by decide) (by decide) hc
  have heq := congrArg (List.takeWhile Char.isDigit) h
  rw [takeWhile_isDigit_append (hdigits m) hfront,
    takeWhile_isDigit_append (hdigits n) hback] at heq
  constructor
  · rw [← Nat.ofDigitChars_ten_toDigits (n := m), heq, Nat.ofDigitChars_ten_toDigits]
  · rw [heq] at h
    exact List.append_cancel_left h

/-! ## Documents -/

theorem renderBreak_inj {level : Nat} (h : renderBreak level front = renderBreak level back) :
    front = back :=
  List.append_cancel_left (List.tail_eq_of_cons_eq h)

theorem stopsNumber_renderElements (level : Nat) (elements : List Json) (tail : List Char) :
    StopsNumber (renderElements level elements tail) := by
  cases elements with
  | nil => exact stopsNumber_cons (by decide) _
  | cons element elements => exact stopsNumber_cons (by decide) _

theorem stopsNumber_renderFields (level : Nat) (fields : List (String × Json)) (tail : List Char) :
    StopsNumber (renderFields level fields tail) := by
  cases fields with
  | nil => exact stopsNumber_cons (by decide) _
  | cons field fields => exact stopsNumber_cons (by decide) _

/-- The character that stands for the kind of a document. -/
def lead : Json → Char
  | .null => 'n'
  | .bool _ => 't'
  | .number _ => '0'
  | .string _ => '"'
  | .array _ => '['
  | .object _ => '{'

/-- The kind of the documents whose text starts with a character. -/
def leadOf (c : Char) : Char :=
  if c.isDigit then '0' else if c = 'f' then 't' else c

theorem head?_render (level : Nat) (json : Json) (tail : List Char) :
    (render level json tail).head?.map leadOf = some json.lead := by
  cases json with
  | null => rfl
  | bool value => cases value <;> rfl
  | number value =>
    obtain ⟨c, digits, hdigits⟩ :=
      List.exists_cons_of_ne_nil (Nat.toDigits_ne_nil (n := value) (b := 10))
    have hdigit : c.isDigit := Nat.isDigit_of_mem_toDigits (n := value) (by decide) (by decide)
      (hdigits ▸ List.mem_cons_self)
    change (Nat.toDigits 10 value ++ tail).head?.map leadOf = some '0'
    rw [hdigits, List.cons_append, List.head?_cons, Option.map_some, leadOf, if_pos hdigit]
  | string value => rfl
  | array elements => cases elements <;> rfl
  | object fields => cases fields <;> rfl

/-- The first character of the text tells the kind of the document. -/
theorem lead_eq {level : Nat} {json other : Json}
    (h : render level json front = render level other back) : json.lead = other.lead := by
  apply Option.some.inj
  rw [← head?_render level json front, h, head?_render]

/-- Empty or not, arrays with the same text have elements that read alike. -/
theorem renderElements_eq_of_render_array {level : Nat} {elements others : List Json}
    (h : render level (.array elements) front = render level (.array others) back) :
    renderElements level elements front = renderElements level others back := by
  cases elements with
  | nil =>
    cases others with
    | nil => rw [List.tail_eq_of_cons_eq (List.tail_eq_of_cons_eq h)]
    | cons => exact absurd (List.head_eq_of_cons_eq (List.tail_eq_of_cons_eq h)) (by decide)
  | cons element elements =>
    cases others with
    | nil => exact absurd (List.head_eq_of_cons_eq (List.tail_eq_of_cons_eq h)) (by decide)
    | cons other others => exact congrArg (',' :: ·) (List.tail_eq_of_cons_eq h)

/-- Empty or not, objects with the same text have fields that read alike. -/
theorem renderFields_eq_of_render_object {level : Nat} {fields others : List (String × Json)}
    (h : render level (.object fields) front = render level (.object others) back) :
    renderFields level fields front = renderFields level others back := by
  cases fields with
  | nil =>
    cases others with
    | nil => rw [List.tail_eq_of_cons_eq (List.tail_eq_of_cons_eq h)]
    | cons => exact absurd (List.head_eq_of_cons_eq (List.tail_eq_of_cons_eq h)) (by decide)
  | cons field fields =>
    cases others with
    | nil => exact absurd (List.head_eq_of_cons_eq (List.tail_eq_of_cons_eq h)) (by decide)
    | cons other others => exact congrArg (',' :: ·) (List.tail_eq_of_cons_eq h)

mutual

/-- Whatever follows two documents, as long as it is no digit: if they read alike, the documents are
the same, and so is what follows. -/
theorem render_inj (level : Nat) (json other : Json) {front back : List Char}
    (hfront : StopsNumber front) (hback : StopsNumber back)
    (h : render level json front = render level other back) : json = other ∧ front = back := by
  -- Documents of different kinds start differently; only the six pairs of one kind remain.
  have hlead := lead_eq h
  cases json with
  | null =>
    cases other with
    | null => exact ⟨rfl, List.append_cancel_left h⟩
    | _ => simp [lead] at hlead
  | bool value =>
    cases other with
    | bool value' =>
      cases value <;> cases value'
      case false.false | true.true => exact ⟨rfl, List.append_cancel_left h⟩
      all_goals exact absurd (List.head_eq_of_cons_eq h) (by decide)
    | _ => simp [lead] at hlead
  | number value =>
    cases other with
    | number value' =>
      obtain ⟨rfl, hrest⟩ := toDigits_append_inj hfront hback h
      exact ⟨rfl, hrest⟩
    | _ => simp [lead] at hlead
  | string value =>
    cases other with
    | string value' =>
      obtain ⟨rfl, hrest⟩ := renderString_inj h
      exact ⟨rfl, hrest⟩
    | _ => simp [lead] at hlead
  | array elements =>
    cases other with
    | array others =>
      obtain ⟨rfl, hrest⟩ := renderElements_inj level elements others
        (renderElements_eq_of_render_array h)
      exact ⟨rfl, hrest⟩
    | _ => simp [lead] at hlead
  | object fields =>
    cases other with
    | object others =>
      obtain ⟨rfl, hrest⟩ := renderFields_inj level fields others
        (renderFields_eq_of_render_object h)
      exact ⟨rfl, hrest⟩
    | _ => simp [lead] at hlead

theorem renderElements_inj (level : Nat) (elements others : List Json) {front back : List Char}
    (h : renderElements level elements front = renderElements level others back) :
    elements = others ∧ front = back := by
  cases elements with
  | nil =>
    cases others with
    | nil => exact ⟨rfl, List.tail_eq_of_cons_eq (renderBreak_inj h)⟩
    | cons => exact absurd (List.head_eq_of_cons_eq h) (by decide)
  | cons element elements =>
    cases others with
    | nil => exact absurd (List.head_eq_of_cons_eq h) (by decide)
    | cons other others =>
      obtain ⟨rfl, hrest⟩ := render_inj (level + 1) element other
        (stopsNumber_renderElements level elements front)
        (stopsNumber_renderElements level others back)
        (renderBreak_inj (List.tail_eq_of_cons_eq h))
      obtain ⟨rfl, hend⟩ := renderElements_inj level elements others hrest
      exact ⟨rfl, hend⟩

theorem renderFields_inj (level : Nat) (fields others : List (String × Json))
    {front back : List Char}
    (h : renderFields level fields front = renderFields level others back) :
    fields = others ∧ front = back := by
  cases fields with
  | nil =>
    cases others with
    | nil => exact ⟨rfl, List.tail_eq_of_cons_eq (renderBreak_inj h)⟩
    | cons => exact absurd (List.head_eq_of_cons_eq h) (by decide)
  | cons field fields =>
    cases others with
    | nil => exact absurd (List.head_eq_of_cons_eq h) (by decide)
    | cons other others =>
      obtain ⟨name, value⟩ := field
      obtain ⟨name', value'⟩ := other
      obtain ⟨rfl, hvalue⟩ := renderString_inj (renderBreak_inj (List.tail_eq_of_cons_eq h))
      obtain ⟨rfl, hrest⟩ := render_inj (level + 1) value value'
        (stopsNumber_renderFields level fields front)
        (stopsNumber_renderFields level others back)
        (List.tail_eq_of_cons_eq (List.tail_eq_of_cons_eq hvalue))
      obtain ⟨rfl, hend⟩ := renderFields_inj level fields others hrest
      exact ⟨rfl, hend⟩

end

/-- Documents with the same text are the same. -/
theorem pretty_inj {json other : Json} (h : json.pretty = other.pretty) : json = other :=
  (render_inj 0 json other stopsNumber_nil stopsNumber_nil (String.ofList_injective h)).1

end Asn1.Json
