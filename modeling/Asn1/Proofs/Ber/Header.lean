import Mathlib.Data.List.TakeWhile
import Asn1.Proofs.Ber.Length
import Asn1.Proofs.Ber.Window

/-!
# Headers and their grammar

`IsHeader` says which octets are a header. The reader of headers accepts exactly those, provided
that the declared content follows them (`parse_eq_ok_iff`); at a cursor it does the same and moves
the cursor behind the header (`decode_eq`). A refusal is one of three. More octets behind change
neither a header that is read nor a refusal, unless octets were missing, and octets cut off at the
end of an element are always missed (`parse_of_cut`). Behind a header its content can be read or
entered, and neither fails.
-/

namespace Asn1.Ber

namespace Identifier

/-- Identifier octets are split off whatever follows them. -/
theorem split?_append {identifier : Octets} (h : IsIdentifier identifier) (tail : Octets) :
    split? (identifier ++ tail) = some (identifier, tail) := by
  cases h with
  | short hfirst =>
    rw [List.singleton_append, split?, if_neg (mt isLong_iff.mp hfirst)]
  | @long first last middle hfirst hmiddle hlast =>
    have hset : ∀ octet ∈ middle, continues octet = true :=
      fun octet hmem => continues_iff.mpr (hmiddle octet hmem)
    have hclear : ¬ continues last = true := mt continues_iff.mp (Nat.not_le.mpr hlast)
    have htake : ((middle ++ [last]) ++ tail).takeWhile continues = middle := by
      rw [List.append_assoc, List.takeWhile_append_of_pos hset]
      simp [hclear]
    have hdrop : ((middle ++ [last]) ++ tail).dropWhile continues = last :: tail := by
      rw [List.append_assoc, List.dropWhile_append_of_pos hset]
      simp [hclear]
    rw [List.cons_append]
    simp only [split?, if_pos (isLong_iff.mpr hfirst), hdrop, htake]

/-- What is split off is an identifier. -/
theorem isIdentifier_of_split? {input identifier tail : Octets}
    (h : split? input = some (identifier, tail)) : IsIdentifier identifier := by
  cases input with
  | nil => simp [split?] at h
  | cons first rest =>
    simp only [split?] at h
    split at h
    · rename_i hfirst
      split at h
      · simp at h
      · rename_i last behind hrest
        simp only [Option.some.injEq, Prod.mk.injEq] at h
        obtain ⟨rfl, -⟩ := h
        have hnot := List.head?_dropWhile_not continues rest
        rw [hrest] at hnot
        have hclear : ¬ continues last = true := by simpa using hnot
        refine .long (isLong_iff.mp hfirst) (fun octet hmem => ?_)
          (Nat.not_le.mp (mt continues_iff.mpr hclear))
        exact continues_iff.mp (List.mem_takeWhile_imp hmem)
    · rename_i hfirst
      simp only [Option.some.injEq, Prod.mk.injEq] at h
      obtain ⟨rfl, -⟩ := h
      exact .short (mt isLong_iff.mpr hfirst)

theorem split?_eq_some_iff {input identifier tail : Octets} :
    split? input = some (identifier, tail) ↔
      IsIdentifier identifier ∧ input = identifier ++ tail := by
  constructor
  · intro h
    exact ⟨isIdentifier_of_split? h, (eq_append_of_split? h).1⟩
  · rintro ⟨h, rfl⟩
    exact split?_append h tail

end Identifier

/-- The octets of a header: an identifier, then the length octets of what it declares. -/
inductive IsHeader : Octets → Header → Prop
  | mk {identifier length : Octets} {n : Nat} (hid : IsIdentifier identifier)
      (hlength : IsLength length n) :
      IsHeader (identifier ++ length) ⟨identifier, n, identifier.length + length.length⟩

theorem IsHeader.headerLength_eq {octets : Octets} {header : Header} (h : IsHeader octets header) :
    header.headerLength = octets.length := by
  cases h
  simp

namespace Header

/-- A header is read whatever follows it, as long as the declared content does. -/
theorem parse_append {octets tail : Octets} {header : Header} (h : IsHeader octets header)
    (hfit : header.contentLength ≤ tail.length) : parse (octets ++ tail) = .ok (header, tail) := by
  cases h with
  | @mk identifier length n hid hlength =>
    have hlen : (identifier ++ length ++ tail).length - tail.length =
        identifier.length + length.length := by
      simp only [List.length_append]
      omega
    rw [List.append_assoc] at hlen ⊢
    simp only [parse, Identifier.split?_append hid, Length.decode_append hlength,
      if_neg (Nat.not_lt.mpr hfit), hlen]

theorem parse_element {identifier length content : Octets} (hid : IsIdentifier identifier)
    (hlength : IsLength length content.length) (tail : Octets) :
    parse (identifier ++ length ++ content ++ tail) =
      .ok (⟨identifier, content.length, identifier.length + length.length⟩, content ++ tail) := by
  rw [List.append_assoc]
  exact parse_append (.mk hid hlength) (by simp)

theorem exists_of_parse {input rest : Octets} {header : Header}
    (h : parse input = .ok (header, rest)) :
    ∃ octets, IsHeader octets header ∧ input = octets ++ rest := by
  simp only [parse] at h
  split at h
  · simp at h
  · rename_i identifier afterIdentifier hsplit
    split at h
    · simp at h
    · rename_i n rest' hdecode
      split at h
      · simp at h
      · simp only [Except.ok.injEq, Prod.mk.injEq] at h
        obtain ⟨rfl, rfl⟩ := h
        obtain ⟨hid, rfl⟩ := Identifier.split?_eq_some_iff.mp hsplit
        obtain ⟨length, hlength, rfl⟩ := Length.exists_of_decode hdecode
        refine ⟨identifier ++ length, ?_, by simp⟩
        have hlen : (identifier ++ (length ++ rest')).length - rest'.length =
            identifier.length + length.length := by
          simp only [List.length_append]
          omega
        rw [hlen]
        exact .mk hid hlength

/-- The reader of headers accepts the header grammar in front of enough content. -/
theorem parse_eq_ok_iff {input rest : Octets} {header : Header} :
    parse input = .ok (header, rest) ↔
      ∃ octets, IsHeader octets header ∧ input = octets ++ rest ∧
        header.contentLength ≤ rest.length := by
  constructor
  · intro h
    obtain ⟨octets, hoctets, rfl⟩ := exists_of_parse h
    exact ⟨octets, hoctets, rfl, (bounds_of_parse h).2.2⟩
  · rintro ⟨octets, hoctets, rfl, hfit⟩
    exact parse_append hoctets hfit

/-- A header is refused because octets are missing or because of its length octets. -/
theorem error_of_parse {input : Octets} {error : Error} (h : parse input = .error error) :
    error = .earlyEof ∨ error = .indefiniteLength ∨ error = .unsupportedLength := by
  simp only [parse] at h
  split at h
  · cases h
    exact .inl rfl
  · split at h
    · rename_i hdecode
      cases h
      exact Length.error_of_decode hdecode
    · split at h
      · cases h
        exact .inl rfl
      · simp at h

/-- Where no octets are missing a refusal is one of the length octets behind a complete
identifier. -/
theorem parse_eq_error_iff {input : Octets} {error : Error} (hne : error ≠ .earlyEof) :
    parse input = .error error ↔
      ∃ identifier rest, IsIdentifier identifier ∧ input = identifier ++ rest ∧
        Length.decode rest = .error error := by
  constructor
  · intro h
    simp only [parse] at h
    split at h
    · cases h
      exact absurd rfl hne
    · rename_i identifier rest hsplit
      obtain ⟨hid, hinput⟩ := Identifier.split?_eq_some_iff.mp hsplit
      split at h
      · rename_i hdecode
        cases h
        exact ⟨identifier, rest, hid, hinput, hdecode⟩
      · split at h
        · cases h
          exact absurd rfl hne
        · cases h
  · rintro ⟨identifier, rest, hid, rfl, hdecode⟩
    simp only [parse, Identifier.split?_append hid, hdecode]

/-- A header that was read is read with more octets behind it, too. -/
theorem parse_append_of_ok {input rest : Octets} {header : Header}
    (h : parse input = .ok (header, rest)) (tail : Octets) :
    parse (input ++ tail) = .ok (header, rest ++ tail) := by
  obtain ⟨octets, hoctets, rfl, hfit⟩ := parse_eq_ok_iff.mp h
  rw [List.append_assoc]
  refine parse_append hoctets ?_
  rw [List.length_append]
  omega

/-- A refusal that is not about missing octets stays with more octets behind. -/
theorem parse_append_of_error {input : Octets} {error : Error} (h : parse input = .error error)
    (hne : error ≠ .earlyEof) (tail : Octets) : parse (input ++ tail) = .error error := by
  obtain ⟨identifier, rest, hid, rfl, hdecode⟩ := (parse_eq_error_iff hne).mp h
  have hbehind := Length.decode_append_of_error hdecode hne tail
  exact (parse_eq_error_iff hne).mpr
    ⟨identifier, rest ++ tail, hid, List.append_assoc _ _ _, hbehind⟩

/-- Where the declared content reaches to the end, no octet at the end can be left out. -/
theorem parse_of_cut {front back content : Octets} {header : Header}
    (h : parse (front ++ back) = .ok (header, content))
    (hlen : header.contentLength = content.length) (hne : back ≠ []) :
    parse front = .error .earlyEof := by
  cases hfront : parse front with
  | error error =>
    by_contra hother
    have hstays := parse_append_of_error hfront (fun heq => hother (heq ▸ rfl)) back
    rw [h] at hstays
    cases hstays
  | ok result =>
    obtain ⟨header', rest⟩ := result
    have hstays := parse_append_of_ok hfront back
    rw [h] at hstays
    cases hstays
    -- The header is the same, and its content would have to fit before the cut.
    have hfit := (bounds_of_parse hfront).2.2
    have hpos := List.length_pos_iff.mpr hne
    rw [List.length_append] at hlen
    omega

theorem length_take_of_parse {input rest : Octets} {header : Header}
    (h : parse input = .ok (header, rest)) :
    (rest.take header.contentLength).length = header.contentLength := by
  rw [List.length_take, Nat.min_eq_left (bounds_of_parse h).2.2]

/-- Behind a header the remaining octets are what follows it. -/
theorem drop_of_parse {input rest : Octets} {header : Header}
    (h : parse input = .ok (header, rest)) : input.drop header.headerLength = rest := by
  obtain ⟨octets, hoctets, rfl⟩ := exists_of_parse h
  rw [hoctets.headerLength_eq, List.drop_left]

/-- At a cursor the remaining octets are read, and the cursor moves behind the header. -/
theorem decode_eq {window : Window} (h : window.InBounds) :
    decode window =
      match parse window.remaining with
      | .error error => .error error
      | .ok (header, _) => .ok (header, window.advance header.headerLength) := by
  unfold decode
  cases hparse : parse window.remaining with
  | error error => rfl
  | ok result =>
    obtain ⟨header, rest⟩ := result
    have hle : header.headerLength ≤ window.remaining.length := by
      have := (bounds_of_parse hparse).2.1
      omega
    simp only [h.seek_advance hle]

/-- No header is refused for what follows it, wherever it is read. -/
theorem decode_ne_trailingData (window : Window) :
    decode window ≠ .error .trailingData := by
  intro h
  simp only [decode] at h
  split at h
  · rename_i hparse
    cases h
    simpa using error_of_parse hparse
  · split at h
    · rename_i hseek
      cases h
      simp only [Window.seek] at hseek
      split at hseek <;> cases hseek
    · cases h

end Header

/-! ## Behind a header -/

namespace Window

variable {window : Window} {header : Header} {rest : Octets}

theorem remaining_behind (hparse : Header.parse window.remaining = .ok (header, rest)) :
    (window.advance header.headerLength).remaining = rest := by
  rw [remaining_advance, Header.drop_of_parse hparse]

theorem InBounds.behind (h : window.InBounds)
    (hparse : Header.parse window.remaining = .ok (header, rest)) :
    (window.advance header.headerLength).InBounds := by
  have hbounds := Header.bounds_of_parse hparse
  exact h.advance (by omega)

/-- The content that a header declares is there. -/
theorem contentLength_le_behind (hparse : Header.parse window.remaining = .ok (header, rest)) :
    header.contentLength ≤ (window.advance header.headerLength).remaining.length := by
  rw [remaining_behind hparse]
  exact (Header.bounds_of_parse hparse).2.2

theorem readBytes_behind (hparse : Header.parse window.remaining = .ok (header, rest)) :
    (window.advance header.headerLength).readBytes header.contentLength =
      .ok (rest.take header.contentLength,
        (window.advance header.headerLength).advance header.contentLength) := by
  rw [readBytes_of_le (contentLength_le_behind hparse), remaining_behind hparse]

/-- An element is entered over just the content that its header declares. -/
theorem InBounds.enter_behind (h : window.InBounds)
    (hparse : Header.parse window.remaining = .ok (header, rest)) :
    Frame.enter header (window.advance header.headerLength) =
      .ok (⟨header.identifier, .ofOctets (rest.take header.contentLength), []⟩,
        (window.advance header.headerLength).advance header.contentLength) := by
  rw [Frame.enter_of_le (h.behind hparse) (contentLength_le_behind hparse),
    remaining_behind hparse]

/-- Behind an element the cursor of its input stands at the end when nothing is left over. -/
theorem isExhausted_behind {input rest : Octets} {header : Header}
    (hparse : Header.parse input = .ok (header, rest)) :
    (((ofOctets input).advance header.headerLength).advance
      header.contentLength).isExhausted = true ↔ header.contentLength = rest.length := by
  have hfit := (Header.bounds_of_parse hparse).2.2
  rw [← remaining_ofOctets input] at hparse
  have hinside := (inBounds_ofOctets input).behind hparse
  have hbehind := hinside.advance (contentLength_le_behind hparse)
  rw [hbehind.isExhausted_iff, remaining_advance, remaining_behind hparse, List.drop_eq_nil_iff]
  omega

end Window

end Asn1.Ber
