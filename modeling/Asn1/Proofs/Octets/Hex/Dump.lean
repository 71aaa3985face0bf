import Mathlib.Algebra.Ring.Nat
import Mathlib.Data.List.Basic
import Asn1.Octets.Hex.Dump
import Asn1.Proofs.Lines
import Asn1.Proofs.Octets.Hex

/-!
# Reading hexadecimal dumps

The cells of a line stand at fixed places behind its offset, so a reader finds them without looking
at the bars or at what is between them. Reading all cells of a dump gives its octets
(`read_dump`). An offset below 2 ^ 32 has eight digits, which puts the bars below each other.
-/

namespace Asn1.Hex

/-! ## Offsets -/

/-- The number that digits stand for. -/
def value (digits : List Char) : Nat :=
  digits.foldl (fun n digit => n * 16 + digitValue digit) 0

theorem value_concat (digits : List Char) (digit : Char) :
    value (digits ++ [digit]) = value digits * 16 + digitValue digit := by
  simp [value]

/-- The last digit of a number and the digits in front of it. -/
theorem toDigits_eq_concat (n : Nat) :
    Nat.toDigits 16 n =
      (if n < 16 then [] else Nat.toDigits 16 (n / 16)) ++ [digit (n % 16)] := by
  have hdigit : ∀ n : Fin 16, Nat.digitChar n = digit n := by decide
  rcases Nat.lt_or_ge n 16 with hlast | hmore
  · rw [Nat.toDigits_of_lt_base hlast, if_pos hlast, Nat.mod_eq_of_lt hlast, hdigit ⟨n, hlast⟩,
      List.nil_append]
  · rw [Nat.toDigits_of_base_le (by decide) hmore, if_neg (Nat.not_lt.mpr hmore),
      hdigit ⟨n % 16, Nat.mod_lt n (by decide)⟩]

theorem value_toDigits (n : Nat) : value (Nat.toDigits 16 n) = n := by
  induction n using Nat.strongRecOn with
  | ind n ih =>
    rw [toDigits_eq_concat, value_concat, digitValue_digit (Nat.mod_lt n (by decide))]
    split
    · exact (Nat.zero_add _).trans (Nat.mod_eq_of_lt ‹_›)
    · rw [ih (n / 16) (by omega)]
      omega

theorem mem_digitChars_of_mem_toDigits {n : Nat} {c : Char} (h : c ∈ Nat.toDigits 16 n) :
    c ∈ digitChars := by
  induction n using Nat.strongRecOn with
  | ind n ih =>
    rw [toDigits_eq_concat, List.mem_append, List.mem_singleton] at h
    rcases h with h | rfl
    · split at h
      · cases h
      · exact ih (n / 16) (by omega) h
    · exact digit_mem_digitChars (Nat.mod_lt n (by decide))

/-- Zeros in front do not change a number. -/
theorem value_replicate_append (count : Nat) (digits : List Char) :
    value (List.replicate count '0' ++ digits) = value digits := by
  have hzeros :
      (List.replicate count '0').foldl (fun n digit => n * 16 + digitValue digit) 0 = 0 := by
    induction count with
    | zero => rfl
    | succ count ih =>
      rw [List.replicate_succ, List.foldl_cons]
      exact ih
  rw [value, List.foldl_append, hzeros]
  rfl

theorem value_offsetDigits (offset : Nat) : value (offsetDigits offset) = offset := by
  rw [offsetDigits, List.leftpad, value_replicate_append, value_toDigits]

theorem length_offsetDigits (offset : Nat) :
    (offsetDigits offset).length = max 8 (Nat.toDigits 16 offset).length := by
  rw [offsetDigits, List.length_leftpad]

theorem length_offsetDigits_of_lt {offset : Nat} (h : offset < 2 ^ 32) :
    (offsetDigits offset).length = 8 := by
  have hlength : (Nat.toDigits 16 offset).length ≤ 8 :=
    (Nat.length_toDigits_le_iff (by decide) (by decide)).mpr h
  rw [length_offsetDigits]
  omega

theorem mem_digitChars_of_mem_offsetDigits {offset : Nat} {c : Char}
    (h : c ∈ offsetDigits offset) : c ∈ digitChars := by
  rw [offsetDigits, List.leftpad, List.mem_append] at h
  rcases h with h | h
  · rw [List.eq_of_mem_replicate h]
    decide
  · exact mem_digitChars_of_mem_toDigits h

/-! ## Cells -/

/-- Where the cell of a column starts among the cells of its row. -/
def cellStart (column : Nat) : Nat :=
  3 * column + if 8 ≤ column then 1 else 0

theorem cell_eq (octet : Option UInt8) : cell octet = octet.elim [' ', ' '] digits ++ [' '] := by
  cases octet <;> rfl

theorem length_shown (octet : Option UInt8) : (octet.elim [' ', ' '] digits).length = 2 := by
  cases octet <;> rfl

/-- The cells of the columns in front take all the room up to the start of a cell. -/
theorem length_cells_range (octets : Octets) (column : Nat) :
    ((List.range column).flatMap fun column =>
      cell octets[column]? ++ if column = 7 then [' '] else []).length = cellStart column := by
  induction column with
  | zero => rfl
  | succ column ih =>
    rw [List.range_succ, List.flatMap_append, List.length_append, ih, List.flatMap_singleton,
      cell_eq, List.length_append, List.length_append, length_shown, cellStart, cellStart]
    split <;> split <;> split <;> simp only [List.length_cons, List.length_nil] <;> omega

theorem length_cells (octets : Octets) : (cells octets).length = 49 :=
  length_cells_range octets rowLength

theorem take_drop_cells (octets : Octets) {column : Nat} (h : column < 16) :
    ((cells octets).drop (cellStart column)).take 2 = octets[column]?.elim [' ', ' '] digits := by
  have hrange : List.range rowLength =
      List.range column ++ column :: (List.range (15 - column)).map (column + 1 + ·) := by
    have hlength : rowLength = column + (1 + (15 - column)) := by
      rw [rowLength]
      omega
    rw [hlength, List.range_add, List.range_add]
    simp [Nat.add_assoc]
  rw [cells, hrange, List.flatMap_append, ← length_cells_range octets column, List.drop_left,
    List.flatMap_cons, cell_eq, List.append_assoc, List.append_assoc,
    ← length_shown octets[column]?, List.take_left]

theorem mem_of_mem_cells {octets : Octets} {c : Char} (h : c ∈ cells octets) :
    c ∈ digitChars ∨ c = ' ' := by
  obtain ⟨column, -, hc⟩ := List.mem_flatMap.mp h
  rw [List.mem_append, cell_eq, List.mem_append] at hc
  rcases hc with (hc | hc) | hc
  · cases hoctet : octets[column]? with
    | none => exact .inr (by simpa [hoctet] using hc)
    | some octet =>
      rw [hoctet, Option.elim_some] at hc
      exact .inl (mem_digitChars_of_mem_digits hc)
  · exact .inr (List.mem_singleton.mp hc)
  · split at hc
    · exact .inr (List.mem_singleton.mp hc)
    · cases hc

/-! ## Rows -/

/-- A row up to its opening bar. -/
def rowFront (offset : Nat) (octets : Octets) : List Char :=
  offsetDigits offset ++ ' ' :: ' ' :: (cells octets ++ [' '])

/-- What the cell of a column shows. -/
def cellAt (line : List Char) (column : Nat) : List Char :=
  ((line.dropWhile (· ≠ ' ')).drop (2 + cellStart column)).take 2

section Row

variable (offset : Nat) (octets : Octets)

theorem row_eq :
    row offset octets = rowFront offset octets ++ '|' :: (octets.map printable ++ ['|']) := by
  simp [row, rowFront]

theorem length_rowFront : (rowFront offset octets).length = (offsetDigits offset).length + 52 := by
  simp [rowFront, length_cells]

/-- Up to the opening bar there are only digits and blanks. -/
theorem notMem_rowFront {c : Char} (hdigit : c ∉ digitChars) (hblank : c ≠ ' ') :
    c ∉ rowFront offset octets := by
  have hoffset : c ∉ offsetDigits offset := fun h =>
    hdigit (mem_digitChars_of_mem_offsetDigits h)
  have hcells : c ∉ cells octets := fun h => (mem_of_mem_cells h).elim hdigit hblank
  simp [rowFront, hoffset, hblank, hcells]

theorem ne_blank_of_mem_offsetDigits {c : Char} (h : c ∈ offsetDigits offset) :
    decide (c ≠ ' ') = true := by
  have hall : digitChars.all (fun c => decide (c ≠ ' ')) = true := by decide
  exact List.all_eq_true.mp hall c (mem_digitChars_of_mem_offsetDigits h)

theorem takeWhile_row : (row offset octets).takeWhile (· ≠ ' ') = offsetDigits offset := by
  rw [row_eq, rowFront, List.append_assoc,
    List.takeWhile_append_of_pos fun c hc => ne_blank_of_mem_offsetDigits offset hc]
  simp

theorem dropWhile_row :
    (row offset octets).dropWhile (· ≠ ' ') =
      ' ' :: ' ' :: (cells octets ++ ' ' :: '|' :: (octets.map printable ++ ['|'])) := by
  rw [row_eq, rowFront, List.append_assoc,
    List.dropWhile_append_of_pos fun c hc => ne_blank_of_mem_offsetDigits offset hc]
  simp

theorem cellAt_row {column : Nat} (h : column < 16) :
    cellAt (row offset octets) column = octets[column]?.elim [' ', ' '] digits := by
  have hfits : cellStart column + 2 ≤ (cells octets).length := by
    rw [length_cells, cellStart]
    split <;> omega
  have hdrop (tail : List Char) :
      (' ' :: ' ' :: tail).drop (2 + cellStart column) = tail.drop (cellStart column) := by
    rw [Nat.add_comm]
    rfl
  rw [cellAt, dropWhile_row, hdrop, List.drop_append_of_le_length (by omega),
    List.take_append_of_le_length (by rw [List.length_drop]; omega), take_drop_cells octets h]

theorem dropWhile_bar_row :
    (row offset octets).dropWhile (· ≠ '|') = '|' :: (octets.map printable ++ ['|']) := by
  have hbar := notMem_rowFront offset octets (show '|' ∉ digitChars by decide) (by decide)
  have hfront : ∀ c ∈ rowFront offset octets, decide (c ≠ '|') = true := by
    intro c hc
    exact decide_eq_true fun heq => hbar (heq ▸ hc)
  rw [row_eq, List.dropWhile_append_of_pos hfront]
  simp

theorem idxOf_bar_row : (row offset octets).idxOf '|' = (offsetDigits offset).length + 52 := by
  have hbar := notMem_rowFront offset octets (show '|' ∉ digitChars by decide) (by decide)
  rw [row_eq, List.idxOf_append, if_neg hbar, List.idxOf_cons_self, Nat.zero_add, length_rowFront]

theorem printable_eq (octet : UInt8) :
    printable octet =
      if 32 ≤ octet.toNat ∧ octet.toNat ≤ 126 then Char.ofNat octet.toNat else '.' := by
  have hall : ∀ n : Fin 256, printable (UInt8.ofFin n) =
      if 32 ≤ n.val ∧ n.val ≤ 126 then Char.ofNat n.val else '.' := by
    decide +kernel
  exact hall octet.toFin

theorem newline_notMem_row : '\n' ∉ row offset octets := by
  have hfront := notMem_rowFront offset octets (show '\n' ∉ digitChars by decide) (by decide)
  have hall : ∀ n : Fin 256, printable (UInt8.ofFin n) ≠ '\n' := by decide +kernel
  have hchars : ∀ octet ∈ octets, printable octet ≠ '\n' := fun octet _ => hall octet.toFin
  rw [row_eq]
  simpa [hfront] using hchars

end Row

/-! ## Dumps -/

/-- The rows hold sixteen octets each, as far as there are so many. -/
theorem eq_row_of_getElem?_rows {offset number : Nat} {octets : Octets} {line : List Char}
    (h : (rows offset octets)[number]? = some line) :
    16 * number < octets.length ∧
      line = row (offset + 16 * number) ((octets.drop (16 * number)).take 16) := by
  fun_induction rows offset octets generalizing number with
  | case1 => simp at h
  | case2 offset octets hmore ih =>
    have hpos := List.length_pos_iff.mpr (mt List.isEmpty_iff.mpr hmore)
    cases number with
    | zero =>
      rw [List.getElem?_cons_zero, Option.some.injEq] at h
      exact ⟨hpos, h.symm⟩
    | succ number =>
      rw [List.getElem?_cons_succ] at h
      obtain ⟨hlt, hline⟩ := ih h
      rw [List.length_drop, rowLength] at hlt
      rw [List.drop_drop, rowLength] at hline
      have hstart : 16 * (number + 1) = 16 + 16 * number := by omega
      refine ⟨by omega, ?_⟩
      rw [hline, hstart, Nat.add_assoc]

theorem length_rows (offset : Nat) (octets : Octets) :
    (rows offset octets).length = (octets.length + 15) / 16 := by
  fun_induction rows offset octets with
  | case1 offset octets hempty =>
    rw [List.isEmpty_iff.mp hempty]
    rfl
  | case2 offset octets hmore ih =>
    have hpos := List.length_pos_iff.mpr (mt List.isEmpty_iff.mpr hmore)
    rw [List.length_cons, ih, List.length_drop, rowLength]
    omega

theorem newline_notMem_of_mem_rows {offset : Nat} {octets : Octets} {line : List Char}
    (h : line ∈ rows offset octets) : '\n' ∉ line := by
  fun_induction rows offset octets with
  | case1 => cases h
  | case2 offset octets hmore ih =>
    rcases List.mem_cons.mp h with rfl | h
    · exact newline_notMem_row _ _
    · exact ih h

theorem splitOn_dump (octets : Octets) :
    (dump octets).toList.splitOn '\n' = rows 0 octets ++ [[]] := by
  rw [dump, String.toList_ofList, splitOn_flatMap_newline,
    flatMap_splitOn_newline fun line hline => newline_notMem_of_mem_rows hline]

/-! ## Reading -/

/-- The octet that a cell shows. -/
def readCell : List Char → Option UInt8
  | [high, low] => if high = ' ' then none else some (UInt8.ofNat (value [high, low]))
  | _ => none

/-- The octets that the cells of a line show. -/
def readLine (line : List Char) : Octets :=
  (List.range 16).filterMap fun column => readCell (cellAt line column)

/-- The octets that all cells of a text show, line by line. -/
def read (text : String) : Octets :=
  (text.toList.splitOn '\n').flatMap readLine

theorem readCell_elim (octet : Option UInt8) :
    readCell (octet.elim [' ', ' '] digits) = octet := by
  cases octet with
  | none => rfl
  | some octet =>
    have hall : ∀ n : Fin 256, readCell (digits (UInt8.ofFin n)) = some (UInt8.ofFin n) := by
      decide +kernel
    exact hall octet.toFin

theorem filterMap_range_getElem? (octets : Octets) (count : Nat) :
    (List.range count).filterMap (octets[·]?) = octets.take count := by
  induction count with
  | zero => rfl
  | succ count ih =>
    rw [List.range_succ, List.filterMap_append, ih, List.take_add_one]
    cases hoctet : octets[count]? <;> simp [hoctet]

theorem readLine_row (offset : Nat) {octets : Octets} (h : octets.length ≤ 16) :
    readLine (row offset octets) = octets := by
  have hcells : ∀ column ∈ List.range 16,
      readCell (cellAt (row offset octets) column) = octets[column]? := by
    intro column hcolumn
    rw [cellAt_row offset octets (List.mem_range.mp hcolumn), readCell_elim]
  rw [readLine, List.filterMap_congr hcells, filterMap_range_getElem?, List.take_of_length_le h]

theorem flatMap_readLine_rows (offset : Nat) (octets : Octets) :
    (rows offset octets).flatMap readLine = octets := by
  fun_induction rows offset octets with
  | case1 offset octets hempty => exact (List.isEmpty_iff.mp hempty).symm
  | case2 offset octets hmore ih =>
    rw [List.flatMap_cons, ih, readLine_row offset (List.length_take_le rowLength octets),
      List.take_append_drop]

/-- Reading all cells gives the octets that were dumped. -/
theorem read_dump (octets : Octets) : read (dump octets) = octets := by
  rw [read, splitOn_dump, List.flatMap_append, flatMap_readLine_rows]
  exact List.append_nil octets

/-- A dump consists of as many lines as there are sixteens of octets, a last short one included,
and reading all its cells gives the octets, so no two octet strings have the same dump. A line
starts with the number of octets in front of it, in eight digits or as many more as it takes. Its
cells show the octets in order, and those behind the last octet are blank. Between the bars is a
character for each octet: the octet itself where it is printable, and a dot otherwise. Up to 2 ^ 32
octets the opening bars stand in column 60 of all lines. -/
theorem dump_shows_octets (octets : Octets) :
    (dump octets).toList.splitOn '\n' = rows 0 octets ++ [[]] ∧
      (rows 0 octets).length = (octets.length + 15) / 16 ∧
      (∀ number line, (rows 0 octets)[number]? = some line →
        value (line.takeWhile (· ≠ ' ')) = 16 * number ∧
          (line.takeWhile (· ≠ ' ')).length = max 8 (Nat.toDigits 16 (16 * number)).length ∧
          (∀ column < 16,
            cellAt line column = octets[16 * number + column]?.elim [' ', ' '] digits) ∧
          line.dropWhile (· ≠ '|') =
            '|' :: (((octets.drop (16 * number)).take 16).map fun octet =>
              if 32 ≤ octet.toNat ∧ octet.toNat ≤ 126 then Char.ofNat octet.toNat else '.') ++
                ['|'] ∧
          (octets.length ≤ 2 ^ 32 → line.idxOf '|' = 60)) ∧
      read (dump octets) = octets ∧
      ∀ others, dump others = dump octets → others = octets := by
  refine ⟨splitOn_dump octets, length_rows 0 octets, ?_, read_dump octets, ?_⟩
  · intro number line hline
    obtain ⟨hlt, rfl⟩ := eq_row_of_getElem?_rows hline
    rw [Nat.zero_add, takeWhile_row]
    refine ⟨value_offsetDigits _, length_offsetDigits _, ?_, ?_, ?_⟩
    · intro column hcolumn
      rw [cellAt_row _ _ hcolumn, List.getElem?_take_of_lt hcolumn, List.getElem?_drop]
    · rw [dropWhile_bar_row, List.cons_append, List.map_congr_left fun octet _ => printable_eq octet]
    · intro hlength
      rw [idxOf_bar_row, length_offsetDigits_of_lt (by omega)]
  · intro others h
    rw [← read_dump others, h, read_dump]

/-- The second line of eighteen octets starts at 16 and has two cells filled. -/
theorem dump_shows_octets_short :
    (rows 0 (List.range' 0x41 18 |>.map UInt8.ofNat))[1]? =
        some ("00000010  51 52".toList ++ List.replicate 45 ' ' ++ "|QR|".toList) ∧
      cellAt ("00000010  51 52".toList ++ List.replicate 45 ' ' ++ "|QR|".toList) 1 =
        digits 0x52 ∧
      cellAt ("00000010  51 52".toList ++ List.replicate 45 ' ' ++ "|QR|".toList) 2 = [' ', ' '] ∧
      ("00000010  51 52".toList ++ List.replicate 45 ' ' ++ "|QR|".toList).idxOf '|' = 60 := by
  have hline : (rows 0 (List.range' 0x41 18 |>.map UInt8.ofNat))[1]? =
      some ("00000010  51 52".toList ++ List.replicate 45 ' ' ++ "|QR|".toList) := by
    decide +kernel
  obtain ⟨-, -, hcells, -, hbar⟩ := (dump_shows_octets _).2.2.1 1 _ hline
  exact ⟨hline, hcells 1 (by decide), hcells 2 (by decide), hbar (by simp)⟩

end Asn1.Hex
