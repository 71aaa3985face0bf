import Asn1.Octets

/-!
# Lines of a text

A text is written line by line, each with a line feed behind it. Cutting it at the line feeds cuts
each line by itself, and leaves nothing behind the last one. So if no line has a line feed inside,
the lines come out as they went in.
-/

namespace Asn1

theorem splitOn_newline_inj {text other : List Char}
    (h : text.splitOn '\n' = other.splitOn '\n') : text = other := by
  have htext : ['\n'].intercalate (text.splitOn '\n') = text := List.intercalate_splitOn '\n'
  rw [← htext, h, List.intercalate_splitOn]

/-- Each line feed makes one more piece. -/
theorem length_splitOn_newline (text : List Char) :
    (text.splitOn '\n').length = text.count '\n' + 1 := by
  induction text with
  | nil => rfl
  | cons c text ih =>
    rw [List.splitOn_cons_eq_if_modifyHead, List.count_cons]
    split
    · rw [List.length_cons, ih]
    · rw [List.length_modifyHead, ih, Nat.add_zero]

theorem splitOn_flatMap_newline (lines : List (List Char)) :
    (lines.flatMap (· ++ ['\n'])).splitOn '\n' =
      lines.flatMap (List.splitOn '\n') ++ [[]] := by
  induction lines with
  | nil => rfl
  | cons line lines ih =>
    rw [List.flatMap_cons, List.flatMap_cons, List.append_assoc, List.singleton_append,
      List.splitOn_append_cons_self, ih, List.append_assoc]

/-- Lines without line feeds are not cut. -/
theorem flatMap_splitOn_newline {lines : List (List Char)} (h : ∀ line ∈ lines, '\n' ∉ line) :
    lines.flatMap (List.splitOn '\n') = lines := by
  induction lines with
  | nil => rfl
  | cons line lines ih =>
    obtain ⟨hline, hlines⟩ := List.forall_mem_cons.mp h
    rw [List.flatMap_cons, List.splitOn_eq_singleton hline, ih hlines, List.singleton_append]

theorem newline_notMem_toDigits (n : Nat) : '\n' ∉ Nat.toDigits 10 n := by
  intro h
  exact absurd (Nat.isDigit_of_mem_toDigits (by decide) (by decide) h) (by decide)

theorem toList_join_newline (lines : List String) :
    (String.join (lines.map (· ++ "\n"))).toList =
      (lines.map String.toList).flatMap (· ++ ['\n']) := by
  rw [String.toList_join, List.flatMap_map, List.flatMap_map]
  simp only [String.toList_append]
  rfl

theorem splitOn_join_newline {lines : List String} (h : ∀ line ∈ lines, '\n' ∉ line.toList) :
    (String.join (lines.map (· ++ "\n"))).toList.splitOn '\n' =
      lines.map String.toList ++ [[]] := by
  rw [toList_join_newline, splitOn_flatMap_newline, flatMap_splitOn_newline]
  rwa [List.forall_mem_map]

end Asn1
