import Mathlib.Data.List.Basic
import Asn1.Proofs.Lines
import Asn1.Proofs.Octets.Hex
import Asn1.Proofs.Value.Size
import Asn1.Value.Listing

/-!
# Listings and their trees

The elements that wait to be listed stand for the trees below them: listing them all gives the lines
of these trees in document order (`listWaiting_eq`). A node of a tree has a position, the numbers of
the children on the way to it. A listing has one line for each position, in the order of positions,
indented by their lengths. Main statement: `listing_renders_tree`.
-/

namespace Asn1.Value

open Ber

/-! ## The waiting list -/

/-- The lines of a tree in document order. -/
def treeLines (level : Nat) (value : Value) : List String :=
  (value.preorder level).map fun entry => entry.2.line entry.1

theorem preorderAll_eq_flatMap (level : Nat) (values : List Value) :
    preorderAll level values = values.flatMap (preorder level) := by
  induction values with
  | nil => rfl
  | cons value values ih => rw [preorderAll, ih, List.flatMap_cons]

/-- A tree has its root's line and then those of the trees inside. -/
theorem treeLines_eq_cons (level : Nat) (value : Value) :
    value.treeLines level =
      value.line level :: (value.inner level).flatMap fun entry => entry.2.treeLines entry.1 := by
  cases value with
  | primitive identifier content => rfl
  | node identifier children contentLength =>
    rw [treeLines, preorder, List.map_cons, preorderAll_eq_flatMap, List.map_flatMap, inner,
      List.flatMap_map]
    rfl

/-- The elements that wait are listed with all that is below them, in their order. -/
theorem listWaiting_eq (waiting : List (Nat × Value)) (lines : List String) :
    listWaiting waiting lines =
      lines.reverse ++ waiting.flatMap fun entry => entry.2.treeLines entry.1 := by
  fun_induction listWaiting waiting lines with
  | case1 lines => rw [List.flatMap_nil, List.append_nil]
  | case2 lines level value waiting ih =>
    rw [ih, List.flatMap_cons, treeLines_eq_cons level value]
    simp

theorem listingLines_eq (value : Value) : value.listingLines = value.treeLines 0 := by
  rw [listingLines, listWaiting_eq]
  simp

mutual

theorem rendering_eq_join (level : Nat) : (value : Value) →
    value.rendering level = String.join ((value.treeLines level).map (· ++ "\n"))
  | .primitive identifier content => by
    simp [rendering, treeLines, preorder]
  | .node identifier children contentLength => by
    rw [rendering, renderingAll_eq_join (level + 1) children, treeLines_eq_cons, List.map_cons,
      String.join_cons, inner, List.flatMap_map]

theorem renderingAll_eq_join (level : Nat) : (values : List Value) →
    renderingAll level values = String.join ((values.flatMap (treeLines level)).map (· ++ "\n"))
  | [] => rfl
  | value :: values => by
    rw [renderingAll, rendering_eq_join level value, renderingAll_eq_join level values,
      List.flatMap_cons, List.map_append, String.join_append]

end

mutual

theorem length_preorder (level : Nat) : (value : Value) →
    (value.preorder level).length = value.count
  | .primitive identifier content => rfl
  | .node identifier children contentLength => by
    rw [preorder, List.length_cons, length_preorderAll (level + 1) children, count, Nat.add_comm]

theorem length_preorderAll (level : Nat) : (values : List Value) →
    (preorderAll level values).length = countAll values
  | [] => rfl
  | value :: values => by
    rw [preorderAll, List.length_append, length_preorder level value,
      length_preorderAll level values, countAll]

end

/-! ## Positions -/

/-- The value at a position: the numbers of the children on the way down from the root. -/
def at? : Value → List Nat → Option Value
  | value, [] => some value
  | .primitive _ _, _ :: _ => none
  | .node _ children _, number :: position => children[number]?.bind (at? · position)

mutual

/-- The positions in a tree, each in front of those below it. -/
def positions : Value → List (List Nat)
  | .primitive _ _ => [[]]
  | .node _ children _ => [] :: positionsAll 0 children

/-- The positions in trees that are children of one node, numbered from `first` on. -/
def positionsAll (first : Nat) : List Value → List (List Nat)
  | [] => []
  | value :: values => value.positions.map (first :: ·) ++ positionsAll (first + 1) values

end

theorem mem_positionsAll_iff {first : Nat} {values : List Value} {position : List Nat} :
    position ∈ positionsAll first values ↔
      ∃ number child below, position = (first + number) :: below ∧
        values[number]? = some child ∧ below ∈ child.positions := by
  induction values generalizing first with
  | nil => simp [positionsAll]
  | cons value values ih =>
    rw [positionsAll, List.mem_append, ih, List.mem_map]
    constructor
    · rintro (⟨below, hbelow, rfl⟩ | ⟨number, child, below, rfl, hchild, hbelow⟩)
      · exact ⟨0, value, below, rfl, rfl, hbelow⟩
      · refine ⟨number + 1, child, below, ?_, hchild, hbelow⟩
        rw [Nat.add_assoc, Nat.add_comm 1]
    · rintro ⟨number, child, below, rfl, hchild, hbelow⟩
      cases number with
      | zero =>
        rw [List.getElem?_cons_zero, Option.some.injEq] at hchild
        subst hchild
        exact .inl ⟨below, hbelow, rfl⟩
      | succ number =>
        refine .inr ⟨number, child, below, ?_, hchild, hbelow⟩
        rw [Nat.add_assoc, Nat.add_comm 1]

/-- The positions of a tree are those where a value is. -/
theorem mem_positions_iff {value : Value} {position : List Nat} :
    position ∈ value.positions ↔ ∃ node, value.at? position = some node := by
  induction position generalizing value with
  | nil => cases value <;> simp [positions, at?]
  | cons number position ih =>
    cases value with
    | primitive identifier content => simp [positions, at?]
    | node identifier children contentLength =>
      rw [positions, List.mem_cons, mem_positionsAll_iff, at?]
      simp only [Option.bind_eq_some_iff, List.cons.injEq, Nat.zero_add]
      constructor
      · rintro (h | ⟨_, child, _, ⟨rfl, rfl⟩, hchild, hbelow⟩)
        · cases h
        · obtain ⟨node, hnode⟩ := ih.mp hbelow
          exact ⟨node, child, hchild, hnode⟩
      · rintro ⟨node, child, hchild, hnode⟩
        exact .inr ⟨number, child, position, ⟨rfl, rfl⟩, hchild, ih.mpr ⟨node, hnode⟩⟩

mutual

/-- Positions come in lexicographic order, so none comes twice. -/
theorem pairwise_positions : (value : Value) → value.positions.Pairwise (· < ·)
  | .primitive identifier content => List.pairwise_singleton _ _
  | .node identifier children contentLength => by
    rw [positions, List.pairwise_cons]
    refine ⟨fun position hposition => ?_, pairwise_positionsAll 0 children⟩
    obtain ⟨number, child, below, rfl, -, -⟩ := mem_positionsAll_iff.mp hposition
    exact List.nil_lt_cons _ _

theorem pairwise_positionsAll (first : Nat) : (values : List Value) →
    (positionsAll first values).Pairwise (· < ·)
  | [] => .nil
  | value :: values => by
    rw [positionsAll, List.pairwise_append, List.pairwise_map]
    refine ⟨(pairwise_positions value).imp fun h => List.cons_lt_cons_iff.mpr (.inr ⟨rfl, h⟩),
      pairwise_positionsAll (first + 1) values, fun front hfront back hback => ?_⟩
    obtain ⟨below, -, rfl⟩ := List.mem_map.mp hfront
    obtain ⟨number, child, below', rfl, -, -⟩ := mem_positionsAll_iff.mp hback
    exact List.cons_lt_cons_iff.mpr (.inl (by omega))

end

mutual

/-- The values of a tree in document order are those at its positions in order, and the level of
each is the length of its position. -/
theorem map_some_preorder (level : Nat) : (value : Value) →
    (value.preorder level).map some =
      value.positions.map fun position =>
        (value.at? position).map fun node => (level + position.length, node)
  | .primitive identifier content => rfl
  | .node identifier children contentLength => by
    rw [preorder, positions, List.map_cons, List.map_cons, at?]
    exact congrArg _ (map_some_preorderAll level identifier contentLength [] children)

theorem map_some_preorderAll (level : Nat) (identifier : Octets) (contentLength : Nat)
    (front : List Value) : (values : List Value) →
      (preorderAll (level + 1) values).map some =
        (positionsAll front.length values).map fun position =>
          ((node identifier (front ++ values) contentLength).at? position).map fun node =>
            (level + position.length, node)
  | [] => rfl
  | value :: values => by
    have hrest := map_some_preorderAll level identifier contentLength (front ++ [value]) values
    rw [List.length_append, List.length_singleton, List.append_assoc,
      List.singleton_append] at hrest
    have hfirst : (front ++ value :: values)[front.length]? = some value := by simp
    rw [preorderAll, positionsAll, List.map_append, List.map_append, hrest,
      map_some_preorder (level + 1) value, List.map_map]
    simp only [Function.comp_def, at?, hfirst, Option.bind_some, List.length_cons,
      Nat.add_assoc, Nat.add_comm 1]

end

theorem map_some_listingLines (value : Value) :
    value.listingLines.map some =
      value.positions.map fun position => (value.at? position).map (line position.length) := by
  have hnodes := congrArg (List.map (Option.map fun entry : Nat × Value => entry.2.line entry.1))
    (map_some_preorder 0 value)
  rw [List.map_map, List.map_map] at hnodes
  rw [listingLines_eq, treeLines, List.map_map]
  simpa [Function.comp_def] using hnodes

/-! ## Single lines -/

theorem newline_notMem_text (octets : Octets) : '\n' ∉ (Hex.text octets).toList := by
  intro h
  exact absurd (Hex.mem_digitChars_of_mem_text h) (by decide)

theorem newline_notMem_preview (octets : Octets) (limit : Nat) :
    '\n' ∉ (Hex.preview octets limit).toList := by
  intro h
  exact absurd (Hex.mem_of_mem_preview h) (by decide)

theorem toString_string (s : String) : toString s = s := rfl

/-- The line of a primitive value: its sizes and, if there are any, its first octets. The header has
the identifier octets and the length octets of the encoding. -/
theorem line_primitive (level : Nat) (identifier content : Octets) :
    line level (.primitive identifier content) =
      String.ofList (List.replicate (2 * level) ' ') ++ Hex.text identifier ++ " (" ++
        toString content.length ++ " octets, " ++
        toString (identifier ++ Length.encode content.length).length ++ " header)" ++
        if content = [] then "" else " " ++ Hex.preview content 16 := by
  rw [line, caption, List.length_append, Length.length_encode]
  by_cases hempty : content = []
  · simp only [toString_string, String.append_assoc, List.isEmpty_iff, if_pos hempty,
      String.append_empty]
  · simp only [toString_string, String.append_assoc, List.isEmpty_iff, if_neg hempty, previewLimit]

theorem line_node (level : Nat) (identifier : Octets) (children : List Value)
    (contentLength : Nat) :
    line level (.node identifier children contentLength) =
      String.ofList (List.replicate (2 * level) ' ') ++ Hex.text identifier ++ " constructed (" ++
        toString contentLength ++ " octets, " ++ toString children.length ++
        if children.length = 1 then " child)" else " children)" := by
  rw [line, caption]
  by_cases hone : children.length = 1
  · simp only [toString_string, String.append_assoc, if_pos hone]
    rfl
  · simp only [toString_string, String.append_assoc, if_neg hone]
    rfl

/-- The size in the line of a constructed value is that of its children's encodings. -/
theorem line_constructed (level : Nat) (identifier : Octets) {children : List Value}
    (h : ∀ child ∈ children, child.IsBuilt) :
    line level (.constructed identifier children) =
      String.ofList (List.replicate (2 * level) ' ') ++ Hex.text identifier ++ " constructed (" ++
        toString (children.flatMap toDer).length ++ " octets, " ++ toString children.length ++
        if children.length = 1 then " child)" else " children)" := by
  have hsized : AreSized children := areSized_iff.mpr fun child hchild => (h child hchild).isSized
  rw [constructed, line_node, ← encodeAll_eq_flatMap, length_encodeAll hsized]

theorem newline_notMem_line (level : Nat) (value : Value) : '\n' ∉ (value.line level).toList := by
  cases value with
  | primitive identifier content =>
    rw [line_primitive]
    split
    · simp [newline_notMem_toDigits, newline_notMem_text]
    · simp [newline_notMem_toDigits, newline_notMem_text, newline_notMem_preview]
  | node identifier children contentLength =>
    rw [line_node]
    split
    · simp [newline_notMem_toDigits, newline_notMem_text]
    · simp [newline_notMem_toDigits, newline_notMem_text]

theorem newline_notMem_of_mem_listingLines {value : Value} {text : String}
    (h : text ∈ value.listingLines) : '\n' ∉ text.toList := by
  rw [listingLines_eq, treeLines] at h
  obtain ⟨entry, -, rfl⟩ := List.mem_map.mp h
  exact newline_notMem_line _ _

/-- A listing is the text of the tree by recursion, and cut at the line feeds it gives one line for
each node. The lines stand for the positions of the tree in lexicographic order, all of them and
each once, and a line shows the value at its position, indented by the position's length. A
primitive value is shown with the size of its content, the size of its identifier and length
octets, and at most sixteen octets of its content; a constructed one with the size of its
children's encodings and their number. -/
theorem listing_renders_tree (value : Value) :
    value.listing = value.rendering 0 ∧
      value.listing.toList.splitOn '\n' = value.listingLines.map String.toList ++ [[]] ∧
      value.listingLines.length = value.count ∧
      value.listingLines.map some =
        value.positions.map (fun position => (value.at? position).map (line position.length)) ∧
      value.positions.Pairwise (· < ·) ∧
      (∀ position, position ∈ value.positions ↔ ∃ node, value.at? position = some node) ∧
      (∀ level identifier content, line level (.primitive identifier content) =
        String.ofList (List.replicate (2 * level) ' ') ++ Hex.text identifier ++ " (" ++
          toString content.length ++ " octets, " ++
          toString (identifier ++ Length.encode content.length).length ++ " header)" ++
          if content = [] then "" else
            " " ++ (String.intercalate " " ((content.take 16).map Hex.octet) ++
              if 16 < content.length then " ..." else "")) ∧
      ∀ level identifier children, (∀ child ∈ children, child.IsBuilt) →
        line level (.constructed identifier children) =
          String.ofList (List.replicate (2 * level) ' ') ++ Hex.text identifier ++
            " constructed (" ++ toString (children.flatMap toDer).length ++ " octets, " ++
            toString children.length ++
            if children.length = 1 then " child)" else " children)" := by
  refine ⟨?_, ?_, ?_, map_some_listingLines value, pairwise_positions value,
    fun position => mem_positions_iff, ?_, fun level identifier children h =>
      line_constructed level identifier h⟩
  · rw [listing, listingLines_eq, rendering_eq_join]
  · exact splitOn_join_newline fun text htext => newline_notMem_of_mem_listingLines htext
  · rw [listingLines_eq, treeLines, List.length_map, length_preorder]
  · intro level identifier content
    rw [line_primitive, Hex.preview_eq]

/-- A tree with an element inside of an inner one is listed on four lines. Both children are built
ones, so the line of the outermost element tells the size of their encodings. -/
theorem listing_renders_tree_nested :
    (constructed [0x30] [.primitive [0x06] [0x55, 0x04, 0x03],
      constructed [0x31] [.primitive [0x04] [0xca, 0xfe]]]).listing =
      "30 constructed (11 octets, 2 children)\n  06 (3 octets, 2 header) 55 04 03\n" ++
        "  31 constructed (4 octets, 1 child)\n    04 (2 octets, 2 header) ca fe\n" ∧
      (∀ child ∈ [.primitive [0x06] [0x55, 0x04, 0x03],
        constructed [0x31] [.primitive [0x04] [0xca, 0xfe]]], child.IsBuilt) ∧
      line 0 (constructed [0x30] [.primitive [0x06] [0x55, 0x04, 0x03],
        constructed [0x31] [.primitive [0x04] [0xca, 0xfe]]]) =
        "30 constructed (11 octets, 2 children)" := by
  have hinner : (constructed [0x31] [.primitive [0x04] [0xca, 0xfe]]).IsBuilt := by
    apply IsBuilt.constructed
    rw [List.forall_mem_singleton]
    exact .primitive _ _
  have hbuilt : ∀ child ∈ [.primitive [0x06] [0x55, 0x04, 0x03],
      constructed [0x31] [.primitive [0x04] [0xca, 0xfe]]], child.IsBuilt := by
    rw [List.forall_mem_cons, List.forall_mem_singleton]
    exact ⟨.primitive _ _, hinner⟩
  obtain ⟨hlisting, -, -, -, -, -, -, hconstructed⟩ := listing_renders_tree
    (constructed [0x30] [.primitive [0x06] [0x55, 0x04, 0x03],
      constructed [0x31] [.primitive [0x04] [0xca, 0xfe]]])
  refine ⟨?_, hbuilt, ?_⟩
  · rw [hlisting]
    decide +kernel
  · rw [hconstructed 0 [0x30] _ hbuilt]
    decide +kernel

end Asn1.Value
