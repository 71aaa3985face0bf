import Asn1.Proofs.Value.RoundTrip

/-!
# Foreseen sizes

The sizes of a built value are computed from the leaves to the root and fixed there, while it is
written from the root to the leaves. At every node the two agree: as many octets are written as were
foreseen, and the length in a header is the size of what follows it (`writes_foreseen_sizes`). What
holds of a tree and passes from a node to its children holds of all nodes
(`PassesDown.forall_mem_nodes`), and that a node is sized and written within the tree is of that kind.
-/

namespace Asn1.Value

open Ber

/-! ## Built values -/

/-- The values that can be built: any content under any identifier, and any built values under any
identifier. -/
inductive IsBuilt : Value → Prop
  | primitive (identifier content : Octets) : IsBuilt (.primitive identifier content)
  | constructed (identifier : Octets) {children : List Value}
      (hchildren : ∀ child ∈ children, IsBuilt child) :
      IsBuilt (.constructed identifier children)

theorem areSized_iff {values : List Value} :
    AreSized values ↔ ∀ value ∈ values, value.IsSized := by
  induction values with
  | nil => simp [AreSized]
  | cons value values ih => rw [AreSized, List.forall_mem_cons, ih]

theorem IsBuilt.isSized {value : Value} (h : value.IsBuilt) : value.IsSized := by
  induction h with
  | primitive identifier content => exact isSized_primitive identifier content
  | constructed identifier _ ih => exact isSized_constructed (areSized_iff.mpr ih)

/-! ## All nodes of a tree -/

/-- The property passes from a node to its children. -/
def PassesDown (P : Value → Prop) : Prop :=
  ∀ node children, P node → node.children? = some children → ∀ child ∈ children, P child

mutual

theorem PassesDown.forall_mem_preorder {P : Value → Prop} (hdown : PassesDown P) :
    (level : Nat) → {value : Value} → P value → ∀ entry ∈ value.preorder level, P entry.2
  | level, .primitive identifier content, h => by simpa [preorder] using h
  | level, .node identifier children n, h => by
    rw [preorder, List.forall_mem_cons]
    exact ⟨h, hdown.forall_mem_preorderAll (level + 1) (hdown _ _ h rfl)⟩

theorem PassesDown.forall_mem_preorderAll {P : Value → Prop} (hdown : PassesDown P) :
    (level : Nat) → {values : List Value} → (∀ value ∈ values, P value) →
      ∀ entry ∈ preorderAll level values, P entry.2
  | level, [], _ => by simp [preorderAll]
  | level, value :: values, h => by
    rw [List.forall_mem_cons] at h
    rw [preorderAll, List.forall_mem_append]
    exact ⟨hdown.forall_mem_preorder level h.1, hdown.forall_mem_preorderAll level h.2⟩

end

/-- What passes from a node to its children holds of all nodes if it holds of the root. -/
theorem PassesDown.forall_mem_nodes {P : Value → Prop} (hdown : PassesDown P) {value : Value}
    (h : P value) : ∀ node ∈ value.nodes, P node := by
  rw [nodes, List.forall_mem_map]
  exact hdown.forall_mem_preorder 0 h

theorem self_mem_nodes (value : Value) : value ∈ value.nodes := by
  cases value <;> simp [nodes, preorder]

/-! ## Nodes as they are written -/

theorem encodeAll_eq_flatMap (values : List Value) : encodeAll values = values.flatMap toDer := by
  induction values with
  | nil => rfl
  | cons value values ih => rw [encodeAll, List.flatMap_cons, toDer_eq_encode, ih]

theorem encode_isInfix_encodeAll {values : List Value} {value : Value} (h : value ∈ values) :
    value.encode <:+: encodeAll values := by
  obtain ⟨front, back, rfl⟩ := List.append_of_mem h
  rw [encodeAll_eq_flatMap, List.flatMap_append, List.flatMap_cons, toDer_eq_encode,
    ← List.append_assoc]
  exact List.infix_append _ _ _

/-- A constructed node is written as its identifier, its stored length and its children. -/
theorem encode_of_children {node : Value} {children : List Value}
    (h : node.children? = some children) :
    node.encode = node.identifier ++ Length.encode node.contentLength ++ encodeAll children := by
  cases node with
  | primitive identifier content => cases h
  | node identifier children' n =>
    cases h
    rw [encode, Value.identifier, contentLength]

theorem IsSized.of_children {node : Value} {children : List Value} (hsized : node.IsSized)
    (h : node.children? = some children) :
    node.contentLength = totalLength children ∧ AreSized children := by
  cases node with
  | primitive identifier content => cases h
  | node identifier children' n =>
    cases h
    rwa [IsSized] at hsized

/-- A node as it stands in a tree: its stored sizes are right, and what is written of it is a stretch
of what is written of the tree. -/
structure IsPartOf (node tree : Value) : Prop where
  isSized : node.IsSized
  isInfix : node.encode <:+: tree.encode

theorem passesDown_isPartOf (tree : Value) : PassesDown fun node => node.IsPartOf tree := by
  intro node children h hchildren child hchild
  obtain ⟨-, hsized⟩ := h.isSized.of_children hchildren
  refine ⟨areSized_iff.mp hsized child hchild, ?_⟩
  have hinside : encodeAll children <:+: node.encode := by
    rw [encode_of_children hchildren]
    exact (List.suffix_append _ _).isInfix
  exact (encode_isInfix_encodeAll hchild).trans (hinside.trans h.isInfix)

theorem isPartOf_of_mem_nodes {tree : Value} (h : tree.IsSized) :
    ∀ node ∈ tree.nodes, node.IsPartOf tree :=
  (passesDown_isPartOf tree).forall_mem_nodes ⟨h, List.infix_refl _⟩

/-- In a header stands the size of the content, as long as 126 octets can hold it. -/
theorem isDefinite_contentLength_iff {node : Value} {children : List Value} (hsized : node.IsSized)
    (hchildren : node.children? = some children) (hmax : node.contentLength < 256 ^ 126) (n : Nat) :
    Length.IsDefinite (Length.encode node.contentLength) n ↔ n = (encodeAll children).length := by
  obtain ⟨hstored, hall⟩ := hsized.of_children hchildren
  rw [length_encodeAll hall, ← hstored]
  constructor
  · intro h
    exact h.unique (Length.isDefinite_encode hmax)
  · rintro rfl
    exact Length.isDefinite_encode hmax

/-- A built value is written with as many octets as were foreseen for it, behind whatever stands in
the buffer. The same holds of every node in it, and the header of every constructed node tells the
number of octets written for its children, which is the stored one. -/
theorem writes_foreseen_sizes {value : Value} (hbuilt : value.IsBuilt)
    (hsize : value.toDer.length < 2 ^ 64) :
    value.toDer.length = value.encodedLength ∧
      (∀ out, (value.write out).toList = out.toList ++ value.toDer) ∧
      ∀ node ∈ value.nodes,
        node.toDer <:+: value.toDer ∧ node.toDer.length = node.encodedLength ∧
        ∀ children, node.children? = some children →
          node.toDer = node.identifier ++ Length.encode node.contentLength ++
            children.flatMap toDer ∧
          (∀ n, Length.IsDefinite (Length.encode node.contentLength) n ↔
            n = (children.flatMap toDer).length) ∧
          (children.flatMap toDer).length = node.contentLength := by
  have hsized := hbuilt.isSized
  simp only [toDer_eq_encode, ← encodeAll_eq_flatMap] at hsize ⊢
  refine ⟨length_encode hsized, fun out => toList_write out value, fun node hnode => ?_⟩
  have hpart := isPartOf_of_mem_nodes hsized node hnode
  refine ⟨hpart.isInfix, length_encode hpart.isSized, fun children hchildren => ?_⟩
  have hwritten := encode_of_children hchildren
  obtain ⟨hstored, hall⟩ := hpart.isSized.of_children hchildren
  have hlength : (encodeAll children).length = node.contentLength := by
    rw [length_encodeAll hall, hstored]
  -- The content is part of the whole, so its size has room in the long form.
  have hle := hpart.isInfix.length_le
  rw [hwritten, List.length_append] at hle
  have hwide : (2 : Nat) ^ 64 ≤ 256 ^ 126 := by decide
  exact ⟨hwritten, isDefinite_contentLength_iff hpart.isSized hchildren (by omega), hlength⟩

/-- An incomplete identifier and an empty one do not matter to the sizes. Around a content of 130
octets all lengths are in the long form, and the outer one tells the 134 octets inside. -/
theorem writes_foreseen_sizes_long :
    (constructed [0x30] [.primitive [0x1f] (List.replicate 130 7), constructed [] []]).IsBuilt ∧
      (constructed [0x30]
        [.primitive [0x1f] (List.replicate 130 7), constructed [] []]).toDer.length = 137 ∧
      ∀ n, Length.IsDefinite [0x81, 0x86] n ↔ n = 134 := by
  have hbuilt : (constructed [0x30]
      [.primitive [0x1f] (List.replicate 130 7), constructed [] []]).IsBuilt := by
    refine .constructed _ ?_
    simp only [List.forall_mem_cons, List.not_mem_nil, false_implies, implies_true, and_true]
    exact ⟨.primitive _ _, .constructed _ (by simp)⟩
  have hsize : (constructed [0x30]
      [.primitive [0x1f] (List.replicate 130 7), constructed [] []]).toDer.length = 137 := by
    decide +kernel
  obtain ⟨-, -, hnodes⟩ := writes_foreseen_sizes hbuilt (by rw [hsize]; decide)
  obtain ⟨-, -, hroot⟩ := hnodes _ (self_mem_nodes _)
  obtain ⟨-, hheader, hstored⟩ := hroot _ rfl
  have hcontent : (([.primitive [0x1f] (List.replicate 130 7), constructed [] []] :
      List Value).flatMap toDer).length = 134 := by
    decide +kernel
  have hlength : Length.encode 134 = [0x81, 0x86] := by decide +kernel
  rw [← hstored, hcontent, hlength] at hheader
  exact ⟨hbuilt, hsize, hheader⟩

end Asn1.Value
