import Asn1.Proofs.Value.Decode

/-!
# Decoding what was encoded

A tree built by hand can have any identifiers, any contents and any depth, and it is encoded all
the same. Its encoding is decoded to the tree again exactly when every node has a complete
identifier of its own kind and a content that four length octets can count, and when no path from
the root holds more constructed values than the limit (`decode_toDer_iff`).
-/

namespace Asn1.Value

open Ber

/-! ## Paths -/

/-- The values on the way from the root of a tree down to one of its nodes. -/
inductive IsPath : Value → List Value → Prop
  | root (value : Value) : IsPath value [value]
  | down {identifier : Octets} {children path : List Value} {contentLength : Nat} {child : Value}
      (hchild : child ∈ children) (hpath : IsPath child path) :
      IsPath (.node identifier children contentLength)
        (.node identifier children contentLength :: path)

theorem depth_le_depthAll {values : List Value} {value : Value} (h : value ∈ values) :
    value.depth ≤ depthAll values := by
  induction values with
  | nil => simp at h
  | cons first rest ih =>
    rw [depthAll]
    rcases List.mem_cons.mp h with rfl | h
    · exact Nat.le_max_left _ _
    · exact Nat.le_trans (ih h) (Nat.le_max_right _ _)

theorem IsPath.count_le_depth {value : Value} {path : List Value} (h : IsPath value path) :
    path.countP isConstructed ≤ value.depth := by
  induction h with
  | root value => cases value <;> simp [isConstructed, depth]
  | @down identifier children path contentLength child hchild _ ih =>
    have hdepth := depth_le_depthAll hchild
    rw [List.countP_cons_of_pos rfl, depth]
    omega

mutual

/-- Some path holds as many constructed values as the depth says. -/
theorem exists_path_depth :
    (value : Value) → ∃ path, IsPath value path ∧ path.countP isConstructed = value.depth
  | .primitive identifier content => ⟨_, .root _, rfl⟩
  | .node identifier children contentLength => by
    rcases exists_path_depthAll children with hzero | ⟨child, hchild, path, hpath, hcount⟩
    · refine ⟨_, .root _, ?_⟩
      rw [depth, hzero]
      rfl
    · refine ⟨_, .down hchild hpath, ?_⟩
      rw [List.countP_cons_of_pos rfl, hcount, depth, Nat.add_comm]

theorem exists_path_depthAll : (values : List Value) → depthAll values = 0 ∨
    ∃ value ∈ values, ∃ path, IsPath value path ∧ path.countP isConstructed = depthAll values
  | [] => .inl rfl
  | value :: values => by
    obtain ⟨path, hpath, hcount⟩ := exists_path_depth value
    rw [depthAll]
    rcases Nat.le_total (depthAll values) value.depth with hle | hle
    · rw [Nat.max_eq_left hle]
      exact .inr ⟨value, by simp, path, hpath, hcount⟩
    · rw [Nat.max_eq_right hle]
      rcases exists_path_depthAll values with hzero | ⟨other, hother, hpath⟩
      · exact .inl hzero
      · exact .inr ⟨other, by simp [hother], hpath⟩

end

/-- The depth is the greatest number of constructed values on a path. -/
theorem depth_le_iff {value : Value} {limit : Nat} :
    value.depth ≤ limit ↔ ∀ path, IsPath value path → path.countP isConstructed ≤ limit := by
  constructor
  · intro hdepth path hpath
    exact Nat.le_trans hpath.count_le_depth hdepth
  · intro hall
    obtain ⟨path, hpath, hcount⟩ := exists_path_depth value
    exact hcount ▸ hall path hpath

/-! ## Nodes -/

/-- The values of a tree in document order, the root first. -/
def nodes (value : Value) : List Value :=
  (value.preorder 0).map Prod.snd

/-- A value that an element of its own could have, whatever its children are. -/
def IsEncodable (value : Value) : Prop :=
  IsIdentifier value.identifier ∧
    Identifier.isConstructed value.identifier = value.isConstructed ∧
    value.contentLength < 256 ^ 4

mutual

/-- A sized value is well-formed when each node is encodable. -/
theorem isWellFormed_iff_preorder : (level : Nat) → {value : Value} → value.IsSized →
    (value.IsWellFormed ↔ ∀ entry ∈ value.preorder level, entry.2.IsEncodable)
  | level, .primitive identifier content, _ => by
    simp [IsWellFormed, preorder, IsEncodable, Value.identifier, isConstructed, contentLength]
  | level, .node identifier children n, h => by
    rw [IsSized] at h
    have hchildren := areWellFormed_iff_preorder (level + 1) h.2
    simp only [IsWellFormed, preorder, List.forall_mem_cons, ← hchildren]
    simp [IsEncodable, Value.identifier, isConstructed, contentLength, h.1, and_assoc]

theorem areWellFormed_iff_preorder : (level : Nat) → {values : List Value} → AreSized values →
    (AreWellFormed values ↔ ∀ entry ∈ preorderAll level values, entry.2.IsEncodable)
  | level, [], _ => by simp [AreWellFormed, preorderAll]
  | level, value :: values, h => by
    rw [AreSized] at h
    rw [AreWellFormed, preorderAll, List.forall_mem_append, isWellFormed_iff_preorder level h.1,
      areWellFormed_iff_preorder level h.2]

end

theorem isWellFormed_iff_nodes {value : Value} (h : value.IsSized) :
    value.IsWellFormed ↔ ∀ node ∈ value.nodes, node.IsEncodable := by
  rw [isWellFormed_iff_preorder 0 h, nodes, List.forall_mem_map]

/-! ## The encoding of a tree -/

/-- Decoding undoes encoding for well-formed values within the limit, and for no others. -/
theorem decode_encode_iff_isWellFormed {value : Value} {limit : Nat} :
    decode value.encode limit = .ok value ↔
      value.IsWellFormed ∧ value.depth ≤ min limit depthCap := by
  rw [decode_eq_ok_iff]
  constructor
  · rintro ⟨h, hdepth⟩
    exact ⟨isWellFormed_of_isElement h, hdepth⟩
  · rintro ⟨h, hdepth⟩
    exact ⟨isElement_encode h, hdepth⟩

/-- A tree is decoded from its own encoding if and only if all its identifiers are complete, they
tell its constructed nodes from its primitive ones, all its contents are shorter than `2 ^ 32`
octets, and no path from the root holds more constructed values than the limit. -/
theorem decode_toDer_iff {value : Value} (h : value.IsSized) (limit : Nat) :
    decode value.toDer limit = .ok value ↔
      (∀ node ∈ value.nodes, IsIdentifier node.identifier) ∧
        (∀ node ∈ value.nodes,
          node.isConstructed = true ↔ Identifier.isConstructed node.identifier = true) ∧
        (∀ node ∈ value.nodes, node.contentLength < 2 ^ 32) ∧
        ∀ path, IsPath value path → path.countP isConstructed ≤ min limit depthCap := by
  rw [toDer_eq_encode, decode_encode_iff_isWellFormed, isWellFormed_iff_nodes h, depth_le_iff]
  constructor
  · rintro ⟨hnodes, hpaths⟩
    refine ⟨fun node hnode => (hnodes node hnode).1, fun node hnode => ?_,
      fun node hnode => (hnodes node hnode).2.2, hpaths⟩
    rw [(hnodes node hnode).2.1]
  · rintro ⟨hidentifiers, hkinds, hcontents, hpaths⟩
    refine ⟨fun node hnode => ⟨hidentifiers node hnode, ?_, hcontents node hnode⟩, hpaths⟩
    exact Bool.eq_iff_iff.mpr (hkinds node hnode).symm

/-- A nested tree with a long identifier is decoded again. A primitive value under the identifier
of a constructed one is not, because it is in conflict with its identifier. -/
theorem decode_toDer_nested :
    (constructed [0x30] [.primitive [0x1f, 0x81, 0x01] [1], constructed [0xa0] []]).IsSized ∧
      decode (constructed [0x30]
          [.primitive [0x1f, 0x81, 0x01] [1], constructed [0xa0] []]).toDer 2 =
        .ok (constructed [0x30] [.primitive [0x1f, 0x81, 0x01] [1], constructed [0xa0] []]) ∧
      (∀ path, IsPath (constructed [0x30]
          [.primitive [0x1f, 0x81, 0x01] [1], constructed [0xa0] []]) path →
        path.countP isConstructed ≤ 2) ∧
      (primitive [0x30] []).IsSized ∧
      decode (primitive [0x30] []).toDer 2 ≠ .ok (primitive [0x30] []) := by
  have hnested : (constructed [0x30]
      [.primitive [0x1f, 0x81, 0x01] [1], constructed [0xa0] []]).IsSized := by
    simp [constructed, IsSized, AreSized]
  have hdecode : decode (constructed [0x30]
      [.primitive [0x1f, 0x81, 0x01] [1], constructed [0xa0] []]).toDer 2 =
        .ok (constructed [0x30] [.primitive [0x1f, 0x81, 0x01] [1], constructed [0xa0] []]) := by
    cbv
  have hprimitive := isSized_primitive [0x30] []
  refine ⟨hnested, hdecode, ((decode_toDer_iff hnested 2).mp hdecode).2.2.2, hprimitive, ?_⟩
  intro hconflict
  have hkinds := ((decode_toDer_iff hprimitive 2).mp hconflict).2.1
  exact absurd (hkinds (primitive [0x30] []) (by simp [nodes, preorder])) (by decide)

end Asn1.Value
