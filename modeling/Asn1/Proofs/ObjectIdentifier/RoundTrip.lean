import Asn1.Proofs.ObjectIdentifier.Base128

/-!
# Content octets and object identifiers back and forth

The first two arcs of an object identifier go into one number, which has to have room in 64 bits and
to show where one arc ends and the other begins. Object identifiers with such arcs are those that can
be written (`toContent_of_isEncodable`, `toContent_of_not_isEncodable`) and those that are read
(`packArcs_of_ofContent`). What is written is read back (`ofContent_of_toContent`), but reading also
takes padded subidentifiers, and writing gives the shortest ones (`toContent_of_ofContent`). So octets
are kept by reading and writing exactly when they have no padding.
-/

namespace Asn1.ObjectIdentifier

variable {oid : ObjectIdentifier} {content : Octets}

/-- The numbers of the subidentifiers. The first one packs the first two arcs. -/
def packArcs (oid : ObjectIdentifier) : List Nat :=
  (oid.first.toNat * 40 + oid.second.toNat) :: oid.rest.map UInt64.toNat

/-- The first two arcs can be packed: under 0 and 1 the second one is below 40, and under 2 there is
room for it behind 80. -/
def IsEncodable (oid : ObjectIdentifier) : Prop :=
  (oid.first.toNat < 2 ∧ oid.second.toNat < 40) ∨
    (oid.first.toNat = 2 ∧ oid.second.toNat ≤ 2 ^ 64 - 81)

/-! ## Packed arcs -/

theorem unpackArcs_packArcs (h : IsEncodable oid) :
    unpackArcs (packArcs oid) = oid.arcs.map UInt64.toNat := by
  rw [packArcs, unpackArcs, arcs, List.map_cons, List.map_cons]
  rcases h with ⟨hfirst, hsecond⟩ | ⟨hfirst, -⟩
  · by_cases hzero : oid.first.toNat = 0
    · rw [if_pos (by omega), hzero, Nat.zero_mul, Nat.zero_add]
    · have hone : oid.first.toNat = 1 := by omega
      rw [if_neg (by omega), if_pos (by omega), hone, Nat.one_mul, Nat.add_sub_cancel_left]
  · rw [if_neg (by omega), if_neg (by omega), hfirst, Nat.add_sub_cancel_left]

/-- A number falls into two arcs that can be packed into it. -/
theorem unpackArcs_cons (head : Nat) (rest : List Nat) :
    ∃ first second, unpackArcs (head :: rest) = first :: second :: rest ∧
      head = first * 40 + second ∧ ((first < 2 ∧ second < 40) ∨ first = 2) := by
  rw [unpackArcs]
  by_cases hzero : head < 40
  · exact ⟨0, head, if_pos hzero, by omega, by omega⟩
  · rw [if_neg hzero]
    by_cases hone : head < 80
    · exact ⟨1, head - 40, if_pos hone, by omega, by omega⟩
    · exact ⟨2, head - 80, if_neg hone, by omega, by omega⟩

/-- Arcs that come from a number of 64 bits can be packed, and give that number again. -/
theorem packArcs_of_unpackArcs {head : Nat} {rest : List Nat} (hhead : head < UInt64.size)
    (h : oid.arcs.map UInt64.toNat = unpackArcs (head :: rest)) :
    IsEncodable oid ∧ packArcs oid = head :: rest := by
  obtain ⟨first, second, hunpack, hsum, hrange⟩ := unpackArcs_cons head rest
  rw [hunpack, arcs, List.map_cons, List.map_cons, List.cons.injEq, List.cons.injEq] at h
  obtain ⟨hfirst, hsecond, hrest⟩ := h
  simp only [UInt64.size] at hhead
  rw [IsEncodable, packArcs, hfirst, hsecond, hrest, hsum]
  exact ⟨by omega, rfl⟩

theorem lt_of_mem_packArcs (h : IsEncodable oid) : ∀ n ∈ packArcs oid, n < UInt64.size := by
  have hhead : oid.first.toNat * 40 + oid.second.toNat < UInt64.size := by
    unfold IsEncodable at h
    simp only [UInt64.size]
    omega
  rw [packArcs, List.forall_mem_cons, List.forall_mem_map]
  exact ⟨hhead, fun arc _ => arc.toNat_lt⟩

/-! ## Writing -/

/-- The writer looks at the arcs as words. -/
theorem invalidFirstArcs_iff :
    (2 < oid.first ∨ (oid.first < 2 ∧ 40 ≤ oid.second)) ↔
      2 < oid.first.toNat ∨ (oid.first.toNat < 2 ∧ 40 ≤ oid.second.toNat) := by
  rw [UInt64.lt_iff_toNat_lt, UInt64.lt_iff_toNat_lt, UInt64.le_iff_toNat_le]
  rfl

theorem toContent_of_isEncodable (h : IsEncodable oid) :
    toContent oid = .ok ((packArcs oid).flatMap base128) := by
  have hhead : oid.first.toNat * 40 + oid.second.toNat < UInt64.size :=
    lt_of_mem_packArcs h _ List.mem_cons_self
  have hvalid : ¬ (2 < oid.first ∨ (oid.first < 2 ∧ 40 ≤ oid.second)) := by
    unfold IsEncodable at h
    rw [invalidFirstArcs_iff]
    omega
  rw [toContent, if_neg hvalid]
  simp only [if_neg (Nat.not_le.mpr hhead), packArcs, List.flatMap_cons, List.flatMap_map]

/-- Only under 2 the reason is that the two arcs have no room. -/
theorem toContent_of_not_isEncodable (h : ¬ IsEncodable oid) :
    toContent oid = .error
      (if oid.first = 2 then .arcOverflow else .invalidFirstArcs oid.first oid.second) := by
  unfold IsEncodable at h
  by_cases hfirst : oid.first = 2
  · have hval : oid.first.toNat = 2 := by rw [hfirst]; rfl
    have hvalid : ¬ (2 < oid.first ∨ (oid.first < 2 ∧ 40 ≤ oid.second)) := by
      rw [invalidFirstArcs_iff]
      omega
    have hwide : UInt64.size ≤ oid.first.toNat * 40 + oid.second.toNat := by
      simp only [UInt64.size]
      omega
    rw [toContent, if_neg hvalid, if_pos hfirst]
    simp only [if_pos hwide]
  · have hval : oid.first.toNat ≠ 2 := fun hval => hfirst (UInt64.toNat_inj.mp hval)
    have hinvalid : 2 < oid.first ∨ (oid.first < 2 ∧ 40 ≤ oid.second) := by
      rw [invalidFirstArcs_iff]
      omega
    rw [toContent, if_pos hinvalid, if_neg hfirst]

theorem toContent_eq_ok_iff :
    toContent oid = .ok content ↔ IsEncodable oid ∧ content = (packArcs oid).flatMap base128 := by
  by_cases h : IsEncodable oid
  · rw [toContent_of_isEncodable h, Except.ok.injEq]
    exact ⟨fun heq => ⟨h, heq.symm⟩, fun heq => heq.2.symm⟩
  · rw [toContent_of_not_isEncodable h]
    exact ⟨fun heq => (nomatch heq), fun heq => absurd heq.1 h⟩

/-! ## Reading what was written -/

theorem isShortest_of_toContent (h : toContent oid = .ok content) : IsShortest content := by
  rw [(toContent_eq_ok_iff.mp h).2]
  exact isShortest_flatMap_base128

theorem ofContent_of_toContent (h : toContent oid = .ok content) : ofContent content = .ok oid := by
  obtain ⟨hencodable, hcontent⟩ := toContent_eq_ok_iff.mp h
  have hnumbers : (subidentifiers content).map base128Value = packArcs oid := by
    rw [hcontent, map_base128Value_flatMap_base128]
  have hne : content ≠ [] := by
    intro hnil
    rw [hnil] at hnumbers
    exact List.cons_ne_nil _ _ hnumbers.symm
  have hfits : Fits content := by
    intro subidentifier hmem
    apply lt_of_mem_packArcs hencodable
    rw [← hnumbers]
    exact List.mem_map_of_mem hmem
  have hclosed : ¬ EndsOpen content := by
    rw [hcontent]
    exact not_endsOpen_flatMap_base128
  rcases ofContent_cases hne with ⟨hwide, -⟩ | ⟨-, hopen, -⟩ | ⟨-, -, read, hread, harcs⟩
  · exact absurd hfits hwide
  · exact absurd hopen hclosed
  · rw [hnumbers, unpackArcs_packArcs hencodable] at harcs
    have heq : read.arcs = oid.arcs :=
      List.map_injective_iff.mpr (fun _ _ => UInt64.toNat_inj.mp) harcs
    rw [hread, arcs_injective heq]

/-! ## Writing what was read -/

/-- What is read has arcs that can be packed, and they are packed in the octets. -/
theorem packArcs_of_ofContent (h : ofContent content = .ok oid) :
    IsEncodable oid ∧ packArcs oid = (subidentifiers content).map base128Value ∧
      ¬ EndsOpen content := by
  have hne : content ≠ [] := by
    intro hnil
    rw [hnil] at h
    nomatch h
  rcases ofContent_cases hne with ⟨-, heq⟩ | ⟨-, -, heq⟩ | ⟨hfits, hclosed, read, heq, harcs⟩
  · rw [heq] at h
    nomatch h
  · rw [heq] at h
    nomatch h
  · rw [heq, Except.ok.injEq] at h
    subst h
    obtain ⟨first, others, hcut⟩ :=
      List.exists_cons_of_ne_nil (mt subidentifiers_eq_nil_iff.mp hne)
    have hfirst : base128Value first < UInt64.size := hfits first (by simp [hcut])
    rw [hcut, List.map_cons] at harcs ⊢
    obtain ⟨hencodable, hpacked⟩ := packArcs_of_unpackArcs hfirst harcs
    exact ⟨hencodable, hpacked, hclosed⟩

/-- Writing what was read drops the padding and nothing else. -/
theorem toContent_of_ofContent (h : ofContent content = .ok oid) :
    toContent oid = .ok (shortest content) := by
  obtain ⟨hencodable, hpacked, hclosed⟩ := packArcs_of_ofContent h
  rw [toContent_of_isEncodable hencodable, hpacked, flatMap_base128_map_base128Value hclosed]

/-- Object identifiers that can be written are told apart by their octets. -/
theorem eq_of_toContent {other : ObjectIdentifier} (h : toContent oid = .ok content)
    (hother : toContent other = .ok content) : other = oid := by
  have hread := ofContent_of_toContent h
  rw [ofContent_of_toContent hother, Except.ok.injEq] at hread
  exact hread

/-- An object identifier can be written when its first two arcs can be packed, and the error says
which of the two reasons there is against it. What is written has no padding and is read back, and
whatever is read can be written. -/
theorem ofContent_inverts_toContent (oid : ObjectIdentifier) :
    ((∃ content, toContent oid = .ok content) ↔
        (oid.first.toNat < 2 ∧ oid.second.toNat < 40) ∨
          (oid.first.toNat = 2 ∧ oid.second.toNat ≤ 2 ^ 64 - 81)) ∧
      (∀ error, toContent oid = .error error →
        error = if oid.first = 2 then .arcOverflow else .invalidFirstArcs oid.first oid.second) ∧
      (∀ content, toContent oid = .ok content →
        ofContent content = .ok oid ∧
          ∀ subidentifier ∈ subidentifiers content, subidentifier.head? ≠ some 0x80) ∧
      ∀ content, ofContent content = .ok oid → ∃ written, toContent oid = .ok written := by
  refine ⟨⟨?_, ?_⟩, ?_, ?_, ?_⟩
  · rintro ⟨content, h⟩
    exact (toContent_eq_ok_iff.mp h).1
  · intro hencodable
    exact ⟨_, toContent_of_isEncodable hencodable⟩
  · intro error herror
    by_cases hencodable : IsEncodable oid
    · rw [toContent_of_isEncodable hencodable] at herror
      nomatch herror
    · rw [toContent_of_not_isEncodable hencodable, Except.error.injEq] at herror
      exact herror.symm
  · intro content h
    exact ⟨ofContent_of_toContent h, isShortest_of_toContent h⟩
  · intro content h
    exact ⟨shortest content, toContent_of_ofContent h⟩

/-- Under 2 the greatest second arc fills 64 bits, and the next one has no room. -/
example :
    toContent ⟨2, 18446744073709551535, []⟩ =
        .ok [0x81, 0xff, 0xff, 0xff, 0xff, 0xff, 0xff, 0xff, 0xff, 0x7f] ∧
      toContent ⟨2, 18446744073709551536, []⟩ = .error .arcOverflow := by
  decide +kernel

/-- Octets with padding are read, and writing drops the padding. So octets are written as they were
read exactly when no subidentifier starts with the octet 80, and two octet strings are read as one
object identifier exactly when they differ in padding only. -/
theorem toContent_drops_padding {content : Octets} {oid : ObjectIdentifier}
    (h : ofContent content = .ok oid) :
    toContent oid = .ok (shortest content) ∧
      (toContent oid = .ok content ↔ IsShortest content) ∧
      ∀ content' oid', ofContent content' = .ok oid' →
        (oid' = oid ↔ shortest content' = shortest content) := by
  have hwritten := toContent_of_ofContent h
  refine ⟨hwritten, ⟨isShortest_of_toContent, ?_⟩, ?_⟩
  · intro hshortest
    rw [hwritten, shortest_eq_self hshortest]
  · intro content' oid' h'
    have hwritten' := toContent_of_ofContent h'
    constructor
    · intro heq
      rw [heq, hwritten, Except.ok.injEq] at hwritten'
      exact hwritten'.symm
    · intro heq
      rw [heq] at hwritten'
      exact eq_of_toContent hwritten hwritten'

/-- Two octets of padding inside of the content are dropped. -/
theorem toContent_drops_padding_inside :
    ofContent [0x88, 0x37, 0x80, 0x80, 0x05] = .ok ⟨2, 999, [5]⟩ ∧
      toContent ⟨2, 999, [5]⟩ = .ok (shortest [0x88, 0x37, 0x80, 0x80, 0x05]) ∧
      shortest [0x88, 0x37, 0x80, 0x80, 0x05] = [0x88, 0x37, 0x05] :=
  ⟨by decide, (toContent_drops_padding (by decide)).1, by decide⟩

/-- The octets 80 01 are read as 0.1, which is written as 01, and 01 is read as 0.1 too. -/
theorem padding_not_kept :
    ofContent [0x80, 0x01] = .ok ⟨0, 1, []⟩ ∧ toContent ⟨0, 1, []⟩ ≠ .ok [0x80, 0x01] ∧
      ofContent [0x01] = .ok ⟨0, 1, []⟩ := by
  decide +kernel

end Asn1.ObjectIdentifier
