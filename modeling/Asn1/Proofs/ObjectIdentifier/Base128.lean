import Asn1.Proofs.ObjectIdentifier.Content

/-!
# Subidentifiers as they are written

A subidentifier that has its end is groups with the high bit set and one octet more. Each number is
written as one of those, with a first octet that is not 80 (`isTerminated_base128`,
`head?_base128_ne`), and its number is read off again (`base128Value_base128`). The other way round,
writing the number of a subidentifier gives the subidentifier without its padding
(`base128_base128Value`). Numbers written one behind another are cut at the same places again
(`subidentifiers_flatMap_base128`).
-/

namespace Asn1.ObjectIdentifier

/-- Groups with the high bit set and a last octet without it. -/
inductive IsTerminated : Octets → Prop
  | intro {groups : Octets} {last : UInt8} (hgroups : ∀ octet ∈ groups, 0x80 ≤ octet)
      (hlast : last < 0x80) : IsTerminated (groups ++ [last])

/-! ## The groups in front of the last octet -/

theorem highGroups_append (n : Nat) (front back : Octets) :
    highGroups n (front ++ back) = highGroups n front ++ back := by
  fun_induction highGroups n front with
  | case1 => simp [highGroups]
  | case2 n front hn ih =>
    rw [highGroups, if_neg hn]
    exact ih

@[simp] theorem highGroups_zero : highGroups 0 [] = [] := by
  simp [highGroups]

theorem highGroups_concat {n : Nat} (h : n ≠ 0) :
    highGroups n [] = highGroups (n / 128) [] ++ [UInt8.ofNat (n % 128 + 128)] := by
  rw [highGroups, if_neg h, ← highGroups_append, List.nil_append]

/-- What holds of no groups, and of groups with one more behind them, holds of all numbers. -/
theorem highGroups_induction {P : Nat → Octets → Prop} (zero : P 0 [])
    (concat : ∀ n, n ≠ 0 → P (n / 128) (highGroups (n / 128) []) →
      P n (highGroups (n / 128) [] ++ [UInt8.ofNat (n % 128 + 128)])) (n : Nat) :
    P n (highGroups n []) := by
  induction n using Nat.strongRecOn with
  | ind n ih =>
    by_cases hn : n = 0
    · subst hn
      rw [highGroups_zero]
      exact zero
    · rw [highGroups_concat hn]
      exact concat n hn (ih (n / 128) (by omega))

theorem toNat_group (n : Nat) : (UInt8.ofNat (n % 128 + 128)).toNat = n % 128 + 128 :=
  Ber.Length.toNat_ofNat_of_lt (by omega)

theorem toNat_last (n : Nat) : (UInt8.ofNat (n % 128)).toNat = n % 128 :=
  Ber.Length.toNat_ofNat_of_lt (by omega)

theorem le_of_mem_highGroups {n : Nat} : ∀ octet ∈ highGroups n [], 0x80 ≤ octet := by
  induction n using highGroups_induction with
  | zero => simp
  | concat n hn ih =>
    have hgroup : (0x80 : UInt8) ≤ UInt8.ofNat (n % 128 + 128) := by
      rw [UInt8.le_iff_toNat_le, toNat_group]
      exact Nat.le_add_left 128 (n % 128)
    exact List.forall_mem_append.mpr ⟨ih, by simpa using hgroup⟩

theorem base128Value_highGroups (n : Nat) : base128Value (highGroups n []) = n := by
  induction n using highGroups_induction with
  | zero => rfl
  | concat n hn ih =>
    rw [base128Value_concat, ih, toNat_group]
    omega

theorem eq_zero_of_highGroups {n : Nat} (h : highGroups n [] = []) : n = 0 := by
  rw [← base128Value_highGroups n, h]
  rfl

theorem head?_highGroups_ne (n : Nat) : (highGroups n []).head? ≠ some 0x80 := by
  induction n using highGroups_induction with
  | zero => simp
  | concat n hn ih =>
    cases hfront : highGroups (n / 128) [] with
    | nil =>
      -- A first group of zero bits would leave nothing of the number.
      have hquot := eq_zero_of_highGroups hfront
      intro hhead
      have hgroup := toNat_group n
      rw [Option.some.inj hhead] at hgroup
      have hval : (0x80 : UInt8).toNat = 128 := rfl
      omega
    | cons octet front =>
      rw [hfront] at ih
      exact ih

/-! ## Padding -/

theorem dropPadding_concat {groups : Octets} {octet : UInt8}
    (h : dropPadding groups ≠ [] ∨ octet ≠ 0x80) :
    dropPadding (groups ++ [octet]) = dropPadding groups ++ [octet] := by
  unfold dropPadding at *
  rw [List.dropWhile_append]
  by_cases hempty : groups.dropWhile (· == 0x80) = []
  · have hoctet : octet ≠ 0x80 := h.resolve_left (not_not_intro hempty)
    simp [hempty, hoctet]
  · simp [hempty]

theorem dropPadding_of_head? {subidentifier : Octets} (h : subidentifier.head? ≠ some 0x80) :
    dropPadding subidentifier = subidentifier := by
  cases subidentifier with
  | nil => rfl
  | cons octet rest =>
    have hoctet : octet ≠ 0x80 := fun heq => h (by simp [heq])
    simp [dropPadding, hoctet]

/-- The groups of the number of groups are those behind the padding. -/
theorem highGroups_base128Value {groups : Octets} (h : ∀ octet ∈ groups, 0x80 ≤ octet) :
    highGroups (base128Value groups) [] = dropPadding groups := by
  induction groups using List.reverseRecOn with
  | nil => simp [dropPadding]
  | append_singleton groups octet ih =>
    obtain ⟨hgroups, hlast⟩ := List.forall_mem_append.mp h
    have hfront := ih hgroups
    have hoctet : 128 ≤ octet.toNat := UInt8.le_iff_toNat_le.mp (hlast octet (by simp))
    have hmax := octet.toNat_lt
    rw [base128Value_concat]
    by_cases hzero : base128Value groups * 128 + octet.toNat % 128 = 0
    · have hgroup : octet = 0x80 := UInt8.toNat_inj.mp (show octet.toNat = 128 by omega)
      have hnone : base128Value groups = 0 := by omega
      rw [hnone, highGroups_zero] at hfront
      rw [hzero, highGroups_zero, hgroup, dropPadding, List.dropWhile_append, ← dropPadding,
        ← hfront]
      rfl
    · have hquot : (base128Value groups * 128 + octet.toNat % 128) / 128 = base128Value groups := by
        omega
      have hgroup : (base128Value groups * 128 + octet.toNat % 128) % 128 + 128 = octet.toNat := by
        omega
      have hkept : dropPadding groups ≠ [] ∨ octet ≠ 0x80 := by
        by_contra hnone
        rw [not_or, not_not, not_not, ← hfront] at hnone
        have hnumber := eq_zero_of_highGroups hnone.1
        have hval : octet.toNat = 128 := by rw [hnone.2]; rfl
        omega
      rw [highGroups_concat hzero, hquot, hgroup, UInt8.ofNat_toNat, hfront,
        dropPadding_concat hkept]

/-! ## One number -/

theorem base128_eq (n : Nat) :
    base128 n = highGroups (n / 128) [] ++ [UInt8.ofNat (n % 128)] := by
  rw [base128, ← highGroups_append, List.nil_append]

theorem last_lt (n : Nat) : UInt8.ofNat (n % 128) < 0x80 := by
  rw [UInt8.lt_iff_toNat_lt, toNat_last]
  exact Nat.mod_lt n (by decide)

theorem isTerminated_base128 (n : Nat) : IsTerminated (base128 n) := by
  rw [base128_eq]
  exact .intro le_of_mem_highGroups (last_lt n)

/-- The number of the octets of a number is the number. -/
theorem base128Value_base128 (n : Nat) : base128Value (base128 n) = n := by
  rw [base128_eq, base128Value_concat, base128Value_highGroups, toNat_last]
  omega

theorem head?_base128_ne (n : Nat) : (base128 n).head? ≠ some 0x80 := by
  rw [base128_eq]
  cases hfront : highGroups (n / 128) [] with
  | nil =>
    intro hhead
    have hlast := last_lt n
    rw [Option.some.inj hhead] at hlast
    exact absurd hlast (by decide)
  | cons octet front =>
    have hne := head?_highGroups_ne (n / 128)
    rw [hfront] at hne
    exact hne

/-- The octets of the number of a subidentifier are those behind its padding. -/
theorem base128_base128Value {subidentifier : Octets} (h : IsTerminated subidentifier) :
    base128 (base128Value subidentifier) = dropPadding subidentifier := by
  cases h with
  | @intro groups last hgroups hlast =>
    have hlast' : last.toNat < 128 := UInt8.lt_iff_toNat_lt.mp hlast
    have hne : last ≠ 0x80 := by
      intro heq
      rw [heq] at hlast
      exact absurd hlast (by decide)
    have hquot : (base128Value groups * 128 + last.toNat % 128) / 128 = base128Value groups := by
      omega
    have hrem : (base128Value groups * 128 + last.toNat % 128) % 128 = last.toNat := by
      omega
    rw [base128Value_concat, base128_eq, hquot, hrem, UInt8.ofNat_toNat,
      highGroups_base128Value hgroups, dropPadding_concat (.inr hne)]

/-! ## Numbers one behind another -/

section Sequence

variable {numbers : List Nat}

theorem subidentifiers_append_of_isTerminated {subidentifier : Octets}
    (h : IsTerminated subidentifier) (rest : Octets) :
    subidentifiers (subidentifier ++ rest) = subidentifier :: subidentifiers rest := by
  cases h with
  | intro hgroups hlast =>
    rw [← List.append_cons]
    exact subidentifiers_terminated hgroups hlast rest

theorem endsOpen_append_of_isTerminated {subidentifier : Octets} (h : IsTerminated subidentifier)
    (rest : Octets) : EndsOpen (subidentifier ++ rest) ↔ EndsOpen rest := by
  cases h with
  | intro hgroups hlast =>
    rw [← List.append_cons]
    exact endsOpen_terminated_iff hlast

/-- The octets of numbers are cut where one number ends and the next one begins. -/
theorem subidentifiers_flatMap_base128 :
    subidentifiers (numbers.flatMap base128) = numbers.map base128 := by
  induction numbers with
  | nil => rfl
  | cons n numbers ih =>
    rw [List.flatMap_cons, subidentifiers_append_of_isTerminated (isTerminated_base128 n), ih,
      List.map_cons]

theorem not_endsOpen_flatMap_base128 : ¬ EndsOpen (numbers.flatMap base128) := by
  induction numbers with
  | nil => simp [EndsOpen]
  | cons n numbers ih =>
    rwa [List.flatMap_cons, endsOpen_append_of_isTerminated (isTerminated_base128 n)]

theorem map_base128Value_flatMap_base128 :
    (subidentifiers (numbers.flatMap base128)).map base128Value = numbers := by
  rw [subidentifiers_flatMap_base128, List.map_map]
  exact List.map_id'' base128Value_base128 numbers

theorem isShortest_flatMap_base128 : IsShortest (numbers.flatMap base128) := by
  rw [IsShortest, subidentifiers_flatMap_base128, List.forall_mem_map]
  exact fun n _ => head?_base128_ne n

end Sequence

/-- Where the last octet ends a subidentifier, all subidentifiers have their end. -/
theorem isTerminated_of_mem {groups content : Octets} (hgroups : ∀ octet ∈ groups, 0x80 ≤ octet)
    (hclosed : ¬ EndsOpen (groups ++ content)) :
    ∀ subidentifier ∈ subidentifiers (groups ++ content), IsTerminated subidentifier := by
  -- The groups are those of a subidentifier whose end has not come yet.
  induction content generalizing groups with
  | nil =>
    rcases List.eq_nil_or_concat groups with rfl | ⟨front, last, rfl⟩
    · simp [subidentifiers]
    · exact absurd ⟨last, by simp, hgroups last (by simp)⟩ hclosed
  | cons octet rest ih =>
    rcases UInt8.lt_or_le octet 0x80 with hlast | hopen
    · rw [endsOpen_terminated_iff hlast] at hclosed
      rw [subidentifiers_terminated hgroups hlast, List.forall_mem_cons]
      exact ⟨.intro hgroups hlast, @ih [] (by simp) hclosed⟩
    · have hmore : ∀ octet' ∈ groups ++ [octet], 0x80 ≤ octet' :=
        List.forall_mem_append.mpr ⟨hgroups, by simpa using hopen⟩
      rw [List.append_cons] at hclosed ⊢
      exact ih hmore hclosed

/-- Writing the numbers of content octets drops the padding and nothing else. -/
theorem flatMap_base128_map_base128Value {content : Octets} (hclosed : ¬ EndsOpen content) :
    ((subidentifiers content).map base128Value).flatMap base128 = shortest content := by
  have hall := @isTerminated_of_mem [] content (by simp) hclosed
  rw [List.flatMap_map, shortest]
  exact List.flatMap_congr fun subidentifier hmem => base128_base128Value (hall subidentifier hmem)

theorem shortest_eq_self {content : Octets} (h : IsShortest content) :
    shortest content = content := by
  have hkept : (subidentifiers content).flatMap dropPadding = (subidentifiers content).flatMap id :=
    List.flatMap_congr fun subidentifier hmem => dropPadding_of_head? (h subidentifier hmem)
  rw [shortest, hkept, List.flatMap_id]
  exact List.flatten_splitBy _ content

end Asn1.ObjectIdentifier
