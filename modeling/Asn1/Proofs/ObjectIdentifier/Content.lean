import Mathlib.Data.List.Induction
import Mathlib.Data.List.SplitBy
import Asn1.ObjectIdentifier.Content
import Asn1.ObjectIdentifier.Subidentifier
import Asn1.Proofs.Ber.Length

/-!
# Content octets and the arcs they stand for

The reader of content octets keeps the number of the groups read so far below `2 ^ 64` and looks at
it before each octet. So it gives up just where a subidentifier has no room in 64 bits, terminated
or not, and all other numbers are exact. `Reads` says what reading comes to in terms of the
subidentifiers (`reads_readSubidentifiers`), and `ofContent_computes_arcs` what it means for object
identifiers.
-/

namespace Asn1.ObjectIdentifier

/-! ## Cutting into subidentifiers -/

theorem subidentifiers_eq_nil_iff {content : Octets} : subidentifiers content = [] ↔ content = [] :=
  List.splitBy_eq_nil

theorem subidentifiers_append {front : Octets} (back : Octets)
    (h : ∀ octet ∈ front.getLast?, octet < 0x80) :
    subidentifiers (front ++ back) = subidentifiers front ++ subidentifiers back := by
  apply List.splitBy_append
  intro octet hoctet _ _
  simpa using h octet hoctet

/-- Octets with the high bit set and one more octet are not cut. -/
theorem subidentifiers_concat {groups : Octets} (h : ∀ octet ∈ groups, 0x80 ≤ octet)
    (last : UInt8) : subidentifiers (groups ++ [last]) = [groups ++ [last]] := by
  apply List.splitBy_of_isChain (by simp)
  induction groups with
  | nil => simp
  | cons octet groups ih =>
    rw [List.forall_mem_cons] at h
    rw [List.cons_append, List.isChain_cons]
    exact ⟨fun _ _ => by simpa using h.1, ih h.2⟩

theorem subidentifiers_terminated {groups : Octets} (h : ∀ octet ∈ groups, 0x80 ≤ octet)
    {last : UInt8} (hlast : last < 0x80) (rest : Octets) :
    subidentifiers (groups ++ last :: rest) = (groups ++ [last]) :: subidentifiers rest := by
  rw [List.append_cons, subidentifiers_append rest (by simpa using hlast), subidentifiers_concat h,
    List.singleton_append]

/-- Groups at the start and the octet behind them belong to one subidentifier. -/
theorem exists_subidentifier_of_groups {groups : Octets} (h : ∀ octet ∈ groups, 0x80 ≤ octet)
    (octet : UInt8) (rest : Octets) :
    ∃ back, groups ++ octet :: back ∈ subidentifiers (groups ++ octet :: rest) := by
  induction rest generalizing groups octet with
  | nil => exact ⟨[], by simp [subidentifiers_concat h]⟩
  | cons next rest ih =>
    rcases UInt8.lt_or_le octet 0x80 with hlast | hopen
    · exact ⟨[], by simp [subidentifiers_terminated h hlast]⟩
    · have hgroups : ∀ octet' ∈ groups ++ [octet], 0x80 ≤ octet' :=
        List.forall_mem_append.mpr ⟨h, by simpa using hopen⟩
      obtain ⟨back, hmem⟩ := ih hgroups next
      rw [List.append_assoc, List.append_assoc] at hmem
      exact ⟨next :: back, hmem⟩

theorem base128Value_le_append (front back : Octets) :
    base128Value front ≤ base128Value (front ++ back) := by
  induction back using List.reverseRecOn with
  | nil => simp
  | append_singleton back octet ih =>
    rw [← List.append_assoc, base128Value_concat]
    omega

/-! ## One octet -/

theorem isOpen_iff (octet : UInt8) : octet &&& 0x80 = 0x80 ↔ 0x80 ≤ octet := by
  rw [Octets.and_0x80_iff, UInt8.le_iff_toNat_le]
  rfl

section Steps

variable {value : Nat} {isOpen : Bool} {octet : UInt8} {rest : Octets}

/-- No octet is read behind groups that leave no room for it. -/
theorem readSubidentifiers_wide (h : UInt64.size / 128 ≤ value) :
    readSubidentifiers value isOpen (octet :: rest) = .error .arcOverflow := by
  rw [readSubidentifiers, if_pos h]

theorem readSubidentifiers_group (h : value < UInt64.size / 128) (hopen : 0x80 ≤ octet) :
    readSubidentifiers value isOpen (octet :: rest) =
      readSubidentifiers (value * 128 + octet.toNat % 128) true rest := by
  rw [readSubidentifiers, if_neg (Nat.not_le.mpr h), Ber.Length.toNat_and_0x7f]
  exact if_pos ((isOpen_iff octet).mpr hopen)

theorem readSubidentifiers_last (h : value < UInt64.size / 128) (hlast : octet < 0x80) :
    readSubidentifiers value isOpen (octet :: rest) =
      (readSubidentifiers 0 false rest).map
        (UInt64.ofNat (value * 128 + octet.toNat % 128) :: ·) := by
  have hclear : ¬ octet &&& 0x80 = 0x80 :=
    fun hset => absurd ((isOpen_iff octet).mp hset) (UInt8.not_le.mpr hlast)
  rw [readSubidentifiers, if_neg (Nat.not_le.mpr h), Ber.Length.toNat_and_0x7f]
  simp only [if_neg hclear]
  cases readSubidentifiers 0 false rest <;> rfl

end Steps

/-! ## All octets -/

/-- The last octet has the high bit set. -/
def EndsOpen (content : Octets) : Prop :=
  ∃ last, content.getLast? = some last ∧ 0x80 ≤ last

/-- The numbers of all subidentifiers have room in 64 bits. -/
def Fits (content : Octets) : Prop :=
  ∀ subidentifier ∈ subidentifiers content, base128Value subidentifier < UInt64.size

/-- What reading the subidentifiers of content octets comes to. -/
inductive Reads (content : Octets) : Except Error (List UInt64) → Prop
  | overflow (h : ¬ Fits content) : Reads content (.error .arcOverflow)
  | incomplete (h : Fits content) (hopen : EndsOpen content) :
      Reads content (.error .incompleteEncoding)
  | complete (h : Fits content) (hclosed : ¬ EndsOpen content) :
      Reads content (.ok ((subidentifiers content).map fun subidentifier =>
        UInt64.ofNat (base128Value subidentifier)))

theorem endsOpen_terminated_iff {groups rest : Octets} {last : UInt8} (hlast : last < 0x80) :
    EndsOpen (groups ++ last :: rest) ↔ EndsOpen rest := by
  cases rest with
  | nil => simpa [EndsOpen] using hlast
  | cons octet rest => simp [EndsOpen, List.getLast?_append, List.getLast?_cons_cons]

theorem fits_terminated_iff {groups rest : Octets} {last : UInt8}
    (hgroups : ∀ octet ∈ groups, 0x80 ≤ octet) (hlast : last < 0x80) :
    Fits (groups ++ last :: rest) ↔ base128Value (groups ++ [last]) < UInt64.size ∧ Fits rest := by
  rw [Fits, subidentifiers_terminated hgroups hlast, List.forall_mem_cons, Fits]

/-- A subidentifier that fits comes in front of what the rest is read as. -/
theorem Reads.terminated {groups rest : Octets} {last : UInt8}
    {result : Except Error (List UInt64)} (h : Reads rest result)
    (hgroups : ∀ octet ∈ groups, 0x80 ≤ octet) (hlast : last < 0x80)
    (hfits : base128Value (groups ++ [last]) < UInt64.size) :
    Reads (groups ++ last :: rest)
      (result.map (UInt64.ofNat (base128Value (groups ++ [last])) :: ·)) := by
  have hall : Fits (groups ++ last :: rest) ↔ _ ∧ Fits rest := fits_terminated_iff hgroups hlast
  have hends : EndsOpen (groups ++ last :: rest) ↔ EndsOpen rest := endsOpen_terminated_iff hlast
  cases h with
  | overflow h => exact .overflow fun hfit => h (hall.mp hfit).2
  | incomplete h hopen => exact .incomplete (hall.mpr ⟨hfits, h⟩) (hends.mpr hopen)
  | complete h hclosed =>
    have hcomplete := Reads.complete (hall.mpr ⟨hfits, h⟩) (fun hopen => hclosed (hends.mp hopen))
    rwa [subidentifiers_terminated hgroups hlast] at hcomplete

/-- Reading goes on behind groups of a subidentifier that was begun. -/
theorem reads_readSubidentifiers {groups : Octets} (hgroups : ∀ octet ∈ groups, 0x80 ≤ octet)
    (hfits : base128Value groups < UInt64.size) (content : Octets) :
    Reads (groups ++ content)
      (readSubidentifiers (base128Value groups) (!groups.isEmpty) content) := by
  -- The groups stay apart from the content, so their number is the one the reader carries.
  induction content generalizing groups with
  | nil =>
    rcases List.eq_nil_or_concat groups with rfl | ⟨front, last, rfl⟩
    · exact .complete (by simp [Fits, subidentifiers]) (by simp [EndsOpen])
    · have hfront : ∀ octet ∈ front, 0x80 ≤ octet := fun octet h => hgroups octet (by simp [h])
      rw [List.concat_eq_append] at hgroups hfits ⊢
      rw [List.append_nil]
      have hfit : Fits (front ++ [last]) := by
        simpa [Fits, subidentifiers_concat hfront] using hfits
      have hopen : EndsOpen (front ++ [last]) := ⟨last, by simp, hgroups last (by simp)⟩
      simpa [readSubidentifiers] using Reads.incomplete hfit hopen
  | cons octet rest ih =>
    rcases Nat.lt_or_ge (base128Value groups) (UInt64.size / 128) with hroom | hwide
    · have hnext : base128Value (groups ++ [octet]) < UInt64.size := by
        have hdigit := Nat.mod_lt octet.toNat (show 128 > 0 by decide)
        rw [base128Value_concat]
        simp only [UInt64.size] at hroom ⊢
        omega
      rcases UInt8.lt_or_le octet 0x80 with hlast | hopen
      · have hrest := @ih [] (by simp) (by decide)
        rw [readSubidentifiers_last hroom hlast, ← base128Value_concat]
        exact hrest.terminated hgroups hlast hnext
      · have hmore : ∀ octet' ∈ groups ++ [octet], 0x80 ≤ octet' :=
          List.forall_mem_append.mpr ⟨hgroups, by simpa using hopen⟩
        have hbegun : (groups ++ [octet]).isEmpty = false := by cases groups <;> rfl
        have hrest := ih hmore hnext
        rw [readSubidentifiers_group hroom hopen, ← base128Value_concat]
        rwa [List.append_assoc, hbegun] at hrest
    · rw [readSubidentifiers_wide hwide]
      -- The subidentifier of the groups has at least one octet more than they are.
      obtain ⟨back, hmem⟩ := exists_subidentifier_of_groups hgroups octet rest
      refine .overflow fun hfit => ?_
      have hlt := hfit _ hmem
      have hle := base128Value_le_append (groups ++ [octet]) back
      rw [List.append_assoc, base128Value_concat] at hle
      simp only [UInt64.size, List.singleton_append] at hlt hle hwide
      omega

/-! ## Object identifiers -/

theorem arcs_ofSubidentifiers (head : UInt64) (rest : List UInt64) :
    (ofSubidentifiers head rest).arcs.map UInt64.toNat =
      unpackArcs ((head :: rest).map UInt64.toNat) := by
  have h40 : head < 40 ↔ head.toNat < 40 := UInt64.lt_iff_toNat_lt
  have h80 : head < 80 ↔ head.toNat < 80 := UInt64.lt_iff_toNat_lt
  rw [ofSubidentifiers, List.map_cons, unpackArcs]
  by_cases hfirst : head.toNat < 40
  · rw [if_pos (h40.mpr hfirst), if_pos hfirst]
    rfl
  · by_cases hsecond : head.toNat < 80
    · have hsub : (head - 40).toNat = head.toNat - 40 :=
        UInt64.toNat_sub_of_le _ _ (UInt64.not_lt.mp fun h => hfirst (h40.mp h))
      rw [if_neg (hfirst ∘ h40.mp), if_pos (h80.mpr hsecond), if_neg hfirst, if_pos hsecond, ← hsub]
      rfl
    · have hsub : (head - 80).toNat = head.toNat - 80 :=
        UInt64.toNat_sub_of_le _ _ (UInt64.not_lt.mp fun h => hsecond (h80.mp h))
      rw [if_neg (hfirst ∘ h40.mp), if_neg (hsecond ∘ h80.mp), if_neg hfirst, if_neg hsecond, ← hsub]
      rfl

/-- The numbers that fit are not changed by their width. -/
theorem Fits.map_toNat {content : Octets} (h : Fits content) :
    ((subidentifiers content).map fun subidentifier =>
      UInt64.ofNat (base128Value subidentifier)).map UInt64.toNat =
        (subidentifiers content).map base128Value := by
  rw [List.map_map]
  apply List.map_congr_left
  intro subidentifier hmem
  exact UInt64.toNat_ofNat_of_lt' (h subidentifier hmem)

theorem ofContent_of_error {content : Octets} {error : Error} (hne : content ≠ [])
    (h : readSubidentifiers 0 false content = .error error) :
    ofContent content = .error error := by
  rw [ofContent, if_neg (by simpa using hne), h]

theorem ofContent_of_ok {content : Octets} {head : UInt64} {rest : List UInt64} (hne : content ≠ [])
    (h : readSubidentifiers 0 false content = .ok (head :: rest)) :
    ofContent content = .ok (ofSubidentifiers head rest) := by
  rw [ofContent, if_neg (by simpa using hne), h]

/-- What octets come to that are not empty. -/
theorem ofContent_cases {content : Octets} (hne : content ≠ []) :
    (¬ Fits content ∧ ofContent content = .error .arcOverflow) ∨
      (Fits content ∧ EndsOpen content ∧ ofContent content = .error .incompleteEncoding) ∨
      (Fits content ∧ ¬ EndsOpen content ∧ ∃ oid, ofContent content = .ok oid ∧
        oid.arcs.map UInt64.toNat = unpackArcs ((subidentifiers content).map base128Value)) := by
  have hreads : Reads content (readSubidentifiers 0 false content) :=
    @reads_readSubidentifiers [] (by simp) (by decide) content
  generalize hread : readSubidentifiers 0 false content = result at hreads
  cases hreads with
  | overflow hfits => exact .inl ⟨hfits, ofContent_of_error hne hread⟩
  | incomplete hfits hopen => exact .inr (.inl ⟨hfits, hopen, ofContent_of_error hne hread⟩)
  | complete hfits hclosed =>
    have hnumbers := hfits.map_toNat
    -- Octets that are not empty have a first subidentifier, which gives the first two arcs.
    obtain ⟨first, others, hcut⟩ :=
      List.exists_cons_of_ne_nil (mt subidentifiers_eq_nil_iff.mp hne)
    rw [hcut, List.map_cons] at hread hnumbers
    refine .inr (.inr ⟨hfits, hclosed, _, ofContent_of_ok hne hread, ?_⟩)
    rw [arcs_ofSubidentifiers, hnumbers, hcut]

theorem not_fits_iff {content : Octets} :
    ¬ Fits content ↔
      ∃ subidentifier ∈ subidentifiers content, 2 ^ 64 ≤ base128Value subidentifier := by
  simp [Fits, UInt64.size]

/-- Empty octets hold no object identifier. Others are refused when the number of a subidentifier,
terminated or not, has no room in 64 bits, and otherwise when the last octet lacks the end of its
subidentifier. In all other cases the arcs are the numbers themselves, with the first one unpacked. -/
theorem ofContent_computes_arcs (content : Octets) :
    (ofContent content = .error .noData ↔ content = []) ∧
      (ofContent content = .error .arcOverflow ↔
        ∃ subidentifier ∈ subidentifiers content, 2 ^ 64 ≤ base128Value subidentifier) ∧
      (ofContent content = .error .incompleteEncoding ↔ Fits content ∧ EndsOpen content) ∧
      ((∃ oid, ofContent content = .ok oid) ↔
        content ≠ [] ∧ Fits content ∧ ¬ EndsOpen content) ∧
      ∀ oid, ofContent content = .ok oid →
        oid.arcs.map UInt64.toNat = unpackArcs ((subidentifiers content).map base128Value) := by
  rw [← not_fits_iff]
  by_cases hne : content = []
  · subst hne
    have hempty : ofContent [] = .error .noData := rfl
    have hfits : Fits [] := by simp [Fits, subidentifiers]
    have hclosed : ¬ EndsOpen [] := by simp [EndsOpen]
    simp [hempty, hfits, hclosed]
  · rcases ofContent_cases hne with ⟨hfits, heq⟩ | ⟨hfits, hopen, heq⟩ |
      ⟨hfits, hclosed, oid, heq, harcs⟩
    · simp [heq, hne, hfits]
    · simp [heq, hne, hfits, hopen]
    · simp [heq, hne, hfits, hclosed, harcs]

/-- The greatest number of 64 bits is read after a leading zero group; the next number is refused,
although its octets lack their end. -/
example : ofContent [0x80, 0x81, 0xff, 0xff, 0xff, 0xff, 0xff, 0xff, 0xff, 0xff, 0x7f] =
      .ok ⟨2, 18446744073709551535, []⟩ ∧
    ofContent [0x82, 0x80, 0x80, 0x80, 0x80, 0x80, 0x80, 0x80, 0x80, 0x80] =
      .error .arcOverflow := by
  decide

end Asn1.ObjectIdentifier
