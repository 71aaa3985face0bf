import Asn1.Proofs.Lines
import Asn1.Proofs.Octets.Hex
import Asn1.Proofs.TimeStamp.Summary

/-!
# Summaries as text

A text summary starts with the line of the status and ends with that of the token. What stands
between them are remarks: one line for each text of the response and one for the failure reasons.
The texts come from outside and are shown as they are, so a line feed inside of one begins a line
that the sender chose (`text_forged_by_newline`). The first and the last line cannot be imitated,
and texts of one line each are told apart, whatever else they hold (`text_tells_single_lines`).
-/

namespace Asn1.TimeStamp

theorem Status.text_inj {status other : Status} (h : status.text = other.text) :
    status = other := by
  cases status <;> cases other <;> first | rfl | exact absurd h (by decide)

theorem Status.newline_notMem_text (status : Status) : '\n' ∉ status.text.toList := by
  cases status <;> decide

/-! ## The line of the token -/

namespace TokenSummary

theorem toList_line (token : TokenSummary) :
    token.line.toList =
      "Time-Stamp Token: ".toList ++ (Nat.toDigits 10 token.receivedLength ++
        (" octets received, ".toList ++ (Nat.toDigits 10 token.derLength ++
          (" octets DER".toList ++
            (if token.isCanonical then "" else " (re-encoded)").toList)))) := by
  have hstring (s : String) : toString s = s := rfl
  have hnumber (n : Nat) : toString n = n.repr := rfl
  unfold line
  simp only [hstring, hnumber, String.toList_append, Nat.toList_repr, List.append_assoc]

theorem line_inj {token other : TokenSummary} (h : token.line = other.line) : token = other := by
  -- Each number ends at the blank behind it.
  have hreceivedStop (tail : List Char) : Json.StopsNumber (" octets received, ".toList ++ tail) :=
    Json.stopsNumber_append (by decide) tail
  have hderStop (tail : List Char) : Json.StopsNumber (" octets DER".toList ++ tail) :=
    Json.stopsNumber_append (by decide) tail
  have hremark : ∀ flag flag' : Bool,
      (if flag then "" else " (re-encoded)") = (if flag' then "" else " (re-encoded)") →
        flag = flag' := by
    decide
  have hchars := congrArg String.toList h
  rw [toList_line, toList_line] at hchars
  have hnumbers := List.append_cancel_left hchars
  obtain ⟨hreceived, hnumbers⟩ :=
    Json.toDigits_append_inj (hreceivedStop _) (hreceivedStop _) hnumbers
  have hnumbers := List.append_cancel_left hnumbers
  obtain ⟨hder, hend⟩ := Json.toDigits_append_inj (hderStop _) (hderStop _) hnumbers
  have hcanonical := hremark _ _ (String.toList_inj.mp (List.append_cancel_left hend))
  cases token
  cases other
  exact (TokenSummary.mk.injEq ..).mpr ⟨hreceived, hder, hcanonical⟩

/-- Where a token is said to be absent, no number stands. -/
theorem line_ne_absent (token : TokenSummary) : token.line ≠ "Time-Stamp Token: absent" := by
  intro h
  have habsent : "Time-Stamp Token: absent" = "Time-Stamp Token: " ++ "absent" := by decide
  have hchars := congrArg String.toList h
  rw [toList_line, habsent, String.toList_append] at hchars
  have hhead := congrArg (fun chars => chars.head?.map Char.isDigit)
    (List.append_cancel_left hchars)
  obtain ⟨digit, digits, hdigits⟩ :=
    List.exists_cons_of_ne_nil (Nat.toDigits_ne_nil (n := token.receivedLength) (b := 10))
  have hdigit : digit.isDigit :=
    Nat.isDigit_of_mem_toDigits (by decide) (by decide) (hdigits ▸ List.mem_cons_self)
  simp [hdigits, hdigit] at hhead

theorem newline_notMem_line (token : TokenSummary) : '\n' ∉ token.line.toList := by
  have hremark : ∀ flag : Bool,
      '\n' ∉ (if flag then "" else " (re-encoded)").toList := by
    decide
  simp [toList_line, newline_notMem_toDigits, hremark]

end TokenSummary

/-- The line for a token, or for none. -/
def tokenLine : Option TokenSummary → String
  | none => "Time-Stamp Token: absent"
  | some token => token.line

theorem tokenLine_inj {token other : Option TokenSummary} (h : tokenLine token = tokenLine other) :
    token = other := by
  cases token with
  | none =>
    cases other with
    | none => rfl
    | some other => exact absurd h.symm other.line_ne_absent
  | some token =>
    cases other with
    | none => exact absurd h token.line_ne_absent
    | some other => exact congrArg some (TokenSummary.line_inj h)

theorem newline_notMem_tokenLine (token : Option TokenSummary) :
    '\n' ∉ (tokenLine token).toList := by
  cases token with
  | none => decide
  | some token => exact token.newline_notMem_line

/-! ## The line of the failure reasons -/

theorem FailureReason.name_mem {reason : FailureReason} {c : Char} (h : c ∈ reason.name.toList) :
    c.isAlpha := by
  have hall : all.all (fun reason => reason.name.toList.all Char.isAlpha) = true := by decide
  exact List.all_eq_true.mp (List.all_eq_true.mp hall reason (mem_all reason)) c h

/-- Parts without commas are the pieces between the commas that separate them, but for the blanks
in front. -/
theorem splitOn_intercalate_comma {part : List Char} {parts : List (List Char)}
    (h : ∀ p ∈ part :: parts, ',' ∉ p) :
    ([',', ' '].intercalate (part :: parts)).splitOn ',' = part :: parts.map (' ' :: ·) := by
  induction parts generalizing part with
  | nil =>
    rw [List.intercalate_singleton]
    exact List.splitOn_eq_singleton (h part List.mem_cons_self)
  | cons next parts ih =>
    obtain ⟨hpart, hparts⟩ := List.forall_mem_cons.mp h
    rw [List.intercalate_cons_cons, List.append_assoc, List.cons_append,
      List.splitOn_append_cons_self_of_not_mem hpart, List.cons_append, List.nil_append,
      List.splitOn_cons_eq_if_modifyHead, if_neg (by decide), ih hparts, List.modifyHead_cons,
      List.map_cons]

/-- Names that are joined can be told apart, for a name has no comma. -/
theorem FailureReason.join_names_inj {reason reason' : FailureReason}
    {reasons reasons' : List FailureReason}
    (h : String.intercalate ", " ((reason :: reasons).map name) =
      String.intercalate ", " ((reason' :: reasons').map name)) :
    reason :: reasons = reason' :: reasons' := by
  have hcut (reason : FailureReason) (reasons : List FailureReason) :
      (String.intercalate ", " ((reason :: reasons).map name)).toList.splitOn ',' =
        reason.name.toList :: reasons.map fun reason => ' ' :: reason.name.toList := by
    rw [String.toList_intercalate, List.map_map, List.map_cons]
    refine (splitOn_intercalate_comma ?_).trans (by rw [List.map_map]; rfl)
    intro name hname hcomma
    rw [← List.map_cons] at hname
    obtain ⟨reason, -, rfl⟩ := List.mem_map.mp hname
    exact absurd (FailureReason.name_mem hcomma) (by decide)
  have hpieces := congrArg (fun text => text.toList.splitOn ',') h
  simp only [hcut, List.cons.injEq] at hpieces
  obtain ⟨hfirst, hrest⟩ := hpieces
  rw [FailureReason.name_inj (String.toList_inj.mp hfirst),
    (List.map_inj_right fun _ _ hname => FailureReason.name_inj
      (String.toList_inj.mp (List.cons.inj hname).2)).mp hrest]

namespace Summary

variable {summary other : Summary} {failures failures' : List FailureReason}
  {strings strings' : List String}

theorem failureLines_cons (reason : FailureReason) (reasons : List FailureReason) :
    failureLines (reason :: reasons) =
      ["Failure Info: " ++ String.intercalate ", " ((reason :: reasons).map FailureReason.name)] :=
  rfl

theorem failureLines_inj (h : failureLines failures = failureLines failures') :
    failures = failures' := by
  cases failures with
  | nil =>
    cases failures' with
    | nil => rfl
    | cons reason' reasons' => simp [failureLines] at h
  | cons reason reasons =>
    cases failures' with
    | nil => simp [failureLines] at h
    | cons reason' reasons' =>
      rw [failureLines_cons, failureLines_cons, List.cons.injEq] at h
      have hnames := congrArg String.toList h.1
      rw [String.toList_append, String.toList_append, List.append_cancel_left_eq] at hnames
      exact FailureReason.join_names_inj (String.toList_inj.mp hnames)

theorem length_failureLines (failures : List FailureReason) :
    (failureLines failures).length = if failures = [] then 0 else 1 := by
  cases failures with
  | nil => rfl
  | cons reason reasons => rfl

theorem newline_notMem_failureLines {line : String} (h : line ∈ failureLines failures) :
    '\n' ∉ line.toList := by
  cases failures with
  | nil => simp [failureLines] at h
  | cons reason reasons =>
    rw [failureLines_cons, List.mem_singleton] at h
    intro hnewline
    rw [h, String.toList_append, List.mem_append, String.toList_intercalate, List.map_map]
      at hnewline
    rcases hnewline with hlabel | hnames
    · exact absurd hlabel (by decide)
    · rcases Hex.mem_of_mem_intercalate hnames with hseparator | ⟨name, hname, hmem⟩
      · exact absurd hseparator (by decide)
      · obtain ⟨reason, -, rfl⟩ := List.mem_map.mp hname
        exact absurd (FailureReason.name_mem hmem) (by decide)

/-! ## The remarks -/

/-- The lines between those of the status and of the token. -/
def remarks (summary : Summary) : List String :=
  summary.strings.map ("Status String: " ++ ·) ++ failureLines summary.failures

/-- What the remarks look like in the text, where a line feed always ends a line. -/
def remarkLines (summary : Summary) : List (List Char) :=
  (summary.remarks.map String.toList).flatMap (List.splitOn '\n')

/-- Every line tells by its label what it is about. -/
theorem string_line_ne_failure_line (string names : String) :
    "Status String: " ++ string ≠ "Failure Info: " ++ names := by
  intro h
  have hhead := congrArg (fun line => line.toList.head?) h
  simp at hhead

theorem map_append_failureLines_inj
    (h : strings.map ("Status String: " ++ ·) ++ failureLines failures =
      strings'.map ("Status String: " ++ ·) ++ failureLines failures') :
    strings = strings' ∧ failures = failures' := by
  induction strings generalizing strings' with
  | nil =>
    cases strings' with
    | nil => exact ⟨rfl, failureLines_inj h⟩
    | cons string' strings' =>
      cases failures with
      | nil => simp [failureLines] at h
      | cons reason reasons =>
        exact absurd (List.cons.inj h).1.symm (string_line_ne_failure_line _ _)
  | cons string strings ih =>
    cases strings' with
    | nil =>
      cases failures' with
      | nil => simp [failureLines] at h
      | cons reason reasons =>
        exact absurd (List.cons.inj h).1 (string_line_ne_failure_line _ _)
    | cons string' strings' =>
      obtain ⟨hfirst, hrest⟩ := List.cons.inj h
      have hchars := congrArg String.toList hfirst
      rw [String.toList_append, String.toList_append, List.append_cancel_left_eq] at hchars
      obtain ⟨rfl, hfailures⟩ := ih hrest
      exact ⟨by rw [String.toList_inj.mp hchars], hfailures⟩

/-- Remarks without line feeds inside are shown one to a line. -/
theorem remarkLines_eq (h : ∀ string ∈ summary.strings, '\n' ∉ string.toList) :
    summary.remarkLines = summary.remarks.map String.toList := by
  refine flatMap_splitOn_newline ?_
  rw [List.forall_mem_map]
  intro remark hremark
  rcases List.mem_append.mp hremark with hstring | hfailure
  · obtain ⟨string, hmem, rfl⟩ := List.mem_map.mp hstring
    rw [String.toList_append, List.mem_append, not_or]
    exact ⟨by decide, h string hmem⟩
  · exact newline_notMem_failureLines hfailure

theorem remarkLines_eq_iff (h : ∀ string ∈ summary.strings, '\n' ∉ string.toList)
    (h' : ∀ string ∈ other.strings, '\n' ∉ string.toList) :
    summary.remarkLines = other.remarkLines ↔
      summary.strings = other.strings ∧ summary.failures = other.failures := by
  rw [remarkLines_eq h, remarkLines_eq h']
  constructor
  · intro heq
    exact map_append_failureLines_inj
      ((List.map_inj_right fun _ _ => String.toList_inj.mp).mp heq)
  · rintro ⟨hstrings, hfailures⟩
    rw [remarks, remarks, hstrings, hfailures]

theorem length_remarkLines (summary : Summary) :
    summary.remarkLines.length =
      (summary.strings.map fun string => 1 + string.toList.count '\n').sum +
        if summary.failures = [] then 0 else 1 := by
  have hstring (string : String) :
      (("Status String: " ++ string).toList.splitOn '\n').length =
        1 + string.toList.count '\n' := by
    have hlabel : "Status String: ".toList.count '\n' = 0 := by decide
    rw [length_splitOn_newline, String.toList_append, List.count_append, hlabel, Nat.zero_add,
      Nat.add_comm]
  have hfailures : ((failureLines summary.failures).map String.toList).flatMap (List.splitOn '\n') =
      (failureLines summary.failures).map String.toList := by
    refine flatMap_splitOn_newline ?_
    rw [List.forall_mem_map]
    exact fun line hline => newline_notMem_failureLines hline
  rw [remarkLines, remarks, List.map_append, List.flatMap_append, List.length_append, hfailures,
    List.length_map, length_failureLines, List.length_flatMap, List.map_map, List.map_map]
  congr 2
  exact List.map_congr_left fun string _ => hstring string

/-! ## The text -/

theorem lines_eq (summary : Summary) :
    summary.lines =
      ("Status: " ++ summary.status.text) :: (summary.remarks ++ [tokenLine summary.token]) := by
  obtain ⟨status, strings, failures, token⟩ := summary
  cases token <;> rfl

/-- The lines of the text are that of the status, those of the remarks and that of the token. -/
theorem splitOn_text (summary : Summary) :
    summary.text.toList.splitOn '\n' =
      ("Status: " ++ summary.status.text).toList ::
        (summary.remarkLines ++ [(tokenLine summary.token).toList, []]) := by
  have hstatus : '\n' ∉ ("Status: " ++ summary.status.text).toList := by
    simp [Status.newline_notMem_text]
  rw [text, lines_eq, toList_join_newline, splitOn_flatMap_newline, List.map_cons,
    List.flatMap_cons, List.map_append, List.flatMap_append, List.splitOn_eq_singleton hstatus,
    List.map_singleton, List.flatMap_singleton,
    List.splitOn_eq_singleton (newline_notMem_tokenLine summary.token)]
  simp [remarkLines]

theorem count_newline_text (summary : Summary) :
    summary.text.toList.count '\n' = summary.remarkLines.length + 2 := by
  have hlength := length_splitOn_newline summary.text.toList
  rw [splitOn_text] at hlength
  simp only [List.length_cons, List.length_append, List.length_nil] at hlength
  omega

theorem text_eq_text_iff :
    summary.text = other.text ↔
      summary.status = other.status ∧ summary.remarkLines = other.remarkLines ∧
        summary.token = other.token := by
  constructor
  · intro h
    have hlines := congrArg (fun text => text.toList.splitOn '\n') h
    simp only [splitOn_text, List.cons.injEq] at hlines
    obtain ⟨hstatus, hrest⟩ := hlines
    obtain ⟨hremarks, hend⟩ := List.append_inj' hrest rfl
    refine ⟨?_, hremarks, ?_⟩
    · rw [String.toList_append, String.toList_append, List.append_cancel_left_eq] at hstatus
      exact Status.text_inj (String.toList_inj.mp hstatus)
    · exact tokenLine_inj (String.toList_inj.mp (List.cons.inj hend).1)
  · rintro ⟨hstatus, hremarks, htoken⟩
    apply String.toList_inj.mp
    apply splitOn_newline_inj
    rw [splitOn_text, splitOn_text, hstatus, hremarks, htoken]

/-! ## Responses -/

variable {response response' : Response} {canonical canonical' : Option Octets}

/-- The texts of two responses whose tokens can be converted are the same exactly when the responses
agree on the status and on the token, as far as it is summarized, and their remarks come to the
same lines. If no string has a line feed inside, those lines are the same only for the same strings
and failure reasons. There is a line for the status, one for the token, one for the failure reasons
if there are any, and one for each string, but a line feed inside a string makes one more. -/
theorem text_tells_single_lines (h : response.canonicalToken = .ok canonical)
    (h' : response'.canonicalToken = .ok canonical') :
    ofResponse response = .ok (ofCanonical response canonical) ∧
      ofResponse response' = .ok (ofCanonical response' canonical') ∧
      ((ofCanonical response canonical).text = (ofCanonical response' canonical').text ↔
        response.status.status = response'.status.status ∧
          (ofCanonical response canonical).remarkLines =
            (ofCanonical response' canonical').remarkLines ∧
          response.token.map List.length = response'.token.map List.length ∧
          canonical.map List.length = canonical'.map List.length ∧
          (response.token = canonical ↔ response'.token = canonical')) ∧
      ((∀ string ∈ response.status.strings, '\n' ∉ string.toList) →
        (∀ string ∈ response'.status.strings, '\n' ∉ string.toList) →
        ((ofCanonical response canonical).remarkLines =
            (ofCanonical response' canonical').remarkLines ↔
          response.status.strings = response'.status.strings ∧
            response.status.failInfo.elim [] FailureInfo.reasons =
              response'.status.failInfo.elim [] FailureInfo.reasons)) ∧
      (ofCanonical response canonical).text.toList.count '\n' =
        (response.status.strings.map fun string => 1 + string.toList.count '\n').sum +
          (if response.status.failInfo.elim [] FailureInfo.reasons = [] then 0 else 1) + 2 := by
  refine ⟨by rw [ofResponse_eq, h]; rfl, by rw [ofResponse_eq, h']; rfl, ?_, ?_, ?_⟩
  · rw [text_eq_text_iff, token_ofCanonical_eq_iff h h']
    rfl
  · intro hsingle hsingle'
    rw [← failures_ofCanonical response canonical, ← failures_ofCanonical response' canonical']
    exact remarkLines_eq_iff hsingle hsingle'
  · rw [count_newline_text, length_remarkLines, failures_ofCanonical]
    rfl

/-- A string that reads like the line of a failure reason is not taken for it. -/
theorem text_tells_single_lines_labelled :
    (Response.mk ⟨.rejection, ["Failure Info: BadAlg"], none⟩ none).canonicalToken = .ok none ∧
      (Response.mk ⟨.rejection, [], some (.ofReasons [.badAlg])⟩ none).canonicalToken = .ok none ∧
      (∀ string ∈ ["Failure Info: BadAlg"], '\n' ∉ string.toList) ∧
      (ofCanonical ⟨⟨.rejection, ["Failure Info: BadAlg"], none⟩, none⟩ none).text ≠
        (ofCanonical ⟨⟨.rejection, [], some (.ofReasons [.badAlg])⟩, none⟩ none).text := by
  have htoken :
      (Response.mk ⟨.rejection, ["Failure Info: BadAlg"], none⟩ none).canonicalToken = .ok none :=
    rfl
  have htoken' :
      (Response.mk ⟨.rejection, [], some (.ofReasons [.badAlg])⟩ none).canonicalToken =
        .ok none :=
    rfl
  have hsingle : ∀ string ∈ ["Failure Info: BadAlg"], '\n' ∉ string.toList := by decide
  refine ⟨htoken, htoken', hsingle, ?_⟩
  intro h
  obtain ⟨-, -, htext, hremarks, -⟩ := text_tells_single_lines htoken htoken'
  have hstrings := ((hremarks hsingle (by simp)).mp (htext.mp h).2.1).1
  exact absurd hstrings (by decide)

/-- A response may be received whose only string has a line feed inside and no failure reason. Its
text is that of a response with another string and a failure reason, and it has four lines where a
status, a string and a token make three. -/
theorem text_forged_by_newline :
    Response.ofBer [0x30, 0x20, 0x30, 0x1e, 0x02, 0x01, 0x02, 0x30, 0x19, 0x0c, 0x17, 0x6e, 0x6f,
        0x0a, 0x46, 0x61, 0x69, 0x6c, 0x75, 0x72, 0x65, 0x20, 0x49, 0x6e, 0x66, 0x6f, 0x3a, 0x20,
        0x42, 0x61, 0x64, 0x41, 0x6c, 0x67] =
        .ok ⟨⟨.rejection, ["no\nFailure Info: BadAlg"], none⟩, none⟩ ∧
      ofResponse ⟨⟨.rejection, ["no\nFailure Info: BadAlg"], none⟩, none⟩ =
        .ok ⟨.rejection, ["no\nFailure Info: BadAlg"], [], none⟩ ∧
      ofResponse ⟨⟨.rejection, ["no"], some (.ofReasons [.badAlg])⟩, none⟩ =
        .ok ⟨.rejection, ["no"], [.badAlg], none⟩ ∧
      (Summary.mk .rejection ["no\nFailure Info: BadAlg"] [] none).text =
        (Summary.mk .rejection ["no"] [.badAlg] none).text ∧
      (Summary.mk .rejection ["no\nFailure Info: BadAlg"] [] none).text.toList.count '\n' = 4 := by
  decide +kernel

end Summary

end Asn1.TimeStamp
