import Mathlib.Data.List.Infix
import Asn1.Proofs.Ber.Cursor

/-!
# Sessions stay inside their buffer

A window lies at a position of a buffer when its octets are those of the buffer from there on and
its cursor is in bounds. What an action can do is said once, by `Session.Performs`; so each action
keeps all windows at their positions (`IsPlaced.perform`), and so does a run (`isPlaced_run`). Main
statement: `run_stays_in_bounds`.
-/

namespace Asn1.Ber

/-! ## Windows in a buffer -/

/-- The cursor of the window is in bounds, and its octets are those of a buffer from a position on. -/
structure Window.LiesAt (window : Window) (buffer : Octets) (base : Nat) : Prop where
  inBounds : window.InBounds
  isPrefix : window.data <+: buffer.drop base

namespace Window.LiesAt

variable {window window' : Window} {buffer : Octets} {base : Nat}

theorem ofOctets (buffer : Octets) : (Window.ofOctets buffer).LiesAt buffer 0 :=
  ⟨Window.inBounds_ofOctets buffer, List.prefix_rfl⟩

theorem move (h : window.LiesAt buffer base) (hdata : window'.data = window.data)
    (hbounds : window'.InBounds) : window'.LiesAt buffer base := by
  refine ⟨hbounds, ?_⟩
  rw [hdata]
  exact h.isPrefix

/-- Behind a position of the window the buffer goes on as the window does. -/
theorem drop (h : window.LiesAt buffer base) (position : Nat) :
    window.data.drop position <+: buffer.drop (base + position) := by
  rw [← List.drop_drop]
  exact h.isPrefix.drop position

theorem slice (h : window.LiesAt buffer base) (start width : Nat) :
    (Window.ofOctets ((window.data.drop start).take width)).LiesAt buffer (base + start) :=
  ⟨Window.inBounds_ofOctets _, (List.take_prefix _ _).trans (h.drop start)⟩

end Window.LiesAt

theorem getElem?_of_isPrefix_drop {octets buffer : Octets} {position : Nat}
    (h : octets <+: buffer.drop position) {index : Nat} {octet : UInt8}
    (hoctet : octets[index]? = some octet) : buffer[position + index]? = some octet := by
  obtain ⟨rest, hrest⟩ := h
  obtain ⟨hlt, -⟩ := List.getElem?_eq_some_iff.mp hoctet
  rw [← List.getElem?_drop, ← hrest, List.getElem?_append_left hlt, hoctet]

/-! ## What an action can do -/

namespace Session

/-- What an action that succeeds on a window in bounds does to the session. -/
inductive Effect (session : Session) (number : Nat) (window : Window) :
    Action → Reply → Session → Prop
  /-- The cursor moves, and what is handed out stands where it was. -/
  | move {action : Action} {reply : Reply} {window' : Window}
      (hmoves : ∀ start stop, action ≠ .slice start stop) (hdata : window'.data = window.data)
      (hbounds : window'.InBounds) (hout : reply.handedOut <+: window.remaining) :
      Effect session number window action reply (session.update number window')
  /-- A window over a range of the octets joins the session. -/
  | slice {start stop : Nat} {octets : Octets}
      (hoctets : octets = (window.data.drop start).take (stop - start)) :
      Effect session number window (.slice start stop)
        (.sliced session.windows.length octets) ⟨session.windows ++ [.ofOctets octets]⟩

variable {session session' : Session} {number : Nat} {window : Window} {action : Action}
  {reply : Reply}

theorem effect_of_performOn (hbounds : window.InBounds)
    (h : session.performOn number window action = .ok (reply, session')) :
    Effect session number window action reply session' := by
  cases action with
  | readByte =>
    obtain ⟨⟨octet, moved⟩, hread, hpure⟩ := bind_eq_ok.mp h
    cases hpure
    obtain ⟨hoctet, rfl⟩ := Window.readByte_eq_ok_iff.mp hread
    obtain ⟨hlt, hget⟩ := List.getElem?_eq_some_iff.mp hoctet
    refine .move (by simp) rfl (Nat.succ_le_of_lt hlt) ?_
    rw [Window.remaining, List.drop_eq_getElem_cons hlt, hget]
    exact List.prefix_append [octet] _
  | readBytes count =>
    obtain ⟨⟨octets, moved⟩, hread, hpure⟩ := bind_eq_ok.mp h
    cases hpure
    obtain ⟨hcount, rfl, rfl⟩ := Window.readBytes_eq_ok_iff.mp hread
    exact .move (by simp) rfl (hbounds.advance hcount) (List.take_prefix _ _)
  | seek position =>
    obtain ⟨moved, hseek, hpure⟩ := bind_eq_ok.mp h
    cases hpure
    obtain ⟨hposition, rfl⟩ := Window.seek_eq_ok_iff.mp hseek
    exact .move (by simp) rfl hposition List.nil_prefix
  | readHeader =>
    obtain ⟨⟨header, moved⟩, hdecode, hpure⟩ := bind_eq_ok.mp h
    cases hpure
    obtain ⟨rest, hparse, rfl⟩ := Header.decode_eq_ok_iff.mp hdecode
    refine .move (by simp) rfl (hbounds.behind hparse) ?_
    obtain ⟨front, hfront, hremaining⟩ := Header.exists_of_parse hparse
    rw [hremaining]
    cases hfront with
    | mk hid hlength =>
      rw [List.append_assoc]
      exact List.prefix_append _ _
  | slice start stop =>
    obtain ⟨sliced, hslice, hpure⟩ := bind_eq_ok.mp h
    cases hpure
    obtain ⟨-, -, rfl⟩ := Window.slice_eq_ok_iff.mp hslice
    exact .slice rfl

/-- What an action can do to a session in which all windows are in bounds. -/
inductive Performs (session : Session) (number : Nat) (action : Action) :
    Option (Except Error Reply) × Session → Prop
  /-- There is no such window. -/
  | missing (hwindow : session.windows[number]? = none) :
      Performs session number action (none, session)
  | failed {window : Window} {error : Error} (hwindow : session.windows[number]? = some window) :
      Performs session number action (some (.error error), session)
  | done {window : Window} {reply : Reply} {session' : Session}
      (hwindow : session.windows[number]? = some window)
      (heffect : Effect session number window action reply session') :
      Performs session number action (some (.ok reply), session')

theorem performs_perform
    (h : ∀ window, session.windows[number]? = some window → window.InBounds) :
    Performs session number action (session.perform number action) := by
  unfold perform
  cases hwindow : session.windows[number]? with
  | none => exact .missing hwindow
  | some window =>
    dsimp only
    cases hperform : session.performOn number window action with
    | error error => exact .failed hwindow
    | ok result => exact .done hwindow (effect_of_performOn (h window hwindow) hperform)

/-- What is handed out stands in the buffer where the window says. -/
theorem Effect.handedOut_isPrefix {buffer : Octets} {base : Nat}
    (h : Effect session number window action reply session') (hlies : window.LiesAt buffer base) :
    reply.handedOut <+: buffer.drop (base + action.position window) := by
  cases h with
  | move hmoves hdata hbounds hout =>
    have hposition : action.position window = window.offset := by
      cases action with
      | slice start stop => exact absurd rfl (hmoves start stop)
      | _ => rfl
    rw [hposition]
    exact hout.trans (hlies.drop window.offset)
  | @slice start stop octets hoctets =>
    rw [Reply.handedOut, hoctets]
    exact (List.take_prefix _ _).trans (hlies.drop start)

/-- The other windows of the session stay as they are. -/
theorem Effect.getElem?_of_ne (h : Effect session number window action reply session')
    {other : Nat} (hne : other ≠ number) (hlt : other < session.windows.length) :
    session'.windows[other]? = session.windows[other]? := by
  cases h with
  | move hmoves hdata hbounds hout => exact List.getElem?_set_ne hne.symm
  | slice hoctets => exact List.getElem?_append_left hlt

/-! ## Runs -/

namespace Traced

/-- Every window lies in the buffer where the slices that it came through say. -/
structure IsPlaced (buffer : Octets) (traced : Traced) : Prop where
  length_eq : traced.starts.length = traced.session.windows.length
  liesAt : ∀ (number : Nat) (window : Window) (starts : List Nat),
    traced.session.windows[number]? = some window → traced.starts[number]? = some starts →
      window.LiesAt buffer starts.sum

variable {buffer : Octets} {traced : Traced}

theorem IsPlaced.exists_starts (h : traced.IsPlaced buffer)
    (hwindow : traced.session.windows[number]? = some window) :
    ∃ starts, traced.starts[number]? = some starts ∧ window.LiesAt buffer starts.sum := by
  obtain ⟨hlt, -⟩ := List.getElem?_eq_some_iff.mp hwindow
  rw [← h.length_eq] at hlt
  have hstarts := List.getElem?_eq_getElem hlt
  exact ⟨_, hstarts, h.liesAt number window _ hwindow hstarts⟩

theorem IsPlaced.performs (h : traced.IsPlaced buffer) (number : Nat) (action : Action) :
    Performs traced.session number action (traced.session.perform number action) := by
  apply performs_perform
  intro window hwindow
  obtain ⟨starts, -, hlies⟩ := h.exists_starts hwindow
  exact hlies.inBounds

theorem isPlaced_ofOctets (buffer : Octets) : (ofOctets buffer).IsPlaced buffer := by
  refine ⟨rfl, fun number window starts hwindow hstarts => ?_⟩
  cases number with
  | zero =>
    cases hwindow
    cases hstarts
    exact Window.LiesAt.ofOctets buffer
  | succ number => cases hwindow

theorem startsAfter_of_ne {starts : List (List Nat)} {reply : Option (Except Error Reply)}
    (h : ∀ start stop, action ≠ .slice start stop) :
    startsAfter starts number action reply = starts := by
  cases action with
  | slice start stop => exact absurd rfl (h start stop)
  | _ => rfl

theorem startsAfter_none (starts : List (List Nat)) (number : Nat) (action : Action) :
    startsAfter starts number action none = starts := by
  cases action <;> rfl

theorem startsAfter_error (starts : List (List Nat)) (number : Nat) (action : Action)
    (error : Error) : startsAfter starts number action (some (.error error)) = starts := by
  cases action <;> rfl

/-- An action keeps the windows where they are, and the window that it adds lies where its slice
says. -/
theorem IsPlaced.perform (h : traced.IsPlaced buffer) (number : Nat) (action : Action) :
    (traced.perform number action).IsPlaced buffer := by
  have hperforms := h.performs number action
  unfold Traced.perform
  generalize traced.session.perform number action = outcome at hperforms
  cases hperforms with
  | missing hwindow =>
    dsimp only
    rw [startsAfter_none]
    exact h
  | failed hwindow =>
    dsimp only
    rw [startsAfter_error]
    exact h
  | @done window reply session' hwindow heffect =>
    obtain ⟨starts, hstarts, hlies⟩ := h.exists_starts hwindow
    cases heffect with
    | @move _ _ window' hmoves hdata hbounds hout =>
      dsimp only
      rw [startsAfter_of_ne hmoves]
      refine ⟨by simp [update, h.length_eq], fun other found path hfound hpath => ?_⟩
      by_cases heq : other = number
      · subst heq
        obtain ⟨hlt, -⟩ := List.getElem?_eq_some_iff.mp hwindow
        rw [hstarts, Option.some.injEq] at hpath
        rw [update, List.getElem?_set_self hlt, Option.some.injEq] at hfound
        subst hpath hfound
        exact hlies.move hdata hbounds
      · rw [update, List.getElem?_set_ne (Ne.symm heq)] at hfound
        exact h.liesAt other found path hfound hpath
    | @slice start stop octets hoctets =>
      dsimp only [startsAfter]
      refine ⟨by simp [h.length_eq], fun other found path hfound hpath => ?_⟩
      rcases Nat.lt_trichotomy other traced.session.windows.length with hlt | rfl | hgt
      · rw [List.getElem?_append_left hlt] at hfound
        rw [List.getElem?_append_left (h.length_eq ▸ hlt)] at hpath
        exact h.liesAt other found path hfound hpath
      · -- The new window stands last, and so do its starts.
        rw [List.getElem?_concat_length, Option.some.injEq] at hfound
        rw [← h.length_eq, List.getElem?_concat_length, List.getD_eq_getElem?_getD, hstarts,
          Option.getD_some, Option.some.injEq] at hpath
        subst hfound hpath hoctets
        rw [List.sum_append, List.sum_singleton]
        exact hlies.slice start (stop - start)
      · have hend : (traced.session.windows ++ [Window.ofOctets octets]).length ≤ other := by
          rw [List.length_append, List.length_singleton]
          exact hgt
        rw [List.getElem?_eq_none hend] at hfound
        cases hfound

theorem isPlaced_run (buffer : Octets) (actions : List (Nat × Action)) :
    (run buffer actions).IsPlaced buffer := by
  -- For any session to start from, since each action of the run starts from another one.
  have hfrom (traced : Traced) (h : traced.IsPlaced buffer) :
      (actions.foldl (fun traced step => traced.perform step.1 step.2) traced).IsPlaced buffer := by
    induction actions generalizing traced with
    | nil => exact h
    | cons step actions ih => exact ih (traced.perform step.1 step.2) (h.perform step.1 step.2)
  exact hfrom _ (isPlaced_ofOctets buffer)

end Traced

/-- After any actions on a buffer and on the windows sliced from it, each window has its cursor
within its octets, no operation on it misses a range, and none that fails changes it. Whatever is
asked of it next, a refusal leaves all windows as they are, and a success all but this one; and the
octets that are handed out are those of the buffer, from the position on to which the starts of the
slices and the cursor add up. -/
theorem run_stays_in_bounds (buffer : Octets) (actions : List (Nat × Action)) :
    (Traced.run buffer actions).starts.length =
        (Traced.run buffer actions).session.windows.length ∧
      ∀ (number : Nat) (window : Window),
        (Traced.run buffer actions).session.windows[number]? = some window →
        ∃ starts : List Nat, (Traced.run buffer actions).starts[number]? = some starts ∧
          window.offset ≤ window.data.length ∧
          (∀ (index : Nat) (octet : UInt8), window.data[index]? = some octet →
            buffer[starts.sum + index]? = some octet) ∧
          InPlace.Works window ∧
          ∀ action,
            (∀ error session',
              (Traced.run buffer actions).session.perform number action =
                (some (.error error), session') →
              session' = (Traced.run buffer actions).session) ∧
            ∀ reply session',
              (Traced.run buffer actions).session.perform number action =
                (some (.ok reply), session') →
              (∀ (index : Nat) (octet : UInt8), reply.handedOut[index]? = some octet →
                buffer[starts.sum + action.position window + index]? = some octet) ∧
              ∀ other : Nat, other ≠ number →
                other < (Traced.run buffer actions).session.windows.length →
                  session'.windows[other]? =
                    (Traced.run buffer actions).session.windows[other]? := by
  have hplaced := Traced.isPlaced_run buffer actions
  generalize Traced.run buffer actions = traced at hplaced
  refine ⟨hplaced.length_eq, fun number window hwindow => ?_⟩
  obtain ⟨starts, hstarts, hlies⟩ := hplaced.exists_starts hwindow
  refine ⟨starts, hstarts, hlies.inBounds, ?_, InPlace.works hlies.inBounds, fun action => ?_⟩
  · intro index octet hoctet
    exact getElem?_of_isPrefix_drop hlies.isPrefix hoctet
  · have hperforms := hplaced.performs number action
    refine ⟨fun error session' hfails => ?_, fun reply session' hdone => ?_⟩
    · rw [hfails] at hperforms
      cases hperforms
      rfl
    · rw [hdone] at hperforms
      cases hperforms with
      | @done window' _ _ hwindow' heffect =>
        rw [hwindow, Option.some.injEq] at hwindow'
        subst hwindow'
        refine ⟨fun index octet hoctet => ?_, fun other hne hlt => heffect.getElem?_of_ne hne hlt⟩
        exact getElem?_of_isPrefix_drop (heffect.handedOut_isPrefix hlies) hoctet

/-- A slice of a slice starts where both starts add up to. -/
example : Traced.run [1, 2, 3, 4, 5] [(0, .slice 1 5), (1, .readByte), (1, .slice 2 4)] =
    ⟨⟨[⟨[1, 2, 3, 4, 5], 0⟩, ⟨[2, 3, 4, 5], 1⟩, ⟨[4, 5], 0⟩]⟩, [[], [1], [1, 2]]⟩ :=
  rfl

end Session

end Asn1.Ber
