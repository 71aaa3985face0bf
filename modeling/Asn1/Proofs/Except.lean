/-!
# Steps that can fail

Readers are written as steps one after the other. A chain of steps succeeds when each of them does
(`bind_eq_ok`), and its error is that of the first step that fails (`bind_eq_error`). Two runs of
one chain agree when their steps do (`Agree.bind`), and a chain has only such errors as its steps
have (`FailsWith.bind`).
-/

namespace Asn1

variable {ε α β : Type} {first : Except ε α} {next : α → Except ε β} {error : ε}

@[simp] theorem ok_bind (a : α) (next : α → Except ε β) : (Except.ok a >>= next) = next a := rfl

@[simp] theorem error_bind (error : ε) (next : α → Except ε β) :
    (Except.error error >>= next) = .error error := rfl

theorem bind_eq_ok {b : β} :
    (first >>= next) = .ok b ↔ ∃ a, first = .ok a ∧ next a = .ok b := by
  cases first with
  | error error => simp
  | ok a => simp

theorem bind_eq_error :
    (first >>= next) = .error error ↔
      first = .error error ∨ ∃ a, first = .ok a ∧ next a = .error error := by
  cases first with
  | error error => simp
  | ok a => simp

theorem map_eq_ok {f : α → β} {b : β} : first.map f = .ok b ↔ ∃ a, first = .ok a ∧ f a = b := by
  cases first with
  | error error => simp [Except.map]
  | ok a => simp [Except.map]

theorem mapError_eq_ok {ε' : Type} {f : ε → ε'} {a : α} :
    first.mapError f = .ok a ↔ first = .ok a := by
  cases first with
  | error error => exact ⟨nofun, nofun⟩
  | ok a' =>
    constructor
    · rintro ⟨⟩
      rfl
    · rintro ⟨⟩
      rfl

/-- Two runs end alike: with related results, or with the same error, which is one of `P`. -/
inductive Agree {α' : Type} (P : ε → Prop) (R : α → α' → Prop) : Except ε α → Except ε α' → Prop
  | ok {a : α} {a' : α'} (h : R a a') : Agree P R (.ok a) (.ok a')
  | error {error : ε} (h : P error) : Agree P R (.error error) (.error error)

theorem Agree.bind {α' β' : Type} {P : ε → Prop} {R : α → α' → Prop} {S : β → β' → Prop}
    {first' : Except ε α'} {next' : α' → Except ε β'} (h : Agree P R first first')
    (hnext : ∀ a a', R a a' → Agree P S (next a) (next' a')) :
    Agree P S (first >>= next) (first' >>= next') := by
  cases h with
  | ok h => exact hnext _ _ h
  | error h => exact .error h

/-- A run that fails does so with an error of `P`. -/
def FailsWith (P : ε → Prop) (run : Except ε α) : Prop :=
  ∀ error, run = .error error → P error

theorem failsWith_ok {P : ε → Prop} (a : α) : FailsWith P (.ok a : Except ε α) :=
  fun _ h => nomatch h

theorem failsWith_error {P : ε → Prop} (h : P error) :
    FailsWith P (.error error : Except ε α) := by
  rintro _ ⟨⟩
  exact h

theorem FailsWith.bind {P : ε → Prop} (h : FailsWith P first)
    (hnext : ∀ a, FailsWith P (next a)) : FailsWith P (first >>= next) := by
  intro error herror
  rcases bind_eq_error.mp herror with hfirst | ⟨a, -, herror⟩
  · exact h error hfirst
  · exact hnext a error herror

end Asn1
