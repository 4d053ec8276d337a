import Mathlib.Tactic.TypeStar

/-! What a computation that may raise can end with: `Meets E P x` says that `x`
returns a value with `P` or raises an error with `E`. The rules are equivalences,
so that a condition on the outcome of a whole computation becomes, step by step,
an exact condition on what the computation was given. -/

namespace Outcome

universe u

variable {ε : Type*} {α β : Type u} {E F : ε → Prop} {P Q : α → Prop} {x : Except ε α}

def Meets (E : ε → Prop) (P : α → Prop) : Except ε α → Prop
  | .ok a => P a
  | .error e => E e

@[simp] theorem meets_ok {a : α} : Meets E P (.ok a) ↔ P a := Iff.rfl

@[simp] theorem meets_error {e : ε} : Meets E P (.error e) ↔ E e := Iff.rfl

@[simp] theorem meets_pure {a : α} : Meets E P (pure a : Except ε α) ↔ P a := Iff.rfl

@[simp] theorem meets_throw {e : ε} : Meets E P (throw e : Except ε α) ↔ E e := Iff.rfl

theorem meets_bind {P : β → Prop} {f : α → Except ε β} :
    Meets E P (x >>= f) ↔ Meets E (fun a => Meets E P (f a)) x := by
  cases x <;> rfl

theorem returns_bind {f : α → Except ε β} {b : β} :
    x >>= f = .ok b ↔ ∃ a, x = .ok a ∧ f a = .ok b := by
  cases x with
  | ok a => exact ⟨fun h => ⟨a, rfl, h⟩, fun ⟨_, same, h⟩ => Except.ok.inj same ▸ h⟩
  | error e => exact ⟨nofun, fun ⟨_, other, _⟩ => nomatch other⟩

theorem meets_congr (h : ∀ a, x = .ok a → (P a ↔ Q a)) : Meets E P x ↔ Meets E Q x := by
  cases x with
  | ok a => exact h a rfl
  | error e => rfl

theorem Meets.mono (h : Meets E P x) (errors : ∀ e, E e → F e) (values : ∀ a, P a → Q a) :
    Meets F Q x := by
  cases x with
  | ok a => exact values a h
  | error e => exact errors e h

theorem meets_iff_returns (unwanted : ∀ e, x = .error e → ¬E e) :
    Meets E P x ↔ ∃ a, x = .ok a ∧ P a := by
  cases x with
  | ok a => simp
  | error e => simpa using unwanted e rfl

abbrev Raises (E : ε → Prop) (x : Except ε α) : Prop := Meets E (fun _ => True) x

theorem raises_iff : Raises E x ↔ ∀ e, x = .error e → E e := by
  cases x <;> simp

theorem Raises.bind {f : α → Except ε β} (h : Raises E x) (hf : ∀ a, Raises E (f a)) :
    Raises E (x >>= f) :=
  meets_bind.mpr (h.mono (fun _ => id) fun a _ => hf a)

theorem Raises.map (h : Raises E x) (f : α → β) : Raises E (x.map f) := by
  cases x <;> exact h

end Outcome
