import Mathlib.Tactic

namespace LiMaoIM

inductive Outcome (α : Type) where
  | ok (a : α)
  | error (e : String)
  | panic (e : String)
deriving DecidableEq, Repr

def nilPointer : String := "runtime error: invalid memory address or nil pointer dereference"

namespace Outcome

variable {α β γ : Type}

def bind : Outcome α → (α → Outcome β) → Outcome β
  | .ok a, f => f a
  | .error e, _ => .error e
  | .panic e, _ => .panic e

instance : Monad Outcome where
  pure := .ok
  bind := bind

def mapError (f : String → String) : Outcome α → Outcome α
  | .ok a => .ok a
  | .error e => .error (f e)
  | .panic e => .panic e

def Panics (x : Outcome α) : Prop := ∃ e, x = .panic e

def Returns (x : Outcome α) : Prop := (∃ a, x = .ok a) ∨ ∃ e, x = .error e

def All (p : α → Prop) : Outcome α → Prop
  | .ok a => p a
  | .error _ => True
  | .panic _ => True

instance (p : α → Prop) [DecidablePred p] : (x : Outcome α) → Decidable (x.All p)
  | .ok a => inferInstanceAs (Decidable (p a))
  | .error _ => isTrue trivial
  | .panic _ => isTrue trivial

theorem all_iff {p : α → Prop} {x : Outcome α} : x.All p ↔ ∀ a, x = .ok a → p a := by
  cases x <;> simp [All]

@[simp] theorem pure_eq (a : α) : (pure a : Outcome α) = .ok a := rfl

@[simp] theorem ok_bind (a : α) (f : α → Outcome β) : (Outcome.ok a >>= f) = f a := rfl

@[simp] theorem error_bind (e : String) (f : α → Outcome β) :
    (Outcome.error e >>= f) = .error e := rfl

@[simp] theorem panic_bind (e : String) (f : α → Outcome β) :
    (Outcome.panic e >>= f) = .panic e := rfl

theorem bind_eq_ok {x : Outcome α} {f : α → Outcome β} {b : β} :
    (x >>= f) = .ok b ↔ ∃ a, x = .ok a ∧ f a = .ok b := by
  cases x <;> simp

theorem map_of_bind (f : β → γ) (x : Outcome α) (g : α → Outcome β) :
    f <$> (x >>= g) = x >>= fun a => f <$> g a := by
  cases x with
  | ok | error | panic => rfl

theorem bind_of_map (f : α → β) (x : Outcome α) (g : β → Outcome γ) :
    (f <$> x) >>= g = x >>= fun a => g (f a) := by
  cases x with
  | ok | error | panic => rfl

theorem map_eq_ok {f : α → β} {x : Outcome α} {b : β} :
    f <$> x = .ok b ↔ ∃ a, x = .ok a ∧ f a = b := by
  have hbind : f <$> x = x >>= fun a => .ok (f a) := rfl
  simp only [hbind, bind_eq_ok, Outcome.ok.injEq]

theorem bind_panics {x : Outcome α} {f : α → Outcome β} :
    (x >>= f).Panics ↔ x.Panics ∨ ∃ a, x = .ok a ∧ (f a).Panics := by
  cases x <;> simp [Panics]

theorem mapError_eq_ok {g : String → String} {x : Outcome α} {a : α} :
    x.mapError g = .ok a ↔ x = .ok a := by
  cases x <;> simp [mapError]

theorem returns_iff_not_panics (x : Outcome α) : x.Returns ↔ ¬ x.Panics := by
  cases x <;> simp [Returns, Panics]

end Outcome
end LiMaoIM
