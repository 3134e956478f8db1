/-!
# Computations that complete

Operations of this library can stop with an error. A statement about what an operation
does says two things at once: that it ends with a value, and what holds of the value.
-/

namespace BlockCache

/-- `x` ends with a value that has the property `P`. -/
def Completes {ε α : Type} (x : Except ε α) (P : α -> Prop) : Prop :=
  exists a, x = .ok a ∧ P a

namespace Completes

variable {ε α β : Type} {x : Except ε α} {f : α -> Except ε β} {P Q : α -> Prop} {R : β -> Prop}

theorem ok {a : α} (h : P a) : Completes (.ok a : Except ε α) P :=
  ⟨a, rfl, h⟩

theorem pure {a : α} (h : P a) : Completes (Pure.pure a : Except ε α) P :=
  ok h

theorem mono (h : Completes x P) (hPQ : forall a, P a -> Q a) : Completes x Q := by
  rcases h with ⟨a, hx, ha⟩
  exact ⟨a, hx, hPQ a ha⟩

theorem bind (h : Completes x P) (hf : forall a, P a -> Completes (f a) R) :
    Completes (x >>= f) R := by
  rcases h with ⟨a, hx, ha⟩
  rw [hx]
  exact hf a ha

theorem bind_eq {a : α} (hx : x = .ok a) (h : Completes (f a) R) : Completes (x >>= f) R := by
  rw [hx]
  exact h

theorem map {g : α -> β} (h : Completes x P) (hg : forall a, P a -> R (g a)) :
    Completes (x.map g) R := by
  rcases h with ⟨a, hx, ha⟩
  rw [hx]
  exact ⟨g a, rfl, hg a ha⟩

theorem of_eq {a : α} (h : Completes x P) (hx : x = .ok a) : P a := by
  rcases h with ⟨b, hb, hP⟩
  rw [hx] at hb
  cases hb
  exact hP

end Completes

theorem exists_of_bind_eq_ok {ε α β : Type} {x : Except ε α} {f : α -> Except ε β} {b : β}
    (h : x >>= f = .ok b) : exists a, x = .ok a ∧ f a = .ok b := by
  cases x with
  | error e => cases h
  | ok a => exact ⟨a, rfl, h⟩

theorem exists_of_map_eq_ok {ε α β : Type} {x : Except ε α} {f : α -> β} {b : β}
    (h : x.map f = .ok b) : exists a, x = .ok a ∧ f a = b := by
  cases x with
  | error e => cases h
  | ok a => exact ⟨a, rfl, Except.ok.inj h⟩

theorem eq_error_of_map_eq_error {ε α β : Type} {x : Except ε α} {f : α -> β} {e : ε}
    (h : x.map f = .error e) : x = .error e := by
  cases x with
  | error e' =>
      cases h
      rfl
  | ok a => cases h

end BlockCache
