/-!
# Attempts

How a result comes out of several attempts, each of which may fail: the whole succeeds if every
part does, and otherwise fails as the first part that fails.  Two attempts are alike if they succeed
with related results or fail alike; attempts with alike parts are alike.
-/

namespace Reckoner

variable {ε ε' α β : Type} {x : Except ε α} {f : α → Except ε β} {e : ε} {a : α} {b : β}

theorem ok_bind (a : α) (f : α → Except ε β) : Except.ok a >>= f = f a := rfl

theorem bind_eq_ok_iff : x >>= f = .ok b ↔ ∃ a, x = .ok a ∧ f a = .ok b := by
  cases x <;> simp [Bind.bind, Except.bind]

theorem bind_eq_error_iff :
    x >>= f = .error e ↔ x = .error e ∨ ∃ a, x = .ok a ∧ f a = .error e := by
  cases x <;> simp [Bind.bind, Except.bind]

theorem map_eq_ok_iff {g : α → β} : x.map g = .ok b ↔ ∃ a, x = .ok a ∧ g a = b := by
  cases x <;> simp [Except.map]

theorem mapError_ok (g : ε → ε') (a : α) : (Except.ok a : Except ε α).mapError g = .ok a := rfl

theorem mapError_error (g : ε → ε') (e : ε) :
    (Except.error e : Except ε α).mapError g = .error (g e) := rfl

theorem mapError_eq_ok_iff {g : ε → ε'} : x.mapError g = .ok a ↔ x = .ok a := by
  cases x <;> simp [mapError_ok, mapError_error]

theorem mapError_eq_error_iff {g : ε → ε'} {e' : ε'} :
    x.mapError g = .error e' ↔ ∃ e, x = .error e ∧ g e = e' := by
  cases x <;> simp [mapError_ok, mapError_error]

/-! ## Attempts that are alike -/

/-- Related results, or the same fault. -/
def Alike (related : α → α → Prop) : Except ε α → Except ε α → Prop
  | .ok x, .ok y => related x y
  | .error e, .error e' => e = e'
  | _, _ => False

theorem Alike.refl {related : α → α → Prop} (hrefl : ∀ a, related a a) (x : Except ε α) :
    Alike related x x := by
  cases x with
  | ok a => exact hrefl a
  | error e => rfl

theorem Alike.trans {related : α → α → Prop} {x y z : Except ε α} (h : Alike related x y)
    (h' : Alike related y z) (htrans : ∀ a b c, related a b → related b c → related a c) :
    Alike related x z := by
  cases x <;> cases y <;> cases z <;>
    first | exact htrans _ _ _ h h' | exact Eq.trans h h' | exact False.elim h | exact False.elim h'

theorem Alike.bind {related : α → α → Prop} {related' : β → β → Prop} {x y : Except ε α}
    {f g : α → Except ε β} (h : Alike related x y)
    (hstep : ∀ {a b}, related a b → Alike related' (f a) (g b)) :
    Alike related' (x >>= f) (y >>= g) := by
  cases x <;> cases y <;> first | exact hstep h | exact h | exact False.elim h

end Reckoner
