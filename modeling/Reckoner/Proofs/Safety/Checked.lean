import Reckoner.Proofs.Attempt

/-!
# Checked Steps

Work on lists by offsets, and with numbers up to a largest one.  A step that such work cannot always
take is checked: it either gives what it should, or it breaks off with a `Breach`.  Breaches are
kept apart from the faults of an expression, which are answers like others.

Loops and recursions are given a number of rounds and break off if they want more.
-/

namespace Reckoner

/-- What must never happen. -/
inductive Breach where
  /-- An element or a part of a list is wanted that is not there. -/
  | outOfRange
  /-- A sum is greater than the largest number. -/
  | overflow
  /-- A difference is less than zero. -/
  | underflow
  /-- A loop or a recursion goes on for too long. -/
  | endless
deriving DecidableEq, Repr

/-- A value, if nothing happens that must never happen. -/
abbrev Checked (α : Type) := Except Breach α

namespace Checked

variable {α : Type}

/-- An element of a list. -/
def read (xs : List α) (i : Nat) : Checked α :=
  match xs[i]? with
  | some x => .ok x
  | none => .error .outOfRange

def slice (xs : List α) (start stop : Nat) : Checked (List α) :=
  if start ≤ stop ∧ stop ≤ xs.length then .ok ((xs.drop start).take (stop - start))
  else .error .outOfRange

/-- A sum of two numbers, where there is a largest number. -/
def add (largest a b : Nat) : Checked Nat :=
  if a + b ≤ largest then .ok (a + b) else .error .overflow

/-- A sum of two numbers, where there is no largest number. -/
def unlimited (a b : Nat) : Checked Nat := .ok (a + b)

/-- A difference of two numbers. -/
def sub (a b : Nat) : Checked Nat := if b ≤ a then .ok (a - b) else .error .underflow

variable {xs ys zs : List α} {x : α} {i start stop largest a b : Nat}

theorem read_eq_ok (h : xs[i]? = some x) : read xs i = .ok x := by
  rw [read, h]

theorem slice_eq_ok (hstart : start ≤ stop) (hstop : stop ≤ xs.length) :
    slice xs start stop = .ok ((xs.drop start).take (stop - start)) := if_pos ⟨hstart, hstop⟩

theorem add_eq_ok (h : a + b ≤ largest) : add largest a b = .ok (a + b) := if_pos h

theorem sub_eq_ok (h : b ≤ a) : sub a b = .ok (a - b) := if_pos h

/-! ## Offsets into a list -/

theorem getElem?_of_drop_eq (h : xs.drop i = x :: ys) : xs[i]? = some x := by
  rw [← List.head?_drop, h]
  rfl

theorem length_of_drop_eq (h : xs.drop i = x :: ys) : i + 1 + ys.length = xs.length := by
  have hlength := congrArg List.length h
  rw [List.length_drop, List.length_cons] at hlength
  omega

theorem drop_succ_of_drop_eq (h : xs.drop i = x :: ys) : xs.drop (i + 1) = ys := by
  rw [← List.drop_drop, h, List.drop_one, List.tail_cons]

theorem getElem?_of_drop_eq_nil (h : xs.drop i = []) : xs[i]? = none := by
  rw [← List.head?_drop, h]
  rfl

theorem drop_of_drop_eq_append (h : xs.drop i = ys ++ zs) : xs.drop (i + ys.length) = zs := by
  rw [← List.drop_drop, h, List.drop_left]

theorem add_length_le_of_drop_eq (h : xs.drop i = ys ++ zs) (hi : i ≤ xs.length) :
    i + ys.length ≤ xs.length := by
  have hlength := congrArg List.length h
  rw [List.length_drop, List.length_append] at hlength
  omega

end Checked

end Reckoner
