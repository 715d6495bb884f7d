import Reckoner.Fault

/-!
# Vocabularies

The closed set of names that an expression may use, each a constant or a function.  A function is
applied to a list of arguments; its arity is checked by who calls it, so it looks for its arguments
with `argument` and ignores those it has no use for.
-/

namespace Reckoner

/-- What a function answers. -/
abbrev Evaluation := Except EvalFault Binary64

structure Function where
  name : String
  arity : Arity
  apply : List Binary64 → Evaluation

namespace Function

def argument (arguments : List Binary64) (place : Nat) : Evaluation :=
  match arguments[place]? with
  | some value => .ok value
  | none => .error .missingArgument

def unary (name : String) (f : Binary64 → Evaluation) : Function where
  name := name
  arity := .exactly 1
  apply arguments := do f (← argument arguments 0)

def binary (name : String) (f : Binary64 → Binary64 → Evaluation) : Function where
  name := name
  arity := .exactly 2
  apply arguments := do
    let first ← argument arguments 0
    let second ← argument arguments 1
    f first second

/-- A function of one argument, zero if there is none. -/
def optional (name : String) (f : Binary64 → Binary64) : Function where
  name := name
  arity := .between 0 1
  apply arguments := .ok (arguments.head?.elim .zero f)

end Function

inductive Entry where
  | constant (value : Binary64)
  | function (function : Function)

/-- Names and what they stand for. -/
structure Vocabulary where
  entries : List (String × Entry)

namespace Vocabulary

def empty : Vocabulary := ⟨[]⟩

def entry? (vocabulary : Vocabulary) (name : String) : Option Entry :=
  vocabulary.entries.lookup name

def constant? (vocabulary : Vocabulary) (name : String) : Option Binary64 :=
  match vocabulary.entry? name with
  | some (.constant value) => some value
  | _ => none

def function? (vocabulary : Vocabulary) (name : String) : Option Function :=
  match vocabulary.entry? name with
  | some (.function function) => some function
  | _ => none

def names (vocabulary : Vocabulary) : List String :=
  (vocabulary.entries.map Prod.fst).mergeSort fun a b => decide (a ≤ b)

end Vocabulary

end Reckoner
