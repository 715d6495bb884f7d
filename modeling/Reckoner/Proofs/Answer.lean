import Mathlib.Data.List.Forall2
import Reckoner.Answer
import Reckoner.Proofs.Json.Grammar

/-!
# Answers Read Back

The text of an answer reads back as the answer.  It is an object whose first member is a truth
value and whose other members, if there are any, are strings.
-/

namespace Reckoner

namespace Json

/-! ## Strings -/

/-- A string between its quotation marks is in a form of its characters. -/
theorem exists_stringForm_quoted (s : String) :
    ∃ pieces, text? pieces = some s ∧ StringForm pieces (quoted s) := by
  obtain ⟨pieces, hread, hdecode⟩ := exists_readPieces s.toList
  obtain ⟨t, ht, heq⟩ := exists_piecesForm (hread [])
  obtain rfl := List.append_cancel_right heq
  exact ⟨pieces, by rw [text?, hdecode, Option.map_some, String.ofList_toList], ⟨ht⟩⟩

/-! ## Members -/

/-- Members whose values are strings, each with a comma before it. -/
def stringMembers (members : List (String × String)) : List Char :=
  members.flatMap fun (name, value) ↦ ',' :: quoted name ++ ':' :: quoted value

/-- The member that is read is the one that is written. -/
def IsMember (member : String × String) (read : List Piece × Tree) : Prop :=
  text? read.1 = some member.1 ∧ ∃ pieces, read.2 = .string pieces ∧ text? pieces = some member.2

/-- Members in a form, the first one with any value that is. -/
theorem exists_membersForm {value : List Char} {tree : Tree} (name : String)
    (hvalue : TreeForm tree value) (members : List (String × String)) :
    ∃ pieces trees, text? pieces = some name ∧ List.Forall₂ IsMember members trees ∧
      MembersForm ((pieces, tree) :: trees)
        (quoted name ++ ':' :: (value ++ stringMembers members)) := by
  obtain ⟨pieces, hpieces, hname⟩ := exists_stringForm_quoted name
  induction members generalizing name pieces tree value with
  | nil =>
    have hform := MembersForm.last hname .nil .nil hvalue .nil
    exact ⟨pieces, [], hpieces, .nil, hform⟩
  | cons member members ih =>
    obtain ⟨second, written⟩ := member
    obtain ⟨inner, hinner, hwritten⟩ := exists_stringForm_quoted written
    obtain ⟨pieces', hpieces', hname'⟩ := exists_stringForm_quoted second
    obtain ⟨pieces'', trees, htext, htrees, hrest⟩ :=
      ih second (.scalar (.string hwritten)) pieces' hpieces' hname'
    have hform := MembersForm.more hname .nil .nil hvalue .nil .nil hrest
    refine ⟨pieces, (pieces'', .string inner) :: trees, hpieces,
      .cons ⟨htext, inner, rfl, hinner⟩ htrees, ?_⟩
    simpa [stringMembers] using hform

end Json

namespace Answer

open Json

/-- The members that are strings. -/
def members (answer : Answer) : List (String × String) :=
  (answer.result.map ("result", ·)).toList ++ (answer.error.map ("error", ·)).toList

theorem toChars_eq (answer : Answer) : answer.toChars =
    '\x7b' :: (quoted "ok" ++ ':' :: ((if answer.ok then "true" else "false").toList ++
      (stringMembers answer.members ++ ['\x7d']))) := by
  obtain ⟨ok, result, error⟩ := answer
  cases result <;> cases error <;> simp [toChars, memberText, members, stringMembers]

section

variable {draft : Draft} {value : String} {read : List Piece × Tree}
  {trees : List (List Piece × Tree)}

theorem readOptional_of_isMember {name : String} (h : IsMember (name, value) read) :
    readOptional read.2 = some (some value) := by
  obtain ⟨-, pieces, htree, hvalue⟩ := h
  rw [htree, readOptional, hvalue]
  rfl

theorem putAll_result (h : IsMember ("result", value) read) (hnone : draft.result = none) :
    draft.putAll (read :: trees) =
      Draft.putAll { draft with result := some (some value) } trees := by
  obtain ⟨pieces, tree⟩ := read
  have hvalue := readOptional_of_isMember h
  simp only at hvalue
  simp [Draft.putAll, Draft.put, h.1, hvalue, hnone]

theorem putAll_error (h : IsMember ("error", value) read) (hnone : draft.error = none) :
    draft.putAll (read :: trees) =
      Draft.putAll { draft with error := some (some value) } trees := by
  obtain ⟨pieces, tree⟩ := read
  have hvalue := readOptional_of_isMember h
  simp only at hvalue
  simp [Draft.putAll, Draft.put, h.1, hvalue, hnone]

end

/-- The members that are read give the answer that they were written for. -/
theorem ofTree?_members {answer : Answer} {pieces : List Piece} {trees : List (List Piece × Tree)}
    (hok : text? pieces = some "ok") (h : List.Forall₂ IsMember answer.members trees) :
    ofTree? (.object ((pieces, .bool answer.ok) :: trees)) = some answer := by
  obtain ⟨ok, result, error⟩ := answer
  have hfirst : ofTree? (.object ((pieces, .bool ok) :: trees)) =
      (Draft.putAll { ok := some ok } trees).bind Draft.finish? := by
    simp [ofTree?, Draft.putAll, Draft.put, readBool, hok]
  rw [hfirst]
  cases result with
  | none =>
    cases error with
    | none =>
      cases h
      rfl
    | some message =>
      obtain _ | ⟨herror, hend⟩ := h
      cases hend
      rw [putAll_error herror rfl]
      rfl
  | some text =>
    obtain _ | ⟨hresult, hrest⟩ := h
    rw [putAll_result hresult rfl]
    cases error with
    | none =>
      cases hrest
      rfl
    | some message =>
      obtain _ | ⟨herror, hend⟩ := hrest
      cases hend
      rw [putAll_error herror rfl]
      rfl

/-- A text is read as what the tree that it writes is read as. -/
theorem ofText?_of_spacedForm {tree : Tree} {text : String} (h : SpacedForm tree text.toList) :
    ofText? text = ofTree? tree := by
  rw [ofText?, (Tree.ofChars?_eq_some_iff (Nat.le_refl _)).mpr h]
  rfl

/-- The text of an answer reads back. -/
theorem ofText?_toText (answer : Answer) : ofText? answer.toText = some answer := by
  have hok : TreeForm (.bool answer.ok) (if answer.ok then "true" else "false").toList := by
    cases answer.ok with
    | true => exact .scalar .true
    | false => exact .scalar .false
  obtain ⟨pieces, trees, hname, htrees, hmembers⟩ := exists_membersForm "ok" hok answer.members
  have hspaced :
      SpacedForm (.object ((pieces, .bool answer.ok) :: trees)) answer.toText.toList := by
    rw [toText, String.toList_ofList, toChars_eq, ← List.append_assoc]
    simpa using (TreeForm.object .nil hmembers).spaced
  rw [ofText?_of_spacedForm hspaced]
  exact ofTree?_members hname htrees

end Answer

end Reckoner
