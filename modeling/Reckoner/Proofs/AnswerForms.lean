import Mathlib.Tactic.MkIffOfInductiveProp
import Reckoner.Proofs.Answer
import Reckoner.Proofs.Json.Grammar

/-!
# The Forms of Answers

Which texts are read as an answer: with white space between all parts, the members of an object in
any order, members of other names among them, and a null in the place of a member that is missing;
or the values alone, as an array.  All of this is gone once the answer is written, and what is
written is read as the same answer.
-/

namespace Reckoner.Answer

open Json

/-! ## What a tree presents -/

/-- The values of the members with a name, in their order. -/
def valuesOf (name : String) (members : List (List Piece × Tree)) : List Tree :=
  (members.filter fun member ↦ text? member.1 == some name).map Prod.snd

/-- The values of a member that may be missing, for a string or for nothing. -/
inductive PresentsOptional : List Tree → Option String → Prop
  | absent : PresentsOptional [] none
  | null : PresentsOptional [.null] none
  | string {pieces : List Piece} {value : String} (h : text? pieces = some value) :
    PresentsOptional [.string pieces] (some value)

/-- The trees for an answer. -/
inductive Presents : Tree → Answer → Prop
  | object {members : List (List Piece × Tree)} {answer : Answer}
    (hnames : ∀ member ∈ members, (text? member.1).isSome)
    (hok : valuesOf "ok" members = [.bool answer.ok])
    (hresult : PresentsOptional (valuesOf "result" members) answer.result)
    (herror : PresentsOptional (valuesOf "error" members) answer.error) :
    Presents (.object members) answer
  | ok {ok : Bool} : Presents (.array [.bool ok]) ⟨ok, none, none⟩
  | result {ok : Bool} {value : Tree} {result : Option String}
    (hresult : PresentsOptional [value] result) :
    Presents (.array [.bool ok, value]) ⟨ok, result, none⟩
  | error {ok : Bool} {value value' : Tree} {result error : Option String}
    (hresult : PresentsOptional [value] result) (herror : PresentsOptional [value'] error) :
    Presents (.array [.bool ok, value, value']) ⟨ok, result, error⟩

/-! ## Drafts -/

/-- What a part of a draft becomes with the values of its member: it is filled once at most. -/
inductive Filled {α : Type} (read : Tree → Option α) : Option α → List Tree → Option α → Prop
  | kept {old : Option α} : Filled read old [] old
  | put {value : Tree} {a : α} (h : read value = some a) : Filled read none [value] (some a)

section

variable {α : Type} {read : Tree → Option α} {old new : Option α} {value tree : Tree}
  {values : List Tree} {name : String} {pieces : List Piece} {draft draft' : Draft}
  {members : List (List Piece × Tree)}

theorem filled_nil_iff : Filled read old [] new ↔ new = old := by
  constructor
  · rintro ⟨⟩
    rfl
  · rintro rfl
    exact .kept

theorem filled_cons_iff : Filled read old (value :: values) new ↔
    old = none ∧ ∃ a, read value = some a ∧ Filled read (some a) values new := by
  constructor
  · rintro ⟨⟩
    case put a h => exact ⟨rfl, a, h, .kept⟩
  · rintro ⟨rfl, a, ha, hfilled⟩
    cases hfilled
    exact .put ha

theorem valuesOf_nil : valuesOf name [] = [] := rfl

theorem valuesOf_cons (h : text? pieces = some name) :
    valuesOf name ((pieces, tree) :: members) = tree :: valuesOf name members := by
  simp [valuesOf, h]

theorem valuesOf_cons_of_ne {name' : String} (h : text? pieces = some name') (hne : name' ≠ name) :
    valuesOf name ((pieces, tree) :: members) = valuesOf name members := by
  simp [valuesOf, h, hne]

/-- Each part of the draft is filled with the values of its own member. -/
@[mk_iff]
structure FilledAll (draft : Draft) (members : List (List Piece × Tree)) (draft' : Draft) :
    Prop where
  names : ∀ member ∈ members, (text? member.1).isSome
  ok : Filled readBool draft.ok (valuesOf "ok" members) draft'.ok
  result : Filled readOptional draft.result (valuesOf "result" members) draft'.result
  error : Filled readOptional draft.error (valuesOf "error" members) draft'.error

theorem filledAll_nil_iff : FilledAll draft [] draft' ↔ draft' = draft := by
  constructor
  · rintro ⟨-, hok, hresult, herror⟩
    rw [valuesOf_nil, filled_nil_iff] at hok hresult herror
    obtain ⟨ok, result, error⟩ := draft'
    rw [Draft.mk.injEq]
    exact ⟨hok, hresult, herror⟩
  · rintro rfl
    exact ⟨List.forall_mem_nil _, .kept, .kept, .kept⟩

/-- A part is filled if it has not been filled before. -/
theorem fill_eq_some_iff {found : Option α} {fill : α → Draft} :
    (do let a ← found; if old.isNone then some (fill a) else none) = some draft ↔
      old = none ∧ ∃ a, found = some a ∧ draft = fill a := by
  cases found <;> cases old <;> simp [eq_comm]

theorem put_ok_iff : draft.put "ok" tree = some draft' ↔
    draft.ok = none ∧ ∃ a, readBool tree = some a ∧ draft' = { draft with ok := some a } :=
  fill_eq_some_iff

theorem put_result_iff : draft.put "result" tree = some draft' ↔ draft.result = none ∧
    ∃ a, readOptional tree = some a ∧ draft' = { draft with result := some a } :=
  fill_eq_some_iff

theorem put_error_iff : draft.put "error" tree = some draft' ↔ draft.error = none ∧
    ∃ a, readOptional tree = some a ∧ draft' = { draft with error := some a } :=
  fill_eq_some_iff

def IsKnown (name : String) : Prop := name = "ok" ∨ name = "result" ∨ name = "error"

theorem valuesOf_cons_of_unknown {name' : String} (h : text? pieces = some name')
    (hunknown : ¬ IsKnown name') (hname : IsKnown name) :
    valuesOf name ((pieces, tree) :: members) = valuesOf name members := by
  apply valuesOf_cons_of_ne h
  rintro rfl
  exact hunknown hname

theorem put_unknown (h : ¬ IsKnown name) : draft.put name tree = some draft := by
  rw [IsKnown, not_or, not_or] at h
  obtain ⟨hok, hresult, herror⟩ := h
  rw [Draft.put]
  · exact hok
  · exact hresult
  · exact herror

/-- One member more fills its own part. -/
theorem filledAll_cons_iff (h : text? pieces = some name) :
    FilledAll draft ((pieces, tree) :: members) draft' ↔
      ∃ mid, draft.put name tree = some mid ∧ FilledAll mid members draft' := by
  have hname : (text? pieces).isSome := by rw [h]; rfl
  simp only [filledAll_iff, List.forall_mem_cons, hname, true_and]
  by_cases hknown : IsKnown name
  · rcases hknown with rfl | rfl | rfl
    · simp only [put_ok_iff, valuesOf_cons h, valuesOf_cons_of_ne h (by decide : "ok" ≠ "result"),
        valuesOf_cons_of_ne h (by decide : "ok" ≠ "error"), filled_cons_iff]
      grind
    · simp only [put_result_iff, valuesOf_cons h,
        valuesOf_cons_of_ne h (by decide : "result" ≠ "ok"),
        valuesOf_cons_of_ne h (by decide : "result" ≠ "error"), filled_cons_iff]
      grind
    · simp only [put_error_iff, valuesOf_cons h,
        valuesOf_cons_of_ne h (by decide : "error" ≠ "ok"),
        valuesOf_cons_of_ne h (by decide : "error" ≠ "result"), filled_cons_iff]
      grind
  · simp only [put_unknown hknown, valuesOf_cons_of_unknown h hknown (.inl rfl),
      valuesOf_cons_of_unknown h hknown (.inr (.inl rfl)),
      valuesOf_cons_of_unknown h hknown (.inr (.inr rfl)), Option.some.injEq, exists_eq_left']

/-- All members together fill the draft, in whatever order. -/
theorem putAll_eq_some_iff :
    draft.putAll members = some draft' ↔ FilledAll draft members draft' := by
  induction members generalizing draft with
  | nil =>
    rw [filledAll_nil_iff, Draft.putAll, Option.some.injEq]
    exact eq_comm
  | cons member members ih =>
    obtain ⟨pieces, tree⟩ := member
    cases hname : text? pieces with
    | none =>
      simp only [Draft.putAll, hname, Option.bind_eq_bind, Option.bind_none]
      constructor
      · rintro ⟨⟩
      · intro h
        have hsome := h.names _ List.mem_cons_self
        rw [hname] at hsome
        cases hsome
    | some name =>
      simp only [Draft.putAll, hname, Option.bind_eq_bind, Option.bind_some,
        Option.bind_eq_some_iff, ih, filledAll_cons_iff hname]

end

/-! ## Trees that are read -/

section

variable {tree : Tree} {answer : Answer} {values : List Tree} {ok : Bool} {result : Option String}

theorem readBool_eq_some_iff : readBool tree = some ok ↔ tree = .bool ok := by
  constructor
  · intro h
    cases tree <;> cases h
    rfl
  · rintro rfl
    rfl

theorem readOptional_eq_some_iff :
    readOptional tree = some result ↔ PresentsOptional [tree] result := by
  constructor
  · intro h
    cases tree with
    | null =>
      cases h
      exact .null
    | string pieces =>
      obtain ⟨value, hvalue, heq⟩ := Option.map_eq_some_iff.mp h
      cases heq
      exact .string hvalue
    | _ => cases h
  · intro h
    cases h with
    | null => rfl
    | string hvalue => rw [readOptional, hvalue, Option.map_some]

theorem filled_readBool_iff :
    Filled readBool none values (some ok) ↔ values = [.bool ok] := by
  constructor
  · rintro ⟨⟩
    case put value h => rw [readBool_eq_some_iff.mp h]
  · rintro rfl
    exact .put rfl

theorem exists_filled_readOptional_iff :
    (∃ new, Filled readOptional none values new ∧ new.getD none = result) ↔
      PresentsOptional values result := by
  constructor
  · rintro ⟨new, hfilled, rfl⟩
    cases hfilled with
    | kept => exact .absent
    | put h => exact readOptional_eq_some_iff.mp h
  · intro h
    cases h with
    | absent => exact ⟨none, .kept, rfl⟩
    | null => exact ⟨some none, .put rfl, rfl⟩
    | @string pieces value h =>
      exact ⟨some (some value), .put (readOptional_eq_some_iff.mpr (.string h)), rfl⟩

theorem finish?_eq_some_iff {draft : Draft} : draft.finish? = some answer ↔
    draft.ok = some answer.ok ∧ draft.result.getD none = answer.result ∧
      draft.error.getD none = answer.error := by
  rw [Draft.finish?]
  cases draft.ok with
  | none => simp
  | some ok =>
    obtain ⟨ok', result, error⟩ := answer
    rw [Option.map_some, Option.some.injEq, Answer.mk.injEq, Option.some.injEq]

theorem ofTree?_object_eq_some_iff {members : List (List Piece × Tree)} :
    ofTree? (.object members) = some answer ↔ Presents (.object members) answer := by
  simp only [ofTree?, Option.bind_eq_bind, Option.bind_eq_some_iff, putAll_eq_some_iff,
    finish?_eq_some_iff]
  constructor
  · rintro ⟨draft, ⟨hnames, hok, hresult, herror⟩, hanswer, hresult', herror'⟩
    rw [hanswer] at hok
    exact .object hnames (filled_readBool_iff.mp hok)
      (exists_filled_readOptional_iff.mp ⟨_, hresult, hresult'⟩)
      (exists_filled_readOptional_iff.mp ⟨_, herror, herror'⟩)
  · rintro ⟨hnames, hok, hresult, herror⟩
    obtain ⟨result, hresult, hresult'⟩ := exists_filled_readOptional_iff.mpr hresult
    obtain ⟨error, herror, herror'⟩ := exists_filled_readOptional_iff.mpr herror
    exact ⟨⟨some answer.ok, result, error⟩, ⟨hnames, filled_readBool_iff.mpr hok, hresult, herror⟩,
      rfl, hresult', herror'⟩

theorem ofTree?_array_eq_some_iff {items : List Tree} :
    ofTree? (.array items) = some answer ↔ Presents (.array items) answer := by
  constructor
  · intro h
    rw [ofTree?.eq_def] at h
    split at h
    case h_1 heq => cases heq
    case h_2 heq =>
      cases heq
      simp only [Option.bind_eq_bind, Option.bind_eq_some_iff, readBool_eq_some_iff] at h
      obtain ⟨ok, rfl, heq⟩ := h
      cases heq
      exact .ok
    case h_3 heq =>
      cases heq
      simp only [Option.bind_eq_bind, Option.bind_eq_some_iff, readBool_eq_some_iff,
        readOptional_eq_some_iff] at h
      obtain ⟨ok, rfl, result, hresult, heq⟩ := h
      cases heq
      exact .result hresult
    case h_4 heq =>
      cases heq
      simp only [Option.bind_eq_bind, Option.bind_eq_some_iff, readBool_eq_some_iff,
        readOptional_eq_some_iff] at h
      obtain ⟨ok, rfl, result, hresult, error, herror, heq⟩ := h
      cases heq
      exact .error hresult herror
    case h_5 => cases h
  · intro h
    cases h with
    | ok => rfl
    | result hresult =>
      rw [ofTree?, readOptional_eq_some_iff.mpr hresult]
      rfl
    | error hresult herror =>
      rw [ofTree?, readOptional_eq_some_iff.mpr hresult, readOptional_eq_some_iff.mpr herror]
      rfl

/-- A tree is read as an answer if it presents it, and only then. -/
theorem ofTree?_eq_some_iff : ofTree? tree = some answer ↔ Presents tree answer := by
  cases tree with
  | object members => exact ofTree?_object_eq_some_iff
  | array items => exact ofTree?_array_eq_some_iff
  | _ =>
    constructor
    · intro h
      cases h
    · rintro ⟨⟩

end

/-! ## Texts that are read -/

/-- A text is read as an answer if it writes a tree that presents it, with white space around all
parts, and only then. -/
theorem ofText?_eq_some_iff {text : String} {answer : Answer} :
    ofText? text = some answer ↔ ∃ tree, SpacedForm tree text.toList ∧ Presents tree answer := by
  rw [ofText?]
  simp only [Option.bind_eq_bind, Option.bind_eq_some_iff, ofTree?_eq_some_iff,
    Tree.ofChars?_eq_some_iff (Nat.le_refl _)]

/-! ## Members that say the same -/

/-- Members say the same in another order, without a member of another name, and without a member
that is null where a string may be missing. -/
inductive SaySame : List (List Piece × Tree) → List (List Piece × Tree) → Prop
  | reordered {members members' : List (List Piece × Tree)} (h : members.Perm members') :
    SaySame members members'
  | unknown {pieces : List Piece} {name : String} {value : Tree}
    {members : List (List Piece × Tree)} (hname : text? pieces = some name)
    (hunknown : ¬ IsKnown name) : SaySame ((pieces, value) :: members) members
  | null {pieces : List Piece} {name : String} {members : List (List Piece × Tree)}
    (hname : text? pieces = some name) (hoptional : name = "result" ∨ name = "error")
    (habsent : valuesOf name members = []) : SaySame ((pieces, .null) :: members) members
  | symm {members members' : List (List Piece × Tree)} (h : SaySame members members') :
    SaySame members' members
  | trans {members members' members'' : List (List Piece × Tree)} (h : SaySame members members')
    (h' : SaySame members' members'') : SaySame members members''

section

variable {members members' : List (List Piece × Tree)} {answer : Answer}

theorem valuesOf_perm (h : members.Perm members') (name : String) :
    (valuesOf name members).Perm (valuesOf name members') :=
  (h.filter _).map _

theorem PresentsOptional.perm {values values' : List Tree} {result : Option String}
    (h : PresentsOptional values result) (hperm : values.Perm values') :
    PresentsOptional values' result := by
  cases h with
  | absent =>
    rw [List.perm_nil.mp hperm.symm]
    exact .absent
  | null =>
    rw [List.perm_singleton.mp hperm.symm]
    exact .null
  | string h =>
    rw [List.perm_singleton.mp hperm.symm]
    exact .string h

/-- A null is nothing. -/
theorem presentsOptional_null_iff {result : Option String} :
    PresentsOptional [.null] result ↔ PresentsOptional [] result := by
  constructor <;>
  · rintro ⟨⟩
    constructor

theorem presents_object_iff : Presents (.object members) answer ↔
    (∀ member ∈ members, (text? member.1).isSome) ∧
      valuesOf "ok" members = [.bool answer.ok] ∧
      PresentsOptional (valuesOf "result" members) answer.result ∧
      PresentsOptional (valuesOf "error" members) answer.error :=
  ⟨fun | .object hnames hok hresult herror => ⟨hnames, hok, hresult, herror⟩,
    fun ⟨hnames, hok, hresult, herror⟩ ↦ .object hnames hok hresult herror⟩

theorem Presents.reordered (h : members.Perm members')
    (hpresents : Presents (.object members) answer) : Presents (.object members') answer := by
  obtain ⟨hnames, hok, hresult, herror⟩ := hpresents
  have hok' := valuesOf_perm h "ok"
  rw [hok] at hok'
  exact .object (fun member hmem ↦ hnames member (h.mem_iff.mpr hmem))
    (List.perm_singleton.mp hok'.symm) (hresult.perm (valuesOf_perm h _))
    (herror.perm (valuesOf_perm h _))

/-- Members that say the same present the same answer. -/
theorem SaySame.presents_iff (h : SaySame members members') :
    Presents (.object members) answer ↔ Presents (.object members') answer := by
  induction h with
  | reordered h => exact ⟨.reordered h, .reordered h.symm⟩
  | @unknown pieces name value members hname hunknown =>
    have hsome : (text? pieces).isSome := by rw [hname]; rfl
    simp only [presents_object_iff, List.forall_mem_cons, hsome, true_and,
      valuesOf_cons_of_unknown hname hunknown (.inl rfl),
      valuesOf_cons_of_unknown hname hunknown (.inr (.inl rfl)),
      valuesOf_cons_of_unknown hname hunknown (.inr (.inr rfl))]
  | @null pieces name members hname hoptional habsent =>
    have hsome : (text? pieces).isSome := by rw [hname]; rfl
    simp only [presents_object_iff, List.forall_mem_cons, hsome, true_and]
    rcases hoptional with rfl | rfl
    · rw [valuesOf_cons_of_ne hname (by decide : "result" ≠ "ok"), valuesOf_cons hname,
        valuesOf_cons_of_ne hname (by decide : "result" ≠ "error"), habsent,
        presentsOptional_null_iff]
    · rw [valuesOf_cons_of_ne hname (by decide : "error" ≠ "ok"), valuesOf_cons hname,
        valuesOf_cons_of_ne hname (by decide : "error" ≠ "result"), habsent,
        presentsOptional_null_iff]
  | symm h ih => exact ih.symm
  | trans h h' ih ih' => exact ih.trans ih'

/-- Texts whose members say the same are read as the same answer, or both refused. -/
theorem SaySame.ofText?_eq {text text' : String} (h : SaySame members members')
    (htext : SpacedForm (.object members) text.toList)
    (htext' : SpacedForm (.object members') text'.toList) : ofText? text = ofText? text' := by
  rw [ofText?_of_spacedForm htext, ofText?_of_spacedForm htext']
  apply Option.ext
  intro answer
  rw [ofTree?_eq_some_iff, ofTree?_eq_some_iff, h.presents_iff]

end

/-- The wire format loses nothing.  What is written for an answer is read as this answer.  Whatever
text is read as an answer, the answer is written as a text that is read as the same answer and
written as the same text.  The texts that are read are those of the trees that present the answer,
with any white space between their parts; and members in another order, of other names, or that are
null where a string may be missing make no difference. -/
theorem wireFormat_loses_nothing :
    (∀ answer : Answer, ofText? answer.toText = some answer) ∧
      (∀ text answer, ofText? text = some answer →
        ∃ answer', ofText? answer.toText = some answer' ∧ answer' = answer ∧
          answer'.toText = answer.toText) ∧
      (∀ text answer, ofText? text = some answer ↔
        ∃ tree, SpacedForm tree text.toList ∧ Presents tree answer) ∧
      ∀ members members' text text', SaySame members members' →
        SpacedForm (.object members) text.toList → SpacedForm (.object members') text'.toList →
          ofText? text = ofText? text' :=
  ⟨ofText?_toText, fun _ answer _ ↦ ⟨answer, ofText?_toText answer, rfl, rfl⟩,
    fun _ _ ↦ ofText?_eq_some_iff, fun _ _ _ _ h htext htext' ↦ h.ofText?_eq htext htext'⟩

/-- An answer with a null, a number beyond the doubles under another name, escapes and white
space. -/
def spacedText : String :=
  " \x7b\"error\" : null , \"note\":[1e999, \x7b\x7d],\n\"result\":\"\\u0041\\n\" , \"ok\":true\x7d "

theorem spacedText_loses_nothing : ofText? spacedText = some (.success "A\n") ∧
    ∃ answer', ofText? (success "A\n").toText = some answer' ∧ answer' = .success "A\n" ∧
      answer'.toText = (success "A\n").toText := by
  have hread : ofText? spacedText = some (.success "A\n") := by decide +kernel
  exact ⟨hread, wireFormat_loses_nothing.2.1 _ _ hread⟩

end Reckoner.Answer
