import Reckoner.Json.Tree
import Reckoner.Proofs.Json.NumberForms
import Reckoner.Proofs.Json.Strings

/-!
# The Grammar of JSON

The ways to write a tree, with white space before and after each of its parts.  A text is read as a
tree exactly if it is one of the ways to write the tree, as long as arrays and objects are nested no
deeper than the budget; a budget as great as the text is long always suffices.
-/

namespace Reckoner.Json

variable {cs rest : List Char}

/-! ## Trees -/

def Blanks (cs : List Char) : Prop := ∀ c ∈ cs, isBlank c

inductive StringForm : List Piece → List Char → Prop
  | mk {pieces : List Piece} {t : List Char} (h : PiecesForm pieces t) :
    StringForm pieces ('"' :: (t ++ ['"']))

inductive ScalarForm : Tree → List Char → Prop
  | null : ScalarForm .null ['n', 'u', 'l', 'l']
  | true : ScalarForm (.bool true) ['t', 'r', 'u', 'e']
  | false : ScalarForm (.bool false) ['f', 'a', 'l', 's', 'e']
  | string {pieces : List Piece} {t : List Char} (h : StringForm pieces t) :
    ScalarForm (.string pieces) t
  | number {n : NumberText} {t : List Char} (h : NumberForm n t) : ScalarForm (.number n) t

mutual

/-- The ways to write a tree. -/
inductive TreeForm : Tree → List Char → Prop
  | scalar {tree : Tree} {t : List Char} (h : ScalarForm tree t) : TreeForm tree t
  | emptyArray {a : List Char} (ha : Blanks a) : TreeForm (.array []) ('[' :: (a ++ [']']))
  | array {a t : List Char} {items : List Tree} (ha : Blanks a) (h : ItemsForm items t) :
    TreeForm (.array items) ('[' :: (a ++ (t ++ [']'])))
  | emptyObject {a : List Char} (ha : Blanks a) :
    TreeForm (.object []) ('\x7b' :: (a ++ ['\x7d']))
  | object {a t : List Char} {members : List (List Piece × Tree)} (ha : Blanks a)
    (h : MembersForm members t) : TreeForm (.object members) ('\x7b' :: (a ++ (t ++ ['\x7d'])))

inductive ItemsForm : List Tree → List Char → Prop
  | last {tree : Tree} {t a : List Char} (h : TreeForm tree t) (ha : Blanks a) :
    ItemsForm [tree] (t ++ a)
  | more {tree : Tree} {items : List Tree} {t a b ts : List Char} (h : TreeForm tree t)
    (ha : Blanks a) (hb : Blanks b) (hs : ItemsForm items ts) :
    ItemsForm (tree :: items) (t ++ (a ++ ',' :: (b ++ ts)))

/-- The ways to write the members of an object, from the first of them on. -/
inductive MembersForm : List (List Piece × Tree) → List Char → Prop
  | last {name : List Piece} {tree : Tree} {s a b t c : List Char} (hname : StringForm name s)
    (ha : Blanks a) (hb : Blanks b) (h : TreeForm tree t) (hc : Blanks c) :
    MembersForm [(name, tree)] (s ++ (a ++ ':' :: (b ++ (t ++ c))))
  | more {name : List Piece} {tree : Tree} {members : List (List Piece × Tree)}
    {s a b t c d ts : List Char} (hname : StringForm name s) (ha : Blanks a) (hb : Blanks b)
    (h : TreeForm tree t) (hc : Blanks c) (hd : Blanks d) (hs : MembersForm members ts) :
    MembersForm ((name, tree) :: members)
      (s ++ (a ++ ':' :: (b ++ (t ++ (c ++ ',' :: (d ++ ts))))))

end

/-! ## White space -/

section

variable {a b : List Char} {c : Char}

theorem skipBlanks_append (ha : Blanks a) (cs : List Char) :
    skipBlanks (a ++ cs) = skipBlanks cs := List.dropWhile_append_of_pos ha

theorem skipBlanks_append_cons (ha : Blanks a) (hc : isBlank c = false) (cs : List Char) :
    skipBlanks (a ++ c :: cs) = c :: cs := by
  rw [skipBlanks_append ha, skipBlanks, List.dropWhile_cons_of_neg (by rw [hc]; decide)]

theorem exists_blanks (cs : List Char) : ∃ a, Blanks a ∧ cs = a ++ skipBlanks cs :=
  ⟨cs.takeWhile isBlank, fun _ hc ↦ List.mem_takeWhile_imp hc,
    List.takeWhile_append_dropWhile.symm⟩

theorem not_isDigit_of_isBlank (h : isBlank c) :
    c.isDigit = false ∧ c ≠ '.' ∧ c ≠ 'e' ∧ c ≠ 'E' := by
  simp only [isBlank, Bool.or_eq_true, beq_iff_eq] at h
  rcases h with ((rfl | rfl) | rfl) | rfl <;> decide

theorem isBlank_of_isDigit (h : c.isDigit) : isBlank c = false := by
  by_contra hblank
  rw [Bool.not_eq_false] at hblank
  rw [(not_isDigit_of_isBlank hblank).1] at h
  cases h

theorem Blanks.nil : Blanks [] := List.forall_mem_nil _

theorem Blanks.append (ha : Blanks a) (hb : Blanks b) : Blanks (a ++ b) :=
  List.forall_mem_append.mpr ⟨ha, hb⟩

theorem Blanks.numberEnds (ha : Blanks a) (h : NumberEnds rest) : NumberEnds (a ++ rest) := by
  cases a with
  | nil => exact h
  | cons c a =>
    rintro c ⟨⟩
    exact not_isDigit_of_isBlank (ha _ List.mem_cons_self)

end

/-! ## Scalars that are read -/

section

variable {tree : Tree} {t : List Char} {pieces : List Piece}

/-- The text of a scalar begins with no mark of an array or an object. -/
structure StartsScalar (c : Char) : Prop where
  notBlank : isBlank c = false
  notOpening : c ≠ '[' ∧ c ≠ '\x7b'
  notClosing : c ≠ ']' ∧ c ≠ '\x7d'

theorem startsScalar_of_isDigit {c : Char} (h : c.isDigit) : StartsScalar c where
  notBlank := isBlank_of_isDigit h
  notOpening := by
    constructor <;>
    · rintro rfl
      cases h
  notClosing := by
    constructor <;>
    · rintro rfl
      cases h

theorem ScalarForm.exists_first (h : ScalarForm tree t) : ∃ c cs, t = c :: cs ∧ StartsScalar c := by
  cases h with
  | null => exact ⟨_, _, rfl, by decide, by decide, by decide⟩
  | true => exact ⟨_, _, rfl, by decide, by decide, by decide⟩
  | false => exact ⟨_, _, rfl, by decide, by decide, by decide⟩
  | string h =>
    cases h
    exact ⟨_, _, rfl, by decide, by decide, by decide⟩
  | number h =>
    cases h with
    | negative h => exact ⟨_, _, rfl, by decide, by decide, by decide⟩
    | positive h =>
      obtain ⟨c, cs, rfl, hdigit⟩ := h.exists_digit
      exact ⟨c, cs, rfl, startsScalar_of_isDigit hdigit⟩

theorem readScalar_eq_some (h : readScalar cs = some (tree, rest)) :
    ∃ t, ScalarForm tree t ∧ cs = t ++ rest := by
  rw [readScalar.eq_def] at h
  split at h
  case h_1 =>
    cases h
    exact ⟨_, .null, rfl⟩
  case h_2 =>
    cases h
    exact ⟨_, .true, rfl⟩
  case h_3 =>
    cases h
    exact ⟨_, .false, rfl⟩
  case h_4 =>
    simp only [Option.bind_eq_bind, Option.bind_eq_some_iff] at h
    obtain ⟨⟨pieces, rest'⟩, hread, heq⟩ := h
    cases heq
    obtain ⟨t, ht, rfl⟩ := exists_piecesForm hread
    exact ⟨_, .string ⟨ht⟩, by simp⟩
  case h_5 =>
    simp only [Option.bind_eq_bind, Option.bind_eq_some_iff] at h
    obtain ⟨⟨n, rest'⟩, hread, heq⟩ := h
    cases heq
    obtain ⟨t, ht, rfl⟩ := readNumber_eq_some hread
    exact ⟨t, .number ht, rfl⟩

/-- What begins like a number is read as one. -/
theorem readScalar_of_number {c : Char} (h : c = '-' ∨ c.isDigit) (cs : List Char) :
    readScalar (c :: cs) =
      (readNumber (c :: cs)).bind fun (written, rest) ↦ some (.number written, rest) := by
  rw [readScalar.eq_def]
  split
  case h_5 => rfl
  all_goals
    rename_i heq
    cases heq
    rcases h with h | h <;> cases h

theorem ScalarForm.readScalar (h : ScalarForm tree t) (hrest : NumberEnds rest) :
    readScalar (t ++ rest) = some (tree, rest) := by
  cases h with
  | null => rfl
  | true => rfl
  | false => rfl
  | string h =>
    obtain ⟨h⟩ := h
    rw [List.cons_append, List.append_assoc, List.singleton_append, Json.readScalar, h.readPieces]
    rfl
  | number h =>
    have hread := h.readNumber hrest
    cases h with
    | negative h =>
      rw [List.cons_append] at hread ⊢
      rw [readScalar_of_number (.inl rfl), hread]
      rfl
    | positive h =>
      obtain ⟨c, cs, rfl, hdigit⟩ := h.exists_digit
      rw [List.cons_append] at hread ⊢
      rw [readScalar_of_number (.inr hdigit), hread]
      rfl

end

/-! ## What is read is in a form -/

/-- The trees that are read are in their forms, after white space. -/
def ReadsForms (read : Reader Tree) : Prop :=
  ∀ {cs tree rest}, read cs = some (tree, rest) →
    ∃ a t, Blanks a ∧ TreeForm tree t ∧ cs = a ++ (t ++ rest)

section

variable {tree : Tree} {name : List Piece} {items : List Tree} {rounds : Nat}
  {members : List (List Piece × Tree)} {read : Reader Tree}

theorem readName_eq_some (h : readName cs = some (name, rest)) :
    ∃ a s b, Blanks a ∧ StringForm name s ∧ Blanks b ∧ cs = a ++ (s ++ (b ++ ':' :: rest)) := by
  obtain ⟨a, ha, hcs⟩ := exists_blanks cs
  rw [readName] at h
  split at h
  case h_2 => cases h
  case h_1 inner hquote =>
    simp only [Option.bind_eq_bind, Option.bind_eq_some_iff] at h
    obtain ⟨⟨pieces, after⟩, hread, h⟩ := h
    obtain ⟨t, ht, rfl⟩ := exists_piecesForm hread
    obtain ⟨b, hb, hafter⟩ := exists_blanks after
    dsimp only at h
    split at h
    case h_2 => cases h
    case h_1 hcolon =>
      cases h
      refine ⟨a, _, b, ha, ⟨ht⟩, hb, ?_⟩
      rw [hcs, hquote, hafter, hcolon]
      simp

theorem ReadsForms.readItems (hread : ReadsForms read)
    (h : readItems read rounds cs = some (items, rest)) :
    ∃ a t, Blanks a ∧ ItemsForm items t ∧ cs = a ++ (t ++ ']' :: rest) := by
  induction rounds generalizing cs items with
  | zero => cases h
  | succ rounds ih =>
    simp only [Json.readItems, Option.bind_eq_bind, Option.bind_eq_some_iff] at h
    obtain ⟨⟨first, after⟩, hfirst, h⟩ := h
    obtain ⟨a, t, ha, ht, rfl⟩ := hread hfirst
    obtain ⟨b, hb, hafter⟩ := exists_blanks after
    dsimp only at h
    split at h
    case h_1 hcomma =>
      simp only [Option.bind_eq_some_iff] at h
      obtain ⟨⟨others, rest'⟩, hothers, heq⟩ := h
      cases heq
      obtain ⟨c, ts, hc, hts, rfl⟩ := ih hothers
      refine ⟨a, _, ha, .more ht hb hc hts, ?_⟩
      rw [hafter, hcomma]
      simp
    case h_2 hclosing =>
      cases h
      refine ⟨a, _, ha, .last ht hb, ?_⟩
      rw [hafter, hclosing]
      simp
    case h_3 => cases h

theorem ReadsForms.readMembers (hread : ReadsForms read)
    (h : readMembers read rounds cs = some (members, rest)) :
    ∃ a t, Blanks a ∧ MembersForm members t ∧ cs = a ++ (t ++ '\x7d' :: rest) := by
  induction rounds generalizing cs members with
  | zero => cases h
  | succ rounds ih =>
    simp only [Json.readMembers, Option.bind_eq_bind, Option.bind_eq_some_iff] at h
    obtain ⟨⟨name, afterName⟩, hname, ⟨first, after⟩, hfirst, h⟩ := h
    obtain ⟨a, s, b, ha, hs, hb, rfl⟩ := readName_eq_some hname
    obtain ⟨c, t, hc, ht, rfl⟩ := hread hfirst
    obtain ⟨d, hd, hafter⟩ := exists_blanks after
    dsimp only at h
    split at h
    case h_1 hcomma =>
      simp only [Option.bind_eq_some_iff] at h
      obtain ⟨⟨others, rest'⟩, hothers, heq⟩ := h
      cases heq
      obtain ⟨e, ts, he, hts, rfl⟩ := ih hothers
      refine ⟨a, _, ha, .more hs hb hc ht hd he hts, ?_⟩
      rw [hafter, hcomma]
      simp
    case h_2 hclosing =>
      cases h
      refine ⟨a, _, ha, .last hs hb hc ht hd, ?_⟩
      rw [hafter, hclosing]
      simp
    case h_3 => cases h

theorem ReadsForms.readArray (hread : ReadsForms read)
    (h : readArray read cs = some (tree, rest)) :
    ∃ t, TreeForm tree ('[' :: t) ∧ cs = t ++ rest := by
  obtain ⟨a, ha, hcs⟩ := exists_blanks cs
  rw [Json.readArray] at h
  split at h
  case h_1 hclosing =>
    cases h
    refine ⟨_, .emptyArray ha, ?_⟩
    rw [hcs, hclosing]
    simp
  case h_2 =>
    obtain ⟨⟨items, rest'⟩, hitems, heq⟩ := Option.map_eq_some_iff.mp h
    cases heq
    obtain ⟨b, t, hb, ht, hskip⟩ := hread.readItems hitems
    refine ⟨_, .array (ha.append hb) ht, ?_⟩
    rw [hcs, hskip]
    simp

theorem ReadsForms.readObject (hread : ReadsForms read)
    (h : readObject read cs = some (tree, rest)) :
    ∃ t, TreeForm tree ('\x7b' :: t) ∧ cs = t ++ rest := by
  obtain ⟨a, ha, hcs⟩ := exists_blanks cs
  rw [Json.readObject] at h
  split at h
  case h_1 hclosing =>
    cases h
    refine ⟨_, .emptyObject ha, ?_⟩
    rw [hcs, hclosing]
    simp
  case h_2 =>
    obtain ⟨⟨members, rest'⟩, hmembers, heq⟩ := Option.map_eq_some_iff.mp h
    cases heq
    obtain ⟨b, t, hb, ht, hskip⟩ := hread.readMembers hmembers
    refine ⟨_, .object (ha.append hb) ht, ?_⟩
    rw [hcs, hskip]
    simp

end

/-- One more level of nesting is read in its forms if the levels below are. -/
theorem readTree_readsForms (budget : Nat) : ReadsForms (readTree budget) := by
  induction budget with
  | zero =>
    intro cs tree rest h
    obtain ⟨a, ha, hcs⟩ := exists_blanks cs
    obtain ⟨t, ht, hskip⟩ := readScalar_eq_some h
    exact ⟨a, t, ha, .scalar ht, by rw [← hskip, ← hcs]⟩
  | succ budget ih =>
    intro cs tree rest h
    obtain ⟨a, ha, hcs⟩ := exists_blanks cs
    rw [readTree] at h
    split at h
    case h_1 hopening =>
      obtain ⟨t, ht, rfl⟩ := ih.readArray h
      exact ⟨a, _, ha, ht, by rw [hcs, hopening]; rfl⟩
    case h_2 hopening =>
      obtain ⟨t, ht, rfl⟩ := ih.readObject h
      exact ⟨a, _, ha, ht, by rw [hcs, hopening]; rfl⟩
    case h_3 =>
      obtain ⟨t, ht, hskip⟩ := readScalar_eq_some h
      exact ⟨a, t, ha, .scalar ht, by rw [← hskip, ← hcs]⟩

/-! ## What is in a form is read -/

section

variable {tree : Tree} {name : List Piece} {items : List Tree} {budget : Nat}
  {members : List (List Piece × Tree)} {read : Reader Tree} {a t : List Char} {c : Char}

/-- The text of a tree begins with neither white space nor a closing mark. -/
structure StartsTree (c : Char) : Prop where
  notBlank : isBlank c = false
  notClosing : c ≠ ']' ∧ c ≠ '\x7d'

theorem TreeForm.exists_first (h : TreeForm tree t) : ∃ c cs, t = c :: cs ∧ StartsTree c := by
  cases h with
  | scalar h =>
    obtain ⟨c, cs, rfl, hc⟩ := h.exists_first
    exact ⟨c, cs, rfl, hc.notBlank, hc.notClosing⟩
  | emptyArray => exact ⟨_, _, rfl, by decide, by decide⟩
  | array => exact ⟨_, _, rfl, by decide, by decide⟩
  | emptyObject => exact ⟨_, _, rfl, by decide, by decide⟩
  | object => exact ⟨_, _, rfl, by decide, by decide⟩

theorem ItemsForm.exists_first (h : ItemsForm items t) : ∃ c cs, t = c :: cs ∧ StartsTree c := by
  cases h with
  | last h =>
    obtain ⟨c, cs, rfl, hc⟩ := h.exists_first
    exact ⟨c, _, rfl, hc⟩
  | more h =>
    obtain ⟨c, cs, rfl, hc⟩ := h.exists_first
    exact ⟨c, _, rfl, hc⟩

theorem MembersForm.exists_first (h : MembersForm members t) :
    ∃ c cs, t = c :: cs ∧ StartsTree c := by
  cases h with
  | last hname =>
    cases hname
    exact ⟨_, _, rfl, by decide, by decide⟩
  | more hname =>
    cases hname
    exact ⟨_, _, rfl, by decide, by decide⟩

theorem readTree_blanks_scalar (ha : Blanks a) (hc : StartsScalar c) (cs : List Char) :
    readTree budget (a ++ c :: cs) = readScalar (c :: cs) := by
  cases budget with
  | zero => rw [readTree, skipBlanks_append_cons ha hc.notBlank]
  | succ budget =>
    rw [readTree, skipBlanks_append_cons ha hc.notBlank]
    split
    case h_1 heq => exact absurd (List.cons.inj heq).1 hc.notOpening.1
    case h_2 heq => exact absurd (List.cons.inj heq).1 hc.notOpening.2
    case h_3 => rfl

theorem readTree_blanks_array (ha : Blanks a) (cs : List Char) :
    readTree (budget + 1) (a ++ '[' :: cs) = readArray (readTree budget) cs := by
  rw [readTree, skipBlanks_append_cons ha (by decide)]
  rfl

theorem readTree_blanks_object (ha : Blanks a) (cs : List Char) :
    readTree (budget + 1) (a ++ '\x7b' :: cs) = readObject (readTree budget) cs := by
  rw [readTree, skipBlanks_append_cons ha (by decide)]
  rfl

theorem readArray_empty (ha : Blanks a) :
    readArray read (a ++ ']' :: rest) = some (.array [], rest) := by
  rw [readArray, skipBlanks_append_cons ha (by decide)]
  rfl

theorem readArray_items (ha : Blanks a) (hc : StartsTree c) {cs : List Char}
    (h : readItems read (c :: cs).length (c :: cs) = some (items, rest)) :
    readArray read (a ++ c :: cs) = some (.array items, rest) := by
  rw [readArray, skipBlanks_append_cons ha hc.notBlank]
  split
  case h_1 heq => exact absurd (List.cons.inj heq).1 hc.notClosing.1
  case h_2 =>
    rw [h]
    rfl

theorem readObject_empty (ha : Blanks a) :
    readObject read (a ++ '\x7d' :: rest) = some (.object [], rest) := by
  rw [readObject, skipBlanks_append_cons ha (by decide)]
  rfl

theorem readObject_members (ha : Blanks a) (hc : StartsTree c) {cs : List Char}
    (h : readMembers read (c :: cs).length (c :: cs) = some (members, rest)) :
    readObject read (a ++ c :: cs) = some (.object members, rest) := by
  rw [readObject, skipBlanks_append_cons ha hc.notBlank]
  split
  case h_1 heq => exact absurd (List.cons.inj heq).1 hc.notClosing.2
  case h_2 =>
    rw [h]
    rfl

theorem StringForm.readName {b : List Char} (h : StringForm name t) (ha : Blanks a)
    (hb : Blanks b) (rest : List Char) :
    readName (a ++ (t ++ (b ++ ':' :: rest))) = some (name, rest) := by
  obtain ⟨h⟩ := h
  rw [List.cons_append, Json.readName, skipBlanks_append_cons ha (by decide), List.append_assoc,
    List.singleton_append]
  simp only [h.readPieces, Option.bind_eq_bind, Option.bind_some]
  rw [skipBlanks_append_cons hb (by decide)]
  rfl

/-- A number ends before the marks that follow a tree, and before white space. -/
theorem Blanks.numberEnds_mark (ha : Blanks a) (hc : c = ',' ∨ c = ']' ∨ c = '\x7d')
    (rest : List Char) : NumberEnds (a ++ c :: rest) := by
  apply ha.numberEnds
  rintro c ⟨⟩
  rcases hc with rfl | rfl | rfl <;> decide

end

mutual

/-- A budget as great as the text is long suffices for what is nested in it. -/
theorem TreeForm.readTree {tree : Tree} {t a rest : List Char} {budget : Nat} :
    TreeForm tree t → t.length ≤ budget → Blanks a → NumberEnds rest →
      readTree budget (a ++ (t ++ rest)) = some (tree, rest)
  | .scalar h, _, ha, hrest => by
    obtain ⟨c, cs, rfl, hc⟩ := h.exists_first
    rw [List.cons_append, readTree_blanks_scalar ha hc, ← List.cons_append, h.readScalar hrest]
  | .emptyArray hb, hbudget, ha, _ => by
    obtain ⟨budget, rfl⟩ := Nat.exists_eq_add_one_of_ne_zero (Nat.ne_zero_of_lt hbudget)
    rw [List.cons_append, readTree_blanks_array ha, List.append_assoc, List.singleton_append,
      readArray_empty hb]
  | @TreeForm.array b ts items hb h, hbudget, ha, _ => by
    obtain ⟨budget, rfl⟩ := Nat.exists_eq_add_one_of_ne_zero (Nat.ne_zero_of_lt hbudget)
    simp only [List.length_cons, List.length_append] at hbudget
    have hrounds : ts.length < (ts ++ ']' :: rest).length := by simp
    have hlength : ts.length ≤ budget := by omega
    have hitems := h.readItems (a := []) hlength hrounds .nil rest
    rw [List.nil_append] at hitems
    obtain ⟨c, cs, rfl, hc⟩ := h.exists_first
    simp only [List.cons_append, List.append_assoc, readTree_blanks_array ha]
    exact readArray_items hb hc hitems
  | .emptyObject hb, hbudget, ha, _ => by
    obtain ⟨budget, rfl⟩ := Nat.exists_eq_add_one_of_ne_zero (Nat.ne_zero_of_lt hbudget)
    rw [List.cons_append, readTree_blanks_object ha, List.append_assoc, List.singleton_append,
      readObject_empty hb]
  | @TreeForm.object b ts members hb h, hbudget, ha, _ => by
    obtain ⟨budget, rfl⟩ := Nat.exists_eq_add_one_of_ne_zero (Nat.ne_zero_of_lt hbudget)
    simp only [List.length_cons, List.length_append] at hbudget
    have hrounds : ts.length < (ts ++ '\x7d' :: rest).length := by simp
    have hlength : ts.length ≤ budget := by omega
    have hmembers := h.readMembers (a := []) hlength hrounds .nil rest
    rw [List.nil_append] at hmembers
    obtain ⟨c, cs, rfl, hc⟩ := h.exists_first
    simp only [List.cons_append, List.append_assoc, readTree_blanks_object ha]
    exact readObject_members hb hc hmembers

/-- A round for each character suffices for the items. -/
theorem ItemsForm.readItems {items : List Tree} {t a : List Char} {budget rounds : Nat} :
    ItemsForm items t → t.length ≤ budget → t.length < rounds → Blanks a → ∀ rest,
      readItems (readTree budget) rounds (a ++ (t ++ ']' :: rest)) = some (items, rest)
  | .last h hb, hbudget, hrounds, ha, rest => by
    obtain ⟨rounds, rfl⟩ := Nat.exists_eq_add_one_of_ne_zero (Nat.ne_zero_of_lt hrounds)
    rw [List.length_append] at hbudget
    have hends := hb.numberEnds_mark (.inr (.inl rfl)) rest
    rw [List.append_assoc, Json.readItems, h.readTree (by omega) ha hends]
    simp only [Option.bind_eq_bind, Option.bind_some,
      skipBlanks_append_cons hb (by decide : isBlank ']' = false)]
  | @ItemsForm.more tree items t a b ts h hb hc hs, hbudget, hrounds, ha, rest => by
    obtain ⟨rounds, rfl⟩ := Nat.exists_eq_add_one_of_ne_zero (Nat.ne_zero_of_lt hrounds)
    simp only [List.length_append, List.length_cons] at hbudget hrounds
    have hends := hb.numberEnds_mark (.inl rfl) (b ++ (ts ++ ']' :: rest))
    simp only [List.append_assoc, List.cons_append]
    rw [Json.readItems, h.readTree (by omega) ha hends]
    simp only [Option.bind_eq_bind, Option.bind_some,
      skipBlanks_append_cons hb (by decide : isBlank ',' = false)]
    rw [hs.readItems (by omega) (by omega) hc]
    rfl

/-- So it does for the members. -/
theorem MembersForm.readMembers {members : List (List Piece × Tree)} {t a : List Char}
    {budget rounds : Nat} :
    MembersForm members t → t.length ≤ budget → t.length < rounds → Blanks a → ∀ rest,
      readMembers (readTree budget) rounds (a ++ (t ++ '\x7d' :: rest)) = some (members, rest)
  | .last hname hb hc h hd, hbudget, hrounds, ha, rest => by
    obtain ⟨rounds, rfl⟩ := Nat.exists_eq_add_one_of_ne_zero (Nat.ne_zero_of_lt hrounds)
    simp only [List.length_append, List.length_cons] at hbudget
    have hends := hd.numberEnds_mark (.inr (.inr rfl)) rest
    simp only [List.append_assoc, List.cons_append]
    rw [Json.readMembers, hname.readName ha hb]
    simp only [Option.bind_eq_bind, Option.bind_some]
    rw [h.readTree (by omega) hc hends]
    simp only [Option.bind_some, skipBlanks_append_cons hd (by decide : isBlank '\x7d' = false)]
  | @MembersForm.more name tree members s a b t c d ts hname hb hc h hd he hs,
      hbudget, hrounds, ha, rest => by
    obtain ⟨rounds, rfl⟩ := Nat.exists_eq_add_one_of_ne_zero (Nat.ne_zero_of_lt hrounds)
    simp only [List.length_append, List.length_cons] at hbudget hrounds
    have hends := hd.numberEnds_mark (.inl rfl) (d ++ (ts ++ '\x7d' :: rest))
    simp only [List.append_assoc, List.cons_append]
    rw [Json.readMembers, hname.readName ha hb]
    simp only [Option.bind_eq_bind, Option.bind_some]
    rw [h.readTree (by omega) hc hends]
    simp only [Option.bind_some, skipBlanks_append_cons hd (by decide : isBlank ',' = false)]
    rw [hs.readMembers (by omega) (by omega) he]
    rfl

end

inductive SpacedForm : Tree → List Char → Prop
  | mk {tree : Tree} {a t b : List Char} (ha : Blanks a) (h : TreeForm tree t) (hb : Blanks b) :
    SpacedForm tree (a ++ (t ++ b))

theorem TreeForm.spaced {tree : Tree} {t : List Char} (h : TreeForm tree t) :
    SpacedForm tree t := by
  have hspaced := SpacedForm.mk .nil h .nil
  rwa [List.nil_append, List.append_nil] at hspaced

/-- A text is read as a tree if it is a way to write it, with white space around it, and only
then. -/
theorem Tree.ofChars?_eq_some_iff {tree : Tree} {budget : Nat} (hbudget : cs.length ≤ budget) :
    ofChars? budget cs = some tree ↔ SpacedForm tree cs := by
  rw [ofChars?]
  simp only [Option.bind_eq_bind, Option.bind_eq_some_iff]
  constructor
  · rintro ⟨⟨tree', rest⟩, hread, h⟩
    obtain ⟨a, t, ha, ht, rfl⟩ := readTree_readsForms budget hread
    dsimp only at h
    split at h
    case isTrue hend =>
      cases h
      exact .mk ha ht (List.dropWhile_eq_nil_iff.mp hend)
    case isFalse => cases h
  · rintro @⟨a, t, b, ha, ht, hb⟩
    simp only [List.length_append] at hbudget
    have hends : NumberEnds b := by
      rw [← List.append_nil b]
      exact hb.numberEnds nofun
    exact ⟨(tree, b), ht.readTree (by omega) ha hends, if_pos (List.dropWhile_eq_nil_iff.mpr hb)⟩

end Reckoner.Json
