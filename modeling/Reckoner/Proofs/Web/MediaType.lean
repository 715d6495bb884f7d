import Reckoner.Proofs.Lexing.Numbers
import Reckoner.Web.Service

/-!
# Forms of Media Types

The texts that are read as media types are given here by their forms, from the type to the last
parameter.  Neither the parameters nor the case of the letters make a difference to whether a type
is one of JSON, and so none to how a body of that type is read.
-/

namespace Reckoner.Web

namespace MediaType

/-! ## Parameters -/

/-- Some characters that names are made of. -/
def IsToken (cs : List Char) : Prop := ∀ c ∈ cs, isTokenChar c

/-- The text does not go on with such a character. -/
def EndsToken (rest : List Char) : Prop := ∀ c ∈ rest.head?, isTokenChar c = false

/-- Some spaces. -/
def AreSpaces (cs : List Char) : Prop := ∀ c ∈ cs, (c == ' ') = true

/-- The ways to write a value that is not empty, with the spaces after it. -/
inductive ValueForm : List Char → Prop
  | token {value : List Char} (hne : value ≠ []) (hall : IsToken value) : ValueForm value
  | quoted {first : Char} {more spaces : List Char} (hfirst : isQuotedChar first)
    (hmore : ∀ c ∈ more, (isQuotedChar c && c != '"') = true) (hspaces : AreSpaces spaces) :
    ValueForm ('"' :: first :: more ++ '"' :: spaces)

/-- The ways to write parameters.  The value of the last one may be missing. -/
inductive ParametersForm : List Char → Prop
  | nil : ParametersForm []
  | spaces {spaces : List Char} (hspaces : AreSpaces spaces) : ParametersForm (';' :: spaces)
  | noValue {spaces name : List Char} (hspaces : AreSpaces spaces) (hne : name ≠ [])
    (hname : IsToken name) : ParametersForm (';' :: spaces ++ name ++ ['='])
  | cons {spaces name value rest : List Char} (hspaces : AreSpaces spaces) (hne : name ≠ [])
    (hname : IsToken name) (hvalue : ValueForm value) (hrest : ParametersForm rest) :
    ParametersForm (';' :: spaces ++ name ++ '=' :: value ++ rest)

variable {rest : List Char}

theorem isTokenChar_quote : isTokenChar '"' = false := by decide

theorem isTokenChar_semicolon : isTokenChar ';' = false := by decide

theorem isTokenChar_equals : isTokenChar '=' = false := by decide

theorem ParametersForm.head? (h : ParametersForm rest) : ∀ c ∈ rest.head?, c = ';' := by
  cases h with
  | nil => rintro c ⟨⟩
  | _ => rintro c ⟨rfl⟩; rfl

theorem ParametersForm.endsToken (h : ParametersForm rest) : EndsToken rest :=
  fun c hc ↦ h.head? c hc ▸ isTokenChar_semicolon

theorem ValueForm.afterValue? {value : List Char} (h : ValueForm value)
    (hrest : ∀ c ∈ rest.head?, c = ';') : afterValue? (value ++ rest) = some rest := by
  cases h with
  | token hne hall =>
    have hdrop : (value ++ rest).dropWhile isTokenChar = rest :=
      dropWhile_append_of_all hall fun c hc ↦ hrest c hc ▸ isTokenChar_semicolon
    obtain ⟨first, more, rfl⟩ := List.exists_cons_of_ne_nil hne
    have hquote : first ≠ '"' := by
      rintro rfl
      exact absurd (hall _ List.mem_cons_self) (by rw [isTokenChar_quote]; exact Bool.false_ne_true)
    have hlength :
        ¬(rest.length = (first :: more ++ rest).length ∧ first :: more ++ rest ≠ []) := by
      rw [List.length_append, List.length_cons]
      omega
    rw [List.cons_append] at hdrop hlength ⊢
    unfold MediaType.afterValue?
    split
    · rename_i heq
      exact absurd (List.cons.inj heq).1 hquote
    · dsimp only
      rw [hdrop, if_neg hlength]
  | quoted hfirst hmore hspaces =>
    rename_i first more spaces
    have hclosing : (more ++ '"' :: (spaces ++ rest)).dropWhile
        (fun c ↦ isQuotedChar c && c != '"') = '"' :: (spaces ++ rest) :=
      dropWhile_append_of_all hmore (forall_mem_head?_cons (by decide) _)
    have hdrop : (spaces ++ rest).dropWhile (· == ' ') = rest :=
      dropWhile_append_of_all hspaces fun c hc ↦ hrest c hc ▸ by decide
    simp only [List.cons_append, List.append_assoc, MediaType.afterValue?, afterQuoted?, hfirst,
      if_true, hclosing, hdrop]

theorem afterParameter?_append {name value : List Char} (hne : name ≠ []) (hname : IsToken name)
    (hvalue : afterValue? (value ++ rest) = some rest) :
    afterParameter? (name ++ '=' :: value ++ rest) = some rest := by
  have hdrop : (name ++ '=' :: (value ++ rest)).dropWhile isTokenChar = '=' :: (value ++ rest) :=
    dropWhile_append_of_all hname (forall_mem_head?_cons isTokenChar_equals _)
  have hlength : ('=' :: (value ++ rest)).length ≠ (name ++ '=' :: (value ++ rest)).length := by
    have hpos := List.length_pos_iff.mpr hne
    rw [List.length_append]
    omega
  rw [List.append_assoc, List.cons_append]
  unfold afterParameter?
  simp only [hdrop, if_neg hlength, hvalue]

theorem dropWhile_spaces {spaces name more : List Char} (hspaces : AreSpaces spaces)
    (hne : name ≠ []) (hname : IsToken name) :
    (spaces ++ (name ++ more)).dropWhile (· == ' ') = name ++ more := by
  refine dropWhile_append_of_all hspaces ?_
  obtain ⟨first, name, rfl⟩ := List.exists_cons_of_ne_nil hne
  refine forall_mem_head?_cons (beq_eq_false_iff_ne.mpr ?_) _
  rintro rfl
  exact absurd (hname _ List.mem_cons_self) (by decide)

theorem areParameters_cons {rounds : Nat} {spaces name value : List Char}
    (hspaces : AreSpaces spaces) (hne : name ≠ []) (hname : IsToken name)
    (hvalue : afterValue? (value ++ rest) = some rest) (hrest : areParameters rounds rest) :
    areParameters (rounds + 1) (';' :: spaces ++ name ++ '=' :: value ++ rest) := by
  have hdrop : (spaces ++ (name ++ '=' :: (value ++ rest))).dropWhile (· == ' ') =
      name ++ '=' :: (value ++ rest) :=
    dropWhile_spaces hspaces hne hname
  have hafter := afterParameter?_append hne hname hvalue
  obtain ⟨first, name, rfl⟩ := List.exists_cons_of_ne_nil hne
  simp only [List.cons_append, List.append_assoc] at hdrop hafter ⊢
  simp only [areParameters, if_true, hdrop, hafter, Option.any_some, hrest]

/-- Parameters in their form are read as such, to their end. -/
theorem ParametersForm.areParameters {parameters : List Char} (h : ParametersForm parameters)
    {rounds : Nat} (hrounds : parameters.length ≤ rounds) :
    MediaType.areParameters rounds parameters := by
  induction h generalizing rounds with
  | nil => rw [MediaType.areParameters]
  | spaces hspaces =>
    obtain ⟨rounds, rfl⟩ := Nat.exists_eq_add_one.mpr (Nat.zero_lt_of_lt hrounds)
    rename_i spaces
    have hdrop : (spaces ++ []).dropWhile (· == ' ') = [] :=
      dropWhile_append_of_all hspaces (by rintro c ⟨⟩)
    rw [List.append_nil] at hdrop
    simp only [MediaType.areParameters, if_true, hdrop]
  | noValue hspaces hne hname =>
    obtain ⟨rounds, rfl⟩ := Nat.exists_eq_add_one.mpr (Nat.zero_lt_of_lt hrounds)
    have hnil : MediaType.areParameters rounds [] := by rw [MediaType.areParameters]
    rename_i spaces name
    have hread : MediaType.areParameters (rounds + 1) (';' :: spaces ++ name ++ '=' :: [] ++ []) :=
      areParameters_cons hspaces hne hname rfl hnil
    rwa [List.append_nil] at hread
  | cons hspaces hne hname hvalue hrest ih =>
    obtain ⟨rounds, rfl⟩ := Nat.exists_eq_add_one.mpr (Nat.zero_lt_of_lt hrounds)
    refine areParameters_cons hspaces hne hname (hvalue.afterValue? hrest.head?) (ih ?_)
    simp only [List.length_append, List.length_cons] at hrounds
    omega

/-! ## What is read -/

theorem isToken_takeWhile (cs : List Char) : IsToken (cs.takeWhile isTokenChar) :=
  List.all_eq_true.mp List.all_takeWhile

theorem afterValue?_eq_some {cs : List Char} (h : afterValue? cs = some rest) :
    (cs = [] ∧ rest = []) ∨ ∃ value, ValueForm value ∧ cs = value ++ rest := by
  unfold afterValue? at h
  split at h
  case h_1 more =>
    unfold afterQuoted? at h
    split at h
    case h_1 => cases h
    case h_2 first more =>
      rw [Option.ite_none_right_eq_some] at h
      obtain ⟨hfirst, h⟩ := h
      split at h
      case h_2 => cases h
      case h_1 tail hclosing =>
        cases h
        refine .inr ⟨_, .quoted hfirst (List.all_eq_true.mp (List.all_takeWhile (l := more)))
          (List.all_eq_true.mp (List.all_takeWhile (l := tail))), ?_⟩
        simp only [List.cons_append, List.append_assoc, List.takeWhile_append_dropWhile]
        rw [← hclosing, List.takeWhile_append_dropWhile]
  case h_2 =>
    dsimp only at h
    rw [Option.ite_none_left_eq_some] at h
    obtain ⟨hne, h⟩ := h
    cases h
    cases cs with
    | nil => exact .inl ⟨rfl, rfl⟩
    | cons first more =>
      have hvalue : (first :: more).takeWhile isTokenChar ≠ [] := by
        intro hnil
        refine hne ⟨?_, List.cons_ne_nil _ _⟩
        have happend := List.takeWhile_append_dropWhile (p := isTokenChar) (l := first :: more)
        rw [hnil, List.nil_append] at happend
        rw [happend]
      exact .inr ⟨_, .token hvalue (isToken_takeWhile _), List.takeWhile_append_dropWhile.symm⟩

theorem parametersForm_of_afterParameter? {spaces cs : List Char} (hspaces : AreSpaces spaces)
    (hread : afterParameter? cs = some rest) (hrest : ParametersForm rest) :
    ParametersForm (';' :: spaces ++ cs) := by
  unfold afterParameter? at hread
  dsimp only at hread
  split at hread
  case h_2 => cases hread
  case h_1 value hdrop =>
    rw [Option.ite_none_left_eq_some] at hread
    obtain ⟨hne, hvalue⟩ := hread
    have happend := List.takeWhile_append_dropWhile (p := isTokenChar) (l := cs)
    have hname : cs.takeWhile isTokenChar ≠ [] := by
      intro hnil
      rw [hnil, List.nil_append] at happend
      exact hne (by rw [happend])
    rw [hdrop] at happend
    rcases afterValue?_eq_some hvalue with ⟨rfl, rfl⟩ | ⟨value, hform, rfl⟩
    · have hform := ParametersForm.noValue hspaces hname (isToken_takeWhile cs)
      rwa [List.append_assoc, happend] at hform
    · have hform := ParametersForm.cons hspaces hname (isToken_takeWhile cs) hform hrest
      simpa only [List.cons_append, List.append_assoc, happend] using hform

/-- What is read as parameters is in their form. -/
theorem parametersForm_of_areParameters {rounds : Nat} {cs : List Char}
    (h : areParameters rounds cs) : ParametersForm cs := by
  induction rounds generalizing cs with
  | zero =>
    cases cs with
    | nil => exact .nil
    | cons c more => cases h
  | succ rounds ih =>
    cases cs with
    | nil => exact .nil
    | cons c more =>
      simp only [areParameters] at h
      split at h
      case isFalse => cases h
      case isTrue hsemicolon =>
        subst hsemicolon
        have hspaces : AreSpaces (more.takeWhile (· == ' ')) :=
          List.all_eq_true.mp List.all_takeWhile
        have happend := List.takeWhile_append_dropWhile (p := (· == ' ')) (l := more)
        split at h
        case h_1 hdrop =>
          rw [hdrop, List.append_nil] at happend
          exact happend ▸ .spaces hspaces
        case h_2 =>
          obtain ⟨rest, hread, hrest⟩ := (Option.any_eq_true _ _).mp h
          have hform := parametersForm_of_afterParameter? hspaces hread (ih hrest)
          rwa [List.cons_append, happend] at hform

/-! ## Whole types -/

/-- The ways to write a media type: what its type and its subtype are, the suffix still in the
latter. -/
inductive Form (type name : List Char) : List Char → Prop
  | intro {parameters : List Char} (htype : type ≠ []) (htoken : IsToken type)
    (hname : IsToken name) (hempty : name = [] → parameters = [])
    (hparameters : ParametersForm parameters) : Form type name (type ++ '/' :: name ++ parameters)

/-- The media type of a type and a subtype with its suffix. -/
def ofNames (type name : List Char) : MediaType :=
  ⟨type, (splitSuffix name).1, (splitSuffix name).2⟩

variable {type name : List Char} {text : String}

theorem ofText?_of_form (h : Form type name text.toList) :
    ofText? text = some (ofNames type name) := by
  generalize hcs : text.toList = cs at h
  obtain ⟨htype, htoken, hname, hempty, hparameters⟩ := h
  rename_i parameters
  have hslash : ∀ c ∈ ('/' :: (name ++ parameters)).head?, isTokenChar c = false :=
    forall_mem_head?_cons (by decide) _
  rw [List.append_assoc, List.cons_append] at hcs
  have hne : ¬(type = [] ∨ (name = [] ∧ parameters ≠ [])) := by
    rw [not_or, not_and_not_right]
    exact ⟨htype, hempty⟩
  simp only [ofText?, hcs, dropWhile_append_of_all htoken hslash,
    takeWhile_append_of_all htoken hslash, takeWhile_append_of_all hname hparameters.endsToken,
    dropWhile_append_of_all hname hparameters.endsToken, hne, if_false,
    hparameters.areParameters (Nat.le_refl _), if_true]
  rfl

theorem exists_form_of_ofText? {m : MediaType} (h : ofText? text = some m) :
    ∃ type name, m = ofNames type name ∧ Form type name text.toList := by
  unfold ofText? at h
  dsimp only at h
  split at h
  case h_2 => cases h
  case h_1 rest hslash =>
    rw [Option.ite_none_left_eq_some] at h
    obtain ⟨hne, h⟩ := h
    rw [Option.ite_none_right_eq_some] at h
    obtain ⟨hparameters, h⟩ := h
    rw [not_or, not_and_not_right] at hne
    refine ⟨_, rest.takeWhile isTokenChar, (Option.some_inj.mp h).symm, ?_⟩
    have hform := Form.intro hne.1 (isToken_takeWhile text.toList) (isToken_takeWhile rest)
      hne.2 (parametersForm_of_areParameters hparameters)
    rwa [List.append_assoc, List.cons_append, List.takeWhile_append_dropWhile, ← hslash,
      List.takeWhile_append_dropWhile] at hform

/-- A text is read as a media type if it is in the form of one, and only then. -/
theorem ofText?_eq_some_iff {m : MediaType} : ofText? text = some m ↔
    ∃ type name, m = ofNames type name ∧ Form type name text.toList := by
  constructor
  · exact exists_form_of_ofText?
  · rintro ⟨type, name, rfl, h⟩
    exact ofText?_of_form h

/-! ## Suffixes -/

theorem takeWhile_reverse_append {before suffix : List Char} (h : '+' ∉ suffix) :
    ((before ++ '+' :: suffix).reverse.takeWhile (· != '+')).reverse = suffix := by
  have hall : ∀ c ∈ suffix.reverse, (c != '+') = true :=
    bne_of_not_mem fun hmem ↦ h (List.mem_reverse.mp hmem)
  have hplus : ∀ c ∈ ('+' :: before.reverse).head?, (c != '+') = false :=
    forall_mem_head?_cons (by decide) _
  rw [List.reverse_append, List.reverse_cons, List.append_assoc, List.singleton_append,
    takeWhile_append_of_all hall hplus, List.reverse_reverse]

/-- What follows the last plus sign is a suffix. -/
theorem splitSuffix_append {before suffix : List Char} (hbefore : before ≠ [])
    (h : '+' ∉ suffix) : splitSuffix (before ++ '+' :: suffix) = (before, some suffix) := by
  have htake : (before ++ '+' :: suffix).take
      ((before ++ '+' :: suffix).length - suffix.length - 1) = before := by
    refine List.take_left' ?_
    rw [List.length_append, List.length_cons]
    omega
  have hlength : suffix.length ≠ (before ++ '+' :: suffix).length := by
    rw [List.length_append, List.length_cons]
    omega
  simp only [splitSuffix, takeWhile_reverse_append h, htake, hlength, hbefore, or_self, if_false]

theorem splitSuffix_of_not_mem (h : '+' ∉ name) : splitSuffix name = (name, none) := by
  have hall : ∀ c ∈ name.reverse, (c != '+') = true :=
    bne_of_not_mem fun hmem ↦ h (List.mem_reverse.mp hmem)
  have htake : name.reverse.takeWhile (· != '+') = name.reverse :=
    List.takeWhile_eq_self_iff.mpr hall
  simp only [splitSuffix, htake, List.reverse_reverse, true_or, if_true]

/-! ## Letter case -/

theorem isUpper_iff {c : Char} : c.isUpper ↔ 65 ≤ c.toNat ∧ c.toNat ≤ 90 :=
  decide_eq_true_iff

theorem isLower_iff {c : Char} : c.isLower ↔ 97 ≤ c.toNat ∧ c.toNat ≤ 122 :=
  Bool.and_eq_true_iff.trans (and_congr decide_eq_true_iff decide_eq_true_iff)

theorem toLower_of_not_isUpper {c : Char} (h : ¬c.isUpper) : c.toLower = c :=
  dif_neg fun hbounds ↦ h (decide_eq_true hbounds)

theorem isLower_toLower {c : Char} (h : c.isUpper) : c.toLower.isLower := by
  have hval : c.toLower.val = c.val + 32 := congrArg Char.val (dif_pos (of_decide_eq_true h))
  have hnat : c.toLower.toNat = (c.toNat + 32) % 4294967296 := by
    rw [Char.toNat, hval, UInt32.toNat_add]
    rfl
  rw [isUpper_iff] at h
  rw [isLower_iff, hnat]
  omega

theorem not_isUpper_toLower (c : Char) : ¬c.toLower.isUpper := by
  by_cases h : c.isUpper
  · have hlower := isLower_iff.mp (isLower_toLower h)
    rw [isUpper_iff]
    omega
  · rwa [toLower_of_not_isUpper h]

theorem toLower_toLower (c : Char) : c.toLower.toLower = c.toLower :=
  toLower_of_not_isUpper (not_isUpper_toLower c)

theorem toLower_bne_plus (c : Char) : (c.toLower != '+') = (c != '+') := by
  by_cases h : c.isUpper
  · have hlower := isLower_toLower h
    have hne : c.toLower ≠ '+' := fun heq ↦ absurd (heq ▸ hlower) (by decide)
    have hne' : c ≠ '+' := fun heq ↦ absurd (heq ▸ h) (by decide)
    rw [bne_iff_ne.mpr hne, bne_iff_ne.mpr hne']
  · rw [toLower_of_not_isUpper h]

/-- The media type in lower case. -/
def lower (m : MediaType) : MediaType :=
  ⟨m.type.map Char.toLower, m.subtype.map Char.toLower, m.suffix.map (·.map Char.toLower)⟩

theorem sameName_map_toLower (name : List Char) (other : String) :
    sameName (name.map Char.toLower) other = sameName name other := by
  have hmap : Char.toLower ∘ Char.toLower = Char.toLower := funext toLower_toLower
  rw [sameName, sameName, List.map_map, hmap]

theorem isJson_lower (m : MediaType) : m.lower.isJson = m.isJson := by
  simp only [isJson, lower, sameName_map_toLower, Option.any_map]

theorem splitSuffix_map_toLower (name : List Char) : splitSuffix (name.map Char.toLower) =
    ((splitSuffix name).1.map Char.toLower, (splitSuffix name).2.map (·.map Char.toLower)) := by
  have hsuffix : ((name.map Char.toLower).reverse.takeWhile (· != '+')).reverse =
      ((name.reverse.takeWhile (· != '+')).reverse).map Char.toLower := by
    have hplus : (· != '+') ∘ Char.toLower = (· != '+') := funext toLower_bne_plus
    rw [← List.map_reverse, List.takeWhile_map, hplus, List.map_reverse]
  simp only [splitSuffix, hsuffix, List.length_map, ← List.map_take, List.map_eq_nil_iff]
  split <;> rfl

theorem ofNames_map_toLower (type name : List Char) :
    ofNames (type.map Char.toLower) (name.map Char.toLower) = (ofNames type name).lower := by
  rw [ofNames, splitSuffix_map_toLower]
  rfl

end MediaType

/-- A body is read as one of the type `application/json` or not at all, whatever its type: neither
the parameters of the type nor the case of its letters make a difference. -/
theorem readBody_of_form {type name : List Char} {text : String}
    (h : MediaType.Form type name text.toList) (body : ByteArray) :
    readBody (some text) body =
      if (MediaType.ofNames (type.map Char.toLower) (name.map Char.toLower)).isJson then
        readBody (some jsonType) body
      else none := by
  have hjson : MediaType.ofText? jsonType = some (.ofNames "application".toList "json".toList) := by
    decide
  have hisJson : (MediaType.ofNames "application".toList "json".toList).isJson = true := by decide
  rw [MediaType.ofNames_map_toLower, MediaType.isJson_lower]
  simp only [readBody, Option.bind_eq_bind, Option.bind_some, MediaType.ofText?_of_form h, hjson,
    hisJson, Bool.true_and]
  cases (MediaType.ofNames type name).isJson with
  | true => rfl
  | false => rfl

end Reckoner.Web
