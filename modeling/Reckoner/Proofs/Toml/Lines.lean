import Reckoner.Proofs.Json.Strings
import Reckoner.Proofs.Numeral.Forms
import Reckoner.Toml.Document

/-!
# Written Lines are Read

The lines that a document is usually written in: the header of a table, and a key with a string or a
whole number.  A string is written as one of JSON.  What a line says is what is done when it is
read, whatever comes after it.
-/

namespace Reckoner.Toml

variable {rest : List Char}

/-! ## Strings -/

theorem hexChar?_of_hexNumber? {digits : List Char} {c : Char}
    (h : Json.hexNumber? digits = some c.toNat) : hexChar? digits = some c := by
  have hvalid : c.toNat.isValidChar := c.valid
  rw [hexChar?, h]
  simp only [Option.bind_eq_bind, Option.bind_some, hvalid, if_true, Char.ofNat_toNat]

theorem readBasic_letter {letter c : Char} (h : escaped? letter = some c) (rest : List Char) :
    readBasic ('\\' :: letter :: rest) = push c (readBasic rest) := by
  have hx : letter ≠ 'x' := by
    rintro rfl
    cases h
  have hu : letter ≠ 'u' := by
    rintro rfl
    cases h
  have hU : letter ≠ 'U' := by
    rintro rfl
    cases h
  rw [readBasic, h]
  · rfl
  all_goals intros; contradiction

/-- A character is read from the way that JSON writes it. -/
theorem readBasic_escape {c : Char} (hdelete : c.toNat ≠ 0x7f) (rest : List Char) :
    readBasic (Json.escape c ++ rest) = push c (readBasic rest) := by
  unfold Json.escape
  split
  case h_8 hquote hbackslash _ _ _ _ _ =>
    split
    case isTrue hcontrol =>
      have hhex : hexChar? ['0', '0', Json.hexDigit (c.toNat / 16), Json.hexDigit (c.toNat % 16)] =
          some c :=
        hexChar?_of_hexNumber? (Json.hexNumber?_control _ (of_decide_eq_true hcontrol))
      simp only [List.cons_append, List.nil_append, readBasic, hhex]
      rfl
    case isFalse hcontrol =>
      have hforbidden : isForbidden c = false := by
        rw [isForbidden, Bool.or_eq_false_iff, beq_eq_false_iff_ne, Bool.and_eq_false_iff]
        exact ⟨.inl (Bool.eq_false_iff.mpr hcontrol), hdelete⟩
      rw [List.singleton_append, readBasic, hforbidden, if_neg Bool.false_ne_true]
      all_goals intros; contradiction
  all_goals exact readBasic_letter rfl rest

/-- A string of JSON is one of TOML, unless the character of deletion is in it. -/
theorem readBasic_flatMap_escape {text : List Char} (h : ∀ c ∈ text, c.toNat ≠ 0x7f)
    (rest : List Char) :
    readBasic (text.flatMap Json.escape ++ '"' :: rest) = some (text, rest) := by
  induction text with
  | nil => rw [List.flatMap_nil, List.nil_append, readBasic]
  | cons c text ih =>
    rw [List.forall_mem_cons] at h
    rw [List.flatMap_cons, List.append_assoc, readBasic_escape h.1, ih h.2]
    rfl

theorem escape_ne_nil (c : Char) : ∃ first more, Json.escape c = first :: more ∧ first ≠ '"' := by
  unfold Json.escape
  split
  case h_8 hquote _ _ _ _ _ _ =>
    split
    case isTrue => exact ⟨_, _, rfl, by decide⟩
    case isFalse => exact ⟨_, _, rfl, hquote⟩
  all_goals exact ⟨_, _, rfl, by decide⟩

/-- A string of JSON is read as a value, unless a third quotation mark comes after an empty one. -/
theorem readPlain_quoted {text : String} (h : ∀ c ∈ text.toList, c.toNat ≠ 0x7f)
    (hrest : rest.head? ≠ some '"') :
    readPlain (Json.quoted text ++ rest) = some (.string text, rest) := by
  have hbasic := readBasic_flatMap_escape h rest
  have hstring : readString '"' (text.toList.flatMap Json.escape ++ '"' :: rest) =
      some (text.toList, rest) := by
    unfold readString
    split
    case h_1 a b more heq =>
      have hmarks : ¬(a = '"' ∧ b = '"') := by
        rintro ⟨rfl, rfl⟩
        cases htext : text.toList with
        | nil =>
          rw [htext, List.flatMap_nil, List.nil_append] at heq
          rw [(List.cons.inj heq).2] at hrest
          exact hrest rfl
        | cons c more =>
          obtain ⟨first, others, hescape, hne⟩ := escape_ne_nil c
          rw [htext, List.flatMap_cons, hescape] at heq
          exact hne (List.cons.inj heq).1
      rw [if_neg hmarks, if_pos rfl, hbasic]
    case h_2 => rw [if_pos rfl, hbasic]
  have hquoted : Json.quoted text ++ rest =
      '"' :: (text.toList.flatMap Json.escape ++ '"' :: rest) := by
    simp only [Json.quoted, List.cons_append, List.append_assoc, List.nil_append]
  rw [hquoted, readPlain, hstring]
  simp only [Option.map_some, String.ofList_toList]

/-! ## Whole numbers -/

theorem plainDigits?_of_allDigits {digits : List Char} (h : AllDigits digits) (hne : digits ≠ []) :
    plainDigits? Char.isDigit digits = some digits := by
  induction digits with
  | nil => exact absurd rfl hne
  | cons c digits ih =>
    obtain ⟨hc, hdigits⟩ := List.forall_mem_cons.mp h
    cases digits with
    | nil => rw [plainDigits?, if_pos hc]
    | cons next digits =>
      have hnext : next ≠ '_' := by
        rintro rfl
        exact absurd (hdigits _ List.mem_cons_self) (by decide)
      rw [plainDigits?, if_pos hc, ih hdigits (List.cons_ne_nil _ _), Option.map_some]
      exact hnext

theorem hexValue?_of_isDigit {c : Char} (h : c.isDigit) :
    Json.hexValue? c = some (c.toNat - '0'.toNat) := if_pos h

theorem inBase_ten {digits : List Char} (h : AllDigits digits) :
    inBase 10 digits = Numeral.readDigits digits := by
  suffices hfold : ∀ n : Nat, digits.foldl
      (fun (m : Int) c ↦ (10 : Nat) * m + ((Json.hexValue? c).getD 0 : Nat)) n =
        Nat.ofDigitChars 10 digits n from hfold 0
  induction digits with
  | nil => exact fun n ↦ rfl
  | cons c digits ih =>
    obtain ⟨hc, hdigits⟩ := List.forall_mem_cons.mp h
    intro n
    rw [List.foldl_cons, hexValue?_of_isDigit hc, Option.getD_some]
    exact ih hdigits (10 * n + (c.toNat - '0'.toNat))

theorem splitSign_of_allDigits {digits : List Char} (h : AllDigits digits) :
    splitSign digits = (false, digits) := by
  unfold splitSign
  split
  case h_1 => exact absurd (h _ List.mem_cons_self) (by decide)
  case h_2 => exact absurd (h _ List.mem_cons_self) (by decide)
  case h_3 => rfl

theorem wholeDigits?_digitsOf (n : Nat) :
    wholeDigits? (Numeral.digitsOf n) = some (Numeral.digitsOf n) := by
  rw [wholeDigits?, plainDigits?_of_allDigits (Numeral.allDigits_digitsOf n) Nat.toDigits_ne_nil]
  dsimp only [Option.bind_eq_bind, Option.bind_some]
  split
  case h_1 heq => exact absurd heq (Numeral.digitsOf_ne_zero_cons _ _ _)
  case h_2 => rfl

/-- The digits of a number are read as the number. -/
theorem integer?_digitsOf (n : Nat) : integer? (Numeral.digitsOf n) = some (n : Int) := by
  have hdigits := Numeral.allDigits_digitsOf n
  rw [integer?, splitSign_of_allDigits hdigits]
  · simp only [wholeDigits?_digitsOf, Option.map_some, Bool.false_eq_true, if_false,
      inBase_ten hdigits, Numeral.readDigits_digitsOf]
  all_goals intro more; exact Numeral.digitsOf_ne_zero_cons _ _ _

theorem scalar?_digitsOf {n : Nat} (h : n < twoPow 128) :
    scalar? (Numeral.digitsOf n) = some (.integer n) := by
  have hne (word : String) (hword : word.toList.any fun c ↦ !c.isDigit) :
      Numeral.digitsOf n ≠ word.toList := by
    intro heq
    obtain ⟨c, hc, hdigit⟩ := List.any_eq_true.mp hword
    rw [← heq] at hc
    rw [Numeral.allDigits_digitsOf n c hc] at hdigit
    cases hdigit
  have hfits : -(twoPow 127 : Int) ≤ n ∧ (n : Int) < twoPow 128 := by
    constructor
    · exact Int.le_trans (Int.neg_nonpos_of_nonneg (Int.natCast_nonneg _)) (Int.natCast_nonneg n)
    · exact Int.ofNat_lt.mpr h
  rw [scalar?, if_neg (hne "true" (by decide)), if_neg (hne "false" (by decide)),
    integer?_digitsOf]
  exact congrArg some (if_pos hfits)

theorem afterDate?_digitsOf (n : Nat) : afterDate? (Numeral.digitsOf n) = none := by
  have hafter : after? '-' ((Numeral.digitsOf n).drop 4) = none := by
    cases hdrop : (Numeral.digitsOf n).drop 4 with
    | nil => rfl
    | cons c more =>
      have hc : c ∈ Numeral.digitsOf n := List.mem_of_mem_drop (hdrop ▸ List.mem_cons_self)
      refine if_neg ?_
      rintro rfl
      exact absurd (Numeral.allDigits_digitsOf n _ hc) (by decide)
  unfold afterDate? fixedNumber?
  dsimp only
  split
  case isTrue => simp only [Option.bind_eq_bind, Option.bind_some, hafter, Option.bind_none]
  case isFalse => rfl

theorem digitsOf_append_ne (n : Nat) {mark : Char} (hmark : ¬mark.isDigit) (rest : List Char) :
    ∀ more, Numeral.digitsOf n ++ rest ≠ mark :: more := by
  intro more
  cases hcs : Numeral.digitsOf n with
  | nil => exact absurd hcs Nat.toDigits_ne_nil
  | cons first others =>
    intro heq
    have hfirst : first.isDigit := Numeral.allDigits_digitsOf n first (hcs ▸ List.mem_cons_self)
    exact hmark ((List.cons.inj heq).1 ▸ hfirst)

/-- The digits of a number are read as a value, if it has no more than 128 bits. -/
theorem readPlain_digitsOf {n : Nat} (h : n < twoPow 128)
    (hrest : ∀ c ∈ rest.head?, isScalarChar c = false) :
    readPlain (Numeral.digitsOf n ++ rest) = some (.scalar (.integer n), rest) := by
  have hdigits := Numeral.allDigits_digitsOf n
  have hall : ∀ c ∈ Numeral.digitsOf n, isScalarChar c := by
    intro c hc
    simp only [isScalarChar, Char.isAlphanum, hdigits c hc, Bool.or_true, Bool.true_or]
  have hscalar : readScalar (Numeral.digitsOf n ++ rest) = some (.integer n, rest) := by
    simp only [readScalar, takeWhile_append_of_all hall hrest, dropWhile_append_of_all hall hrest,
      afterDate?_digitsOf, reduceCtorEq, if_false, List.append_nil, scalar?_digitsOf h,
      Option.map_some]
  rw [readPlain, hscalar, Option.map_some]
  · exact digitsOf_append_ne n (by decide) rest
  · exact digitsOf_append_ne n (by decide) rest

/-! ## Keys -/

/-- Some characters of which keys are made, at least one. -/
structure IsKey (key : List Char) : Prop where
  ne_nil : key ≠ []
  all : ∀ c ∈ key, isKeyChar c

variable {key : List Char}

theorem IsKey.exists_cons (h : IsKey key) :
    ∃ first more, key = first :: more ∧ isKeyChar first := by
  obtain ⟨first, more, rfl⟩ := List.exists_cons_of_ne_nil h.ne_nil
  exact ⟨first, more, rfl, h.all first List.mem_cons_self⟩

theorem not_isKeyChar {c mark : Char} (h : isKeyChar c) (hmark : isKeyChar mark = false) :
    c ≠ mark := by
  rintro rfl
  rw [h] at hmark
  cases hmark

theorem skipBlanks_cons {c : Char} (h : isBlank c = false) (rest : List Char) :
    skipBlanks (c :: rest) = c :: rest := by
  rw [skipBlanks, List.dropWhile_cons, h, if_neg Bool.false_ne_true]

theorem IsKey.skipBlanks (h : IsKey key) (rest : List Char) :
    Toml.skipBlanks (key ++ rest) = key ++ rest := by
  obtain ⟨first, more, rfl, hfirst⟩ := h.exists_cons
  refine skipBlanks_cons ?_ (more ++ rest)
  rw [isBlank, Bool.or_eq_false_iff, beq_eq_false_iff_ne, beq_eq_false_iff_ne]
  exact ⟨not_isKeyChar hfirst (by decide), not_isKeyChar hfirst (by decide)⟩

theorem IsKey.readKey (h : IsKey key) (hrest : ∀ c ∈ rest.head?, isKeyChar c = false) :
    Toml.readKey (key ++ rest) = some (.ofList key, rest) := by
  obtain ⟨first, more, rfl, hfirst⟩ := h.exists_cons
  rw [Toml.readKey, takeWhile_append_of_all h.all hrest, dropWhile_append_of_all h.all hrest,
    if_neg h.ne_nil]
  · exact fun others heq ↦ not_isKeyChar hfirst (by decide) (List.cons.inj heq).1
  · exact fun others heq ↦ not_isKeyChar hfirst (by decide) (List.cons.inj heq).1

/-- A single key is read as such before any character that is neither a point nor white space, once
white space is passed. -/
theorem IsKey.readPath (h : IsKey key) {blanks : List Char} {c : Char}
    (hblanks : ∀ c ∈ blanks, isBlank c) (hkey : isKeyChar c = false) (hblank : isBlank c = false)
    (hpoint : c ≠ '.') :
    Toml.readPath (key ++ (blanks ++ c :: rest)) = some (([], .ofList key), c :: rest) := by
  have hends : ∀ d ∈ (blanks ++ c :: rest).head?, isKeyChar d = false := by
    cases blanks with
    | nil => exact forall_mem_head?_cons hkey rest
    | cons blank blanks =>
      have hor : blank = ' ' ∨ blank = '\t' := by
        simpa [isBlank] using hblanks blank List.mem_cons_self
      refine forall_mem_head?_cons ?_ _
      rcases hor with rfl | rfl <;> decide
  have hskip : Toml.skipBlanks (blanks ++ c :: rest) = c :: rest :=
    dropWhile_append_of_all hblanks (forall_mem_head?_cons hblank rest)
  have hkeys (rounds : Nat) : readKeys (rounds + 1) (key ++ (blanks ++ c :: rest)) =
      some (([], .ofList key), c :: rest) := by
    rw [readKeys, h.skipBlanks, h.readKey hends]
    dsimp only [Option.bind_eq_bind, Option.bind_some]
    rw [hskip]
    split
    case h_1 heq => exact absurd (List.cons.inj heq).1 hpoint
    case h_2 => rfl
  rw [Toml.readPath, hkeys]
  rfl

/-! ## Lines -/

/-- The header of a table. -/
def headerLine (key : List Char) : List Char := '[' :: key ++ "]\n".toList

/-- A key with its value. -/
def pairLine (key value : List Char) : List Char := key ++ " = ".toList ++ value ++ ['\n']

theorem endLine_lineBreak (rest : List Char) : endLine ('\n' :: rest) = some rest := rfl

theorem readLine_empty (draft : Draft) (rest : List Char) :
    readLine draft ('\n' :: rest) = some (draft, rest) := rfl

/-- The header of a table opens it. -/
theorem readLine_headerLine (h : IsKey key) {draft draft' : Draft}
    (hopen : draft.openTable Entries.openNew [] (.ofList key) = some draft') (rest : List Char) :
    readLine draft (headerLine key ++ rest) = some (draft', rest) := by
  have hline : headerLine key ++ rest = '[' :: (key ++ ([] ++ ']' :: '\n' :: rest)) := by
    rw [headerLine, List.cons_append, List.cons_append, List.append_assoc]
    rfl
  have hpath : Toml.readPath (key ++ ([] ++ ']' :: '\n' :: rest)) =
      some (([], .ofList key), ']' :: '\n' :: rest) :=
    h.readPath (List.forall_mem_nil _) (by decide) (by decide) (by decide)
  obtain ⟨first, more, rfl, hfirst⟩ := h.exists_cons
  rw [hline]
  unfold readLine
  rw [skipBlanks_cons (by decide)]
  split
  case h_1 heq =>
    have hbracket : first = '[' := (List.cons.inj (List.cons.inj heq).2).1
    exact absurd hbracket (not_isKeyChar hfirst (by decide))
  case h_2 cs _ heq =>
    rw [← (List.cons.inj heq).2, hpath]
    simp only [Option.bind_eq_bind, Option.bind_some, hopen, endLine_lineBreak]
  case h_3 hno => exact absurd rfl (hno _)

theorem IsKey.endLine (h : IsKey key) (rest : List Char) : Toml.endLine (key ++ rest) = none := by
  obtain ⟨first, more, rfl, hfirst⟩ := h.exists_cons
  unfold Toml.endLine
  rw [h.skipBlanks, List.cons_append]
  split
  case h_1 heq => cases heq
  case h_2 heq => exact absurd (List.cons.inj heq).1 (not_isKeyChar hfirst (by decide))
  case h_3 heq => exact absurd (List.cons.inj heq).1 (not_isKeyChar hfirst (by decide))
  case h_4 heq => exact absurd (List.cons.inj heq).1 (not_isKeyChar hfirst (by decide))
  case h_5 => rfl

theorem IsKey.readPair (h : IsKey key) {value : List Char} {item : Item}
    (hblank : ∀ c ∈ value.head?, isBlank c = false) (hne : value ≠ [])
    (hvalue : readValue maxNesting (value ++ rest) = some (item, rest)) :
    Toml.readPair (some ∘ Toml.skipBlanks) (readValue maxNesting)
        (key ++ ([' '] ++ '=' :: ' ' :: (value ++ rest))) =
      some (([], .ofList key, item), rest) := by
  have hpath : Toml.readPath (key ++ ([' '] ++ '=' :: ' ' :: (value ++ rest))) =
      some (([], .ofList key), '=' :: ' ' :: (value ++ rest)) :=
    h.readPath (List.forall_mem_singleton.mpr rfl) (by decide) (by decide) (by decide)
  have hskip : Toml.skipBlanks (' ' :: (value ++ rest)) = value ++ rest := by
    obtain ⟨first, more, rfl⟩ := List.exists_cons_of_ne_nil hne
    exact skipBlanks_cons (hblank first rfl) _
  rw [Toml.readPair, hpath]
  simp only [Option.bind_eq_bind, Option.bind_some, Function.comp_apply,
    skipBlanks_cons (by decide : isBlank '=' = false), hskip, hvalue]

/-- A key with its value puts it into the table that is open. -/
theorem readLine_pairLine (h : IsKey key) {value : List Char} {item : Item} {draft draft' : Draft}
    (hblank : ∀ c ∈ value.head?, isBlank c = false) (hne : value ≠ [])
    (hvalue : readValue maxNesting (value ++ '\n' :: rest) = some (item, '\n' :: rest))
    (hput : draft.put [] (.ofList key) item = some draft') :
    readLine draft (pairLine key value ++ rest) = some (draft', rest) := by
  have hline : pairLine key value ++ rest =
      key ++ ([' '] ++ '=' :: ' ' :: (value ++ '\n' :: rest)) := by
    simp only [pairLine, List.append_assoc]
    rfl
  have hpair := h.readPair hblank hne hvalue
  have hbracket (more : List Char) :
      key ++ ([' '] ++ '=' :: ' ' :: (value ++ '\n' :: rest)) ≠ '[' :: more := by
    obtain ⟨first, others, rfl, hfirst⟩ := h.exists_cons
    exact fun heq ↦ not_isKeyChar hfirst (by decide) (List.cons.inj heq).1
  rw [hline]
  unfold readLine
  rw [h.skipBlanks]
  split
  case h_1 heq => exact absurd heq (hbracket _)
  case h_2 heq => exact absurd heq (hbracket _)
  case h_3 =>
    rw [h.endLine]
    simp only [Option.bind_eq_bind, Option.bind_some, hpair, hput, endLine_lineBreak]

theorem readLines_cons {rounds : Nat} {draft draft' : Draft} {line : List Char} (hne : line ≠ [])
    (h : readLine draft (line ++ rest) = some (draft', rest)) :
    readLines (rounds + 1) draft (line ++ rest) = readLines rounds draft' rest := by
  rw [readLines, if_neg (List.append_ne_nil_of_left_ne_nil hne rest), h]
  rfl

/-! ## Values in lines -/

theorem readLine_string (h : IsKey key) {text : String} {draft draft' : Draft}
    (htext : ∀ c ∈ text.toList, c.toNat ≠ 0x7f)
    (hput : draft.put [] (.ofList key) (.string text) = some draft') :
    readLine draft (pairLine key (Json.quoted text) ++ rest) = some (draft', rest) := by
  refine readLine_pairLine h ?_ (List.cons_ne_nil _ _) ?_ hput
  · exact forall_mem_head?_cons (by decide) _
  · exact readPlain_quoted htext (by rintro ⟨⟩)

theorem readLine_number (h : IsKey key) {n : Nat} {draft draft' : Draft} (hn : n < twoPow 128)
    (hput : draft.put [] (.ofList key) (.scalar (.integer n)) = some draft') :
    readLine draft (pairLine key (Numeral.digitsOf n) ++ rest) = some (draft', rest) := by
  refine readLine_pairLine h ?_ Nat.toDigits_ne_nil ?_ hput
  · intro c hc
    have hdigit := Numeral.allDigits_digitsOf n c (List.mem_of_mem_head? hc)
    rw [isBlank, Bool.or_eq_false_iff, beq_eq_false_iff_ne, beq_eq_false_iff_ne]
    constructor <;> rintro rfl <;> cases hdigit
  · rw [maxNesting, readValue]
    · exact readPlain_digitsOf hn (forall_mem_head?_cons (by decide) rest)
    · exact digitsOf_append_ne n (by decide) _
    · exact digitsOf_append_ne n (by decide) _

end Reckoner.Toml
