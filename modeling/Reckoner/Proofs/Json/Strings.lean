import Reckoner.Json.Value

/-!
# Strings Read Back

A string that is written reads back as the same characters: each of them is written as one piece,
and none of the pieces is a surrogate.
-/

namespace Reckoner.Json

/-! ## The forms of strings -/

inductive PieceForm : Piece → List Char → Prop
  | plain {c : Char} (hquote : c ≠ '"') (hbackslash : c ≠ '\\') (hcontrol : isControl c = false) :
    PieceForm (.char c) [c]
  | escaped {letter c : Char} (h : escaped? letter = some c) : PieceForm (.char c) ['\\', letter]
  | unit {a b c d : Char} {code : Nat} (h : hexNumber? [a, b, c, d] = some code) :
    PieceForm (.unit code) ['\\', 'u', a, b, c, d]

/-- The ways to write pieces one after the other. -/
inductive PiecesForm : List Piece → List Char → Prop
  | nil : PiecesForm [] []
  | cons {piece : Piece} {pieces : List Piece} {t ts : List Char} (h : PieceForm piece t)
    (hs : PiecesForm pieces ts) : PiecesForm (piece :: pieces) (t ++ ts)

variable {piece : Piece} {pieces : List Piece} {cs t rest : List Char}

/-- What is written as a piece is read as this piece. -/
theorem PieceForm.readPieces_append (h : PieceForm piece t) (rest : List Char) :
    readPieces (t ++ rest) =
      (readPieces rest).map fun (pieces, rest) ↦ (piece :: pieces, rest) := by
  cases h with
  | plain hquote hbackslash hcontrol =>
    rw [List.singleton_append, readPieces]
    · rw [hcontrol]
      cases readPieces rest <;> rfl
    · exact hquote
    · rintro a b c d rest rfl
      exact absurd rfl hbackslash
    · rintro letter rest rfl
      exact absurd rfl hbackslash
  | @escaped letter c h =>
    change readPieces ('\\' :: letter :: rest) = _
    rw [readPieces]
    · rw [h]
      cases readPieces rest <;> rfl
    · rintro a b c d rest rfl
      cases h
  | @unit a b c d code h =>
    change readPieces ('\\' :: 'u' :: a :: b :: c :: d :: rest) = _
    rw [readPieces, h]
    cases readPieces rest <;> rfl

/-- Whatever is written as pieces is read as them up to the quotation mark. -/
theorem PiecesForm.readPieces (h : PiecesForm pieces t) (rest : List Char) :
    readPieces (t ++ '"' :: rest) = some (pieces, rest) := by
  induction h with
  | nil => rw [List.nil_append, Json.readPieces]
  | cons h hs ih =>
    rw [List.append_assoc, h.readPieces_append, ih]
    rfl

/-- Whatever is read as pieces is written as them. -/
theorem exists_piecesForm (h : readPieces cs = some (pieces, rest)) :
    ∃ t, PiecesForm pieces t ∧ cs = t ++ '"' :: rest := by
  induction cs using readPieces.induct generalizing pieces with
  | case1 => cases h
  | case2 tail =>
    rw [readPieces] at h
    cases h
    exact ⟨[], .nil, rfl⟩
  | case3 a b c d tail ih =>
    simp only [readPieces, Option.bind_eq_bind, Option.bind_eq_some_iff] at h
    obtain ⟨code, hcode, ⟨pieces', rest'⟩, hread, heq⟩ := h
    cases heq
    obtain ⟨t, ht, rfl⟩ := ih hread
    exact ⟨_, .cons (.unit hcode) ht, rfl⟩
  | case4 letter tail hunit ih =>
    rw [readPieces] at h
    · simp only [Option.bind_eq_bind, Option.bind_eq_some_iff] at h
      obtain ⟨c, hc, ⟨pieces', rest'⟩, hread, heq⟩ := h
      cases heq
      obtain ⟨t, ht, rfl⟩ := ih hread
      exact ⟨_, .cons (.escaped hc) ht, rfl⟩
    · exact hunit
  | case5 c tail hquote hunit hletter hcontrol =>
    rw [readPieces, if_pos hcontrol] at h
    · cases h
    · exact hquote
    · exact hunit
    · exact hletter
  | case6 c tail hquote hunit hletter hcontrol ih =>
    rw [readPieces, if_neg hcontrol] at h
    · simp only [Option.bind_eq_bind, Option.bind_eq_some_iff] at h
      obtain ⟨⟨pieces', rest'⟩, hread, heq⟩ := h
      cases heq
      obtain ⟨t, ht, rfl⟩ := ih hread
      refine ⟨_, .cons (.plain hquote ?_ (Bool.eq_false_iff.mpr hcontrol)) ht, rfl⟩
      intro hbackslash
      cases t with
      | nil => exact hletter _ _ hbackslash rfl
      | cons letter t => exact hletter _ _ hbackslash rfl
    · exact hquote
    · exact hunit
    · exact hletter

/-! ## Hexadecimal digits -/

theorem toNat_le_of_hexValue? {c : Char} {d : Nat} (h : hexValue? c = some d) :
    c.toNat ≤ 'f'.toNat := by
  unfold hexValue? at h
  split at h
  case isTrue hdigit =>
    have hle : c.val ≤ 57 := (of_decide_eq_true (Bool.and_eq_true_iff.mp hdigit).2 :)
    exact Nat.le_trans hle (by decide)
  case isFalse =>
    split at h
    case isTrue hlower => exact hlower.2
    case isFalse =>
      split at h
      case isTrue hupper => exact Nat.le_trans hupper.2 (by decide)
      case isFalse => cases h

/-! ## Pieces that are read -/

/-- The text begins with a piece that stands for the character. -/
def Writes (text : List Char) (c : Char) : Prop :=
  ∃ piece, (∀ rest, readPieces (text ++ rest) =
      (readPieces rest).map fun (pieces, rest) ↦ (piece :: pieces, rest)) ∧
    ∀ pieces, decode (piece :: pieces) = (decode pieces).map (c :: ·)

/-- A character that needs no escape stands for itself. -/
theorem writes_self {c : Char} (hquote : c ≠ '"') (hbackslash : c ≠ '\\')
    (hcontrol : isControl c = false) : Writes [c] c :=
  ⟨.char c, (PieceForm.plain hquote hbackslash hcontrol).readPieces_append,
    fun pieces ↦ by rw [decode]⟩

theorem writes_letter {letter c : Char} (h : escaped? letter = some c) : Writes ['\\', letter] c :=
  ⟨.char c, (PieceForm.escaped h).readPieces_append, fun pieces ↦ by rw [decode]⟩

theorem hexNumber?_control : ∀ n < 0x20,
    hexNumber? ['0', '0', hexDigit (n / 16), hexDigit (n % 16)] = some n := by
  decide

theorem writes_unit {c : Char} (h : c.toNat < 0x20) :
    Writes ['\\', 'u', '0', '0', hexDigit (c.toNat / 16), hexDigit (c.toNat % 16)] c := by
  refine ⟨.unit c.toNat, (PieceForm.unit (hexNumber?_control _ h)).readPieces_append,
    fun pieces ↦ ?_⟩
  have hhigh : isHighSurrogate c.toNat = false := by
    rw [isHighSurrogate, decide_eq_false (by omega), Bool.false_and]
  have hlow : isLowSurrogate c.toNat = false := by
    rw [isLowSurrogate, decide_eq_false (by omega), Bool.false_and]
  rw [decode.eq_def]
  simp only [hhigh, hlow, Bool.false_eq_true, if_false, Char.ofNat_toNat]

/-! ## Strings -/

theorem escape_writes (c : Char) : Writes (escape c) c := by
  unfold escape
  split
  case h_1 => exact writes_letter rfl
  case h_2 => exact writes_letter rfl
  case h_3 => exact writes_letter rfl
  case h_4 => exact writes_letter rfl
  case h_5 => exact writes_letter rfl
  case h_6 => exact writes_letter rfl
  case h_7 => exact writes_letter rfl
  case h_8 hquote hbackslash _ _ _ _ _ =>
    split
    case isTrue hcontrol => exact writes_unit (of_decide_eq_true hcontrol)
    case isFalse hcontrol => exact writes_self hquote hbackslash (Bool.eq_false_iff.mpr hcontrol)

/-- What is written between quotation marks reads back, whatever follows. -/
theorem exists_readPieces (cs : List Char) :
    ∃ pieces, (∀ rest, readPieces (cs.flatMap escape ++ '"' :: rest) = some (pieces, rest)) ∧
      decode pieces = some cs := by
  induction cs with
  | nil => exact ⟨[], fun rest ↦ by rw [List.flatMap_nil, List.nil_append, readPieces], rfl⟩
  | cons c cs ih =>
    obtain ⟨pieces, hpieces, hdecode⟩ := ih
    obtain ⟨piece, hread, hpiece⟩ := escape_writes c
    refine ⟨piece :: pieces, fun rest ↦ ?_, ?_⟩
    · rw [List.flatMap_cons, List.append_assoc, hread, hpieces]
      rfl
    · rw [hpiece, hdecode]
      rfl

end Reckoner.Json
