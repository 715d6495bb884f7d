import Reckoner.Proofs.Json.Strings
import Reckoner.Proofs.Lexing.Numbers
import Reckoner.Proofs.Safety.Calculation

/-!
# Routes and Replies

Where a request leads does not depend on its query, on the scheme and the host before its path, or
on which characters of the name of a file are written as escapes.  Every reply has one of five
statuses, that of a method that is not allowed names the methods that are, and a request for the
head of a reply is told the same as a request for all of it.
-/

namespace Reckoner.Web

/-! ## Encoded text -/

/-- The bytes of some characters. -/
def encoded (cs : List Char) : List UInt8 := cs.flatMap String.utf8EncodeChar

theorem toList_loop (bytes : ByteArray) (place : Nat) (before : List UInt8) :
    ByteArray.toList.loop bytes place before = before.reverse ++ bytes.data.toList.drop place := by
  fun_induction ByteArray.toList.loop bytes place before with
  | case1 place before hlt ih =>
    have hget : bytes.get! place = bytes.data.toList[place] := by
      rw [Array.getElem_toList]
      exact dif_pos hlt
    rw [ih, List.reverse_cons, List.append_assoc, hget, List.singleton_append,
      List.getElem_cons_drop]
  | case2 place before hle =>
    rw [List.drop_eq_nil_of_le (Nat.le_of_not_lt hle), List.append_nil]

theorem toList_toUTF8_ofList (cs : List Char) : (String.ofList cs).toUTF8.toList = encoded cs := by
  rw [ByteArray.toList, toList_loop, String.toUTF8, String.toByteArray_ofList, List.utf8Encode,
    List.toList_data_toByteArray]
  rfl

theorem fromUTF8?_encoded (cs : List Char) :
    String.fromUTF8? ⟨(encoded cs).toArray⟩ = some (.ofList cs) := by
  have hbytes : (⟨(encoded cs).toArray⟩ : ByteArray) = (String.ofList cs).toByteArray := by
    rw [String.toByteArray_ofList, List.utf8Encode, encoded]
    ext1
    rw [List.data_toByteArray]
  rw [hbytes, String.fromUTF8?, dif_pos (String.ofList cs).isValidUTF8]
  rfl

theorem utf8EncodeChar_of_lt {c : Char} (h : c.toNat < 128) :
    String.utf8EncodeChar c = [.ofNat c.toNat] := by
  rw [String.utf8EncodeChar]
  exact if_pos (Nat.le_of_lt_succ h)

/-- The byte of a percent sign belongs to no other character. -/
theorem ne_of_mem_utf8EncodeChar {c : Char} (h : c ≠ '%') :
    ∀ byte ∈ String.utf8EncodeChar c, byte ≠ 0x25 := by
  have hvalue : c.val.toNat ≠ 0x25 := fun heq ↦ h (Char.ext (UInt32.toNat_inj.mp heq))
  have hbyte (n : Nat) (hlt : n < 256) (hne : n ≠ 0x25) : UInt8.ofNat n ≠ 0x25 := by
    intro heq
    have hnat := congrArg UInt8.toNat heq
    rw [UInt8.toNat_ofNat_of_lt' hlt] at hnat
    exact hne hnat
  intro byte hmem
  rw [String.utf8EncodeChar] at hmem
  split at hmem
  · simp only [List.mem_cons, List.not_mem_nil, or_false] at hmem
    exact hmem ▸ hbyte _ (by omega) hvalue
  · split at hmem
    · simp only [List.mem_cons, List.not_mem_nil, or_false] at hmem
      rcases hmem with rfl | rfl <;> exact hbyte _ (by omega) (by omega)
    · split at hmem
      · simp only [List.mem_cons, List.not_mem_nil, or_false] at hmem
        rcases hmem with rfl | rfl | rfl <;> exact hbyte _ (by omega) (by omega)
      · simp only [List.mem_cons, List.not_mem_nil, or_false] at hmem
        rcases hmem with rfl | rfl | rfl | rfl <;> exact hbyte _ (by omega) (by omega)

/-! ## Escapes -/

/-- A percent sign and two hexadecimal digits, in either case, that write the byte. -/
inductive EscapeForm : UInt8 → List Char → Prop
  | intro {high low : Char} {h l : Nat} (hhigh : Json.hexValue? high = some h)
    (hlow : Json.hexValue? low = some l) : EscapeForm (.ofNat (16 * h + l)) ['%', high, low]

/-- The ways to write a text in a path: any character may stand as escapes of its bytes, and any but
the percent sign as it is. -/
inductive PathForm : List Char → List Char → Prop
  | nil : PathForm [] []
  | plain {c : Char} {text written : List Char} (hc : c ≠ '%') (h : PathForm text written) :
    PathForm (c :: text) (c :: written)
  | escaped {c : Char} {text written : List Char} {escapes : List (List Char)}
    (hc : List.Forall₂ EscapeForm (String.utf8EncodeChar c) escapes) (h : PathForm text written) :
    PathForm (c :: text) (escapes.flatten ++ written)

theorem toNat_lt_of_hexValue? {c : Char} {d : Nat} (h : Json.hexValue? c = some d) :
    c.toNat < 128 :=
  Nat.lt_of_le_of_lt (Json.toNat_le_of_hexValue? h) (by decide)

theorem hexByte?_ofNat {c : Char} (h : c.toNat < 128) :
    hexByte? (.ofNat c.toNat) = Json.hexValue? c := by
  rw [hexByte?, UInt8.toNat_ofNat_of_lt' (Nat.lt_trans h (by decide)), Char.ofNat_toNat]

theorem unescape_cons {byte : UInt8} (h : byte ≠ 0x25) (rest : List UInt8) :
    unescape (byte :: rest) = byte :: unescape rest := by
  match rest with
  | [] => rfl
  | [_] => rfl
  | _ :: _ :: _ => rw [unescape, if_neg h]

theorem unescape_append {bytes : List UInt8} (h : ∀ byte ∈ bytes, byte ≠ 0x25)
    (rest : List UInt8) : unescape (bytes ++ rest) = bytes ++ unescape rest := by
  induction bytes with
  | nil => rfl
  | cons byte bytes ih =>
    rw [List.forall_mem_cons] at h
    rw [List.cons_append, unescape_cons h.1, ih h.2, List.cons_append]

theorem EscapeForm.unescape_append {byte : UInt8} {cs : List Char} (h : EscapeForm byte cs)
    (rest : List UInt8) : unescape (encoded cs ++ rest) = byte :: unescape rest := by
  obtain ⟨hhigh, hlow⟩ := h
  rename_i high low h l
  have hencoded : encoded ['%', high, low] = [0x25, .ofNat high.toNat, .ofNat low.toNat] := by
    rw [encoded, List.flatMap_cons, List.flatMap_cons, List.flatMap_cons, List.flatMap_nil,
      utf8EncodeChar_of_lt (toNat_lt_of_hexValue? hhigh),
      utf8EncodeChar_of_lt (toNat_lt_of_hexValue? hlow)]
    rfl
  have hbyte : escapedByte? (.ofNat high.toNat) (.ofNat low.toNat) =
      some (.ofNat (16 * h + l)) := by
    rw [escapedByte?, hexByte?_ofNat (toNat_lt_of_hexValue? hhigh),
      hexByte?_ofNat (toNat_lt_of_hexValue? hlow), hhigh, hlow]
    rfl
  rw [hencoded]
  simp only [List.cons_append, List.nil_append, unescape, if_true, hbyte]

theorem unescape_escapes {bytes : List UInt8} {escapes : List (List Char)}
    (h : List.Forall₂ EscapeForm bytes escapes) (rest : List UInt8) :
    unescape (encoded escapes.flatten ++ rest) = bytes ++ unescape rest := by
  induction h with
  | nil => rfl
  | cons hbyte _ ih =>
    rw [List.flatten_cons, encoded, List.flatMap_append, ← encoded, ← encoded, List.append_assoc,
      hbyte.unescape_append, ih, List.cons_append]

theorem PathForm.unescape {text written : List Char} (h : PathForm text written) :
    Web.unescape (encoded written) = encoded text := by
  induction h with
  | nil => rfl
  | plain hc _ ih =>
    rw [encoded, List.flatMap_cons, ← encoded, Web.unescape_append (ne_of_mem_utf8EncodeChar hc),
      ih, encoded, encoded, List.flatMap_cons]
  | escaped hc _ ih =>
    rw [encoded, List.flatMap_append, ← encoded, ← encoded, unescape_escapes hc, ih, encoded,
      encoded, List.flatMap_cons]

/-- A text is read from each of the ways to write it. -/
theorem PathForm.decodePath? {text written : List Char} (h : PathForm text written) :
    Web.decodePath? written = some (.ofList text) := by
  rw [Web.decodePath?, toList_toUTF8_ofList, h.unescape, fromUTF8?_encoded]

/-! ## Targets -/

/-- A path begins with a slash, and neither a query nor a fragment is in it. -/
structure IsPath (path : List Char) : Prop where
  slash : path.head? = some '/'
  within : ∀ c ∈ path, (c != '?' && c != '#') = true

/-- Nothing, or a query or a fragment. -/
def IsQuery (query : List Char) : Prop := ∀ c ∈ query.head?, (c != '?' && c != '#') = false

variable {path query : List Char}

theorem pathOf_append (hpath : IsPath path) (hquery : IsQuery query) :
    pathOf (.ofList (path ++ query)) = .ofList path := by
  rw [pathOf, String.toList_ofList, takeWhile_append_of_all hpath.within hquery]
  exact congrArg String.ofList (if_pos hpath.slash)

theorem afterHost?_append {scheme host : List Char} (hscheme : ':' ∉ scheme) (hhost : '/' ∉ host)
    (hpath : path.head? = some '/') :
    afterHost? (scheme ++ "://".toList ++ host ++ path) = some path := by
  obtain ⟨more, rfl⟩ := List.head?_eq_some_iff.mp hpath
  have hcolon : (scheme ++ "://".toList ++ host ++ '/' :: more).dropWhile (· != ':') =
      "://".toList ++ (host ++ '/' :: more) := by
    rw [List.append_assoc, List.append_assoc]
    exact dropWhile_append_of_all (bne_of_not_mem hscheme) (forall_mem_head?_cons (by decide) _)
  have hslash : (host ++ '/' :: more).dropWhile (· != '/') = '/' :: more :=
    dropWhile_append_of_all (bne_of_not_mem hhost) (forall_mem_head?_cons (by decide) _)
  unfold afterHost?
  rw [hcolon]
  simp only [String.reduceToList, List.cons_append, List.nil_append, hslash]

/-- A scheme and a host before a path make no difference. -/
theorem pathOf_absolute {scheme host : List Char} (hpath : IsPath path) (hquery : IsQuery query)
    (hscheme : ∀ c ∈ scheme, c ∉ [':', '/', '?', '#']) (hhost : ∀ c ∈ host, c ∉ ['/', '?', '#']) :
    pathOf (.ofList (scheme ++ "://".toList ++ host ++ path ++ query)) = .ofList path := by
  have hscheme (c : Char) (hc : c ∈ scheme) : c ≠ ':' ∧ c ≠ '/' ∧ c ≠ '?' ∧ c ≠ '#' := by
    simpa using hscheme c hc
  have hhost (c : Char) (hc : c ∈ host) : c ≠ '/' ∧ c ≠ '?' ∧ c ≠ '#' := by
    simpa using hhost c hc
  have hall : ∀ c ∈ scheme ++ "://".toList ++ host ++ path, (c != '?' && c != '#') = true := by
    have hmarks : ∀ c ∈ "://".toList, (c != '?' && c != '#') = true :=
      List.all_eq_true.mp (by decide)
    simp only [List.forall_mem_append]
    refine ⟨⟨⟨fun c hc ↦ ?_, hmarks⟩, fun c hc ↦ ?_⟩, hpath.within⟩
    · simpa using (hscheme c hc).2.2
    · simpa using (hhost c hc).2
  have hhead : (scheme ++ "://".toList ++ host ++ path).head? ≠ some '/' := by
    cases scheme with
    | nil => exact fun heq ↦ absurd (Option.some_inj.mp heq) (by decide)
    | cons c more => exact fun heq ↦ (hscheme c List.mem_cons_self).2.1 (Option.some_inj.mp heq)
  have hafter : afterHost? (scheme ++ "://".toList ++ host ++ path) = some path :=
    afterHost?_append (fun hmem ↦ (hscheme _ hmem).1 rfl) (fun hmem ↦ (hhost _ hmem).1 rfl)
      hpath.slash
  rw [pathOf, String.toList_ofList, takeWhile_append_of_all hall hquery, if_neg hhead, hafter]
  rfl

/-! ## Replies -/

variable (limits : Limits) (request : Request)

/-- The statuses of all replies by a method that is allowed.  The service is never at fault. -/
def statuses : List Nat :=
  [Status.ok, Status.badRequest, Status.forbidden, Status.notFound]

theorem status_assetReply (name : String) : (assetReply name).status ∈ statuses := by
  unfold assetReply
  split
  case h_1 => exact List.mem_cons_self
  case h_2 => decide

theorem status_calculationReply (body : Option Json.Value) :
    (calculationReply limits body).status ∈ statuses := by
  have hne := status_ne_internalError limits body
  unfold calculationReply at hne ⊢
  split at hne
  case h_1 => decide
  case h_2 expression _ =>
    generalize Calculation.ofText expression limits = calculation at hne
    dsimp only [answerReply] at hne ⊢
    cases hkind : calculation.faultKind? with
    | none => exact List.mem_cons_self
    | some kind =>
      rw [hkind] at hne
      cases kind with
      | badRequest => exact (by decide : Status.badRequest ∈ statuses)
      | forbidden => exact (by decide : Status.forbidden ∈ statuses)
      | internal => exact absurd rfl hne

theorem status_reply (route : Route) : (route.reply limits request).status ∈ statuses := by
  cases route with
  | page => exact status_assetReply "index.html"
  | health => exact List.mem_cons_self
  | asset name =>
    rw [Route.reply]
    cases decodePath? name with
    | none => exact (by decide : Status.badRequest ∈ statuses)
    | some name => exact status_assetReply name
  | calculation => exact status_calculationReply limits _

theorem status_headOnly (reply : Reply) (method : String) :
    (reply.headOnly method).status = reply.status := by
  unfold Reply.headOnly
  split <;> rfl

theorem respond_of_mem {route : Route} (hroute : Route.ofPath? (pathOf request.target) = some route)
    (hmethod : request.method ∈ route.methods) :
    respond limits request = (route.reply limits request).headOnly request.method := by
  rw [respond, hroute]
  exact if_pos (List.contains_iff_mem.mpr hmethod)

theorem respond_of_not_mem {route : Route}
    (hroute : Route.ofPath? (pathOf request.target) = some route)
    (hmethod : request.method ∉ route.methods) : respond limits request =
      { status := Status.methodNotAllowed, allow := some (",".intercalate route.methods) } := by
  rw [respond, hroute]
  exact if_neg fun h ↦ hmethod (List.contains_iff_mem.mp h)

theorem status_respond : (respond limits request).status ∈ Status.methodNotAllowed :: statuses := by
  cases hroute : Route.ofPath? (pathOf request.target) with
  | none =>
    rw [respond, hroute]
    exact (by decide : Status.notFound ∈ Status.methodNotAllowed :: statuses)
  | some route =>
    by_cases hmethod : request.method ∈ route.methods
    · rw [respond_of_mem limits request hroute hmethod, status_headOnly]
      exact List.mem_cons_of_mem _ (status_reply limits request route)
    · rw [respond_of_not_mem limits request hroute hmethod]
      exact List.mem_cons_self

/-- A method is refused where the path leads somewhere, but not by this method. -/
theorem status_respond_eq_methodNotAllowed_iff :
    (respond limits request).status = Status.methodNotAllowed ↔ ∃ route,
      Route.ofPath? (pathOf request.target) = some route ∧ request.method ∉ route.methods := by
  constructor
  · intro h
    cases hroute : Route.ofPath? (pathOf request.target) with
    | none =>
      rw [respond, hroute] at h
      cases h
    | some route =>
      refine ⟨route, rfl, fun hmethod ↦ ?_⟩
      have hstatus := status_reply limits request route
      rw [respond_of_mem limits request hroute hmethod, status_headOnly] at h
      rw [h] at hstatus
      exact absurd hstatus (by decide)
  · rintro ⟨route, hroute, hmethod⟩
    rw [respond_of_not_mem limits request hroute hmethod]

/-- A request for the head of a reply is told what a request for all of it is told. -/
theorem respond_head : respond limits { request with method := "HEAD" } =
    { respond limits { request with method := "GET" } with body := "" } := by
  unfold respond
  dsimp only
  cases Route.ofPath? (pathOf request.target) with
  | none => rfl
  | some route => cases route <;> rfl

/-! ## Files and calculations -/

theorem ofPath?_static {name : List Char} (h : name ≠ []) :
    Route.ofPath? (.ofList ("/static/".toList ++ name)) = some (.asset name) := by
  have hne (other : String) (hother : ¬"/static/".toList <+: other.toList) :
      String.ofList ("/static/".toList ++ name) ≠ other := by
    intro heq
    have htext : other.toList = "/static/".toList ++ name := by
      rw [← heq]
      exact String.toList_ofList
    exact hother (htext ▸ List.prefix_append _ _)
  have hprefix : ("/static/".toList.isPrefixOf ("/static/".toList ++ name) && !name.isEmpty) =
      true := by
    rw [Bool.and_eq_true_iff, List.isPrefixOf_iff_prefix, Bool.not_eq_true',
      List.isEmpty_eq_false_iff]
    exact ⟨List.prefix_append _ _, h⟩
  rw [Route.ofPath?, if_neg (hne _ (by decide)), if_neg (hne _ (by decide)),
    if_neg (hne _ (by decide))]
  simp only [String.toList_ofList, List.drop_left, hprefix, if_true]

variable {limits request}

/-- The file of a name is given out whichever way the name is written, and whatever query comes
after it. -/
theorem respond_asset {name written : List Char} {asset : Asset}
    (hname : Asset.named? (.ofList name) = some asset) (hwritten : PathForm name written)
    (hpath : ∀ c ∈ written, (c != '?' && c != '#') = true) (hquery : IsQuery query)
    (hmethod : request.method = "GET")
    (htarget : request.target = .ofList ("/static/".toList ++ written ++ query)) :
    respond limits request =
      { status := Status.ok, contentType := some asset.contentType, body := asset.content } := by
  have hne : written ≠ [] := by
    rintro rfl
    have hempty := hwritten.decodePath?.symm.trans PathForm.nil.decodePath?
    rw [Option.some_inj.mp hempty] at hname
    cases hname
  have hisPath : IsPath ("/static/".toList ++ written) := by
    refine ⟨rfl, ?_⟩
    rw [List.forall_mem_append]
    exact ⟨List.all_eq_true.mp (by decide), hpath⟩
  have hroute : Route.ofPath? (pathOf request.target) = some (.asset written) := by
    rw [htarget, pathOf_append hisPath hquery, ofPath?_static hne]
  have hmem : request.method ∈ (Route.asset written).methods := hmethod ▸ List.mem_cons_self
  rw [respond_of_mem limits request hroute hmem, hmethod, Route.reply, hwritten.decodePath?]
  simp only [Reply.headOnly, Option.elim_some, assetReply, hname]
  rfl

theorem respond_calculation (hmethod : request.method = "POST") (hquery : IsQuery query)
    (htarget : request.target = .ofList ("/api/calc".toList ++ query)) :
    respond limits request =
      calculationReply limits (readBody request.contentType request.body) := by
  have hisPath : IsPath "/api/calc".toList := ⟨rfl, List.all_eq_true.mp (by decide)⟩
  have hroute : Route.ofPath? (pathOf request.target) = some .calculation := by
    rw [htarget, pathOf_append hisPath hquery]
    rfl
  have hmem : request.method ∈ Route.calculation.methods := hmethod ▸ List.mem_cons_self
  rw [respond_of_mem limits request hroute hmem, hmethod]
  rfl

end Reckoner.Web
