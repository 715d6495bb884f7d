import Reckoner.Proofs.Network.SocketAddress
import Reckoner.Proofs.Toml.Lines
import Reckoner.Proofs.Toml.Tables
import Reckoner.Settings

/-!
# Settings

All settings that are ever in force are valid: the program starts with them or not at all.  All
valid settings can be written in a file, and neither the order of what is written there nor anything
that is not known makes a difference.
-/

namespace Reckoner.Settings

open Toml (Item Entries)

/-- A limit that may be set: not zero, and of 64 bits. -/
def IsLimit (limit : Nat) : Prop := 1 ≤ limit ∧ limit < twoPow 64

/-- The settings that may be in force. -/
structure IsValid (settings : Settings) : Prop where
  bind : settings.bind.IsValid
  maxInputLength : IsLimit settings.limits.maxInputLength
  maxDepth : IsLimit settings.limits.maxDepth

variable {settings : Settings} {text path usual : String} {files : Files}

theorem isValid_default : IsValid {} where
  bind := trivial
  maxInputLength := ⟨by decide, by decide⟩
  maxDepth := ⟨by decide, by decide⟩

/-! ## What is read is valid -/

theorem readOr_forall {α : Type} {P : α → Prop} {read : Item → Option α} {fallback a : α}
    {item : Option Item} (hfallback : P fallback) (hread : ∀ item a, read item = some a → P a)
    (h : readOr read fallback item = some a) : P a := by
  cases item with
  | none => exact Option.some_inj.mp h ▸ hfallback
  | some item => exact hread item a h

theorem isValid_of_readAddress {item : Item} {address : SocketAddress}
    (h : readAddress item = some address) : address.IsValid := by
  cases item with
  | string text => exact SocketAddress.isValid_of_ofText? h
  | _ => cases h

theorem lt_of_readLimit {item : Item} {limit : Nat} (h : readLimit item = some limit) :
    limit < twoPow 64 := by
  unfold readLimit at h
  split at h
  case h_1 value =>
    rw [Option.ite_none_right_eq_some] at h
    obtain ⟨⟨-, hgreatest⟩, heq⟩ := h
    cases heq
    have hlt : value < (twoPow 64 : Nat) := Int.lt_of_le_sub_one hgreatest
    exact (Int.toNat_lt_of_ne_zero (by decide)).mpr hlt
  case h_2 => cases h

theorem isValid_of_readServer {fallback address : SocketAddress} {item : Item}
    (hfallback : fallback.IsValid) (h : readServer fallback item = some address) :
    address.IsValid := by
  obtain ⟨fields, -, h⟩ := Option.bind_eq_some_iff.mp h
  split at h
  case h_1 bind =>
    exact readOr_forall hfallback (fun item a ↦ isValid_of_readAddress) h
  case h_2 => cases h

/-- Both limits are less than the bound of 64 bits. -/
def FitWords (limits : Limits) : Prop :=
  limits.maxInputLength < twoPow 64 ∧ limits.maxDepth < twoPow 64

theorem fitWords_of_readLimits {fallback limits : Limits} {item : Item}
    (hfallback : FitWords fallback) (h : readLimits fallback item = some limits) :
    FitWords limits := by
  obtain ⟨fields, -, h⟩ := Option.bind_eq_some_iff.mp h
  split at h
  case h_1 length depth =>
    obtain ⟨maxInputLength, hlength, h⟩ := Option.bind_eq_some_iff.mp h
    obtain ⟨maxDepth, hdepth, h⟩ := Option.bind_eq_some_iff.mp h
    cases h
    exact ⟨readOr_forall (P := (· < twoPow 64)) hfallback.1 (fun _ _ ↦ lt_of_readLimit) hlength,
      readOr_forall (P := (· < twoPow 64)) hfallback.2 (fun _ _ ↦ lt_of_readLimit) hdepth⟩
  case h_2 => cases h

theorem fits_of_ofEntries? {entries : Entries} (h : ofEntries? entries = some settings) :
    settings.bind.IsValid ∧ FitWords settings.limits := by
  unfold ofEntries? at h
  dsimp only at h
  rw [Option.ite_none_right_eq_some] at h
  obtain ⟨bind, hbind, h⟩ := Option.bind_eq_some_iff.mp h.2
  obtain ⟨limits, hlimits, h⟩ := Option.bind_eq_some_iff.mp h
  cases h
  have hstandard : FitWords {} := ⟨isValid_default.maxInputLength.2, isValid_default.maxDepth.2⟩
  constructor
  · exact readOr_forall isValid_default.bind
      (fun _ _ ↦ isValid_of_readServer isValid_default.bind) hbind
  · exact readOr_forall hstandard (fun _ _ ↦ fitWords_of_readLimits hstandard) hlimits

theorem isValid_of_checked {read : Settings} (hbind : read.bind.IsValid)
    (hfits : FitWords read.limits) (h : checked read = .ok settings) : settings.IsValid := by
  unfold checked at h
  split at h
  case isTrue => cases h
  case isFalse hlength =>
    split at h
    case isTrue => cases h
    case isFalse hdepth =>
      cases h
      exact ⟨hbind, ⟨Nat.one_le_iff_ne_zero.mpr hlength, hfits.1⟩,
        Nat.one_le_iff_ne_zero.mpr hdepth, hfits.2⟩

theorem isValid_of_ofText (h : ofText text = .ok settings) : settings.IsValid := by
  unfold ofText at h
  split at h
  case h_1 => cases h
  case h_2 read hread =>
    obtain ⟨entries, -, hentries⟩ := Option.bind_eq_some_iff.mp hread
    obtain ⟨hbind, hfits⟩ := fits_of_ofEntries? hentries
    exact isValid_of_checked hbind hfits h

theorem isValid_of_ofFile (h : ofFile files path = .ok settings) : settings.IsValid := by
  unfold ofFile at h
  split at h
  case h_1 => cases h
  case h_2 text _ =>
    cases hread : ofText text with
    | error fault =>
      rw [hread] at h
      cases h
    | ok read =>
      rw [hread] at h
      cases h
      exact isValid_of_ofText hread

/-- The program never runs under settings that are not valid. -/
theorem isValid_of_load {asked : Option String} (h : load files usual asked = .ok settings) :
    settings.IsValid := by
  cases asked with
  | some path => exact isValid_of_ofFile h
  | none =>
    rw [load] at h
    split at h
    case isTrue => exact isValid_of_ofFile h
    case isFalse =>
      cases h
      exact isValid_default

/-! ## What makes no difference -/

theorem passableEntries_eq (entries : Entries) :
    passableEntries entries = entries.all fun entry ↦ passable entry.2 := by
  induction entries with
  | nil => rfl
  | cons entry entries ih => rw [passableEntries, ih, List.all_cons]

theorem lookup_eq_of_perm {entries entries' : Entries} (h : entries.Perm entries')
    (honce : Toml.EntriesKeysOnce entries) (key : String) :
    entries.lookup key = entries'.lookup key := by
  have honce' : Toml.EntriesKeysOnce entries' := by
    rw [Toml.entriesKeysOnce_iff] at honce ⊢
    exact ⟨(h.map _).nodup_iff.mp honce.1, fun entry hentry ↦ honce.2 entry (h.mem_iff.mpr hentry)⟩
  ext item
  rw [Toml.Entries.lookup_eq_some_iff_mem honce, Toml.Entries.lookup_eq_some_iff_mem honce',
    h.mem_iff]

theorem othersPassable_eq_of_perm {entries entries' : Entries} (h : entries.Perm entries')
    (known : List String) : othersPassable known entries = othersPassable known entries' := by
  rw [othersPassable, othersPassable, passableEntries_eq, passableEntries_eq]
  exact (h.filter _).all_eq

/-- The order of the parts makes no difference. -/
theorem ofEntries?_eq_of_perm {entries entries' : Entries} (h : entries.Perm entries')
    (honce : Toml.EntriesKeysOnce entries) : ofEntries? entries = ofEntries? entries' := by
  simp only [ofEntries?, othersPassable_eq_of_perm h, lookup_eq_of_perm h honce]

/-- The order of the settings in a part that is a table makes no difference. -/
theorem fields?_eq_of_perm {entries entries' : Entries} (h : entries.Perm entries')
    (honce : Toml.EntriesKeysOnce entries) (names : List String) (origin : Toml.Origin) :
    fields? names (.table origin entries) = fields? names (.table origin entries') := by
  simp only [fields?, othersPassable_eq_of_perm h, lookup_eq_of_perm h honce]

/-- An entry that is not known makes no difference, if it may be passed over. -/
theorem ofEntries?_append {entries : Entries} {key : String} {item : Item}
    (hkey : key ∉ ["server", "limits"]) (hitem : passable item) :
    ofEntries? (entries ++ [(key, item)]) = ofEntries? entries := by
  have hlookup (name : String) (hname : name ∈ ["server", "limits"]) :
      List.lookup name (entries ++ [(key, item)]) = entries.lookup name := by
    have hne : name ≠ key := fun heq ↦ hkey (heq ▸ hname)
    rw [List.lookup_append, List.lookup_cons, beq_eq_false_iff_ne.mpr hne, List.lookup_nil,
      Option.or_none]
  have hknown : ["server", "limits"].contains key = false := by
    rw [Bool.eq_false_iff]
    exact fun h ↦ hkey (List.contains_iff_mem.mp h)
  have hothers : othersPassable ["server", "limits"] (entries ++ [(key, item)]) =
      othersPassable ["server", "limits"] entries := by
    simp only [othersPassable, passableEntries_eq, List.filter_append, List.filter_cons, hknown,
      Bool.not_false, if_true, List.filter_nil, List.all_append, List.all_cons, hitem,
      List.all_nil, Bool.and_true]
  simp only [ofEntries?, hothers, hlookup "server" (by decide), hlookup "limits" (by decide)]

/-! ## Written settings -/

/-- The settings as they are written in a file. -/
def toText (settings : Settings) : String := .ofList <|
  Toml.headerLine "server".toList ++
    (Toml.pairLine "bind".toList (Json.quoted settings.bind.text) ++ (['\n'] ++
      (Toml.headerLine "limits".toList ++
        (Toml.pairLine "max_input_len".toList (Numeral.digitsOf settings.limits.maxInputLength) ++
          Toml.pairLine "max_depth".toList (Numeral.digitsOf settings.limits.maxDepth)))))

/-- What a document of the settings holds. -/
def entries (settings : Settings) : Entries :=
  [("server", .table .headed [("bind", .string settings.bind.text)]),
    ("limits", .table .headed
      [("max_input_len", .scalar (.integer settings.limits.maxInputLength)),
        ("max_depth", .scalar (.integer settings.limits.maxDepth))])]

theorem IsLimit.lt {limit : Nat} (h : IsLimit limit) : limit < twoPow 128 :=
  Nat.lt_trans h.2 (by decide)

theorem IsLimit.readLimit {limit : Nat} (h : IsLimit limit) :
    Settings.readLimit (.scalar (.integer limit)) = some limit := by
  have hle : (limit : Int) ≤ greatestLimit := Int.le_sub_one_of_lt (Int.ofNat_lt.mpr h.2)
  exact if_pos ⟨Int.natCast_nonneg limit, hle⟩

theorem isKey_of_all {key : String} (hne : key.toList ≠ [])
    (hall : key.toList.all Toml.isKeyChar) : Toml.IsKey key.toList :=
  ⟨hne, List.all_eq_true.mp hall⟩

theorem readLines_toText (h : settings.IsValid) (rounds : Nat) :
    Toml.readLines (rounds + 7) ⟨[], []⟩ settings.toText.toList =
      some ⟨settings.entries, ["limits"]⟩ := by
  have haddress : ∀ c ∈ settings.bind.text.toList, c.toNat ≠ 0x7f :=
    fun c hc ↦ Nat.ne_of_lt (SocketAddress.arePrintable_text settings.bind c hc)
  have hpair (key value : List Char) : Toml.pairLine key value ≠ [] :=
    List.append_ne_nil_of_right_ne_nil _ (List.cons_ne_nil _ _)
  have hheader (key : List Char) : Toml.headerLine key ≠ [] := List.cons_ne_nil _ _
  rw [toText, String.toList_ofList, Toml.readLines_cons (hheader _)
      (Toml.readLine_headerLine (isKey_of_all (by decide) (by decide)) rfl _),
    Toml.readLines_cons (hpair _ _)
      (Toml.readLine_string (isKey_of_all (by decide) (by decide)) haddress rfl),
    Toml.readLines_cons (List.cons_ne_nil _ _) (Toml.readLine_empty _ _),
    Toml.readLines_cons (hheader _)
      (Toml.readLine_headerLine (isKey_of_all (by decide) (by decide)) rfl _),
    Toml.readLines_cons (hpair _ _)
      (Toml.readLine_number (isKey_of_all (by decide) (by decide)) h.maxInputLength.lt rfl),
    ← List.append_nil (Toml.pairLine "max_depth".toList _),
    Toml.readLines_cons (hpair _ _)
      (Toml.readLine_number (isKey_of_all (by decide) (by decide)) h.maxDepth.lt rfl)]
  rfl

theorem ofText?_toText (h : settings.IsValid) :
    Entries.ofText? settings.toText = some settings.entries := by
  have hmark : Toml.skipByteOrderMark settings.toText.toList = settings.toText.toList := by
    have hbracket (rest : List Char) : Toml.skipByteOrderMark ('[' :: rest) = '[' :: rest := by
      rw [Toml.skipByteOrderMark, if_neg (by decide)]
    rw [toText, String.toList_ofList, Toml.headerLine, List.cons_append, List.cons_append, hbracket]
  obtain ⟨rounds, hrounds⟩ : ∃ rounds, settings.toText.toList.length + 1 = rounds + 7 := by
    have hheader : (Toml.headerLine "server".toList).length = 9 := by decide
    refine Nat.exists_eq_add_of_le' ?_
    rw [toText, String.toList_ofList, List.length_append, hheader]
    omega
  rw [Entries.ofText?, hmark, hrounds, readLines_toText h]
  rfl

theorem ofEntries?_entries (h : settings.IsValid) :
    ofEntries? settings.entries = some settings := by
  have haddress : readAddress (.string settings.bind.text) = some settings.bind :=
    SocketAddress.ofText?_text h.bind
  have hserver (fallback : SocketAddress) :
      readServer fallback (.table .headed [("bind", .string settings.bind.text)]) =
        some settings.bind := haddress
  have hlimits (fallback : Limits) : readLimits fallback (.table .headed
      [("max_input_len", .scalar (.integer settings.limits.maxInputLength)),
        ("max_depth", .scalar (.integer settings.limits.maxDepth))]) = some settings.limits := by
    have hfields : fields? ["max_input_len", "max_depth"] (.table .headed
        [("max_input_len", .scalar (.integer settings.limits.maxInputLength)),
          ("max_depth", .scalar (.integer settings.limits.maxDepth))]) =
        some [some (.scalar (.integer settings.limits.maxInputLength)),
          some (.scalar (.integer settings.limits.maxDepth))] := rfl
    rw [readLimits, hfields]
    simp only [Option.bind_eq_bind, Option.bind_some, readOr, h.maxInputLength.readLimit,
      h.maxDepth.readLimit]
  have hothers : othersPassable ["server", "limits"] settings.entries := rfl
  have hfound : settings.entries.lookup "server" =
      some (.table .headed [("bind", .string settings.bind.text)]) := rfl
  have hfound' : settings.entries.lookup "limits" = some (.table .headed
      [("max_input_len", .scalar (.integer settings.limits.maxInputLength)),
        ("max_depth", .scalar (.integer settings.limits.maxDepth))]) := rfl
  simp only [ofEntries?, hothers, hfound, hfound', readOr, hserver, hlimits, if_true,
    Option.bind_eq_bind, Option.bind_some]

/-- Valid settings that are written are read as they are. -/
theorem ofText_toText (h : settings.IsValid) : ofText settings.toText = .ok settings := by
  have hlength : settings.limits.maxInputLength ≠ 0 := Nat.one_le_iff_ne_zero.mp h.maxInputLength.1
  have hdepth : settings.limits.maxDepth ≠ 0 := Nat.one_le_iff_ne_zero.mp h.maxDepth.1
  rw [ofText, ofText?_toText h]
  simp only [Option.bind_eq_bind, Option.bind_some, ofEntries?_entries h, checked, hlength, hdepth,
    if_false]

end Reckoner.Settings
