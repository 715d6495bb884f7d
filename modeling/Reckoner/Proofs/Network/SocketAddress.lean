import Reckoner.Network.SocketAddress
import Reckoner.Proofs.Json.Strings
import Reckoner.Proofs.Numeral.Forms

/-!
# Socket Addresses Read Back

The text of a socket address is read as this address, whichever run of zeros is left out of it and
whether its last groups are written as octets.  Every address that is read has eight groups if it
has groups, so a text that is read, written and read once more gives the same address again.
-/

namespace Reckoner

namespace Network

variable {rest : List Char}

/-! ## Decimal numbers -/

theorem readDecimal_append {most n : Nat} (hmost : n ≤ most) (hrest : NoDigitFirst rest) :
    readDecimal most (Numeral.digitsOf n ++ rest) = some (n, rest) := by
  have hdigits := Numeral.allDigits_digitsOf n
  have hne : Numeral.digitsOf n ≠ [] := Nat.toDigits_ne_nil
  simp only [readDecimal, hdigits.takeWhile_append hrest, hdigits.dropWhile_append hrest,
    Numeral.readDigits_digitsOf, hne, false_or, Nat.not_lt.mpr hmost, if_false]

/-- An octet is written without a leading zero, as it has to be read. -/
theorem readOctet_append (octet : UInt8) (hrest : NoDigitFirst rest) :
    readOctet (Numeral.digitsOf octet.toNat ++ rest) = some (octet, rest) := by
  have hdecimal : readDecimal 255 (Numeral.digitsOf octet.toNat ++ rest) =
      some (octet.toNat, rest) :=
    readDecimal_append (Nat.le_of_lt_succ octet.toNat_lt) hrest
  unfold readOctet
  rw [(Numeral.allDigits_digitsOf octet.toNat).takeWhile_append hrest, hdecimal]
  split
  case h_1 second more hdigits => exact absurd hdigits (Numeral.digitsOf_ne_zero_cons _ _ _)
  case h_2 => simp only [Option.map_some, UInt8.ofNat_toNat]

theorem readPort_append (port : UInt16) (hrest : NoDigitFirst rest) :
    readPort (':' :: Numeral.digitsOf port.toNat ++ rest) = some (port, rest) := by
  have hdecimal : readDecimal 65535 (Numeral.digitsOf port.toNat ++ rest) =
      some (port.toNat, rest) :=
    readDecimal_append (Nat.le_of_lt_succ port.toNat_lt) hrest
  simp only [readPort, readChar, List.cons_append, if_true, Option.bind_eq_bind, Option.bind_some,
    hdecimal, UInt16.ofNat_toNat]

/-! ## Octets -/

theorem toList_text (host : Reckoner.IPv4) :
    (IPv4.text host).toList = Numeral.digitsOf host.a.toNat ++ '.' ::
      (Numeral.digitsOf host.b.toNat ++ '.' :: (Numeral.digitsOf host.c.toNat ++ '.' ::
        Numeral.digitsOf host.d.toNat)) := by
  have htext (octet : UInt8) : (toString octet).toList = Numeral.digitsOf octet.toNat :=
    Nat.toList_repr
  simp only [IPv4.text, String.toList_intercalate, List.map_cons, List.map_nil, htext,
    List.intercalate_cons_cons, List.intercalate_singleton, List.append_assoc]
  rfl

theorem readIPv4_append (host : Reckoner.IPv4) (hrest : NoDigitFirst rest) :
    readIPv4 ((IPv4.text host).toList ++ rest) = some (host, rest) := by
  have hpoint (more : List Char) : NoDigitFirst ('.' :: more) := noDigitFirst_cons (by decide) more
  simp only [toList_text, readIPv4, List.append_assoc, List.cons_append,
    readOctet_append _ (hpoint _), readOctet_append _ hrest, readChar, if_true,
    Option.bind_eq_bind, Option.bind_some]

/-- There are no octets unless a point follows the digits that a text begins with. -/
theorem readIPv4_eq_none {cs : List Char} (h : (cs.dropWhile Char.isDigit).head? ≠ some '.') :
    readIPv4 cs = none := by
  have hchar : readChar '.' (cs.dropWhile Char.isDigit) = none := by
    cases hdrop : cs.dropWhile Char.isDigit with
    | nil => rfl
    | cons c more =>
      rw [hdrop, List.head?_cons] at h
      exact if_neg fun heq ↦ h (congrArg some heq)
  have hoctet (octet : UInt8) (more : List Char) (hread : readOctet cs = some (octet, more)) :
      more = cs.dropWhile Char.isDigit := by
    unfold readOctet readDecimal at hread
    split at hread
    · cases hread
    · obtain ⟨⟨value, rest⟩, hdecimal, heq⟩ := Option.map_eq_some_iff.mp hread
      rw [Option.ite_none_left_eq_some] at hdecimal
      cases hdecimal.2
      cases heq
      rfl
  unfold readIPv4
  cases hread : readOctet cs with
  | none => rfl
  | some result =>
    obtain ⟨octet, more⟩ := result
    simp only [hoctet octet more hread, Option.bind_eq_bind, Option.bind_some, hchar,
      Option.bind_none]

/-! ## Groups -/

theorem hexValue?_digitChar : ∀ d < 16, Json.hexValue? (Nat.digitChar d) = some d := by decide

theorem hexNumber?_append (digits : List Char) (last : Char) :
    Json.hexNumber? (digits ++ [last]) =
      (Json.hexNumber? digits).bind fun n ↦ (Json.hexValue? last).map (16 * n + ·) := by
  simp only [Json.hexNumber?, List.foldlM_append, List.foldlM_cons, List.foldlM_nil, bind_pure]
  rfl

/-- Digits to the base sixteen are hexadecimal digits of the number. -/
theorem hexNumber?_toDigits (n : Nat) : Json.hexNumber? (Nat.toDigits 16 n) = some n := by
  induction n using Nat.strongRecOn with
  | _ n ih =>
    rcases Nat.lt_or_ge n 16 with hlt | hle
    · rw [Nat.toDigits_of_lt_base hlt, ← List.nil_append [n.digitChar], hexNumber?_append,
        hexValue?_digitChar n hlt]
      simp [Json.hexNumber?]
    · rw [Nat.toDigits_of_base_le (by decide) hle, hexNumber?_append, ih (n / 16) (by omega),
        hexValue?_digitChar _ (Nat.mod_lt _ (by decide)), Option.bind_some, Option.map_some,
        Nat.div_add_mod]

theorem isHexDigit_of_mem_toDigits (n : Nat) : ∀ c ∈ Nat.toDigits 16 n, isHexDigit c := by
  have hdigit (d : Nat) (hd : d < 16) : isHexDigit d.digitChar := by
    rw [isHexDigit, hexValue?_digitChar d hd, Option.isSome_some]
  induction n using Nat.strongRecOn with
  | _ n ih =>
    intro c hc
    rcases Nat.lt_or_ge n 16 with hlt | hle
    · rw [Nat.toDigits_of_lt_base hlt, List.mem_singleton] at hc
      exact hc ▸ hdigit n hlt
    · rw [Nat.toDigits_of_base_le (by decide) hle, List.mem_append, List.mem_singleton] at hc
      rcases hc with hinit | hlast
      · exact ih (n / 16) (by omega) c hinit
      · exact hlast ▸ hdigit _ (Nat.mod_lt _ (by decide))

theorem isDigit_of_isHexDigit_eq_false {c : Char} (h : isHexDigit c = false) :
    c.isDigit = false := by
  by_contra hdigit
  rw [isHexDigit, Json.hexValue?, if_pos (by simpa using hdigit)] at h
  cases h

/-- A group does not go on, nor is it an octet. -/
def EndsGroup (rest : List Char) : Prop := ∀ c ∈ rest.head?, isHexDigit c = false ∧ c ≠ '.'

theorem EndsGroup.noDigitFirst (h : EndsGroup rest) : NoDigitFirst rest :=
  fun c hc ↦ isDigit_of_isHexDigit_eq_false (h c hc).1

theorem readGroup_append (group : UInt16) (hrest : EndsGroup rest) :
    readGroup (Nat.toDigits 16 group.toNat ++ rest) = some (group, rest) := by
  have hall := isHexDigit_of_mem_toDigits group.toNat
  have hdrop := dropWhile_append_of_all hall fun c hc ↦ (hrest c hc).1
  have htake := takeWhile_append_of_all hall fun c hc ↦ (hrest c hc).1
  have hne : Nat.toDigits 16 group.toNat ≠ [] := Nat.toDigits_ne_nil
  have hlength : (Nat.toDigits 16 group.toNat).length ≤ 4 :=
    (Nat.length_toDigits_le_iff (by decide) (by decide)).mpr group.toNat_lt
  simp only [readGroup, htake, hdrop, hne, false_or, Nat.not_lt.mpr hlength, if_false,
    hexNumber?_toDigits, Option.map_some, UInt16.ofNat_toNat]

/-- A group is not taken for octets. -/
theorem readIPv4_group (group : UInt16) (hrest : EndsGroup rest) :
    readIPv4 (Nat.toDigits 16 group.toNat ++ rest) = none := by
  refine readIPv4_eq_none fun hhead ↦ ?_
  have hmem : '.' ∈ Nat.toDigits 16 group.toNat ∨ rest.head? = some '.' := by
    cases hdrop : (Nat.toDigits 16 group.toNat).dropWhile Char.isDigit with
    | nil =>
      rw [List.dropWhile_append, hdrop, List.isEmpty_nil, if_pos rfl] at hhead
      cases rest with
      | nil => cases hhead
      | cons c more =>
        rw [List.dropWhile_cons, hrest.noDigitFirst c rfl, if_neg Bool.false_ne_true] at hhead
        exact .inr hhead
    | cons c more =>
      rw [List.dropWhile_append, hdrop, List.isEmpty_cons, if_neg Bool.false_ne_true,
        List.cons_append, List.head?_cons, Option.some_inj] at hhead
      have hmem : c ∈ (Nat.toDigits 16 group.toNat).dropWhile Char.isDigit :=
        hdrop ▸ List.mem_cons_self
      exact .inl (hhead ▸ (List.dropWhile_sublist _).subset hmem)
  rcases hmem with hmem | hmem
  · exact absurd (isHexDigit_of_mem_toDigits _ _ hmem) (by decide)
  · exact (hrest '.' hmem).2 rfl

/-! ## Several groups -/

/-- Some groups with a colon before each. -/
def separatedChars (groups : List UInt16) : List Char :=
  groups.flatMap fun group ↦ ':' :: Nat.toDigits 16 group.toNat

theorem toList_groupsText (group : UInt16) (groups : List UInt16) :
    (groupsText (group :: groups)).toList =
      Nat.toDigits 16 group.toNat ++ separatedChars groups := by
  have hgroup (group : UInt16) : (groupText group).toList = Nat.toDigits 16 group.toNat :=
    String.toList_ofList
  induction groups generalizing group with
  | nil =>
    simp only [groupsText, String.toList_intercalate, List.map_cons, List.map_nil, hgroup,
      List.intercalate_singleton, separatedChars, List.flatMap_nil, List.append_nil]
  | cons next groups ih =>
    simp only [groupsText, String.toList_intercalate, List.map_cons, hgroup] at ih
    simp only [groupsText, String.toList_intercalate, List.map_cons, hgroup,
      List.intercalate_cons_cons, ih, separatedChars, List.flatMap_cons, List.append_assoc]
    rfl

/-- No group begins the text, neither at once nor after a colon. -/
structure EndsGroups (rest : List Char) : Prop where
  endsGroup : EndsGroup rest
  readGroups_eq (limit : Nat) (separated : Bool) :
    readGroups limit separated rest = ⟨[], false, rest⟩

theorem readIPv4_cons {c : Char} (hdigit : isHexDigit c = false) (hpoint : c ≠ '.') :
    readIPv4 (c :: rest) = none := by
  refine readIPv4_eq_none ?_
  rw [List.dropWhile_cons, isDigit_of_isHexDigit_eq_false hdigit, if_neg Bool.false_ne_true,
    List.head?_cons]
  exact fun heq ↦ hpoint (Option.some_inj.mp heq)

theorem readGroup_cons {c : Char} (hdigit : isHexDigit c = false) :
    readGroup (c :: rest) = none := by
  have htake : (c :: rest).takeWhile isHexDigit = [] := by
    rw [List.takeWhile_cons, hdigit, if_neg Bool.false_ne_true]
  rw [readGroup, htake, if_pos (.inl rfl)]

theorem readGroups_of_none {limit : Nat} (hoctets : readIPv4 rest = none)
    (hgroup : readGroup rest = none) : readGroups limit false rest = ⟨[], false, rest⟩ := by
  cases limit with
  | zero => rfl
  | succ limit => simp only [readGroups, Bool.false_eq_true, if_false, hoctets, ite_self, hgroup]

theorem readGroups_colon_of_none {limit : Nat} (hoctets : readIPv4 rest = none)
    (hgroup : readGroup rest = none) :
    readGroups limit true (':' :: rest) = ⟨[], false, ':' :: rest⟩ := by
  cases limit with
  | zero => rfl
  | succ limit => simp only [readGroups, readChar, if_true, hoctets, ite_self, hgroup]

theorem endsGroup_cons {c : Char} (hdigit : isHexDigit c = false) (hpoint : c ≠ '.') :
    EndsGroup (c :: rest) :=
  forall_mem_head?_cons ⟨hdigit, hpoint⟩ rest

theorem endsGroups_colons : EndsGroups (':' :: ':' :: rest) where
  endsGroup := endsGroup_cons (by decide) (by decide)
  readGroups_eq limit separated := by
    have hoctets (more : List Char) : readIPv4 (':' :: more) = none :=
      readIPv4_cons (by decide) (by decide)
    have hgroup (more : List Char) : readGroup (':' :: more) = none := readGroup_cons (by decide)
    cases separated with
    | false => exact readGroups_of_none (hoctets _) (hgroup _)
    | true => exact readGroups_colon_of_none (hoctets rest) (hgroup rest)

theorem endsGroups_cons {c : Char} (hdigit : isHexDigit c = false) (hpoint : c ≠ '.')
    (hcolon : c ≠ ':') : EndsGroups (c :: rest) where
  endsGroup := endsGroup_cons hdigit hpoint
  readGroups_eq limit separated := by
    cases separated with
    | false => exact readGroups_of_none (readIPv4_cons hdigit hpoint) (readGroup_cons hdigit)
    | true =>
      cases limit with
      | zero => rfl
      | succ limit => simp only [readGroups, readChar, if_true, hcolon, if_false]

/-- A group at the beginning of a text is read, and then those that follow it. -/
theorem readGroups_group (limit : Nat) (group : UInt16) (hrest : EndsGroup rest) :
    readGroups (limit + 1) false (Nat.toDigits 16 group.toNat ++ rest) =
      ⟨group :: (readGroups limit true rest).groups, (readGroups limit true rest).octets,
        (readGroups limit true rest).rest⟩ := by
  simp only [readGroups, Bool.false_eq_true, if_false, readIPv4_group group hrest, ite_self,
    readGroup_append group hrest]

theorem readGroups_colon (limit : Nat) (group : UInt16) (hrest : EndsGroup rest) :
    readGroups (limit + 1) true (':' :: Nat.toDigits 16 group.toNat ++ rest) =
      readGroups (limit + 1) false (Nat.toDigits 16 group.toNat ++ rest) := by
  simp only [readGroups, List.cons_append, readChar, if_true, Bool.false_eq_true, if_false,
    readIPv4_group group hrest, ite_self, readGroup_append group hrest]

theorem endsGroup_separatedChars (groups : List UInt16) (hrest : EndsGroup rest) :
    EndsGroup (separatedChars groups ++ rest) := by
  cases groups with
  | nil => exact hrest
  | cons group groups => exact endsGroup_cons (by decide) (by decide)

theorem readGroups_separatedChars (groups : List UInt16) {limit : Nat}
    (hlimit : groups.length ≤ limit) (hrest : EndsGroups rest) :
    readGroups limit true (separatedChars groups ++ rest) = ⟨groups, false, rest⟩ := by
  induction groups generalizing limit with
  | nil => exact hrest.readGroups_eq limit true
  | cons group groups ih =>
    obtain ⟨limit, rfl⟩ := Nat.exists_eq_add_one.mpr (Nat.zero_lt_of_lt hlimit)
    have hmore := endsGroup_separatedChars groups hrest.endsGroup
    rw [separatedChars, List.flatMap_cons, ← separatedChars, List.append_assoc,
      readGroups_colon limit group hmore, readGroups_group limit group hmore,
      ih (Nat.le_of_succ_le_succ hlimit)]

theorem readGroups_groupsText (groups : List UInt16) {limit : Nat}
    (hlimit : groups.length ≤ limit) (hrest : EndsGroups rest) :
    readGroups limit false ((groupsText groups).toList ++ rest) = ⟨groups, false, rest⟩ := by
  cases groups with
  | nil => exact hrest.readGroups_eq limit false
  | cons group groups =>
    obtain ⟨limit, rfl⟩ := Nat.exists_eq_add_one.mpr (Nat.zero_lt_of_lt hlimit)
    rw [toList_groupsText, List.append_assoc,
      readGroups_group limit group (endsGroup_separatedChars groups hrest.endsGroup),
      readGroups_separatedChars groups (Nat.le_of_succ_le_succ hlimit) hrest]

/-! ## Zeros left out -/

/-- The run that is found is one of zeros. -/
theorem exists_longestZeros (start : Nat) (groups : List UInt16) : ∃ before after,
    (longestZeros start groups).1 = start + before.length ∧
      groups = before ++ List.replicate (longestZeros start groups).2 0 ++ after := by
  induction groups generalizing start with
  | nil => exact ⟨[], [], rfl, rfl⟩
  | cons group groups ih =>
    simp only [longestZeros]
    split
    · have hzeros : (group :: groups).takeWhile (· == 0) =
          List.replicate (leadingZeros (group :: groups)) 0 :=
        List.eq_replicate_of_mem fun zero hmem ↦
          eq_of_beq (List.all_eq_true.mp List.all_takeWhile zero hmem)
      refine ⟨[], (group :: groups).dropWhile (· == 0), rfl, ?_⟩
      dsimp only
      rw [List.nil_append, ← hzeros, List.takeWhile_append_dropWhile]
    · obtain ⟨before, after, hstart, hgroups⟩ := ih (start + 1)
      refine ⟨group :: before, after, ?_, ?_⟩
      · dsimp only
        rw [hstart, List.length_cons, Nat.add_assoc, Nat.add_comm 1]
      · rw [List.cons_append, List.cons_append, ← hgroups]

theorem groups_octets (high low : UInt16) :
    IPv4.groups ⟨.ofNat (high.toNat / 256), .ofNat (high.toNat % 256), .ofNat (low.toNat / 256),
      .ofNat (low.toNat % 256)⟩ = [high, low] := by
  have hgroup (group : UInt16) : UInt16.ofNat ((UInt8.ofNat (group.toNat / 256)).toNat * 256 +
      (UInt8.ofNat (group.toNat % 256)).toNat) = group := by
    have hhigh : group.toNat / 256 < UInt8.size := Nat.div_lt_of_lt_mul group.toNat_lt
    have hlow : group.toNat % 256 < UInt8.size := Nat.mod_lt _ (by decide)
    rw [UInt8.toNat_ofNat_of_lt' hhigh, UInt8.toNat_ofNat_of_lt' hlow,
      Nat.div_add_mod', UInt16.ofNat_toNat]
  simp only [IPv4.groups, hgroup]

theorem readIPv6_full {groups : List UInt16} (hlength : groups.length = groupCount)
    (hrest : EndsGroups rest) :
    readIPv6 ((groupsText groups).toList ++ rest) = some (groups, rest) := by
  have hread := readGroups_groupsText groups (Nat.le_of_eq hlength) hrest
  simp only [readIPv6, hread, hlength, if_true]

/-- Zeros between two lists of groups may be left out, if there are any. -/
theorem readIPv6_shortened {before after : List UInt16} {zeros : Nat} {cs : List Char}
    (hlength : before.length + zeros + after.length = groupCount) (hzeros : 0 < zeros)
    (hafter : ∃ octets, ∀ limit, after.length ≤ limit →
      readGroups limit false cs = ⟨after, octets, rest⟩) :
    readIPv6 ((groupsText before).toList ++ ':' :: ':' :: cs) =
      some (before ++ List.replicate zeros 0 ++ after, rest) := by
  obtain ⟨octets, hafter⟩ := hafter
  have hbefore : before.length ≤ groupCount := by omega
  have htail := hafter (groupCount - (before.length + 1)) (by omega)
  have hcount : groupCount - before.length - after.length = zeros := by omega
  have hne : before.length ≠ groupCount := by omega
  simp only [readIPv6, readGroups_groupsText before hbefore endsGroups_colons, hne, if_false,
    Bool.false_eq_true, readChar, if_true, Option.bind_eq_bind, Option.bind_some, htail, hcount]

/-- Two groups may be written as octets after another one. -/
theorem readGroups_octets (group : UInt16) (host : Reckoner.IPv4) (hrest : NoDigitFirst rest)
    {limit : Nat} (hlimit : 3 ≤ limit) :
    readGroups limit false
        (Nat.toDigits 16 group.toNat ++ ':' :: ((IPv4.text host).toList ++ rest)) =
      ⟨group :: IPv4.groups host, true, rest⟩ := by
  obtain ⟨limit, rfl⟩ := Nat.exists_eq_add_of_le' hlimit
  rw [readGroups_group (limit + 2) group (endsGroup_cons (by decide) (by decide))]
  simp only [readGroups, if_true, readChar, readIPv4_append host hrest, Nat.zero_lt_succ]

/-- The last two groups may be octets if only the group before them is not zero. -/
theorem readIPv6_mapped (high low : UInt16) (hrest : NoDigitFirst rest) :
    readIPv6 (("::ffff:" ++ IPv4.text ⟨.ofNat (high.toNat / 256), .ofNat (high.toNat % 256),
        .ofNat (low.toNat / 256), .ofNat (low.toNat % 256)⟩).toList ++ rest) =
      some ([0, 0, 0, 0, 0, 0xffff, high, low], rest) := by
  generalize hhost : (⟨.ofNat (high.toNat / 256), .ofNat (high.toNat % 256),
    .ofNat (low.toNat / 256), .ofNat (low.toNat % 256)⟩ : Reckoner.IPv4) = host
  have hgroups : IPv4.groups host = [high, low] := hhost ▸ groups_octets high low
  have hafter (limit : Nat) (hlimit : [0xffff, high, low].length ≤ limit) :
      readGroups limit false
          (Nat.toDigits 16 0xffff ++ ':' :: ((IPv4.text host).toList ++ rest)) =
        ⟨[0xffff, high, low], true, rest⟩ := by
    have hread := readGroups_octets 0xffff host hrest hlimit
    rwa [hgroups] at hread
  have htext : ("::ffff:" ++ IPv4.text host).toList ++ rest = (groupsText []).toList ++
      ':' :: ':' :: (Nat.toDigits 16 0xffff ++ ':' :: ((IPv4.text host).toList ++ rest)) := by
    have hdigits : Nat.toDigits 16 0xffff = ['f', 'f', 'f', 'f'] := by decide
    have hnil : (groupsText []).toList = [] := rfl
    have hmark : "::ffff:".toList = [':', ':', 'f', 'f', 'f', 'f', ':'] := rfl
    rw [String.toList_append, List.append_assoc, hdigits, hmark, hnil]
    simp only [List.cons_append, List.nil_append]
  rw [htext]
  exact readIPv6_shortened rfl (Nat.zero_lt_succ 4) ⟨true, hafter⟩

theorem readIPv6_text {groups : List UInt16} (hlength : groups.length = groupCount)
    (hrest : EndsGroups rest) :
    readIPv6 ((ipv6Text groups).toList ++ rest) = some (groups, rest) := by
  unfold ipv6Text
  split
  case h_1 high low => exact readIPv6_mapped high low hrest.endsGroup.noDigitFirst
  case h_2 =>
    obtain ⟨before, after, hstart, hgroups⟩ := exists_longestZeros 0 groups
    generalize longestZeros 0 groups = run at hstart hgroups
    obtain ⟨start, zeros⟩ := run
    dsimp only at hstart hgroups ⊢
    split
    case isTrue hzeros =>
      have hbefore : groups.take start = before := by
        rw [hgroups, hstart, List.append_assoc]
        exact List.take_left' (Nat.zero_add _).symm
      have hafter : groups.drop (start + zeros) = after := by
        rw [hgroups, hstart]
        refine List.drop_left' ?_
        rw [List.length_append, List.length_replicate, Nat.zero_add]
      have hcount : before.length + zeros + after.length = groupCount := by
        rw [← hlength, hgroups, List.length_append, List.length_append, List.length_replicate]
      rw [hbefore, hafter]
      simp only [String.toList_append, List.append_assoc]
      rw [hgroups]
      exact readIPv6_shortened hcount (Nat.zero_lt_of_lt hzeros)
        ⟨false, fun limit hlimit ↦ readGroups_groupsText after hlimit hrest⟩
    case isFalse => exact readIPv6_full hlength hrest

/-! ## What is read -/

theorem length_readGroups_le (limit : Nat) (separated : Bool) (cs : List Char) :
    (readGroups limit separated cs).groups.length ≤ limit := by
  induction limit generalizing separated cs with
  | zero => exact Nat.le_refl 0
  | succ limit ih =>
    unfold readGroups
    split
    · exact Nat.zero_le _
    · split
      case h_1 host rest hread =>
        have hlimit : 0 < limit := by
          by_contra hlimit
          rw [if_neg hlimit] at hread
          cases hread
        exact Nat.succ_le_succ hlimit
      case h_2 =>
        split
        · exact Nat.zero_le _
        · exact Nat.succ_le_succ (ih true _)

theorem length_of_readIPv6 {cs : List Char} {groups : List UInt16}
    (h : readIPv6 cs = some (groups, rest)) : groups.length = groupCount := by
  unfold readIPv6 at h
  have hhead := length_readGroups_le groupCount false cs
  generalize readGroups groupCount false cs = head at h hhead
  dsimp only at h
  split at h
  case isTrue hfull =>
    cases h
    exact hfull
  case isFalse hfull =>
    split at h
    case isTrue => cases h
    case isFalse =>
      obtain ⟨first, -, h⟩ := Option.bind_eq_some_iff.mp h
      obtain ⟨second, -, h⟩ := Option.bind_eq_some_iff.mp h
      cases h
      have htail := length_readGroups_le (groupCount - (head.groups.length + 1)) false second
      simp only [List.length_append, List.length_replicate]
      omega

end Network

namespace SocketAddress

open Network

/-- Groups are eight. -/
def IsValid : SocketAddress → Prop
  | v4 _ _ => True
  | v6 groups _ _ => groups.length = groupCount

variable {address : SocketAddress} {text : String}

theorem toList_port (port : UInt16) :
    (":" ++ toString port).toList = ':' :: Numeral.digitsOf port.toNat := by
  have hport : (toString port).toList = Numeral.digitsOf port.toNat := Nat.toList_repr
  rw [String.toList_append, hport]
  rfl

theorem readPort_toList (port : UInt16) :
    readPort (":" ++ toString port).toList = some (port, []) := by
  have hread : readPort (':' :: Numeral.digitsOf port.toNat ++ []) = some (port, []) :=
    readPort_append port (by rintro c ⟨⟩)
  rwa [List.append_nil, ← toList_port] at hread

theorem readV4_text (host : IPv4) (port : UInt16) :
    readV4 (v4 host port).text.toList = some (v4 host port, []) := by
  have hport : NoDigitFirst (":" ++ toString port).toList := by
    rw [toList_port]
    exact noDigitFirst_cons (by decide) _
  rw [SocketAddress.text, String.append_assoc, String.toList_append, readV4,
    readIPv4_append host hport]
  simp only [Option.bind_eq_bind, Option.bind_some, readPort_toList]

/-- What is written for a scope, if it is not zero. -/
def scopeText (scope : UInt32) : String := if scope = 0 then "" else "%" ++ toString scope

theorem toList_text_v6 (groups : List UInt16) (scope : UInt32) (port : UInt16) :
    (v6 groups scope port).text.toList = '[' :: ((ipv6Text groups).toList ++
      ((scopeText scope).toList ++ ']' :: (":" ++ toString port).toList)) := by
  simp only [SocketAddress.text, scopeText, String.toList_append, List.append_assoc]
  rfl

theorem toList_scope (scope : UInt32) :
    ("%" ++ toString scope).toList = '%' :: Numeral.digitsOf scope.toNat := by
  have hscope : (toString scope).toList = Numeral.digitsOf scope.toNat := Nat.toList_repr
  rw [String.toList_append, hscope]
  rfl

theorem readScope_append (scope : UInt32) (more : List Char) :
    readScope ((scopeText scope).toList ++ ']' :: more) = (scope, ']' :: more) := by
  unfold scopeText
  split
  case isTrue hzero => rw [hzero]; rfl
  case isFalse =>
    have hdecimal : readDecimal (twoPow 32 - 1) (Numeral.digitsOf scope.toNat ++ ']' :: more) =
        some (scope.toNat, ']' :: more) :=
      readDecimal_append (Nat.le_of_lt_succ scope.toNat_lt) (noDigitFirst_cons (by decide) more)
    simp only [toList_scope, List.cons_append, readScope, readChar, if_true, hdecimal,
      UInt32.ofNat_toNat]

theorem endsGroups_scopeText (scope : UInt32) (more : List Char) :
    EndsGroups ((scopeText scope).toList ++ ']' :: more) := by
  unfold scopeText
  split
  case isTrue => exact endsGroups_cons (by decide) (by decide) (by decide)
  case isFalse =>
    rw [toList_scope, List.cons_append]
    exact endsGroups_cons (by decide) (by decide) (by decide)

theorem readV6_text {groups : List UInt16} (hlength : groups.length = groupCount)
    (scope : UInt32) (port : UInt16) :
    readV6 (v6 groups scope port).text.toList = some (v6 groups scope port, []) := by
  have hgroups := readIPv6_text hlength
    (endsGroups_scopeText scope (":" ++ toString port).toList)
  simp only [toList_text_v6, readV6, readChar, if_true, Option.bind_eq_bind, Option.bind_some,
    hgroups, readScope_append, readPort_toList]

/-- An address that is written is read as it is. -/
theorem ofText?_text (h : address.IsValid) : ofText? address.text = some address := by
  cases address with
  | v4 host port => rw [ofText?, readV4_text]; rfl
  | v6 groups scope port =>
    have hv4 : readV4 (v6 groups scope port).text.toList = none := by
      rw [toList_text_v6, readV4, readIPv4_cons (by decide) (by decide)]
      rfl
    rw [ofText?, hv4, readV6_text h]
    rfl

theorem isValid_of_readV4 {cs more : List Char} (h : readV4 cs = some (address, more)) :
    address.IsValid := by
  obtain ⟨host, -, h⟩ := Option.bind_eq_some_iff.mp h
  obtain ⟨port, -, h⟩ := Option.bind_eq_some_iff.mp h
  cases h
  trivial

theorem isValid_of_readV6 {cs more : List Char} (h : readV6 cs = some (address, more)) :
    address.IsValid := by
  obtain ⟨start, -, h⟩ := Option.bind_eq_some_iff.mp h
  obtain ⟨⟨groups, rest⟩, hgroups, h⟩ := Option.bind_eq_some_iff.mp h
  obtain ⟨closed, -, h⟩ := Option.bind_eq_some_iff.mp h
  obtain ⟨port, -, h⟩ := Option.bind_eq_some_iff.mp h
  cases h
  exact length_of_readIPv6 hgroups

theorem isValid_of_ofText? (h : ofText? text = some address) : address.IsValid := by
  unfold ofText? at h
  dsimp only at h
  split at h
  case h_1 result hread =>
    cases h
    cases hv4 : readV4 text.toList with
    | some found =>
      rw [hv4] at hread
      cases hread
      exact isValid_of_readV4 hv4
    | none =>
      rw [hv4] at hread
      exact isValid_of_readV6 hread
  case h_2 => cases h

/-- Addresses that are read from two texts are the same if they are written alike. -/
theorem text_injective {other : SocketAddress} (h : address.IsValid) (hother : other.IsValid)
    (htext : address.text = other.text) : address = other := by
  have hread : some address = some other := by
    rw [← ofText?_text h, ← ofText?_text hother, htext]
  exact Option.some_inj.mp hread

/-- Writing what was read and reading it once more gives the same address. -/
theorem ofText?_text_of_ofText? (h : ofText? text = some address) :
    ofText? address.text = some address :=
  ofText?_text (isValid_of_ofText? h)

example : (ofText? "[0:0:1:0:0:0:0:2%0]:080").map SocketAddress.text = some "[0:0:1::2]:80" := by
  decide +kernel

/-! ## The characters of an address -/

/-- No character is as great as that of deletion. -/
def ArePrintable (cs : List Char) : Prop := ∀ c ∈ cs, c.toNat < 0x7f

theorem arePrintable_of_all {cs : List Char} (h : cs.all fun c ↦ decide (c.toNat < 0x7f)) :
    ArePrintable cs :=
  fun c hc ↦ of_decide_eq_true (List.all_eq_true.mp h c hc)

theorem arePrintable_append {l r : List Char} (hl : ArePrintable l) (hr : ArePrintable r) :
    ArePrintable (l ++ r) :=
  List.forall_mem_append.mpr ⟨hl, hr⟩

theorem arePrintable_cons {c : Char} {cs : List Char} (hc : c.toNat < 0x7f)
    (hcs : ArePrintable cs) : ArePrintable (c :: cs) :=
  List.forall_mem_cons.mpr ⟨hc, hcs⟩

theorem arePrintable_toDigits (n : Nat) : ArePrintable (Nat.toDigits 16 n) := by
  intro c hc
  obtain ⟨d, hd⟩ := Option.isSome_iff_exists.mp (isHexDigit_of_mem_toDigits n c hc)
  exact Nat.lt_of_le_of_lt (Json.toNat_le_of_hexValue? hd) (by decide)

theorem arePrintable_digitsOf (n : Nat) : ArePrintable (Numeral.digitsOf n) := by
  intro c hc
  have hdigit := Numeral.allDigits_digitsOf n c hc
  exact Nat.lt_of_le_of_lt (Json.toNat_le_of_hexValue? (if_pos hdigit)) (by decide)

theorem arePrintable_host (host : IPv4) : ArePrintable (IPv4.text host).toList := by
  rw [toList_text]
  refine arePrintable_append (arePrintable_digitsOf _) (arePrintable_cons (by decide) ?_)
  refine arePrintable_append (arePrintable_digitsOf _) (arePrintable_cons (by decide) ?_)
  exact arePrintable_append (arePrintable_digitsOf _)
    (arePrintable_cons (by decide) (arePrintable_digitsOf _))

theorem arePrintable_groupsText (groups : List UInt16) :
    ArePrintable (groupsText groups).toList := by
  cases groups with
  | nil => exact List.forall_mem_nil _
  | cons group groups =>
    rw [toList_groupsText]
    refine arePrintable_append (arePrintable_toDigits _) ?_
    intro c hc
    obtain ⟨other, -, hc⟩ := List.mem_flatMap.mp hc
    exact arePrintable_cons (by decide) (arePrintable_toDigits _) c hc

theorem arePrintable_ipv6Text (groups : List UInt16) : ArePrintable (ipv6Text groups).toList := by
  unfold ipv6Text
  split
  case h_1 =>
    rw [String.toList_append]
    exact arePrintable_append (arePrintable_of_all (by decide)) (arePrintable_host _)
  case h_2 =>
    generalize longestZeros 0 groups = run
    obtain ⟨start, zeros⟩ := run
    dsimp only
    split
    case isTrue =>
      rw [String.toList_append, String.toList_append]
      exact arePrintable_append (arePrintable_append (arePrintable_groupsText _)
        (arePrintable_of_all (by decide))) (arePrintable_groupsText _)
    case isFalse => exact arePrintable_groupsText groups

theorem arePrintable_scopeText (scope : UInt32) : ArePrintable (scopeText scope).toList := by
  unfold scopeText
  split
  case isTrue => exact List.forall_mem_nil _
  case isFalse =>
    rw [toList_scope]
    exact arePrintable_cons (by decide) (arePrintable_digitsOf _)

theorem arePrintable_text (address : SocketAddress) : ArePrintable address.text.toList := by
  have hport (port : UInt16) : ArePrintable (":" ++ toString port).toList := by
    rw [toList_port]
    exact arePrintable_cons (by decide) (arePrintable_digitsOf _)
  cases address with
  | v4 host port =>
    rw [SocketAddress.text, String.append_assoc, String.toList_append]
    exact arePrintable_append (arePrintable_host host) (hport port)
  | v6 groups scope port =>
    rw [toList_text_v6]
    refine arePrintable_cons (by decide) (arePrintable_append (arePrintable_ipv6Text groups) ?_)
    exact arePrintable_append (arePrintable_scopeText scope)
      (arePrintable_cons (by decide) (hport port))

end SocketAddress

end Reckoner
