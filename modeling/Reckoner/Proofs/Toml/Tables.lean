import Reckoner.Toml.Document

/-!
# No Key Twice

What a document builds line by line has no key twice in any of its tables, and a value that a line
has given to a key is never changed by the lines after it.
-/

namespace Reckoner.Toml

/-! ## Tables without a key twice -/

mutual

/-- No table in the item has a key twice. -/
def Item.KeysOnce : Item → Prop
  | .string _ => True
  | .scalar _ => True
  | .array items => ItemsKeysOnce items
  | .tables latest earlier => EntriesKeysOnce latest ∧ TablesKeysOnce earlier
  | .table _ entries => EntriesKeysOnce entries

def ItemsKeysOnce : List Item → Prop
  | [] => True
  | first :: rest => first.KeysOnce ∧ ItemsKeysOnce rest

def EntriesKeysOnce : List (String × Item) → Prop
  | [] => True
  | (key, first) :: rest => key ∉ rest.map Prod.fst ∧ first.KeysOnce ∧ EntriesKeysOnce rest

def TablesKeysOnce : List (List (String × Item)) → Prop
  | [] => True
  | first :: rest => EntriesKeysOnce first ∧ TablesKeysOnce rest

end

theorem entriesKeysOnce_iff {entries : Entries} : EntriesKeysOnce entries ↔
    (entries.map Prod.fst).Nodup ∧ ∀ entry ∈ entries, entry.2.KeysOnce := by
  induction entries with
  | nil => simp [EntriesKeysOnce]
  | cons entry entries ih =>
    rw [EntriesKeysOnce, ih, List.map_cons, List.nodup_cons, List.forall_mem_cons, and_assoc,
      and_left_comm (a := Item.KeysOnce _)]

namespace Entries

variable {entries : Entries} {key : String} {item : Item}

theorem map_fst_replace (entries : Entries) (key : String) (item : Item) :
    (replace entries key item).map Prod.fst = entries.map Prod.fst := by
  rw [replace, List.map_map]
  refine List.map_congr_left fun entry _ ↦ ?_
  rw [Function.comp_apply]
  split
  case isTrue h => exact (eq_of_beq h).symm
  case isFalse => rfl

theorem lookup_replace (entries : Entries) (key other : String) (item : Item) :
    (replace entries key item).lookup other =
      if other = key then (entries.lookup other).map fun _ ↦ item else entries.lookup other := by
  induction entries with
  | nil => rw [replace, List.map_nil, List.lookup_nil, Option.map_none, ite_self]
  | cons entry entries ih =>
    obtain ⟨name, value⟩ := entry
    rw [replace, List.map_cons, ← replace]
    by_cases hother : other = name
    · subst hother
      by_cases hkey : other = key
      · subst hkey
        simp only [beq_self_eq_true, if_true, List.lookup_cons, Option.map_some]
      · simp only [beq_eq_false_iff_ne.mpr hkey, Bool.false_eq_true, hkey, if_false,
          List.lookup_cons, beq_self_eq_true]
    · have hsame : List.lookup other ((name, value) :: entries) = List.lookup other entries := by
        rw [List.lookup_cons, beq_eq_false_iff_ne.mpr hother]
      rw [hsame, ← ih]
      split
      case isTrue hname =>
        rw [List.lookup_cons, beq_eq_false_iff_ne.mpr (eq_of_beq hname ▸ hother)]
      case isFalse => rw [List.lookup_cons, beq_eq_false_iff_ne.mpr hother]

theorem mem_of_lookup (h : entries.lookup key = some item) : (key, item) ∈ entries := by
  obtain ⟨before, after, rfl, -⟩ := List.lookup_eq_some_iff.mp h
  exact List.mem_append_right _ List.mem_cons_self

theorem lookup_eq_some_iff_mem (h : EntriesKeysOnce entries) :
    entries.lookup key = some item ↔ (key, item) ∈ entries := by
  refine ⟨mem_of_lookup, fun hmem ↦ ?_⟩
  obtain ⟨before, after, rfl⟩ := List.append_of_mem hmem
  rw [entriesKeysOnce_iff, List.map_append, List.map_cons, List.nodup_append] at h
  have hnone : before.lookup key = none := by
    refine List.lookup_eq_none_iff.mpr fun entry hentry ↦ bne_iff_ne.mpr ?_
    exact (h.1.2.2 _ (List.mem_map_of_mem hentry) key List.mem_cons_self).symm
  rw [List.lookup_append, hnone, Option.none_or, List.lookup_cons_self]

theorem keysOnce_of_lookup (h : EntriesKeysOnce entries)
    (hlookup : entries.lookup key = some item) : item.KeysOnce :=
  (entriesKeysOnce_iff.mp h).2 _ (mem_of_lookup hlookup)

theorem keysOnce_append (h : EntriesKeysOnce entries) (hnone : entries.lookup key = none)
    (hitem : item.KeysOnce) : EntriesKeysOnce (entries ++ [(key, item)]) := by
  rw [entriesKeysOnce_iff] at h ⊢
  have hkey : key ∉ entries.map Prod.fst := by
    intro hmem
    obtain ⟨entry, hentry, rfl⟩ := List.mem_map.mp hmem
    exact bne_iff_ne.mp (List.lookup_eq_none_iff.mp hnone entry hentry) rfl
  constructor
  · rw [List.map_append, List.map_singleton, List.nodup_append]
    refine ⟨h.1, List.nodup_cons.mpr ⟨List.not_mem_nil, List.nodup_nil⟩, ?_⟩
    rintro name hname other hother rfl
    rw [List.mem_singleton.mp hother] at hname
    exact hkey hname
  · rw [List.forall_mem_append, List.forall_mem_singleton]
    exact ⟨h.2, hitem⟩

theorem keysOnce_replace (h : EntriesKeysOnce entries) (hitem : item.KeysOnce) :
    EntriesKeysOnce (replace entries key item) := by
  rw [entriesKeysOnce_iff] at h ⊢
  refine ⟨map_fst_replace entries key item ▸ h.1, fun entry hentry ↦ ?_⟩
  obtain ⟨old, hold, rfl⟩ := List.mem_map.mp hentry
  split
  case isTrue => exact hitem
  case isFalse => exact h.2 old hold

end Entries

/-! ## Values that stay -/

/-- The item is no table. -/
def Item.IsValue : Item → Prop
  | .table _ _ => False
  | .tables _ _ => False
  | _ => True

/-- The value stands at the end of a path that leads through single tables. -/
inductive ValueAt : Entries → List String → Item → Prop
  | here {entries : Entries} {key : String} {value : Item}
    (hlookup : entries.lookup key = some value) (hvalue : value.IsValue) :
    ValueAt entries [key] value
  | within {entries inner : Entries} {key : String} {origin : Origin} {path : List String}
    {value : Item} (hlookup : entries.lookup key = some (.table origin inner))
    (hinner : ValueAt inner path value) : ValueAt entries (key :: path) value

/-- Every value of the first entries stands in the second ones at the same place. -/
def Entries.Keeps (before after : Entries) : Prop :=
  ∀ path value, ValueAt before path value → ValueAt after path value

namespace Entries

variable {entries : Entries} {key : String} {item : Item}

theorem keeps_append (entries more : Entries) : entries.Keeps (entries ++ more) := by
  have hlookup {key : String} {item : Item} (h : List.lookup key entries = some item) :
      List.lookup key (entries ++ more) = some item := by
    rw [List.lookup_append, h, Option.some_or]
  intro path value h
  cases h with
  | here h hvalue => exact .here (hlookup h) hvalue
  | within h hinner => exact .within (hlookup h) hinner

/-- A table may be replaced by one that keeps its values. -/
theorem keeps_replace_table {origin origin' : Origin} {inner inner' : Entries}
    (hlookup : entries.lookup key = some (.table origin inner)) (hkeeps : inner.Keeps inner') :
    entries.Keeps (replace entries key (.table origin' inner')) := by
  intro path value h
  cases h with
  | @here _ other _ h hvalue =>
    have hne : other ≠ key := by
      rintro rfl
      cases hlookup.symm.trans h
      exact hvalue
    exact .here (by rw [lookup_replace, if_neg hne, h]) hvalue
  | @within _ old other _ _ _ h hinner =>
    by_cases hkey : other = key
    · subst hkey
      cases hlookup.symm.trans h
      have hnew : (replace entries other (.table origin' inner')).lookup other =
          some (.table origin' inner') := by
        rw [lookup_replace, if_pos rfl, h, Option.map_some]
      exact .within hnew (hkeeps _ _ hinner)
    · exact .within (by rw [lookup_replace, if_neg hkey, h]) hinner

/-- Tables under one header may be replaced by others. -/
theorem keeps_replace_tables {latest : Entries} {earlier : List Entries}
    (hlookup : entries.lookup key = some (.tables latest earlier)) (item : Item) :
    entries.Keeps (replace entries key item) := by
  intro path value h
  have hne {other : String} {old : Item} (h : List.lookup other entries = some old)
      (hold : old ≠ .tables latest earlier) : other ≠ key := by
    rintro rfl
    exact hold (Option.some_inj.mp (h.symm.trans hlookup))
  cases h with
  | here h hvalue =>
    have hne := hne h (by
      rintro rfl
      exact hvalue)
    exact .here (by rw [lookup_replace, if_neg hne, h]) hvalue
  | within h hinner =>
    have hne := hne h (by rintro ⟨⟩)
    exact .within (by rw [lookup_replace, if_neg hne, h]) hinner

/-! ## Changes -/

/-- The change leaves no key twice, and all values where they are. -/
def Change.IsSafe (change : Change) : Prop := ∀ origin entries entries',
  change origin entries = some entries' →
    (EntriesKeysOnce entries → EntriesKeysOnce entries') ∧ entries.Keeps entries'

theorem insertNew_isSafe (dotted : Bool) (key : String) (hitem : item.KeysOnce) :
    Change.IsSafe (insertNew dotted key item) := by
  intro origin entries entries' h
  unfold insertNew at h
  rw [Option.ite_none_left_eq_some, Option.ite_none_left_eq_some] at h
  obtain ⟨-, hhas, h⟩ := h
  cases h
  have hnone : entries.lookup key = none := Option.not_isSome_iff_eq_none.mp hhas
  exact ⟨fun honce ↦ keysOnce_append honce hnone hitem, keeps_append entries _⟩

theorem openNew_isSafe (key : String) : Change.IsSafe (openNew key) := by
  intro origin entries entries' h
  unfold openNew at h
  split at h
  case h_1 hnone =>
    cases h
    exact ⟨fun honce ↦ keysOnce_append honce hnone trivial, keeps_append entries _⟩
  case h_2 inner hlookup =>
    cases h
    have hinner (honce : EntriesKeysOnce entries) : EntriesKeysOnce inner :=
      keysOnce_of_lookup honce hlookup
    exact ⟨fun honce ↦ keysOnce_replace honce (hinner honce),
      keeps_replace_table hlookup fun _ _ hvalue ↦ hvalue⟩
  case h_3 => cases h

theorem openNext_isSafe (key : String) : Change.IsSafe (openNext key) := by
  intro origin entries entries' h
  unfold openNext at h
  split at h
  case h_1 hnone =>
    cases h
    exact ⟨fun honce ↦ keysOnce_append honce hnone ⟨trivial, trivial⟩, keeps_append entries _⟩
  case h_2 latest earlier hlookup =>
    cases h
    exact ⟨fun honce ↦ keysOnce_replace honce ⟨trivial, keysOnce_of_lookup honce hlookup⟩,
      keeps_replace_tables hlookup _⟩
  case h_3 => cases h

/-- A change is as safe within a table as it is itself. -/
theorem within_isSafe {change : Change} (h : change.IsSafe) (dotted : Bool) (path : List String) :
    Change.IsSafe (within dotted change path) := by
  induction path with
  | nil => exact h
  | cons key path ih =>
    intro origin entries entries' hchange
    unfold within at hchange
    split at hchange
    case h_1 hnone =>
      obtain ⟨inner, hinner, heq⟩ := Option.bind_eq_some_iff.mp hchange
      cases heq
      exact ⟨fun honce ↦ keysOnce_append honce hnone ((ih _ _ _ hinner).1 trivial),
        keeps_append entries _⟩
    case h_2 origin inner hlookup =>
      rw [Option.ite_none_left_eq_some] at hchange
      obtain ⟨inner', hinner, heq⟩ := Option.bind_eq_some_iff.mp hchange.2
      cases heq
      exact ⟨fun honce ↦ keysOnce_replace honce
          ((ih _ _ _ hinner).1 (keysOnce_of_lookup honce hlookup)),
        keeps_replace_table hlookup (ih _ _ _ hinner).2⟩
    case h_3 latest earlier hlookup =>
      obtain ⟨latest', hlatest, heq⟩ := Option.bind_eq_some_iff.mp hchange
      cases heq
      exact ⟨fun honce ↦ keysOnce_replace honce
          ((keysOnce_of_lookup honce hlookup).imp_left (ih _ _ _ hlatest).1),
        keeps_replace_tables hlookup _⟩
    case h_4 => cases hchange

theorem put_isSafe (path : List String) (key : String) (hitem : item.KeysOnce) :
    Change.IsSafe (put path key item) :=
  within_isSafe (insertNew_isSafe _ key hitem) true path

end Entries

/-! ## What is read -/

variable {item : Item} {cs rest : List Char}

/-- What is read has no key twice. -/
def ReadsKeysOnce (read : Reader Item) : Prop :=
  ∀ cs item rest, read cs = some (item, rest) → item.KeysOnce

theorem readPlain_keysOnce : ReadsKeysOnce readPlain := by
  intro cs item rest h
  unfold readPlain at h
  split at h <;> obtain ⟨result, -, heq⟩ := Option.map_eq_some_iff.mp h <;> cases heq <;> trivial

theorem readItems_keysOnce {read : Reader Item} (hread : ReadsKeysOnce read) {rounds : Nat}
    {items : List Item} (h : readItems read rounds cs = some (items, rest)) :
    ItemsKeysOnce items := by
  induction rounds generalizing cs items rest with
  | zero => cases h
  | succ rounds ih =>
    unfold readItems at h
    obtain ⟨start, -, h⟩ := Option.bind_eq_some_iff.mp h
    split at h
    case h_1 =>
      cases h
      trivial
    case h_2 =>
      obtain ⟨⟨first, more⟩, hfirst, h⟩ := Option.bind_eq_some_iff.mp h
      obtain ⟨next, -, h⟩ := Option.bind_eq_some_iff.mp h
      split at h
      case h_1 =>
        obtain ⟨⟨others, last⟩, hothers, h⟩ := Option.bind_eq_some_iff.mp h
        cases h
        exact ⟨hread _ _ _ hfirst, ih hothers⟩
      case h_2 =>
        cases h
        exact ⟨hread _ _ _ hfirst, trivial⟩
      case h_3 => cases h

theorem readPair_keysOnce {skip : List Char → Option (List Char)} {read : Reader Item}
    (hread : ReadsKeysOnce read) {path : List String} {key : String}
    (h : readPair skip read cs = some ((path, key, item), rest)) : item.KeysOnce := by
  unfold readPair at h
  obtain ⟨⟨⟨path, key⟩, more⟩, -, h⟩ := Option.bind_eq_some_iff.mp h
  obtain ⟨start, -, h⟩ := Option.bind_eq_some_iff.mp h
  split at h
  case h_1 =>
    obtain ⟨value, -, h⟩ := Option.bind_eq_some_iff.mp h
    obtain ⟨⟨item, rest⟩, hitem, h⟩ := Option.bind_eq_some_iff.mp h
    cases h
    exact hread _ _ _ hitem
  case h_2 => cases h

theorem readEntries_keysOnce {read : Reader Item} (hread : ReadsKeysOnce read) {rounds : Nat}
    {entries entries' : Entries} (hentries : EntriesKeysOnce entries)
    (h : readEntries read rounds entries cs = some (entries', rest)) :
    EntriesKeysOnce entries' := by
  induction rounds generalizing cs entries with
  | zero => cases h
  | succ rounds ih =>
    unfold readEntries at h
    obtain ⟨start, -, h⟩ := Option.bind_eq_some_iff.mp h
    split at h
    case h_1 =>
      cases h
      exact hentries
    case h_2 =>
      obtain ⟨⟨⟨path, key, item⟩, more⟩, hpair, h⟩ := Option.bind_eq_some_iff.mp h
      obtain ⟨changed, hput, h⟩ := Option.bind_eq_some_iff.mp h
      obtain ⟨next, -, h⟩ := Option.bind_eq_some_iff.mp h
      have hchanged : EntriesKeysOnce changed :=
        (Entries.put_isSafe path key (readPair_keysOnce hread hpair) _ _ _ hput).1 hentries
      split at h
      case h_1 => exact ih hchanged h
      case h_2 =>
        cases h
        exact hchanged
      case h_3 => cases h

theorem readValue_keysOnce (budget : Nat) : ReadsKeysOnce (readValue budget) := by
  induction budget with
  | zero => exact readPlain_keysOnce
  | succ budget ih =>
    intro cs item rest h
    unfold readValue at h
    split at h
    case h_1 =>
      obtain ⟨result, hitems, heq⟩ := Option.map_eq_some_iff.mp h
      cases heq
      exact readItems_keysOnce ih hitems
    case h_2 =>
      obtain ⟨result, hentries, heq⟩ := Option.map_eq_some_iff.mp h
      cases heq
      have hnil : EntriesKeysOnce [] := trivial
      exact readEntries_keysOnce ih hnil hentries
    case h_3 => exact readPlain_keysOnce _ _ _ h

/-! ## Lines -/

variable {draft draft' : Draft}

/-- All that a line can do: nothing, open a table, or put a value into the one that is open. -/
theorem readLine_cases (h : readLine draft cs = some (draft', rest)) :
    draft' = draft ∨
      (∃ change path key, (change = Entries.openNew ∨ change = Entries.openNext) ∧
        draft.openTable change path key = some draft') ∨
      ∃ path key item, item.KeysOnce ∧ draft.put path key item = some draft' := by
  unfold readLine at h
  split at h
  case h_1 =>
    obtain ⟨⟨⟨path, key⟩, more⟩, -, h⟩ := Option.bind_eq_some_iff.mp h
    dsimp only at h
    split at h
    case h_1 =>
      obtain ⟨opened, hopen, h⟩ := Option.bind_eq_some_iff.mp h
      obtain ⟨ended, -, h⟩ := Option.bind_eq_some_iff.mp h
      cases h
      exact .inr (.inl ⟨_, path, key, .inr rfl, hopen⟩)
    case h_2 => cases h
  case h_2 =>
    obtain ⟨⟨⟨path, key⟩, more⟩, -, h⟩ := Option.bind_eq_some_iff.mp h
    dsimp only at h
    split at h
    case h_1 =>
      obtain ⟨opened, hopen, h⟩ := Option.bind_eq_some_iff.mp h
      obtain ⟨ended, -, h⟩ := Option.bind_eq_some_iff.mp h
      cases h
      exact .inr (.inl ⟨_, path, key, .inl rfl, hopen⟩)
    case h_2 => cases h
  case h_3 =>
    split at h
    case h_1 =>
      cases h
      exact .inl rfl
    case h_2 =>
      obtain ⟨⟨⟨path, key, item⟩, more⟩, hpair, h⟩ := Option.bind_eq_some_iff.mp h
      obtain ⟨changed, hput, h⟩ := Option.bind_eq_some_iff.mp h
      obtain ⟨ended, -, h⟩ := Option.bind_eq_some_iff.mp h
      cases h
      have hitem := readPair_keysOnce (readValue_keysOnce maxNesting) hpair
      exact .inr (.inr ⟨path, key, item, hitem, hput⟩)

/-- What the entries of a draft become, no key stands twice and all values stay where they are. -/
def Draft.GrowsTo (draft draft' : Draft) : Prop :=
  (EntriesKeysOnce draft.entries → EntriesKeysOnce draft'.entries) ∧
    draft.entries.Keeps draft'.entries

theorem Draft.GrowsTo.refl (draft : Draft) : draft.GrowsTo draft :=
  ⟨id, fun _ _ h ↦ h⟩

theorem Draft.GrowsTo.trans {draft'' : Draft} (h : draft.GrowsTo draft')
    (h' : draft'.GrowsTo draft'') : draft.GrowsTo draft'' :=
  ⟨fun honce ↦ h'.1 (h.1 honce), fun path value hvalue ↦ h'.2 path value (h.2 path value hvalue)⟩

theorem Draft.growsTo_of_openTable {change : String → Entries.Change}
    (hchange : change = Entries.openNew ∨ change = Entries.openNext) {path : List String}
    {key : String} (h : draft.openTable change path key = some draft') :
    draft.GrowsTo draft' := by
  have hsafe : (change key).IsSafe := by
    rcases hchange with rfl | rfl
    · exact Entries.openNew_isSafe key
    · exact Entries.openNext_isSafe key
  obtain ⟨entries, hentries, heq⟩ := Option.bind_eq_some_iff.mp h
  cases heq
  exact Entries.within_isSafe hsafe false path _ _ _ hentries

theorem Draft.growsTo_of_put {path : List String} {key : String} (hitem : item.KeysOnce)
    (h : draft.put path key item = some draft') : draft.GrowsTo draft' := by
  obtain ⟨entries, hentries, heq⟩ := Option.bind_eq_some_iff.mp h
  cases heq
  exact Entries.within_isSafe (Entries.put_isSafe path key hitem) false draft.path _ _ _ hentries

theorem growsTo_of_readLine (h : readLine draft cs = some (draft', rest)) :
    draft.GrowsTo draft' := by
  rcases readLine_cases h with rfl | ⟨change, path, key, hchange, hopen⟩ |
    ⟨path, key, item, hitem, hput⟩
  · exact .refl draft'
  · exact Draft.growsTo_of_openTable hchange hopen
  · exact Draft.growsTo_of_put hitem hput

theorem growsTo_of_readLines {rounds : Nat} (h : readLines rounds draft cs = some draft') :
    draft.GrowsTo draft' := by
  induction rounds generalizing draft cs with
  | zero => cases h
  | succ rounds ih =>
    unfold readLines at h
    split at h
    case isTrue =>
      cases h
      exact .refl draft'
    case isFalse =>
      obtain ⟨⟨next, rest⟩, hline, hlines⟩ := Option.bind_eq_some_iff.mp h
      exact (growsTo_of_readLine hline).trans (ih hlines)

/-- No table of a document has a key twice. -/
theorem keysOnce_of_ofText? {text : String} {entries : Entries}
    (h : Entries.ofText? text = some entries) : EntriesKeysOnce entries := by
  obtain ⟨draft, hlines, heq⟩ := Option.bind_eq_some_iff.mp h
  cases heq
  have hnil : EntriesKeysOnce [] := trivial
  exact (growsTo_of_readLines hlines).1 hnil

/-- A value that was read before some lines is what its key stands for after them. -/
theorem valueAt_of_readLines {rounds : Nat} (h : readLines rounds draft cs = some draft')
    {path : List String} {value : Item} (hvalue : ValueAt draft.entries path value) :
    ValueAt draft'.entries path value :=
  (growsTo_of_readLines h).2 path value hvalue

end Reckoner.Toml
