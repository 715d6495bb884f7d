import Reckoner.Command.Line
import Reckoner.Proofs.Network.SocketAddress

/-!
# Command Lines Read Back

Every line that asks for a command names a settings file only by a path that is not empty, and an
address only if it is one.  Every such line can be written: with its options attached to their
names and its expression after two dashes, it is read as it is, even if the path or the expression
begins with a dash.  The reader never runs out of rounds.
-/

namespace Reckoner.Command

variable {draft : Draft} {argument name value path : String} {rest arguments : List String}
  {rounds : Nat} {line : Line}

/-! ## What is read is valid -/

/-- The address, if there is one, can be written. -/
def BindIsValid (bind : Option SocketAddress) : Prop := ∀ address ∈ bind, address.IsValid

def Action.IsValid : Action → Prop
  | serve bind => BindIsValid bind
  | _ => True

def Line.IsValid : Line → Prop
  | run settings action => settings ≠ some "" ∧ action.IsValid
  | _ => True

structure Draft.IsValid (draft : Draft) : Prop where
  settings : draft.settings ≠ some ""
  bind : BindIsValid draft.bind

/-- Nothing invalid comes of the step from the draft, and it leaves no more arguments than there
were after the first. -/
def Step.IsSound (draft : Draft) (rest : List String) : Step → Prop
  | go next left => (draft.IsValid → next.IsValid) ∧ left.length ≤ rest.length
  | stop line => line.IsValid

theorem Draft.isValid_empty : Draft.IsValid {} where
  settings := by rintro ⟨⟩
  bind := by rintro _ ⟨⟩

theorem length_of_takeValue {attached : Option String} {left : List String}
    (h : takeValue attached rest = some (value, left)) : left.length ≤ rest.length := by
  unfold takeValue at h
  split at h
  case h_1 =>
    cases h
    exact Nat.le_refl _
  case h_2 =>
    rw [Option.ite_none_left_eq_some] at h
    cases h.2
    exact Nat.le_succ _
  case h_3 => cases h

theorem isValid_information? {whole : Bool} (h : information? whole argument = some line) :
    line.IsValid := by
  unfold information? at h
  split at h
  case h_1 =>
    cases h
    trivial
  case h_2 =>
    rw [Option.ite_none_right_eq_some] at h
    cases h.2
    trivial
  case h_3 =>
    split at h
    case isTrue =>
      cases h
      trivial
    case isFalse =>
      rw [Option.ite_none_right_eq_some] at h
      cases h.2
      trivial

theorem isSound_information? (whole : Bool) :
    (Step.stop ((information? whole argument).getD .misuse)).IsSound draft rest := by
  cases h : information? whole argument with
  | none => trivial
  | some line => exact isValid_information? h

namespace Draft

variable {attached : Option String}

theorem isSound_putSettings : (draft.putSettings attached rest).IsSound draft rest := by
  unfold putSettings
  split
  case h_1 path left htake =>
    split
    case isTrue => trivial
    case isFalse hpath =>
      have hne : some path ≠ some "" := fun heq ↦ hpath (.inl (Option.some_inj.mp heq))
      exact ⟨fun h ↦ ⟨hne, h.bind⟩, length_of_takeValue htake⟩
  case h_2 => trivial

theorem isSound_putBind : (draft.putBind attached rest).IsSound draft rest := by
  unfold putBind
  split
  case h_1 text left htake =>
    split
    case h_1 address hread =>
      split
      case isTrue => trivial
      case isFalse =>
        have hbind : BindIsValid (some address) := by
          rintro _ ⟨⟩
          exact SocketAddress.isValid_of_ofText? hread
        exact ⟨fun h ↦ ⟨h.settings, hbind⟩, length_of_takeValue htake⟩
    case h_2 => trivial
  case h_2 => trivial

theorem isSound_putJson : (draft.putJson attached rest).IsSound draft rest := by
  unfold putJson
  split
  case isTrue => trivial
  case isFalse => exact ⟨fun h ↦ ⟨h.settings, h.bind⟩, Nat.le_refl _⟩

end Draft

namespace Name

variable {command : Name} {free : Bool}

theorem isSound_readSwitch : (command.readSwitch draft argument rest).IsSound draft rest := by
  unfold readSwitch
  split
  case h_1 => exact Draft.isSound_putSettings
  case h_2 => exact Draft.isSound_putJson
  case h_3 => exact Draft.isSound_putBind
  case h_4 => exact isSound_information? false

theorem isSound_readOperand : (command.readOperand draft argument rest).IsSound draft rest := by
  unfold readOperand
  split
  case isTrue => exact ⟨fun h ↦ ⟨h.settings, h.bind⟩, Nat.le_refl _⟩
  case isFalse => trivial

theorem isValid_finish (h : draft.IsValid) : (command.finish draft).IsValid := by
  unfold finish
  split
  case h_1 => exact ⟨h.settings, trivial⟩
  case h_2 => exact ⟨h.settings, trivial⟩
  case h_3 => exact ⟨h.settings, h.bind⟩
  case h_4 => trivial

/-- What a command makes of an argument that does not free those after it. -/
def step (command : Name) (free : Bool) (draft : Draft) (argument : String)
    (rest : List String) : Step :=
  if !free && isSwitch argument then command.readSwitch draft argument rest
  else command.readOperand draft argument rest

theorem isSound_step : (command.step free draft argument rest).IsSound draft rest := by
  unfold step
  split
  case isTrue => exact isSound_readSwitch
  case isFalse => exact isSound_readOperand

theorem read_nil : command.read rounds free draft [] = command.finish draft := by
  cases rounds <;> rfl

theorem read_cons :
    command.read (rounds + 1) free draft (argument :: rest) =
      if !free && argument == "--" then command.read rounds true draft rest
      else match command.step free draft argument rest with
        | .go next left => command.read rounds free next left
        | .stop line => line := rfl

theorem isValid_read (h : draft.IsValid) :
    (command.read rounds free draft arguments).IsValid := by
  induction rounds generalizing free draft arguments with
  | zero =>
    cases arguments with
    | nil => exact isValid_finish h
    | cons => trivial
  | succ rounds ih =>
    cases arguments with
    | nil => exact isValid_finish h
    | cons argument rest =>
      rw [read_cons]
      split
      case isTrue => exact ih h
      case isFalse =>
        have hstep : (command.step free draft argument rest).IsSound draft rest := isSound_step
        cases hread : command.step free draft argument rest with
        | go next left =>
          rw [hread] at hstep
          exact ih (hstep.1 h)
        | stop line =>
          rw [hread] at hstep
          exact hstep

/-- One round for each argument is enough. -/
theorem read_eq_of_le (h : arguments.length ≤ rounds) :
    command.read rounds free draft arguments =
      command.read arguments.length free draft arguments := by
  induction rounds using Nat.strongRecOn generalizing free draft arguments with
  | _ rounds ih =>
    cases arguments with
    | nil => rw [read_nil, read_nil]
    | cons argument rest =>
      obtain ⟨more, rfl⟩ := Nat.exists_eq_add_of_le' (Nat.le_trans (Nat.le_add_left 1 _) h)
      have hrest : rest.length ≤ more := Nat.le_of_succ_le_succ h
      rw [List.length_cons, read_cons, read_cons, ih more (Nat.lt_succ_self _) hrest]
      have hstep : (command.step free draft argument rest).IsSound draft rest := isSound_step
      cases hread : command.step free draft argument rest with
      | go next left =>
        rw [hread] at hstep
        have hleft : command.read more free next left =
            command.read left.length free next left :=
          ih more (Nat.lt_succ_self more) (Nat.le_trans hstep.2 hrest)
        have hleft' : command.read rest.length free next left =
            command.read left.length free next left :=
          ih rest.length (Nat.lt_succ_of_le hrest) hstep.2
        dsimp only
        rw [hleft, hleft']
      | stop line => rfl

end Name

namespace Line

theorem isSound_readGlobal : (readGlobal draft argument rest).IsSound draft rest := by
  unfold readGlobal
  split
  case h_1 => exact Draft.isSound_putSettings
  case h_2 => exact isSound_information? true

theorem isValid_helpOn (names : List String) : (helpOn names).IsValid := by
  unfold helpOn
  split
  case h_1 => trivial
  case h_2 => split <;> trivial
  case h_3 => trivial

theorem IsValid.underSettings {settings : Option String} (h : line.IsValid)
    (hsettings : settings ≠ some "") : (line.underSettings settings).IsValid := by
  cases line with
  | run own action =>
    refine ⟨?_, h.2⟩
    cases own with
    | none => exact hsettings
    | some path => exact h.1
  | _ => trivial

theorem isValid_read (h : draft.IsValid) : (read rounds draft arguments).IsValid := by
  induction rounds generalizing draft arguments with
  | zero => cases arguments <;> trivial
  | succ rounds ih =>
    cases arguments with
    | nil => trivial
    | cons argument rest =>
      rw [read]
      split
      case isTrue =>
        have hstep : (readGlobal draft argument rest).IsSound draft rest := isSound_readGlobal
        cases hread : readGlobal draft argument rest with
        | go next left =>
          rw [hread] at hstep
          exact ih (hstep.1 h)
        | stop line =>
          rw [hread] at hstep
          exact hstep
      case isFalse =>
        split
        case h_1 => exact (Name.isValid_read Draft.isValid_empty).underSettings h.settings
        case h_2 =>
          split
          case isTrue => exact isValid_helpOn rest
          case isFalse => trivial

theorem isValid_ofArguments (arguments : List String) : (ofArguments arguments).IsValid :=
  isValid_read Draft.isValid_empty

end Line

/-! ## Attached values -/

/-- A switch with its value. -/
def attach (name value : String) : String := name ++ "=" ++ value

theorem toList_attach (name value : String) :
    (attach name value).toList = name.toList ++ '=' :: value.toList := by
  simp only [attach, String.toList_append, List.append_assoc]
  rfl

theorem isSwitch_attach (h : isSwitch name) : isSwitch (attach name value) := by
  unfold isSwitch at h ⊢
  rw [toList_attach]
  split at h
  case h_1 c rest heq => rw [heq]; rfl
  case h_2 => cases h

theorem attach_ne_dashes : attach name value ≠ "--" := by
  intro heq
  have hmem : '=' ∈ (attach name value).toList := by
    rw [toList_attach]
    exact List.mem_append_right _ (List.mem_cons_self ..)
  rw [heq] at hmem
  exact absurd hmem (by decide)

theorem splitSwitch_attach (h : '=' ∉ name.toList) :
    splitSwitch (attach name value) = (name, some value) := by
  have hall : ∀ c ∈ name.toList, (c != '=') = true := bne_of_not_mem h
  have hhead : ∀ c ∈ ('=' :: value.toList).head?, (c != '=') = false :=
    forall_mem_head?_cons (by decide) _
  simp only [splitSwitch, toList_attach, takeWhile_append_of_all hall hhead,
    dropWhile_append_of_all hall hhead, String.ofList_toList]

theorem putSettings_some (hpath : path ≠ "") (hfirst : draft.settings = none) :
    draft.putSettings (some path) rest = .go { draft with settings := some path } rest := by
  simp only [Draft.putSettings, takeValue, hpath, hfirst, Option.isSome_none, Bool.false_eq_true,
    or_self, if_false]

/-! ## Commands after the settings file -/

variable {command : Name}

theorem isSwitch_of_ofText? (h : Name.ofText? name = some command) : isSwitch name = false := by
  unfold Name.ofText? at h
  split at h
  case h_4 => cases h
  all_goals decide

theorem Line.underSettings_none (line : Line) : line.underSettings none = line := by
  cases line with
  | run own action => cases own <;> rfl
  | _ => rfl

theorem ofArguments_cons (h : Name.ofText? name = some command) :
    Line.ofArguments (name :: rest) = command.read rest.length false {} rest := by
  rw [Line.ofArguments, List.length_cons, Line.read, if_neg (Bool.not_eq_true _ ▸
    isSwitch_of_ofText? h), h]
  exact Line.underSettings_none _

/-- A settings file before a command counts if the command names none. -/
theorem ofArguments_attach_config (hpath : path ≠ "") (h : Name.ofText? name = some command) :
    Line.ofArguments (attach "--config" path :: name :: rest) =
      (Line.ofArguments (name :: rest)).underSettings (some path) := by
  have hswitch : isSwitch (attach "--config" path) := isSwitch_attach (by decide)
  have hread : readGlobal {} (attach "--config" path) (name :: rest) =
      .go { settings := some path } (name :: rest) := by
    rw [readGlobal, splitSwitch_attach (by decide)]
    exact putSettings_some hpath rfl
  rw [ofArguments_cons h, Line.ofArguments, List.length_cons, List.length_cons, Line.read,
    if_pos hswitch, hread]
  dsimp only
  rw [Line.read, if_neg (Bool.not_eq_true _ ▸ isSwitch_of_ofText? h), h]

/-! ## Written lines -/

/-- The command with its arguments. -/
def Action.written : Action → List String
  | eval expression json => "eval" :: ((if json then ["--json"] else []) ++ ["--", expression])
  | symbols => ["symbols"]
  | serve bind => "serve" :: (bind.map fun address => attach "--bind" address.text).toList

/-- The whole line, with the settings file before the command. -/
def Line.written (settings : Option String) (action : Action) : List String :=
  (settings.map (attach "--config")).toList ++ action.written

theorem read_of_step {free : Bool} {next : Draft} {left : List String}
    (hdashes : (!free && argument == "--") = false)
    (hstep : command.step free draft argument rest = .go next left) :
    command.read (rounds + 1) free draft (argument :: rest) =
      command.read rounds free next left := by
  rw [Name.read_cons, hdashes, hstep]
  rfl

theorem read_operand_after_dashes (h : draft.operands = []) (expression : String) :
    Name.eval.read (rounds + 2) false draft ["--", expression] =
      .run draft.settings (.eval expression draft.json) := by
  have hstep : Name.eval.step true draft expression [] =
      .go { draft with operands := [expression] } [] := by
    simp only [Name.step, Bool.not_true, Bool.false_and, Bool.false_eq_true, if_false,
      Name.readOperand, h, List.length_nil, Name.operandCount, Nat.lt_succ_self, if_true,
      List.nil_append]
  rw [Name.read_cons, if_pos (by decide), read_of_step rfl hstep]
  exact Name.read_nil

theorem read_json (h : draft.json = false) :
    Name.eval.read (rounds + 1) false draft ("--json" :: rest) =
      Name.eval.read rounds false { draft with json := true } rest := by
  have hsplit : splitSwitch "--json" = ("--json", none) := by decide
  have hstep : Name.eval.step false draft "--json" rest = draft.putJson none rest := by
    rw [Name.step, if_pos (by decide)]
    unfold Name.readSwitch
    rw [hsplit]
    rfl
  have hput : draft.putJson none rest = .go { draft with json := true } rest := by
    simp only [Draft.putJson, Option.isSome_none, h, Bool.false_eq_true, or_self, if_false]
  exact read_of_step (by decide) (hstep.trans hput)

theorem read_bind {address : SocketAddress} (h : draft.bind = none) (haddress : address.IsValid) :
    Name.serve.read (rounds + 1) false draft (attach "--bind" address.text :: rest) =
      Name.serve.read rounds false { draft with bind := some address } rest := by
  have hswitch : isSwitch (attach "--bind" address.text) := isSwitch_attach (by decide)
  have hdashes : (!false && attach "--bind" address.text == "--") = false :=
    beq_eq_false_iff_ne.mpr attach_ne_dashes
  have hstep : Name.serve.step false draft (attach "--bind" address.text) rest =
      draft.putBind (some address.text) rest := by
    rw [Name.step, hswitch]
    unfold Name.readSwitch
    rw [splitSwitch_attach (by decide)]
    rfl
  have hput : draft.putBind (some address.text) rest =
      .go { draft with bind := some address } rest := by
    simp only [Draft.putBind, takeValue, SocketAddress.ofText?_text haddress, h,
      Option.isSome_none, Bool.false_eq_true, if_false]
  exact read_of_step hdashes (hstep.trans hput)

theorem ofArguments_written_action {action : Action} (h : action.IsValid) :
    Line.ofArguments action.written = .run none action := by
  cases action with
  | eval expression json =>
    rw [Action.written, ofArguments_cons rfl]
    cases json with
    | false => exact read_operand_after_dashes rfl expression
    | true => exact (read_json rfl).trans (read_operand_after_dashes rfl expression)
  | symbols =>
    have hname : Name.ofText? "symbols" = some .symbols := rfl
    exact ofArguments_cons hname
  | serve bind =>
    rw [Action.written, ofArguments_cons rfl]
    cases bind with
    | none => rfl
    | some address => exact (read_bind rfl (h address rfl)).trans Name.read_nil

/-- A line that is written is read as it is. -/
theorem ofArguments_written {settings : Option String} {action : Action}
    (h : (Line.run settings action).IsValid) :
    Line.ofArguments (Line.written settings action) = .run settings action := by
  have haction := ofArguments_written_action h.2
  cases settings with
  | none => exact haction
  | some path =>
    have hpath : path ≠ "" := fun heq ↦ h.1 (congrArg some heq)
    have hunder (line : Line) (hline : line = .run none action) :
        line.underSettings (some path) = .run (some path) action := hline ▸ rfl
    cases action with
    | eval => exact (ofArguments_attach_config hpath rfl).trans (hunder _ haction)
    | symbols => exact (ofArguments_attach_config hpath rfl).trans (hunder _ haction)
    | serve => exact (ofArguments_attach_config hpath rfl).trans (hunder _ haction)

example : Line.ofArguments ["--config=-", "eval", "--json", "--", "-1"] =
    .run (some "-") (.eval "-1" true) := by decide

end Reckoner.Command
