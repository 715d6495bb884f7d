import Reckoner.Command.Run
import Reckoner.Proofs.Command.Line
import Reckoner.Proofs.Settings

/-!
# What Comes of a Command Line

The code two stands for misuse alone, and nothing is reported as an error if the code is zero.  The
service runs under valid settings only, whatever the line and the files are.  A line that is written
and names a file of written settings does what it says under these settings.
-/

namespace Reckoner.Command

variable {files : Settings.Files} {usual : String} {arguments : List String} {line : Line}
  {output : Output} {settings : Settings}

/-! ## Codes -/

/-- The code is zero without a report, or one. -/
def Output.IsRegular (output : Output) : Prop :=
  output.code = 0 ∧ output.errors = "" ∨ output.code = 1

theorem isRegular_lines (texts : List String) : (Output.lines texts).IsRegular := .inl ⟨rfl, rfl⟩

theorem isRegular_failed (message : String) : (Output.failed message).IsRegular := .inr rfl

theorem isRegular_evalOutput (expression : String) (json : Bool) (limits : Limits) :
    (evalOutput expression json limits).IsRegular := by
  unfold evalOutput
  generalize Calculation.ofText expression limits = calculation
  dsimp only
  split
  case isTrue =>
    split
    case isTrue => exact .inl ⟨rfl, rfl⟩
    case isFalse => exact .inr rfl
  case isFalse =>
    split
    case h_1 => exact isRegular_lines _
    case h_2 => exact isRegular_failed _

theorem isRegular_run {action : Action} (h : action.run settings = .done output) :
    output.IsRegular := by
  cases action with
  | eval expression json =>
    cases h
    exact isRegular_evalOutput expression json settings.limits
  | symbols =>
    cases h
    exact isRegular_lines _
  | serve => cases h

/-- A line that can be used never ends with the code for misuse. -/
theorem isRegular_outcome (hline : line ≠ .misuse) (h : line.outcome files usual = .done output) :
    output.IsRegular := by
  cases line with
  | run asked action =>
    rw [Line.outcome] at h
    split at h
    case h_1 => exact isRegular_run h
    case h_2 =>
      cases h
      exact isRegular_failed _
  | help =>
    cases h
    exact isRegular_lines _
  | version =>
    cases h
    exact isRegular_lines _
  | misuse => exact absurd rfl hline

theorem code_eq_two_iff (h : line.outcome files usual = .done output) :
    output.code = 2 ↔ line = .misuse := by
  constructor
  · intro hcode
    by_contra hline
    rcases isRegular_outcome hline h with ⟨hzero, -⟩ | hone
    · exact absurd (hzero.symm.trans hcode) (by decide)
    · exact absurd (hone.symm.trans hcode) (by decide)
  · rintro rfl
    cases h
    rfl

/-! ## The service -/

/-- An address on the line counts for the one in the settings, and both are valid. -/
theorem isValid_of_run {action : Action} {under : Settings} (hunder : under.IsValid)
    (haction : action.IsValid) (h : action.run under = .serving settings) : settings.IsValid := by
  cases action with
  | eval => cases h
  | symbols => cases h
  | serve bind =>
    cases h
    refine ⟨?_, hunder.maxInputLength, hunder.maxDepth⟩
    cases bind with
    | none => exact hunder.bind
    | some address => exact haction address rfl

/-- The service never runs under settings that are not valid. -/
theorem isValid_of_outcome
    (h : (Line.ofArguments arguments).outcome files usual = .serving settings) :
    settings.IsValid := by
  have hvalid := Line.isValid_ofArguments arguments
  cases hline : Line.ofArguments arguments with
  | run asked action =>
    rw [hline] at h hvalid
    rw [Line.outcome] at h
    split at h
    case h_1 under hload => exact isValid_of_run (Settings.isValid_of_load hload) hvalid.2 h
    case h_2 => cases h
  | help | version | misuse =>
    rw [hline] at h
    cases h

/-! ## Written lines and files -/

/-- A written line does what it says under written settings. -/
theorem outcome_written {path : String} {action : Action} (hpath : path ≠ "")
    (haction : action.IsValid) (hsettings : settings.IsValid)
    (hfile : files path = some settings.toText) :
    (Line.ofArguments (Line.written (some path) action)).outcome files usual =
      action.run settings := by
  have hline : (Line.run (some path) action).IsValid :=
    ⟨fun heq ↦ hpath (Option.some_inj.mp heq), haction⟩
  have hload : Settings.load files usual (some path) = .ok settings := by
    rw [Settings.load, Settings.ofFile, hfile]
    dsimp only
    rw [Settings.ofText_toText hsettings]
    rfl
  rw [ofArguments_written hline, Line.outcome, hload]

end Reckoner.Command
