import Reckoner.Command.Run
import Reckoner.Proofs.Answer
import Reckoner.Proofs.Safety.Arguments
import Reckoner.Web.Service

/-!
# One Verdict

An expression may be sent to the service or given on the command line.  Both work it out alike, and
what they say of it agrees: the status of the reply, the code that the command ends with, the answer
that is sent and printed, and what is printed without it.
-/

namespace Reckoner

/-! ## Members of objects -/

namespace Json.Value

/-- An object has the member: its name stands there with the value, and not again after it. -/
inductive HasMember : Value → String → Value → Prop
  | last {before after : List (String × Value)} {name : String} {value : Value}
    (hlast : ∀ other, (name, other) ∉ after) :
    HasMember (.object (before ++ (name, value) :: after)) name value

variable {name : String} {value : Value} {members : List (String × Value)}

theorem lookup_eq_none_iff : members.lookup name = none ↔ ∀ other, (name, other) ∉ members := by
  rw [List.lookup_eq_none_iff]
  constructor
  · intro h other hmem
    exact bne_iff_ne.mp (h _ hmem) rfl
  · rintro h ⟨name', other⟩ hmem
    refine bne_iff_ne.mpr ?_
    rintro rfl
    exact h other hmem

theorem member?_eq_some_iff {container : Value} :
    container.member? name = some value ↔ container.HasMember name value := by
  constructor
  · intro h
    unfold member? at h
    split at h
    case h_1 members =>
      obtain ⟨after, before, hmembers, hafter⟩ := List.lookup_eq_some_iff.mp h
      rw [List.reverse_eq_iff, List.reverse_append, List.reverse_cons, List.append_assoc,
        List.singleton_append] at hmembers
      rw [hmembers]
      exact .last fun other hmem ↦ bne_iff_ne.mp (hafter _ (List.mem_reverse.mp hmem)) rfl
    case h_2 => cases h
  · rintro ⟨hlast⟩
    rename_i before after
    have hnone : after.reverse.lookup name = none :=
      lookup_eq_none_iff.mpr fun other hmem ↦ hlast other (List.mem_reverse.mp hmem)
    rw [member?, List.reverse_append, List.reverse_cons, List.append_assoc, List.lookup_append,
      hnone, Option.none_or, List.singleton_append, List.lookup_cons_self]

theorem member?_eq_none {container : Value} (h : container.member? name = none) :
    (∀ members, container ≠ .object members) ∨
      ∃ members, container = .object members ∧ ∀ other, (name, other) ∉ members := by
  cases container with
  | object members =>
    refine .inr ⟨members, rfl, fun other hmem ↦ ?_⟩
    exact lookup_eq_none_iff.mp h other (List.mem_reverse.mpr hmem)
  | _ => exact .inl nofun

end Json.Value

/-! ## What a body holds -/

namespace Web

open Json (Value)

/-- No expression is held: the body was refused, it is no object, or the object has no such member,
or one that is neither a string nor a number nor a truth value. -/
inductive HoldsNone : Option Value → Prop
  | refused : HoldsNone none
  | noObject {value : Value} (h : ∀ members, value ≠ .object members) : HoldsNone (some value)
  | absent {members : List (String × Value)} (h : ∀ value, ("expr", value) ∉ members) :
    HoldsNone (some (.object members))
  | null {value : Value} (h : value.HasMember "expr" .null) : HoldsNone (some value)
  | array {value : Value} {items : List Value} (h : value.HasMember "expr" (.array items)) :
    HoldsNone (some value)
  | object {value : Value} {members : List (String × Value)}
    (h : value.HasMember "expr" (.object members)) : HoldsNone (some value)

/-- The text is held as an expression: as a string, or as what a number or a truth value is written
as. -/
inductive Holds : Option Value → String → Prop
  | string {value : Value} {text : String} (h : value.HasMember "expr" (.string text)) :
    Holds (some value) text
  | number {value : Value} {number : Json.Number} (h : value.HasMember "expr" (.number number)) :
    Holds (some value) number.text
  | true {value : Value} (h : value.HasMember "expr" (.bool true)) : Holds (some value) "1"
  | false {value : Value} (h : value.HasMember "expr" (.bool false)) : Holds (some value) "0"

variable {body : Option Value} {value member : Value} {text : String}

theorem expressionOf_some :
    expressionOf (some value) = value.member? "expr" >>= expressionText := rfl

theorem expressionOf_of_hasMember (h : value.HasMember "expr" member) :
    expressionOf (some value) = expressionText member := by
  rw [expressionOf_some, Value.member?_eq_some_iff.mpr h]
  rfl

theorem HoldsNone.expressionOf (h : HoldsNone body) : expressionOf body = none := by
  cases h with
  | refused => rfl
  | noObject h =>
    rename_i value
    cases value with
    | object members => exact absurd rfl (h members)
    | _ => rfl
  | absent h =>
    rw [expressionOf_some, Value.member?,
      Value.lookup_eq_none_iff.mpr fun other hmem ↦ h other (List.mem_reverse.mp hmem)]
    rfl
  | null h => exact expressionOf_of_hasMember h
  | array h => exact expressionOf_of_hasMember h
  | object h => exact expressionOf_of_hasMember h

theorem Holds.expressionOf (h : Holds body text) : expressionOf body = some text := by
  cases h with
  | string h => exact expressionOf_of_hasMember h
  | number h => exact expressionOf_of_hasMember h
  | true h => exact expressionOf_of_hasMember h
  | false h => exact expressionOf_of_hasMember h

theorem HoldsNone.not_holds (hnone : HoldsNone body) : ¬ Holds body text := fun h ↦
  absurd (hnone.expressionOf.symm.trans h.expressionOf) nofun

theorem Holds.unique {text' : String} (h : Holds body text) (h' : Holds body text') :
    text = text' :=
  Option.some.inj (h.expressionOf.symm.trans h'.expressionOf)

/-- There is no third case. -/
theorem holdsNone_or_holds (body : Option Value) : HoldsNone body ∨ ∃ text, Holds body text := by
  cases body with
  | none => exact .inl .refused
  | some value =>
    cases hmember : value.member? "expr" with
    | none =>
      rcases Value.member?_eq_none hmember with hobject | ⟨members, rfl, habsent⟩
      · exact .inl (.noObject hobject)
      · exact .inl (.absent habsent)
    | some member =>
      rw [Value.member?_eq_some_iff] at hmember
      cases member with
      | null => exact .inl (.null hmember)
      | array items => exact .inl (.array hmember)
      | object members => exact .inl (.object hmember)
      | string text => exact .inr ⟨text, .string hmember⟩
      | number number => exact .inr ⟨number.text, .number hmember⟩
      | bool value =>
        cases value with
        | true => exact .inr ⟨"1", .true hmember⟩
        | false => exact .inr ⟨"0", .false hmember⟩

/-! ## Messages -/

theorem head?_append {before after : String} {c : Char} (h : before.toList.head? = some c) :
    (before ++ after).toList.head? = some c := by
  rw [String.toList_append, List.head?_append, h]
  rfl

/-- Another letter comes first. -/
theorem ne_noExpression {message : String} {c : Char} (h : message.toList.head? = some c)
    (hc : c ≠ 'N') : message ≠ noExpression := by
  rintro rfl
  exact hc (Option.some.inj (h.symm.trans (by rfl)))

/-- No fault is reported as a missing expression. -/
theorem message_ne_noExpression (fault : Fault) : fault.message ≠ noExpression := by
  cases fault with
  | character fault =>
    exact ne_noExpression (c := 'u') (head?_append (head?_append (head?_append rfl))) (by decide)
  | grammar fault =>
    exact ne_noExpression (c := 'e')
      (head?_append (head?_append (head?_append (head?_append (head?_append rfl))))) (by decide)
  | tooLong length limit =>
    exact ne_noExpression (c := 'E')
      (head?_append (head?_append (head?_append (head?_append rfl)))) (by decide)
  | tooDeep limit =>
    exact ne_noExpression (c := 'E') (head?_append (head?_append rfl)) (by decide)
  | evaluation fault =>
    cases fault with
    | unknownName name =>
      exact ne_noExpression (c := 'F') (head?_append (head?_append rfl)) (by decide)
    | arityMismatch name expected given =>
      change name ++ "() takes " ++ expected.text ++ " argument(s), " ++ toString given ++
        " given" ≠ noExpression
      intro h
      have hmem : '(' ∈ noExpression.toList := by
        rw [← h]
        simp only [String.toList_append, List.mem_append]
        exact .inl (.inl (.inl (.inl (.inr (by decide)))))
      revert hmem
      decide
    | divisionByZero => decide
    | outsideDomain fault => cases fault <;> decide
    | nonFinite => decide
    | missingArgument => decide

/-! ## Replies -/

/-- The parts of an answer and the status that it is sent with agree on whether all went well. -/
structure Coherent (status : Nat) (answer : Answer) : Prop where
  result : answer.ok ↔ answer.result.isSome
  error : answer.ok ↔ answer.error = none
  status : answer.ok ↔ status = 200

theorem coherent_success (result : String) : Coherent 200 (.success result) where
  result := ⟨fun _ ↦ rfl, fun _ ↦ rfl⟩
  error := ⟨fun _ ↦ rfl, fun _ ↦ rfl⟩
  status := ⟨fun _ ↦ rfl, fun _ ↦ rfl⟩

theorem coherent_failure {status : Nat} (message : String) (h : status ≠ 200) :
    Coherent status (.failure message) where
  result := ⟨nofun, nofun⟩
  error := ⟨nofun, nofun⟩
  status := ⟨nofun, fun hstatus ↦ absurd hstatus h⟩

/-- What is replied and printed for a text tells what comes of it. -/
structure Tells (settings : Settings) (text : String) (reply : Reply) (answer : Answer) : Prop where
  ok : reply.status = 200 ↔
    ∃ result, (Calculation.ofText text settings.limits).outcome = .ok result
  forbidden : reply.status = 403 ↔
    ∃ name, (Calculation.ofText text settings.limits).outcome =
      .error (.evaluation (.unknownName name))
  badRequest : reply.status = 400 ↔
    ∃ fault, (Calculation.ofText text settings.limits).outcome = .error fault ∧
      ∀ name, fault ≠ .evaluation (.unknownName name)
  /-- The command prints the body of the reply. -/
  printed : (Command.Action.eval text true).run settings =
    .done { code := if reply.status = 200 then 0 else 1, text := reply.body ++ "\n" }
  /-- Without its JSON, the command prints the same result, ... -/
  plain_result : ∀ result, answer.result = some result →
    (Command.Action.eval text false).run settings = .done { text := result ++ "\n" }
  /-- ... or the same message. -/
  plain_error : ∀ error, answer.error = some error →
    (Command.Action.eval text false).run settings =
      .done { code := 1, errors := "error: " ++ error ++ "\n" }

theorem ofKind_ne_ok (kind : FaultKind) : Status.ofKind kind ≠ 200 := by
  cases kind <;> decide

theorem ofKind_eq_forbidden_iff {fault : Fault} :
    Status.ofKind fault.kind = 403 ↔ ∃ name, fault = .evaluation (.unknownName name) := by
  rw [← Fault.kind_eq_forbidden_iff]
  cases fault.kind <;> decide

/-- The service is never at fault, so all other faults are those of the request. -/
theorem ofKind_eq_badRequest_iff {fault : Fault} (h : fault ≠ .evaluation .missingArgument) :
    Status.ofKind fault.kind = 400 ↔ ∀ name, fault ≠ .evaluation (.unknownName name) := by
  rw [Ne, ← Fault.kind_eq_internal_iff] at h
  rw [← not_exists, ← Fault.kind_eq_forbidden_iff]
  revert h
  cases fault.kind <;> decide

section

variable {settings : Settings} {result : Result} {fault : Fault}

theorem calculationReply_of_ok {limits : Limits} (hholds : Holds body text)
    (h : (Calculation.ofText text limits).outcome = .ok result) :
    calculationReply limits body = answerReply 200 (.success result.text) := by
  rw [calculationReply, hholds.expressionOf]
  simp only [Calculation.faultKind?, Calculation.answer, h]
  rfl

theorem calculationReply_of_error {limits : Limits} (hholds : Holds body text)
    (h : (Calculation.ofText text limits).outcome = .error fault) :
    calculationReply limits body =
      answerReply (Status.ofKind fault.kind) (.failure fault.message) := by
  rw [calculationReply, hholds.expressionOf]
  simp only [Calculation.faultKind?, Calculation.answer, h]
  rfl

theorem tells_of_ok (h : (Calculation.ofText text settings.limits).outcome = .ok result) :
    Tells settings text (answerReply 200 (.success result.text)) (.success result.text) where
  ok := ⟨fun _ ↦ ⟨result, h⟩, fun _ ↦ rfl⟩
  forbidden := by simp [h, answerReply]
  badRequest := by simp [h, answerReply]
  printed := by
    simp [Command.Action.run, Command.evalOutput, Calculation.isSuccess, Calculation.answer, h,
      answerReply, Command.Output.lines]
  plain_result := by
    rintro _ ⟨⟩
    simp [Command.Action.run, Command.evalOutput, h, Command.Output.lines]
  plain_error := nofun

theorem tells_of_error (h : (Calculation.ofText text settings.limits).outcome = .error fault) :
    Tells settings text (answerReply (Status.ofKind fault.kind) (.failure fault.message))
      (.failure fault.message) where
  ok := by simp [h, answerReply, ofKind_ne_ok]
  forbidden := by simp [h, answerReply, ofKind_eq_forbidden_iff]
  badRequest := by
    have hfault : fault ≠ .evaluation .missingArgument := by
      rintro rfl
      exact Calculation.outcome_ne_missingArgument _ _ h
    simp [h, answerReply, ofKind_eq_badRequest_iff hfault]
  printed := by
    simp [Command.Action.run, Command.evalOutput, Calculation.isSuccess, Calculation.answer, h,
      answerReply, Command.Output.lines, ofKind_ne_ok]
  plain_result := nofun
  plain_error := by
    rintro _ ⟨⟩
    simp [Command.Action.run, Command.evalOutput, h, Command.Output.failed]

end

/-- The service and the command give one verdict.  A body without an expression is a bad request
with a message of its own.  For the expression of any other body, the status tells what comes of
it, the command prints the very body of the reply and ends with zero exactly when the reply says
that all went well, and without JSON it prints the result or the message of the same answer. -/
theorem verdicts_agree (settings : Settings) (body : Option Value) :
    ∃ answer, Answer.ofText? (calculationReply settings.limits body).body = some answer ∧
      Coherent (calculationReply settings.limits body).status answer ∧
      ((calculationReply settings.limits body).status = 400 ∧
        answer.error = some "No expression provided" ↔ HoldsNone body) ∧
      (HoldsNone body ∨ ∃ text, Holds body text) ∧
      ∀ text, Holds body text →
        Tells settings text (calculationReply settings.limits body) answer := by
  rcases holdsNone_or_holds body with hnone | ⟨text, hholds⟩
  · have hreply : calculationReply settings.limits body =
        answerReply 400 (.failure noExpression) := by
      rw [calculationReply, hnone.expressionOf]
      rfl
    rw [hreply]
    refine ⟨_, Answer.ofText?_toText _, coherent_failure _ (by decide), ?_, .inl hnone, ?_⟩
    · exact ⟨fun _ ↦ hnone, fun _ ↦ ⟨rfl, rfl⟩⟩
    · exact fun text hholds ↦ absurd hholds hnone.not_holds
  · have hsome : ¬ HoldsNone body := fun hnone ↦ hnone.not_holds hholds
    cases houtcome : (Calculation.ofText text settings.limits).outcome with
    | ok result =>
      rw [calculationReply_of_ok hholds houtcome]
      refine ⟨_, Answer.ofText?_toText _, coherent_success _, ?_, .inr ⟨text, hholds⟩, ?_⟩
      · exact ⟨nofun, fun hnone ↦ absurd hnone hsome⟩
      · intro text' hholds'
        cases hholds.unique hholds'
        exact tells_of_ok houtcome
    | error fault =>
      rw [calculationReply_of_error hholds houtcome]
      refine ⟨_, Answer.ofText?_toText _, coherent_failure _ (ofKind_ne_ok _), ?_,
        .inr ⟨text, hholds⟩, ?_⟩
      · refine ⟨fun ⟨_, herror⟩ ↦ ?_, fun hnone ↦ absurd hnone hsome⟩
        exact absurd (Option.some.inj herror) (message_ne_noExpression fault)
      · intro text' hholds'
        cases hholds.unique hholds'
        exact tells_of_error houtcome

def sevenBody : Option Value := some (.object [("expr", .number (.integer 7))])

def importBody : Option Value := some (.object [("expr", .string "2 + import")])

def emptyBody : Option Value := some (.object [])

theorem verdicts_agree_on_bodies :
    (∃ answer, Answer.ofText? (calculationReply {} sevenBody).body = some answer ∧
      Holds sevenBody "7" ∧ Tells {} "7" (calculationReply {} sevenBody) answer) ∧
    (∃ answer, Answer.ofText? (calculationReply {} importBody).body = some answer ∧
      Holds importBody "2 + import" ∧ (calculationReply {} importBody).status = 403 ∧
      answer.ok = false ∧ Tells {} "2 + import" (calculationReply {} importBody) answer) ∧
    ∃ answer, Answer.ofText? (calculationReply {} emptyBody).body = some answer ∧
      HoldsNone emptyBody ∧ (calculationReply {} emptyBody).status = 400 ∧
      answer.error = some "No expression provided" ∧ answer.result = none := by
  have hseven : Holds sevenBody "7" :=
    .number (@Value.HasMember.last [] [] _ (.number (.integer 7)) fun _ ↦ List.not_mem_nil)
  have himport : Holds importBody "2 + import" :=
    .string (@Value.HasMember.last [] [] _ _ fun _ ↦ List.not_mem_nil)
  have hempty : HoldsNone emptyBody := .absent fun _ ↦ List.not_mem_nil
  have hunknown : (Calculation.ofText "2 + import" {}).outcome =
      .error (.evaluation (.unknownName "import")) := by decide +kernel
  refine ⟨?_, ?_, ?_⟩
  · obtain ⟨answer, hanswer, -, -, -, htells⟩ := verdicts_agree {} sevenBody
    exact ⟨answer, hanswer, hseven, htells _ hseven⟩
  · obtain ⟨answer, hanswer, hcoherent, -, -, htells⟩ := verdicts_agree {} importBody
    have htells := htells _ himport
    have hstatus : (calculationReply {} importBody).status = 403 :=
      htells.forbidden.mpr ⟨"import", hunknown⟩
    have hok : ¬ answer.ok := by
      intro hok
      have hstatus' := hcoherent.status.mp hok
      rw [hstatus] at hstatus'
      cases hstatus'
    exact ⟨answer, hanswer, himport, hstatus, Bool.eq_false_iff.mpr hok, htells⟩
  · obtain ⟨answer, hanswer, hcoherent, hnone, -, -⟩ := verdicts_agree {} emptyBody
    obtain ⟨hstatus, herror⟩ := hnone.mpr hempty
    have hresult : ¬ answer.result.isSome := by
      rw [← hcoherent.result, hcoherent.error, herror]
      exact Option.some_ne_none _
    exact ⟨answer, hanswer, hempty, hstatus, herror, Option.not_isSome_iff_eq_none.mp hresult⟩

end Web

end Reckoner
