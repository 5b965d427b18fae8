import Parlance.Proofs.Builtin.Reading
import Parlance.Proofs.Builtin.Stopping

/-! What was read up to some place is read again before anything that begins there as before, or with
a semicolon. No more than the first item matters, as it is known of it that it did not go on with what
was read. A test is read again before anything at all, since it is closed. -/

namespace Parlance.Builtin

open Derives

variable {sugar : Bool} {input after tail : List Item} {value : Tree} {values : List Tree}

/-- What is left begins as before, or with a semicolon. -/
inductive Resumes : List Item → List Item → Prop where
  | nothing : Resumes [] []
  | alike (item : Item) (rest other : List Item) : Resumes (item :: rest) (item :: other)
  | semicolon {item : Item} (closes : item.token.kind? = some ";") (before rest : List Item) :
      Resumes before (item :: rest)

theorem Resumes.lacks {kinds : List String} (resumes : Resumes after tail) (other : ";" ∉ kinds)
    (lacks : Lacks (peg sugar) kinds after) : Lacks (peg sugar) kinds tail := by
  cases resumes with
  | nothing => exact lacks
  | alike item rest other => exact fun first here => lacks first here
  | semicolon closes => exact lacks_of_kind closes other

/-- What the rule read up to the rest it reads again before all that resumes. -/
def Kept (sugar : Bool) (rule : String) (value : Tree) (input after : List Item) : Prop :=
  ∃ read, input = read ++ after ∧ ∀ tail, Resumes after tail →
    Derives (peg sugar) (.pattern (.rule rule)) (read ++ tail) (some (value, tail))

theorem assignment_kept
    (derives : Derives (peg sugar) (.pattern (.rule "AssignmentExpression")) input
      (some (value, after)))
    (stops : Lacks (peg sugar) goesOnAny after) :
    Kept sugar "AssignmentExpression" value input after := by
  obtain ⟨tokens, construed, takes, -⟩ := assignment_sound _ _ _ _ (Nat.lt_succ_self _) derives
  obtain ⟨read, rfl, rfl⟩ := takes
  have spells : Spells (peg sugar) read (read.map (peg sugar).token) :=
    (List.filter_eq_self.mpr construed.hard).symm
  have accepts : Accepts (peg sugar) .assignment value _ := construed.accepts
  exact ⟨read, rfl, fun tail resumes =>
    accepts read tail spells (resumes.lacks (by decide) stops)⟩

theorem expression_kept
    (derives : Derives (peg sugar) (.pattern (.rule "Expression")) input (some (value, after)))
    (stops : Lacks (peg sugar) goesOnAny after) : Kept sugar "Expression" value input after := by
  obtain ⟨read, rfl, kept⟩ := assignment_kept (expression_some derives) stops
  refine ⟨read, rfl, fun tail resumes => ?_⟩
  rw [expression_iff, onlyAlternative_iff]
  exact kept tail resumes

theorem identifier_kept
    (derives : Derives (peg sugar) (.pattern (.rule "Identifier")) input (some (value, after))) :
    ∃ item, input = item :: after ∧ ∀ tail,
      Derives (peg sugar) (.pattern (.rule "Identifier")) (item :: tail) (some (value, tail)) := by
  rw [identifier_iff, onlyAlternative_iff] at derives
  obtain ⟨inner, matched, rfl⟩ := filter_some.mp derives
  obtain ⟨item, rfl, fits, rfl⟩ := token_some.mp matched
  refine ⟨item, rfl, fun tail => ?_⟩
  rw [identifier_iff, onlyAlternative_iff]
  exact .filter (.token fits)

structure DeclaratorEnds (sugar : Bool) (after : List Item) : Prop where
  equals : Lacks (peg sugar) ["="] after
  expression : ∀ {input value},
    Derives (peg sugar) (.pattern (.rule "AssignmentExpression")) input (some (value, after)) →
    Lacks (peg sugar) goesOnAny after

theorem Meets.declaratorEnds (meets : Meets sugar after) : DeclaratorEnds sugar after :=
  ⟨meets.lacks (by decide), meets.lacks_goesOn⟩

theorem declaratorEnds_of_comma {item : Item} (fits : item.token.kind? = some ",") (rest : List Item) :
    DeclaratorEnds sugar (item :: rest) :=
  ⟨lacks_of_kind fits (by decide), fun _ => lacks_of_kind fits (by decide)⟩

theorem declarator_kept
    (derives : Derives (peg sugar) (.pattern (.rule "VariableDeclarator")) input
      (some (value, after)))
    (stops : DeclaratorEnds sugar after) : Kept sugar "VariableDeclarator" value input after := by
  cases declarator_dissected derives with
  | bare names lacks =>
      obtain ⟨item, rfl, kept⟩ := identifier_kept names
      refine ⟨[item], rfl, fun tail resumes => DissectedDeclarator.derives (.bare (kept tail) ?_)⟩
      exact .noSequence (ignoredToken_none (resumes.lacks (by decide) stops.equals))
  | initialized names equals source =>
      obtain ⟨item, rfl, kept⟩ := identifier_kept names
      obtain ⟨read, rfl, keptSource⟩ := assignment_kept source (stops.expression source)
      exact ⟨item :: _ :: read, rfl, fun tail resumes => DissectedDeclarator.derives
        (.initialized (kept _) equals (keptSource tail resumes))⟩

/-- Before a comma there is a declarator that it does not go on with, so all of them are kept if the
last one is. -/
theorem declarators_kept
    (laps : Laps (peg sugar) (.rule "VariableDeclarator") (.ignoredToken ",") input values after)
    (stops : DeclaratorEnds sugar after) :
    DeclaratorEnds sugar input ∧ ∃ read, input = read ++ after ∧ ∀ tail, Resumes after tail →
      Resumes input (read ++ tail) ∧
        Laps (peg sugar) (.rule "VariableDeclarator") (.ignoredToken ",") (read ++ tail) values
          tail := by
  induction laps with
  | done => exact ⟨stops, [], rfl, fun tail resumes => ⟨resumes, .done⟩⟩
  | lap parted again moved _ ih =>
      obtain ⟨stopsNext, later, rfl, keptLater⟩ := ih stops
      obtain ⟨-, text, parted⟩ := ignore_some.mp parted
      obtain ⟨item, rfl, fits, -⟩ := token_some.mp parted
      obtain ⟨read, rfl, kept⟩ := declarator_kept again stopsNext
      refine ⟨declaratorEnds_of_comma fits _, item :: (read ++ later), by simp, fun tail resumes => ?_⟩
      obtain ⟨resumesLater, laps⟩ := keptLater tail resumes
      have moved : later ++ tail ≠ item :: (read ++ (later ++ tail)) :=
        ne_append (List.cons_ne_nil item read) _
      rw [List.cons_append, List.append_assoc]
      exact ⟨.alike .., .lap (.ignore (.token fits)) (kept _ resumesLater) moved laps⟩

theorem Clause.kept (clause : Clause sugar value input after) (meets : Meets sugar after) :
    ∃ read, input = read ++ after ∧ ∀ tail, Resumes after tail →
      Clause sugar value (read ++ tail) tail := by
  cases clause with
  | @declaration item _ _ _ _ _ _ isKind fits begins more =>
      obtain ⟨stops, later, rfl, keptLater⟩ :=
        declarators_kept (rounds_some rfl rfl more) meets.declaratorEnds
      obtain ⟨read, rfl, kept⟩ := declarator_kept begins stops
      refine ⟨item :: (read ++ later), by simp, fun tail resumes => ?_⟩
      obtain ⟨resumesLater, laps⟩ := keptLater tail resumes
      have none : Lacks (peg sugar) [","] after := meets.lacks (by decide)
      have comma : Lacks (peg sugar) [","] tail := resumes.lacks (by decide) none
      rw [List.cons_append, List.append_assoc]
      exact .declaration isKind fits (kept _ resumesLater)
        (laps.rounds rfl rfl (.inl (.noIgnore (token_none comma))))
  | @returning item _ words lacks =>
      refine ⟨[item], rfl, fun tail resumes => .returning words (expression_fails ?_)⟩
      exact resumes.lacks (by decide) (meets.lacks_expression lacks)
  | @returningValue _ item _ _ words given =>
      obtain ⟨read, rfl, kept⟩ := expression_kept given (meets.lacks_goesOn (expression_some given))
      exact ⟨item :: read, rfl, fun tail resumes => .returningValue words (kept tail resumes)⟩
  | expression given =>
      obtain ⟨read, rfl, kept⟩ := expression_kept given (meets.lacks_goesOn (expression_some given))
      exact ⟨read, rfl, fun tail resumes => .expression (kept tail resumes)⟩

theorem Clause.resumed {read : List Item} (clause : Clause sugar value (read ++ after) after)
    (meets : Meets sugar after) (resumes : Resumes after tail) :
    Clause sugar value (read ++ tail) tail := by
  obtain ⟨other, same, kept⟩ := clause.kept meets
  rw [List.append_cancel_right same]
  exact kept tail resumes

theorem Headed.resumed {word : String} {test : Tree} {read : List Item}
    (headed : Headed sugar word test (read ++ after) after) (tail : List Item) :
    Headed sugar word test (read ++ tail) tail := by
  generalize same : read ++ after = input at headed
  cases headed with
  | @intro first second last _ _ words opens tested closes =>
      obtain ⟨inner, rfl, kept⟩ := expression_kept tested (lacks_of_kind closes (by decide))
      have whole : read = first :: second :: (inner ++ [last]) :=
        List.append_cancel_right (same.trans (by simp))
      rw [whole, List.cons_append, List.cons_append, List.append_assoc]
      exact .intro words opens (kept (last :: tail) (.alike ..)) closes

end Parlance.Builtin
