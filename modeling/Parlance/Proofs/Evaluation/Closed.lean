import Parlance.Proofs.Evaluation.Lockstep

/-! Evaluation of patterns that refer to no rule that is missing. They break nowhere but in a script
that raises a fault itself. The rules of a valid grammar are such patterns, also once they are
normalized, provided that their scripts run no rules but those met among their parts. -/

namespace Parlance

open Index (get?)

variable {known : String → Prop} {faults : DefinitionFault → Prop}

/-- Runs only rules that are known, and raises only faults that are listed. -/
def Script.Confined (known : String → Prop) (faults : DefinitionFault → Prop) : Script → Prop
  | .yield _ | .mismatch => True
  | .abandon fault => faults fault
  | .peek next => ∀ token, (next token).Confined known faults
  | .ether next => ∀ tokens, (next tokens).Confined known faults
  | .cursor next => ∀ position, (next position).Confined known faults
  | .advance next | .rewind _ next => next.Confined known faults
  | .rule name next => known name ∧ ∀ answer, (next answer).Confined known faults
  | .part _ next => ∀ answer, (next answer).Confined known faults

theorem Script.Confined.mono {script : Script} {wider : String → Prop}
    (confined : script.Confined known faults) (widens : ∀ name, known name → wider name) :
    script.Confined wider faults := by
  induction script with
  | yield | mismatch => trivial
  | abandon => exact confined
  | peek _ ih | ether _ ih | cursor _ ih | part _ _ ih => exact fun answer => ih _ (confined answer)
  | advance _ ih | rewind _ _ ih => exact ih confined
  | rule name _ ih => exact ⟨widens name confined.1, fun answer => ih _ (confined.2 answer)⟩

/-- Refers only to rules that are known, in its scripts as well. -/
structure Pattern.Closed (known : String → Prop) (faults : DefinitionFault → Prop)
    (pattern : Pattern) : Prop where
  rules : ∀ name ∈ pattern.ruleNames, known name
  readers : pattern.ReadBy fun reader => reader.script.Confined known faults

namespace Pattern.Closed

theorem of_subset {whole part : Pattern} (closed : whole.Closed known faults)
    (within : part.walk ⊆ whole.walk) : part.Closed known faults where
  rules _ member := closed.rules _ (ruleNames_subset within member)
  readers := closed.readers.of_subset within

theorem of_mem {whole part : Pattern} {parts : List Pattern} (closed : whole.Closed known faults)
    (below : parts.flatMap Pattern.walk ⊆ whole.walk) (member : part ∈ parts) :
    part.Closed known faults :=
  closed.of_subset fun _ met => below (List.mem_flatMap.mpr ⟨part, member, met⟩)

theorem empty : Pattern.empty.Closed known faults where
  rules := by simp [ruleNames, walk]
  readers := .of_empty

theorem rule {name : String} (here : known name) : (Pattern.rule name).Closed known faults where
  rules := by simpa [ruleNames, walk] using here
  readers := .of_rule

theorem terms {terms : List Pattern} (closed : (Pattern.sequence terms).Closed known faults) :
    ∀ term ∈ terms, term.Closed known faults :=
  fun _ member => closed.of_mem (by simp [walk_sequence]) member

theorem alternatives {alternatives : List Pattern}
    (closed : (Pattern.choice alternatives).Closed known faults) :
    ∀ alternative ∈ alternatives, alternative.Closed known faults :=
  fun _ member => closed.of_mem (by simp [walk_choice]) member

theorem repetition {body : Pattern} {separator : Option Pattern} {allowEmpty : Bool}
    (closed : (Pattern.repetition body separator allowEmpty).Closed known faults) :
    body.Closed known faults ∧ (separator.getD .empty).Closed known faults := by
  refine ⟨closed.of_subset (by simp [walk_repetition]), ?_⟩
  cases separator with
  | none => exact .empty
  | some separator => exact closed.of_subset (by simp [walk_repetition])

theorem ignored {term : Pattern} (closed : (Pattern.ignore term).Closed known faults) :
    term.Closed known faults := closed.of_subset (by simp [walk])

theorem filtered {term : Pattern} {action : Action} {arity : Option Nat}
    (closed : (Pattern.filter term action arity).Closed known faults) : term.Closed known faults :=
  closed.of_subset (by simp [walk])

theorem parts {reader : Reader} {parts : List Pattern}
    (closed : (Pattern.custom reader parts).Closed known faults) :
    ∀ part ∈ parts, part.Closed known faults :=
  fun _ member => closed.of_mem (by simp [walk_custom]) member

theorem normalize {pattern : Pattern} (closed : pattern.Closed known faults) :
    pattern.normalize.Closed known faults where
  rules name member := closed.rules name ((referAlike_normalize pattern).ruleNames name |>.mp member)
  readers := closed.readers.normalize fun _ confined => confined

end Pattern.Closed

def Task.Closed (known : String → Prop) (faults : DefinitionFault → Prop) : Task → Prop
  | .pattern whole => whole.Closed known faults
  | .terms rest _ => ∀ term ∈ rest, term.Closed known faults
  | .alternatives rest => ∀ alternative ∈ rest, alternative.Closed known faults
  | .rounds body separator _ =>
      body.Closed known faults ∧ (separator.getD .empty).Closed known faults
  | .script parts requests =>
      requests.Confined known faults ∧ ∀ part ∈ parts, part.Closed known faults

structure ParseContext.Closed (context : ParseContext) (known : String → Prop)
    (faults : DefinitionFault → Prop) : Prop where
  present : ∀ name, known name → ∃ body, get? name context.rules = some body
  bodies : ∀ name body, get? name context.rules = some body → body.Closed known faults

def Outcome.BreaksIn (faults : DefinitionFault → Prop) (outcome : Outcome) : Prop :=
  ∀ fault, outcome = .broken fault → faults fault

theorem Outcome.BreaksIn.mapValue {outcome : Outcome} (breaks : outcome.BreaksIn faults)
    (change : Tree → Tree) : (outcome.mapValue change).BreaksIn faults := by
  cases outcome with
  | matched | mismatch => nofun
  | broken fault => exact breaks

theorem Evaluates.breaksIn {context : ParseContext} (present : context.Closed known faults)
    {task : Task} {state after : ParseState} {outcome : Outcome}
    (evaluates : Evaluates context task state outcome after) (closed : task.Closed known faults) :
    outcome.BreaksIn faults := by
  induction evaluates with
  | @token kind _ state =>
      unfold ParseContext.matchKind
      split
      · split <;> nofun
      · nofun
  | @missing name _ absent =>
      obtain ⟨body, found⟩ := present.present name (closed.rules name List.mem_cons_self)
      cases absent.symm.trans found
  | tooDeep | noneFound | oneMissing | empty | noTerms | termFails | noAlternatives | decided
  | idleRound | lastBody | lastSeparator | yield | refuse => nofun
  | rule found _ _ ih => exact ih (present.bodies _ _ found)
  | sequence _ ih => exact ih closed.terms
  | choice _ ih => exact ih closed.alternatives
  | begun _ _ _ ihRounds => exact ihRounds closed.repetition
  | firstBroken _ ih => exact ih closed.repetition.1
  | ignore _ ih => exact (ih closed.ignored).mapValue _
  | filter _ ih => exact (ih closed.filtered).mapValue _
  | custom _ ih => exact ih ⟨closed.readers.reader, closed.parts⟩
  | nextTerm _ _ _ ihRest => exact ihRest fun term member => closed term (by simp [member])
  | termBroken _ ih | alternativeBroken _ ih => exact ih (closed _ List.mem_cons_self)
  | nextAlternative _ _ _ ihRest => exact ihRest fun term member => closed term (by simp [member])
  | nextRound _ _ _ _ _ _ ihRounds => exact ihRounds closed
  | bodyBroken _ _ _ ihAgain => exact ihAgain closed.1
  | separatorBroken _ ih => exact ih closed.2
  | @abandon _ raised => rintro fault ⟨⟩; exact closed.1
  | peek _ ih | ether _ ih | cursor _ ih => exact ih ⟨closed.1 _, closed.2⟩
  | advance _ ih | rewind _ ih => exact ih closed
  | askRule _ _ _ _ ihRest => exact ihRest ⟨closed.1.2 _, closed.2⟩
  | askRuleBroken _ ih => exact ih (.rule closed.1.1)
  | askPart _ _ _ _ _ ihRest => exact ihRest ⟨closed.1 _, closed.2⟩
  | askPartBroken here _ ih => exact ih (closed.2 _ (List.mem_of_getElem? here))
  | askNoPart _ _ ih => exact ih ⟨closed.1 none, closed.2⟩

/-- The custom patterns run no rules but those that a walk through their parts meets, and raise only
faults that are listed. -/
def Grammar.Exposes (faults : DefinitionFault → Prop) (grammar : Grammar) : Prop :=
  ∀ name body, get? name grammar.raw = some body → ∀ reader parts, .custom reader parts ∈ body.walk →
    reader.script.Confined (· ∈ parts.flatMap Pattern.ruleNames) faults

namespace Grammar

variable {grammar : Grammar}

theorem validate_eq_ok_iff : grammar.validate = .ok () ↔
    ∀ entry ∈ grammar.raw, ∀ name ∈ entry.2.ruleNames, grammar.hasRule name = true := by
  have whole : grammar.validate = .ok () ↔ grammar.dangling? = none := by
    unfold validate
    cases grammar.dangling? <;> simp
  rw [whole, dangling?, List.find?_eq_none]
  simp only [List.mem_flatMap, Bool.not_eq_true', Bool.not_eq_false]
  exact ⟨fun all entry listed name met => all name ⟨entry, listed, met⟩,
    fun all name ⟨entry, listed, met⟩ => all entry listed name met⟩

theorem closed_of_valid (valid : grammar.validate = .ok ()) (exposes : grammar.Exposes faults)
    {name : String} {body : Pattern} (found : get? name grammar.raw = some body) :
    body.Closed (grammar.hasRule · = true) faults where
  rules := validate_eq_ok_iff.mp valid _ (Index.mem_of_get? found)
  readers reader parts member := by
    refine (exposes name body found reader parts member).mono fun called among => ?_
    -- The rules among the parts are met on the walk through the whole body.
    obtain ⟨part, listed, met⟩ := List.mem_flatMap.mp among
    have within : part.walk ⊆ body.walk := by
      refine List.Subset.trans (fun inner here => ?_) (Pattern.walk_subset_of_mem member)
      rw [Pattern.walk_custom]
      exact List.mem_cons_of_mem _ (List.mem_flatMap.mpr ⟨part, listed, here⟩)
    exact validate_eq_ok_iff.mp valid _ (Index.mem_of_get? found) called
      (Pattern.ruleNames_subset within met)

end Grammar

theorem Parser.ComesTo.breaksIn {parser : Parser} (valid : parser.grammar.validate = .ok ())
    (exposes : parser.grammar.Exposes faults) {start : String}
    (starts : parser.grammar.hasRule start = true) {tokens : List Token} {origin : Option String}
    {traced : Bool} {fault : DefinitionFault}
    (ends : parser.ComesTo start tokens origin traced (.broken fault)) : faults fault := by
  have closed : (parser.context tokens).Closed (parser.grammar.hasRule · = true) faults := by
    constructor
    · intro name known
      obtain ⟨body, found⟩ := Option.isSome_iff_exists.mp known
      exact ⟨body.normalize, (Grammar.get?_normalized _ _).trans (by rw [found]; rfl)⟩
    · intro name body found
      obtain ⟨raw, listed, rfl⟩ := Grammar.raw_of_normalized found
      exact (Grammar.closed_of_valid valid exposes listed).normalize
  obtain ⟨outcome, after, evaluates, same⟩ := Parser.comesTo_iff.mp ends
  have breaks := evaluates.breaksIn closed (.rule starts)
  cases outcome with
  | broken raised =>
      cases same
      exact breaks fault rfl
  | matched | mismatch => cases same

end Parlance
