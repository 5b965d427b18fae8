import Parlance.Proofs.Peg.Relation

/-! What a match is made of: for each form of a pattern, the matches of its parts. -/

namespace Parlance.Derives

open ParseContext (used gather)

variable {α : Type} {peg : Peg α} {input rest : List α} {value : Tree} {values : List Tree}
  {result : Option (Tree × List α)}

theorem rule_iff {name : String} {productions : List Production}
    (found : Index.get? name peg.rules = some productions) :
    Derives peg (.pattern (.rule name)) input result ↔
      Derives peg (.alternatives (productions.map Production.expression)) input result := by
  constructor
  · intro derives
    cases derives with
    | rule foundToo derives =>
        cases found.symm.trans foundToo
        cases derives with | choice derives => exact derives
  · exact fun derives => .rule found (.choice derives)

theorem choice_iff {alternatives : List Pattern} :
    Derives peg (.pattern (.choice alternatives)) input result ↔
      Derives peg (.alternatives alternatives) input result :=
  ⟨fun derives => by cases derives with | choice derives => exact derives, .choice⟩

theorem custom_iff {reader : Reader} {parts : List Pattern} :
    Derives peg (.pattern (.custom reader parts)) input result ↔ peg.reads reader input = result :=
  ⟨fun derives => by cases derives with | custom reads => exact reads, .custom⟩

theorem token_some {kind : String} {role : Option Role} :
    Derives peg (.pattern (.token kind role)) input (some (value, rest)) ↔
      ∃ item, input = item :: rest ∧ (peg.token item).kind? = some kind ∧
        value = .text (peg.token item).text := by
  constructor
  · intro derives
    cases derives with | token fits => exact ⟨_, rfl, fits, rfl⟩
  · rintro ⟨item, rfl, fits, rfl⟩
    exact .token fits

theorem sequence_some {terms : List Pattern} :
    Derives peg (.pattern (.sequence terms)) input (some (value, rest)) ↔
      ∃ values, Derives peg (.terms terms) input (some (.list values, rest)) ∧
        value = gather values := by
  constructor
  · intro derives
    cases derives with | sequence derives => exact ⟨_, derives, rfl⟩
  · rintro ⟨values, derives, rfl⟩
    exact .sequence derives

theorem noTerms_some :
    Derives peg (.terms []) input (some (.list values, rest)) ↔ values = [] ∧ rest = input := by
  constructor
  · intro derives
    cases derives
    exact ⟨rfl, rfl⟩
  · rintro ⟨rfl, rfl⟩
    exact .noTerms

theorem nextTerm_some {term : Pattern} {terms : List Pattern} :
    Derives peg (.terms (term :: terms)) input (some (.list values, rest)) ↔
      ∃ value middle more, Derives peg (.pattern term) input (some (value, middle)) ∧
        Derives peg (.terms terms) middle (some (.list more, rest)) ∧
        values = used term value ++ more := by
  constructor
  · intro derives
    cases derives with | nextTerm first more => exact ⟨_, _, _, first, more, rfl⟩
  · rintro ⟨value, middle, more, first, derives, rfl⟩
    exact .nextTerm first derives

theorem usedTerm_some {term : Pattern} {terms : List Pattern} (uses : term.usesValue = true) :
    Derives peg (.terms (term :: terms)) input (some (.list values, rest)) ↔
      ∃ value middle more, Derives peg (.pattern term) input (some (value, middle)) ∧
        Derives peg (.terms terms) middle (some (.list more, rest)) ∧ values = value :: more := by
  rw [nextTerm_some]
  simp only [used, uses, if_true, List.singleton_append]

theorem ignoredToken_some {kind : String} {role : Option Role} {terms : List Pattern} :
    Derives peg (.terms (.ignore (.token kind role) :: terms)) input (some (.list values, rest)) ↔
      ∃ item middle, input = item :: middle ∧ (peg.token item).kind? = some kind ∧
        Derives peg (.terms terms) middle (some (.list values, rest)) := by
  constructor
  · intro derives
    cases derives with
    | nextTerm first more =>
        cases first with
        | ignore derives =>
            obtain ⟨item, rfl, fits, -⟩ := token_some.mp derives
            exact ⟨item, _, rfl, fits, more⟩
  · rintro ⟨item, middle, rfl, fits, more⟩
    exact .nextTerm (.ignore (.token fits)) more

theorem nextAlternative_some {alternative : Pattern} {alternatives : List Pattern} :
    Derives peg (.alternatives (alternative :: alternatives)) input (some (value, rest)) ↔
      Derives peg (.pattern alternative) input (some (value, rest)) ∨
        Derives peg (.pattern alternative) input none ∧
          Derives peg (.alternatives alternatives) input (some (value, rest)) := by
  constructor
  · intro derives
    cases derives with
    | decided derives => exact .inl derives
    | nextAlternative fails more => exact .inr ⟨fails, more⟩
  · rintro (derives | ⟨fails, more⟩)
    · exact .decided derives
    · exact .nextAlternative fails more

theorem otherAlternatives_some {alternative : Pattern} {alternatives : List Pattern}
    (fails : Derives peg (.pattern alternative) input none)
    (derives : Derives peg (.alternatives (alternative :: alternatives)) input (some (value, rest))) :
    Derives peg (.alternatives alternatives) input (some (value, rest)) := by
  rcases nextAlternative_some.mp derives with matched | ⟨-, derives⟩
  · cases fails.unique matched
  · exact derives

theorem noAlternatives_some :
    ¬ Derives peg (.alternatives []) input (some (value, rest)) := nofun

theorem onlyAlternative_iff {alternative : Pattern} :
    Derives peg (.alternatives [alternative]) input result ↔
      Derives peg (.pattern alternative) input result := by
  constructor
  · intro derives
    cases derives with
    | decided derives => exact derives
    | nextAlternative fails more => cases more; exact fails
  · intro derives
    match result, derives with
    | some _, derives => exact .decided derives
    | none, fails => exact .nextAlternative fails .noAlternatives

theorem ignore_some {term : Pattern} :
    Derives peg (.pattern (.ignore term)) input (some (value, rest)) ↔
      value = .null ∧ ∃ inner, Derives peg (.pattern term) input (some (inner, rest)) := by
  constructor
  · intro derives
    cases derives with | ignore derives => exact ⟨rfl, _, derives⟩
  · rintro ⟨rfl, inner, derives⟩
    exact .ignore derives

theorem filter_some {term : Pattern} {action : Action} {arity : Option Nat} :
    Derives peg (.pattern (.filter term action arity)) input (some (value, rest)) ↔
      ∃ inner, Derives peg (.pattern term) input (some (inner, rest)) ∧
        value = action.invoke (arity.getD term.arity) inner := by
  constructor
  · intro derives
    cases derives with | filter derives => exact ⟨_, derives, rfl⟩
  · rintro ⟨inner, derives, rfl⟩
    exact .filter derives

theorem empty_some :
    Derives peg (.pattern .empty) input (some (value, rest)) ↔ value = .null ∧ rest = input := by
  constructor
  · intro derives
    cases derives
    exact ⟨rfl, rfl⟩
  · rintro ⟨rfl, rfl⟩
    exact .empty

theorem option_some {identity : Nat} {term : Pattern} :
    Derives peg (.pattern (.option identity term)) input (some (value, rest)) ↔
      Derives peg (.pattern term) input (some (value, rest)) ∨
        Derives peg (.pattern term) input none ∧ value = .null ∧ rest = input := by
  unfold Pattern.option Pattern.value
  rw [choice_iff, nextAlternative_some, nextAlternative_some, filter_some]
  constructor
  · rintro (derives | ⟨fails, ⟨inner, derives, rfl⟩ | ⟨-, none⟩⟩)
    · exact .inl derives
    · obtain ⟨rfl, rfl⟩ := empty_some.mp derives
      exact .inr ⟨fails, rfl, rfl⟩
    · exact absurd none noAlternatives_some
  · rintro (derives | ⟨fails, rfl, rfl⟩)
    · exact .inl derives
    · exact .inr ⟨fails, .inl ⟨.null, .empty, rfl⟩⟩

theorem repetition_some {body : Pattern} {separator : Option Pattern} {allowEmpty : Bool} :
    Derives peg (.pattern (.repetition body separator allowEmpty)) input (some (value, rest)) ↔
      (∃ first middle values, Derives peg (.pattern body) input (some (first, middle)) ∧
        Derives peg (.rounds body separator) middle (some (.list values, rest)) ∧
        value = .list (used body first ++ values)) ∨
      allowEmpty = true ∧ Derives peg (.pattern body) input none ∧ value = .list [] ∧
        rest = input := by
  constructor
  · intro derives
    cases derives with
    | repetition first more => exact .inl ⟨_, _, _, first, more, rfl⟩
    | noneFound fails => exact .inr ⟨rfl, fails, rfl, rfl⟩
  · rintro (⟨first, middle, values, derives, more, rfl⟩ | ⟨rfl, fails, rfl, rfl⟩)
    · exact .repetition derives more
    · exact .noneFound fails

def Lacks (peg : Peg α) (kinds : List String) (input : List α) : Prop :=
  ∀ item ∈ input.head?, ∀ kind ∈ kinds, (peg.token item).kind? ≠ some kind

theorem lacks_nil (peg : Peg α) (kinds : List String) : Lacks peg kinds [] :=
  fun _ none => absurd none (Option.not_mem_none _)

theorem Lacks.mono {kinds more : List String} (lacks : Lacks peg more input)
    (sub : ∀ kind ∈ kinds, kind ∈ more) : Lacks peg kinds input :=
  fun item first kind member => lacks item first kind (sub kind member)

theorem token_none {kind : String} {role : Option Role} (lacks : Lacks peg [kind] input) :
    Derives peg (.pattern (.token kind role)) input none := by
  cases input with
  | nil => exact .noToken
  | cons item rest => exact .otherToken (lacks item rfl kind (List.mem_singleton_self kind))

theorem ignoredToken_none {kind : String} {role : Option Role} {terms : List Pattern}
    (lacks : Lacks peg [kind] input) :
    Derives peg (.terms (.ignore (.token kind role) :: terms)) input none :=
  .termFails (.noIgnore (token_none lacks))

variable {role : Option Role} {kinds : List String}

theorem tokenChoice_some (derives : Derives peg
      (.pattern (.choice (kinds.map fun kind => .token kind role))) input (some (value, rest))) :
    ∃ item kind, input = item :: rest ∧ kind ∈ kinds ∧ (peg.token item).kind? = some kind ∧
      value = .text (peg.token item).text := by
  rw [choice_iff] at derives
  induction kinds with
  | nil => exact absurd derives noAlternatives_some
  | cons kind kinds ih =>
      rcases nextAlternative_some.mp derives with derives | ⟨-, derives⟩
      · obtain ⟨item, same, fits, text⟩ := token_some.mp derives
        exact ⟨item, kind, same, List.mem_cons_self .., fits, text⟩
      · obtain ⟨item, other, same, member, fits, text⟩ := ih derives
        exact ⟨item, other, same, List.mem_cons_of_mem _ member, fits, text⟩

theorem tokenChoice {item : α} {kind : String} (member : kind ∈ kinds)
    (fits : (peg.token item).kind? = some kind) (rest : List α) :
    Derives peg (.pattern (.choice (kinds.map fun kind => .token kind role))) (item :: rest)
      (some (.text (peg.token item).text, rest)) := by
  refine .choice ?_
  induction kinds with
  | nil => cases member
  | cons other kinds ih =>
      by_cases same : kind = other
      · exact .decided (.token (same ▸ fits))
      · have differs : (peg.token item).kind? ≠ some other := by
          rw [fits]
          exact fun equal => same (Option.some.inj equal)
        exact .nextAlternative (.otherToken differs)
          (ih ((List.mem_cons.mp member).resolve_left same))

theorem tokenChoice_none (lacks : Lacks peg kinds input) :
    Derives peg (.pattern (.choice (kinds.map fun kind => .token kind role))) input none := by
  refine .choice ?_
  induction kinds with
  | nil => exact .noAlternatives
  | cons kind kinds ih =>
      have here : Lacks peg [kind] input := lacks.mono (by simp)
      have later : Lacks peg kinds input := lacks.mono fun _ => List.mem_cons_of_mem _
      exact .nextAlternative (token_none here) (ih later)

theorem ruleChoice_some {names : List String}
    (derives : Derives peg (.alternatives (names.map .rule)) input (some (value, rest))) :
    ∃ name ∈ names, Derives peg (.pattern (.rule name)) input (some (value, rest)) := by
  induction names with
  | nil => exact absurd derives noAlternatives_some
  | cons name names ih =>
      rcases nextAlternative_some.mp derives with derives | ⟨-, derives⟩
      · exact ⟨name, List.mem_cons_self .., derives⟩
      · obtain ⟨other, member, derives⟩ := ih derives
        exact ⟨other, List.mem_cons_of_mem _ member, derives⟩

/-- Rounds of a repetition, each with its separator before it; it is left open what ends them. -/
inductive Laps (peg : Peg α) (body separator : Pattern) : List α → List Tree → List α → Prop where
  | done {input : List α} : Laps peg body separator input [] input
  | lap {input middle next rest : List α} {between value : Tree} {values : List Tree}
      (parted : Derives peg (.pattern separator) input (some (between, middle)))
      (again : Derives peg (.pattern body) middle (some (value, next))) (moved : next ≠ input)
      (more : Laps peg body separator next values rest) :
      Laps peg body separator input (value :: values) rest

variable {body : Pattern} {separator : Option Pattern}

theorem Laps.append {separator : Pattern} {middle : List α} {more : List Tree}
    (laps : Laps peg body separator input values middle)
    (lapsToo : Laps peg body separator middle more rest) :
    Laps peg body separator input (values ++ more) rest := by
  induction laps with
  | done => exact lapsToo
  | lap parted again moved _ ih => exact .lap parted again moved (ih lapsToo)

theorem Laps.snoc {separator : Pattern} {middle next : List α} {between : Tree}
    (laps : Laps peg body separator input values middle)
    (parted : Derives peg (.pattern separator) middle (some (between, next)))
    (again : Derives peg (.pattern body) next (some (value, rest))) (moved : rest ≠ middle) :
    Laps peg body separator input (values ++ [value]) rest :=
  laps.append (.lap parted again moved .done)

theorem Laps.rounds (uses : body.usesValue = true)
    (unused : (separator.getD .empty).usesValue = false)
    (laps : Laps peg body (separator.getD .empty) input values rest)
    (stops : Derives peg (.pattern (separator.getD .empty)) rest none ∨
      ∃ between middle,
        Derives peg (.pattern (separator.getD .empty)) rest (some (between, middle)) ∧
        Derives peg (.pattern body) middle none) :
    Derives peg (.rounds body separator) input (some (.list values, rest)) := by
  induction laps with
  | done =>
      rcases stops with fails | ⟨between, middle, parted, fails⟩
      · exact .lastSeparator fails
      · exact .lastBody parted fails
  | lap parted again moved _ ih =>
      have derives := Derives.nextRound parted again moved (ih stops)
      simpa [used, uses, unused] using derives

theorem rounds_some (uses : body.usesValue = true)
    (unused : (separator.getD .empty).usesValue = false)
    (derives : Derives peg (.rounds body separator) input (some (.list values, rest))) :
    Laps peg body (separator.getD .empty) input values rest := by
  generalize ofRounds : Phrase.rounds body separator = phrase at derives
  generalize comes : some (Tree.list values, rest) = result at derives
  induction derives generalizing values rest with
  | nextRound parted again moved _ _ _ ih =>
      cases ofRounds
      cases comes
      simp only [used, uses, unused, if_true, List.nil_append, List.singleton_append,
        Bool.false_eq_true, if_false]
      exact .lap parted again moved (ih rfl rfl)
  | idleRound | lastBody | lastSeparator =>
      cases comes
      exact .done
  | _ => cases ofRounds

theorem Laps.star (uses : body.usesValue = true) (laps : Laps peg body .empty input values rest)
    (fails : Derives peg (.pattern body) rest none) :
    Derives peg (.pattern (.star body none)) input (some (.list values, rest)) := by
  cases laps with
  | done => exact .noneFound fails
  | lap parted again moved more =>
      obtain ⟨-, rfl⟩ := empty_some.mp parted
      have later : Derives peg (.rounds body none) _ (some (.list _, rest)) :=
        more.rounds uses rfl (.inr ⟨.null, rest, .empty, fails⟩)
      have whole : Derives peg (.pattern (.star body none)) _ _ := .repetition again later
      rwa [used, if_pos uses] at whole

/-- Where a body that always moves is repeated without separators, it fails behind the last round. -/
theorem rounds_stop
    (moves : ∀ input value, ¬ Derives peg (.pattern body) input (some (value, input)))
    (derives : Derives peg (.rounds body none) input (some (value, rest))) :
    Derives peg (.pattern body) rest none := by
  generalize ofRounds : Phrase.rounds body none = phrase at derives
  generalize comes : some (value, rest) = result at derives
  induction derives generalizing value rest with
  | nextRound _ _ _ _ _ _ ih =>
      cases comes
      exact ih ofRounds rfl
  | idleRound parted again =>
      cases ofRounds
      obtain ⟨-, rfl⟩ := empty_some.mp parted
      exact absurd again (moves _ _)
  | lastBody parted fails =>
      cases ofRounds
      cases comes
      obtain ⟨-, rfl⟩ := empty_some.mp parted
      exact fails
  | lastSeparator fails =>
      cases ofRounds
      cases fails
  | _ => cases ofRounds

theorem star_stops (moves : ∀ input value, ¬ Derives peg (.pattern body) input (some (value, input)))
    (derives : Derives peg (.pattern (.star body none)) input (some (value, rest))) :
    Derives peg (.pattern body) rest none := by
  rcases repetition_some.mp derives with ⟨first, middle, values, -, more, -⟩ | ⟨-, fails, -, rfl⟩
  · exact rounds_stop moves more
  · exact fails

theorem repetition_laps {allowEmpty : Bool} (uses : body.usesValue = true)
    (unused : (separator.getD .empty).usesValue = false)
    (derives : Derives peg (.pattern (.repetition body separator allowEmpty)) input
      (some (value, rest))) :
    (∃ first middle values, Derives peg (.pattern body) input (some (first, middle)) ∧
      Laps peg body (separator.getD .empty) middle values rest ∧
      value = .list (first :: values)) ∨
      allowEmpty = true ∧ value = .list [] ∧ rest = input := by
  rcases repetition_some.mp derives with
    ⟨first, middle, values, begins, more, rfl⟩ | ⟨empty, -, rfl, rfl⟩
  · refine .inl ⟨first, middle, values, begins, rounds_some uses unused more, ?_⟩
    rw [used, if_pos uses, List.singleton_append]
  · exact .inr ⟨empty, rfl, rfl⟩

theorem star_laps (uses : body.usesValue = true)
    (moves : ∀ input value, ¬ Derives peg (.pattern body) input (some (value, input)))
    (derives : Derives peg (.pattern (.star body none)) input (some (value, rest))) :
    ∃ values, value = .list values ∧ Laps peg body .empty input values rest := by
  rcases repetition_laps uses rfl derives with
    ⟨first, middle, values, begins, laps, rfl⟩ | ⟨-, rfl, rfl⟩
  · refine ⟨first :: values, rfl, .lap .empty begins ?_ laps⟩
    rintro rfl
    exact moves _ _ begins
  · exact ⟨[], rfl, .done⟩

end Parlance.Derives
