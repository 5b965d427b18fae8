import Parlance.Proofs.Evaluation.Handlers
import Parlance.Proofs.Parse.Invariant

/-! Parses with a bound on nesting. They end whatever the grammar, as a rule that is run inside itself
uses up the bound, all else goes down into parts, and each round of a repetition but the last moves
on; and a parse that stays within the bound comes to what it comes to without one. -/

namespace Parlance

open ParseContext

/-- Not behind the place where a match begins, and not past the last place unless it begins there. -/
def Ahead (last place next : Nat) : Prop := place ≤ next ∧ next ≤ max place last

theorem ParseContext.course_ahead {context : ParseContext} {last : Nat}
    (room : context.tokens.size ≤ last) : context.Course (Ahead last) where
  refl place := ⟨Nat.le_refl _, Nat.le_max_left _ _⟩
  trans := by
    unfold Ahead
    intros
    omega
  advance state inside :=
    ⟨state.le_advance _, Nat.le_trans (ParseState.advance_le (Nat.le_of_lt inside) (Nat.le_refl _))
      (Nat.le_trans room (Nat.le_max_right _ _))⟩

variable {context : ParseContext}

theorem Ahead.widen {last further place next : Nat} (ahead : Ahead last place next)
    (le : last ≤ further) : Ahead further place next := by
  unfold Ahead at ahead ⊢
  omega

theorem ParseContext.Follows.widen {last further : Nat} (follows : context.Follows (Ahead last))
    (le : last ≤ further) : context.Follows (Ahead further) :=
  fun name body found => (follows name body found).mono fun _ _ _ _ ahead => ahead.widen le

theorem ParseContext.Tethered.follows (tethered : context.Tethered) :
    context.Follows (Ahead context.tokens.size) := by
  intro name body found reader parts member state value after ran
  have trusted := tethered name body found
  have heeds {good : ParseState → Prop} : (Task.script parts reader.script).Heeds good state :=
    ⟨.of_tethered (trusted reader parts member),
      (trusted.of_subset (Pattern.walk_subset_of_mem member)).parts⟩
  have within := ran.keeps (context.invariant_within (Nat.le_max_right state.position _)) tethered
    heeds (Nat.le_max_left _ _)
  exact ⟨ran.keeps (context.invariant_from state.position) tethered heeds (Nat.le_refl _), within⟩

section Ends

variable {bound levels last : Nat} {run : Runner} {state : ParseState}

def Ends (run : Runner) (bound levels : Nat) (pattern : Pattern) : Prop :=
  ∀ state : ParseState, bound ≤ state.depth + levels → ∃ result, run pattern state = some result

variable (sound : context.Sound run)

include sound

theorem runSequence_ends {terms : List Pattern} (ends : ∀ term ∈ terms, Ends run bound levels term)
    {kept : List Tree} (allows : bound ≤ state.depth + levels) :
    ∃ result, runSequence run terms kept state = some result := by
  induction terms generalizing kept state with
  | nil => exact ⟨_, rfl⟩
  | cons term rest ih =>
      obtain ⟨⟨reached, after⟩, ran⟩ := ends term (by simp) state allows
      simp only [runSequence, ran]
      cases reached with
      | mismatch | broken => exact ⟨_, rfl⟩
      | matched value =>
          have depth := (sound _ _ _ _ ran).depth_eq
          exact ih (fun term member => ends term (by simp [member])) (depth ▸ allows)

theorem runChoice_ends {alternatives : List Pattern}
    (ends : ∀ alternative ∈ alternatives, Ends run bound levels alternative)
    (allows : bound ≤ state.depth + levels) :
    ∃ result, runChoice run alternatives state = some result := by
  induction alternatives generalizing state with
  | nil => exact ⟨_, rfl⟩
  | cons alternative rest ih =>
      obtain ⟨⟨reached, after⟩, ran⟩ := ends alternative (by simp) state allows
      simp only [runChoice, ran]
      cases reached with
      | matched | broken => exact ⟨_, rfl⟩
      | mismatch =>
          have depth := (sound _ _ _ _ ran).depth_eq
          have allows : bound ≤ (after.rewind state.position).depth + levels := depth ▸ allows
          exact ih (fun term member => ends term (by simp [member])) allows

omit sound in
theorem runBody_ends {body : Pattern} (ends : Ends run bound levels body)
    (allows : bound ≤ state.depth + levels) (mark : Nat) (values : List Tree) :
    ∃ round, runBody run body mark values state = some round := by
  obtain ⟨⟨reached, after⟩, ran⟩ := ends state allows
  simp only [runBody, ran]
  cases reached with
  | mismatch | broken => exact ⟨_, rfl⟩
  | matched value =>
      simp only
      split <;> exact ⟨_, rfl⟩

theorem runRound_ends {body : Pattern} {separator : Option Pattern}
    (ends : Ends run bound levels body)
    (endsToo : ∀ part, separator = some part → Ends run bound levels part)
    (allows : bound ≤ state.depth + levels) :
    ∃ round, runRound run body separator state = some round := by
  cases separator with
  | none => exact runBody_ends ends allows _ _
  | some separator =>
      obtain ⟨⟨reached, after⟩, ran⟩ := endsToo separator rfl state allows
      simp only [runRound, ran]
      cases reached with
      | mismatch | broken => exact ⟨_, rfl⟩
      | matched value =>
          have depth := (sound _ _ _ _ ran).depth_eq
          exact runBody_ends ends (depth ▸ allows) _ _

theorem runScript_ends {parts : List Pattern} (ends : ∀ part ∈ parts, Ends run bound levels part)
    (rulesEnd : ∀ name (state : ParseState), bound ≤ state.depth + levels →
      ∃ result, context.runRule run name state = some result) {script : Script}
    (allows : bound ≤ state.depth + levels) :
    ∃ result, context.runScript run parts script state = some result := by
  induction script generalizing state with
  | yield | mismatch | abandon => exact ⟨_, rfl⟩
  | peek next ih | ether next ih | cursor next ih => exact ih _ allows
  | advance next ih | rewind mark next ih => exact ih allows
  | rule name next ih =>
      obtain ⟨⟨reached, after⟩, ran⟩ := rulesEnd name state allows
      have depth := (sound.runRule ran).depth_eq
      simp only [runScript, ran]
      cases reached with
      | broken => exact ⟨_, rfl⟩
      | matched | mismatch => exact ih _ (depth ▸ allows)
  | part index next ih =>
      simp only [runScript]
      cases listed : parts[index]? with
      | none => exact ih _ allows
      | some part =>
          obtain ⟨⟨reached, after⟩, ran⟩ := ends part (List.mem_of_getElem? listed) state allows
          have depth := (sound _ _ _ _ ran).depth_eq
          simp only [ran]
          cases reached with
          | broken => exact ⟨_, rfl⟩
          | matched | mismatch => exact ih _ (depth ▸ allows)

end Ends

section Bounded

variable {bound last width : Nat} (limited : context.maxDepth = some bound)
  (follows : context.Follows (Ahead last)) (room : context.tokens.size ≤ last)
  (narrow : ∀ name body, Index.get? name context.rules = some body → body.size ≤ width)

include follows room

theorem runRounds_ends {levels fuel : Nat} {body : Pattern} {separator : Option Pattern}
    (keeps : body.Follows context (Ahead last) ∧ (separator.getD .empty).Follows context (Ahead last))
    (ends : Ends (context.run fuel) bound levels body)
    (endsToo : ∀ part, separator = some part → Ends (context.run fuel) bound levels part)
    {rounds : Nat} {items : List Tree} {state : ParseState} (allows : bound ≤ state.depth + levels)
    (enough : last < rounds + state.position) (some : 0 < rounds) :
    ∃ result, runRounds (context.run fuel) body separator rounds items state = .some result := by
  induction rounds generalizing items state with
  | zero => cases some
  | succ rounds ih =>
      obtain ⟨round, ran⟩ := runRound_ends (context.sound_run fuel) ends endsToo allows
      simp only [runRounds, ran]
      cases round with
      | stopped | broken => exact ⟨_, rfl⟩
      | taken values after =>
          obtain ⟨_, _, _, parted, again, moved⟩ := runRound_taken ran
          have course := context.course_ahead room
          have ahead : Ahead last state.position after.position :=
            course.trans (parted.follows course follows keeps.2 rfl)
              (again.follows course follows keeps.1 rfl)
          have depth := again.depth_eq.trans parted.depth_eq
          unfold Ahead at ahead
          exact ih (depth ▸ allows) (by omega) (by omega)

include limited narrow

omit room in
theorem runRule_ends {levels fuel : Nat} (enough : levels * width + last < fuel)
    (bodiesEnd : ∀ less < levels, ∀ body : Pattern, body.Follows context (Ahead last) →
      less * width + last + body.size < fuel → Ends (context.run fuel) bound less body)
    (name : String) (state : ParseState) (allows : bound ≤ state.depth + levels) :
    ∃ result, context.runRule (context.run fuel) name state = some result := by
  unfold runRule
  cases found : Index.get? name context.rules with
  | none => exact ⟨_, rfl⟩
  | some body =>
      simp only
      split
      · exact ⟨_, rfl⟩
      next shallow =>
        have lt : state.depth < bound := by simpa [tooDeep, limited] using shallow
        obtain ⟨less, rfl⟩ : ∃ less, levels = less + 1 := ⟨levels - 1, by omega⟩
        have wide := narrow name body found
        rw [Nat.succ_mul] at enough
        obtain ⟨result, ran⟩ := bodiesEnd less (Nat.lt_succ_self _) body (follows name body found)
          (by omega) { state with depth := state.depth + 1 } (by show _ ≤ _ + 1 + _; omega)
        rw [ran]
        exact ⟨_, rfl⟩

/-- With a level of rules left for each that may still nest, and room for the rounds of a repetition and
for the pattern itself, a run ends. -/
theorem run_ends (levels : Nat) (pattern : Pattern) (keeps : pattern.Follows context (Ahead last))
    {fuel : Nat} (enough : levels * width + last + pattern.size < fuel) :
    Ends (context.run fuel) bound levels pattern := by
  -- A rule takes one level and goes on with a pattern that may be as wide as any; all other forms keep
  -- their levels and go on with parts of their own, which are smaller.
  induction levels using Nat.strongRecOn generalizing pattern fuel with
  | ind levels ihLevels =>
  induction pattern using Pattern.parts_induction generalizing fuel with
  | token | empty =>
      intro state _
      obtain ⟨fuel, rfl⟩ : ∃ less, fuel = less + 1 := ⟨fuel - 1, by omega⟩
      exact ⟨_, rfl⟩
  | rule name =>
      intro state allows
      obtain ⟨fuel, rfl⟩ : ∃ less, fuel = less + 1 := ⟨fuel - 1, by omega⟩
      simp only [Pattern.size, Pattern.walk, List.length_singleton] at enough
      exact runRule_ends limited follows narrow (by omega)
        (fun less lt body keeps => ihLevels less lt body keeps) name state allows
  | sequence terms ih =>
      intro state allows
      obtain ⟨fuel, rfl⟩ : ∃ less, fuel = less + 1 := ⟨fuel - 1, by omega⟩
      rw [Pattern.size, Pattern.walk_sequence, List.length_cons] at enough
      refine runSequence_ends (context.sound_run fuel) (fun term member => ?_) allows
      have smaller := Pattern.size_le_of_mem member
      exact ih term member (keeps.terms term member) (by omega)
  | choice alternatives ih =>
      intro state allows
      obtain ⟨fuel, rfl⟩ : ∃ less, fuel = less + 1 := ⟨fuel - 1, by omega⟩
      rw [Pattern.size, Pattern.walk_choice, List.length_cons] at enough
      refine runChoice_ends (context.sound_run fuel) (fun term member => ?_) allows
      have smaller := Pattern.size_le_of_mem member
      exact ih term member (keeps.alternatives term member) (by omega)
  | repetition body separator allowEmpty ihBody ihSeparator =>
      intro state allows
      obtain ⟨fuel, rfl⟩ : ∃ less, fuel = less + 1 := ⟨fuel - 1, by omega⟩
      rw [Pattern.size, Pattern.walk_repetition, List.length_cons, List.length_append] at enough
      have bodyEnds : Ends (context.run fuel) bound levels body :=
        ihBody keeps.body (by unfold Pattern.size; omega)
      have partsEnd : ∀ part, separator = some part → Ends (context.run fuel) bound levels part := by
        rintro part rfl
        exact ihSeparator part rfl keeps.separator (by simp [Pattern.size] at enough ⊢; omega)
      obtain ⟨⟨reached, after⟩, ran⟩ := bodyEnds state allows
      have depth := (context.sound_run fuel _ _ _ _ ran).depth_eq
      simp only [ParseContext.run, step, runRepetition, ran]
      cases reached with
      | broken => exact ⟨_, rfl⟩
      | mismatch =>
          simp only
          split <;> exact ⟨_, rfl⟩
      | matched value =>
          exact runRounds_ends follows room ⟨keeps.body, keeps.separator⟩ bodyEnds partsEnd
            (depth ▸ allows) (by omega) (by omega)
  | ignore term ih | filter term _ _ ih =>
      intro state allows
      obtain ⟨fuel, rfl⟩ : ∃ less, fuel = less + 1 := ⟨fuel - 1, by omega⟩
      simp only [Pattern.size, Pattern.walk, List.length_cons] at enough
      have inner : term.Follows context (Ahead last) := keeps.of_subset (by simp [Pattern.walk])
      have smaller : levels * width + last + term.size < fuel := by unfold Pattern.size; omega
      obtain ⟨⟨reached, after⟩, ran⟩ := ih inner smaller state allows
      simp only [ParseContext.run, step, ran]
      cases reached <;> exact ⟨_, rfl⟩
  | custom reader parts ih =>
      intro state allows
      obtain ⟨fuel, rfl⟩ : ∃ less, fuel = less + 1 := ⟨fuel - 1, by omega⟩
      rw [Pattern.size, Pattern.walk_custom, List.length_cons] at enough
      refine runScript_ends (context.sound_run fuel) (fun part member => ?_) ?_ allows
      · have smaller := Pattern.size_le_of_mem member
        exact ih part member (keeps.parts part member) (by omega)
      · exact runRule_ends limited follows narrow (by omega)
          fun less lt body keeps => ihLevels less lt body keeps

end Bounded

namespace Parser

variable {parser : Parser} {bound last : Nat} {tokens : List Token}

/-- The size of the widest rule, in which a start rule counts as one too. -/
def width (parser : Parser) (start : String) (tokens : List Token) : Nat :=
  widest (.rule start :: (parser.context tokens).rules.map Prod.snd)

theorem runWith_ends (limited : parser.maxDepth = some bound)
    (follows : (parser.context tokens).Follows (Ahead last)) (room : tokens.length ≤ last)
    {start : String} {fuel : Nat} (enough : bound * parser.width start tokens + last + 1 < fuel)
    (origin : Option String) (traced : Bool) :
    ∃ verdict, parser.runWith fuel start tokens origin traced = some verdict := by
  have narrow (name : String) (body : Pattern)
      (found : Index.get? name (parser.context tokens).rules = some body) :
      body.size ≤ parser.width start tokens :=
    size_le_widest (List.mem_cons_of_mem _
      (List.mem_map.mpr ⟨(name, body), Index.mem_of_get? found, rfl⟩))
  have plain : (Pattern.rule start).Follows (parser.context tokens) (Ahead last) := by
    intro reader parts member
    cases List.mem_singleton.mp member
  obtain ⟨result, ran⟩ := run_ends limited follows (by simpa [context] using room) narrow bound
    (.rule start) plain enough (.initial tokens traced) (Nat.le_add_left _ _)
  exact ⟨verdict tokens origin result, congrArg (Option.map (verdict tokens origin)) ran⟩

theorem run_ends_bounded (limited : parser.maxDepth = some bound)
    (follows : (parser.context tokens).Follows (Ahead last)) (within : last ≤ tokens.length)
    (start : String) (origin : Option String) (traced : Bool) :
    ∃ verdict, parser.run start tokens origin traced = some verdict := by
  refine runWith_ends limited (follows.widen within) (Nat.le_refl _) ?_ origin traced
  have levels : (parser.context tokens).maxDepth = some bound := limited
  have size : (parser.context tokens).tokens.size = tokens.length := List.size_toArray ..
  have product : bound * parser.width start tokens ≤
      (bound + 2) * (parser.width start tokens + 2) := by gcongr <;> omega
  simp only [ParseContext.enoughFuel, levels, size]
  simp only [width] at product ⊢
  omega

end Parser

theorem Parser.ComesTo.unique {parser : Parser} {start : String} {tokens : List Token}
    {origin : Option String} {traced : Bool} {verdict other : Verdict}
    (comes : parser.ComesTo start tokens origin traced verdict)
    (comesToo : parser.ComesTo start tokens origin traced other) : verdict = other := by
  obtain ⟨outcome, after, evaluates, rfl⟩ := Parser.comesTo_iff.mp comes
  obtain ⟨_, _, evaluatesToo, rfl⟩ := Parser.comesTo_iff.mp comesToo
  obtain ⟨rfl, rfl⟩ := evaluates.unique evaluatesToo
  rfl

/-- With a bound on nesting every parse ends, whatever the grammar, provided that no match of a custom
pattern ends behind the place where it begins; `last` is any place that these matches do not pass,
such as the greatest that a cursor can be at. A parse without a bound that ends and nests no deeper
comes with the bound to the same outcome and leaves the same state, with its high-water mark and its
log. -/
theorem bounded_parse_ends (grammar : Grammar) (bound : Nat) (start : String) (tokens : List Token)
    (origin : Option String) (traced : Bool) {last : Nat}
    (ahead : ((⟨grammar, some bound⟩ : Parser).context tokens).Follows (Ahead last)) :
    let bounded : Parser := ⟨grammar, some bound⟩
    let unbounded : Parser := ⟨grammar, none⟩
    (∃ verdict, bounded.ComesTo start tokens origin traced verdict ∧
      (last ≤ tokens.length → bounded.run start tokens origin traced = some verdict)) ∧
    ((unbounded.context tokens).NestsWithin bound (.pattern (.rule start)) (.initial tokens traced) →
      ∀ outcome after, Evaluates (unbounded.context tokens) (.pattern (.rule start))
          (.initial tokens traced) outcome after →
        (∀ reached left, Evaluates (bounded.context tokens) (.pattern (.rule start))
          (.initial tokens traced) reached left ↔ reached = outcome ∧ left = after) ∧
        ∀ verdict, bounded.ComesTo start tokens origin traced verdict ↔
          unbounded.ComesTo start tokens origin traced verdict) := by
  intro bounded unbounded
  constructor
  · by_cases within : last ≤ tokens.length
    · obtain ⟨verdict, ran⟩ := Parser.run_ends_bounded rfl ahead within start origin traced
      exact ⟨verdict, ⟨_, ran⟩, fun _ => ran⟩
    · obtain ⟨verdict, ran⟩ : ∃ verdict,
          bounded.runWith (bound * bounded.width start tokens + last + 2) start tokens origin traced =
            some verdict :=
        Parser.runWith_ends rfl ahead (by omega) (Nat.lt_succ_self _) origin traced
      exact ⟨verdict, ⟨_, ran⟩, fun le => absurd le within⟩
  · intro nests outcome after evaluates
    have same : Evaluates (bounded.context tokens) (.pattern (.rule start)) (.initial tokens traced)
        outcome after := evaluates.bounded rfl nests
    constructor
    · intro reached left
      exact ⟨fun evaluatesToo => evaluatesToo.unique same, by rintro ⟨rfl, rfl⟩; exact same⟩
    · intro verdict
      have comes : unbounded.ComesTo start tokens origin traced
          (Parser.verdict tokens origin (outcome, after)) :=
        Parser.comesTo_iff.mpr ⟨outcome, after, evaluates, rfl⟩
      rw [show bounded.ComesTo start tokens origin traced verdict ↔ _ from
        Parser.comesTo_bounded_iff rfl nests comes]
      exact ⟨fun same => same ▸ comes, fun comesToo => comesToo.unique comes⟩

/-- A rule that calls itself first stops at the bound, and one that nests less does not meet it. -/
theorem bounded_parse_ends_leftRecursive :
    let sums : RuleSet := [("E", [.ofPattern (.sequence [.rule "E", Builtin.Terminator.pattern 0]),
      .ofPattern (.tokenClass "Number")])]
    let items : RuleSet := [("S", [.ofPattern (.sequence [.rule "T", .ignoredToken "]"])]),
      ("T", [.ofPattern (.star (.tokenClass "a") none)])]
    let number : List Token := [.hard "Number" "1"]
    let bracketed : List Token := [.literal "a", .soft " ", .literal "]"]
    ((⟨.ofRules sums, some 3⟩ : Parser).context number).Follows (Ahead 1) ∧
      (∃ verdict, (⟨.ofRules sums, some 3⟩ : Parser).run "E" number none true = some verdict) ∧
      (items.parser.context bracketed).NestsWithin 6 (.pattern (.rule "S"))
        (.initial bracketed true) ∧
      (⟨.ofRules items, some 6⟩ : Parser).ComesTo "S" bracketed none true
        (.parsed (.ok (.list [.text "a"])) [0, 2, 3]) := by
  intro sums items number bracketed
  have trusted : sums.ReadBy fun reader => reader.script.Tethered fun _ => False := by
    refine RuleSet.readBy_of_entries fun entry listed production member => ?_
    obtain rfl := List.mem_singleton.mp listed
    simp only [List.mem_cons, List.not_mem_nil, or_false] at member
    rcases member with rfl | rfl
    · refine .of_sequence fun term member => ?_
      simp only [List.mem_cons, List.not_mem_nil, or_false] at member
      rcases member with rfl | rfl
      · exact .of_rule
      · exact (Builtin.Terminator.readBy 0).mono fun _ same => same ▸ Builtin.Terminator.tethered _
    · exact .of_token
  have ahead : ((⟨.ofRules sums, some 3⟩ : Parser).context number).Follows (Ahead 1) :=
    ParseContext.Tethered.follows (Grammar.Tethered.context fun name body found =>
      trusted.grammar found)
  have plain : items.ReadBy fun _ => False := by
    refine RuleSet.readBy_of_entries fun entry listed production member => ?_
    simp only [items, List.mem_cons, List.not_mem_nil, or_false] at listed
    rcases listed with rfl | rfl <;> obtain rfl := List.mem_singleton.mp member
    · refine .of_sequence fun term member => ?_
      simp only [List.mem_cons, List.not_mem_nil, or_false] at member
      rcases member with rfl | rfl
      · exact .of_rule
      · exact .of_ignored .of_token
    · exact .of_repetition .of_token nofun
  have read {tokens : List Token} (depth : Option Nat) {name : String} {body : Pattern}
      (found : Index.get? name ((⟨.ofRules items, depth⟩ : Parser).context tokens).rules = some body) :
      body.ReadBy fun _ => False :=
    @Grammar.ReadBy.normalized (fun _ => False) _ (fun _ _ found => plain.grammar found) _ _ found
  have aheadToo : ((⟨.ofRules items, some 6⟩ : Parser).context bracketed).Follows (Ahead 3) :=
    fun name body found reader parts met => (read _ found reader parts met).elim
  have layered : (items.parser.context bracketed).Layered
      (fun name => if name = "S" then 1 else 0) 2 ["T"] := by
    have all : ∀ rule ∈ items.parser.grammar.normalized,
        (∀ head ∈ rule.2.heads ["T"],
          (if head = "S" then 1 else 0) < (if rule.1 = "S" then 1 else 0)) ∧
        (rule.2.mayIdle ["T"] = true → ["T"].contains rule.1 = true) := by
      decide +kernel
    refine ⟨⟨rfl, fun name body found => ?_⟩, fun name => ?_, fun name body found => ?_,
      fun name body found => ?_⟩
    · exact (read none found).mono fun _ => False.elim
    · show (if name = "S" then 1 else 0) < 2
      split <;> decide
    · exact (all (name, body) (Index.mem_of_get? found)).1
    · exact (all (name, body) (Index.mem_of_get? found)).2
  have nests : (items.parser.context bracketed).NestsWithin 6 (.pattern (.rule "S"))
      (.initial bracketed true) := layered.nestsWithin "S" true
  have comes : items.parser.ComesTo "S" bracketed none true
      (.parsed (.ok (.list [.text "a"])) [0, 2, 3]) := ⟨20, rfl⟩
  obtain ⟨outcome, after, evaluates, -⟩ := Parser.comesTo_iff.mp comes
  have same := (bounded_parse_ends (.ofRules items) 6 "S" bracketed none true aheadToo).2 nests
    outcome after evaluates
  obtain ⟨verdict, -, ran⟩ :=
    (bounded_parse_ends (.ofRules sums) 3 "E" number none true ahead).1
  exact ⟨ahead, ⟨verdict, ran (Nat.le_refl _)⟩, nests, (same.2 _).mpr comes⟩

end Parlance
