import Parlance.Proofs.Normalization.Shape
import Parlance.Proofs.Peg.Inversion

/-! Grammars whose rules are in layers: what a rule calls before it has consumed anything is of a
lower rank. There every pattern whose rules exist comes to a result on every input, by induction on
the length of the input, then on the rank, then on the pattern. -/

namespace Parlance

namespace Pattern

def mayIdle (idle : List String) : Pattern → Bool
  | .token .. => false
  | .rule name => idle.contains name
  | .sequence terms => allIdle terms
  | .choice alternatives => anyIdle alternatives
  | .repetition body _ allowEmpty => allowEmpty || mayIdle idle body
  | .ignore term | .filter term _ _ => mayIdle idle term
  | .custom .. | .empty => true
where
  allIdle : List Pattern → Bool
    | [] => true
    | term :: rest => mayIdle idle term && allIdle rest
  anyIdle : List Pattern → Bool
    | [] => false
    | alternative :: rest => mayIdle idle alternative || anyIdle rest

def heads (idle : List String) : Pattern → List String
  | .token .. | .custom .. | .empty => []
  | .rule name => [name]
  | .sequence terms => headsInTurn terms
  | .choice alternatives => headsOfAll alternatives
  | .repetition body none _ => heads idle body
  | .repetition body (some separator) _ =>
      heads idle body ++ if mayIdle idle body then heads idle separator else []
  | .ignore term | .filter term _ _ => heads idle term
where
  headsInTurn : List Pattern → List String
    | [] => []
    | term :: rest => heads idle term ++ if mayIdle idle term then headsInTurn rest else []
  headsOfAll : List Pattern → List String
    | [] => []
    | alternative :: rest => heads idle alternative ++ headsOfAll rest

variable {idle : List String}

theorem headsOfAll_eq_flatMap (alternatives : List Pattern) :
    heads.headsOfAll idle alternatives = alternatives.flatMap (heads idle) := by
  induction alternatives with
  | nil => rfl
  | cons alternative rest ih => simp [heads.headsOfAll, ih]

theorem mem_heads_body {body : Pattern} {separator : Option Pattern} {allowEmpty : Bool}
    {name : String} (member : name ∈ body.heads idle) :
    name ∈ (Pattern.repetition body separator allowEmpty).heads idle := by
  cases separator with
  | none => exact member
  | some separator => exact List.mem_append_left _ member

theorem mem_heads_separator {body : Pattern} {separator : Option Pattern} {allowEmpty : Bool}
    {name : String} (idles : body.mayIdle idle = true)
    (member : name ∈ (separator.getD .empty).heads idle) :
    name ∈ (Pattern.repetition body separator allowEmpty).heads idle := by
  cases separator with
  | none => cases member
  | some separator =>
      refine List.mem_append_right _ ?_
      rwa [if_pos idles]

end Pattern

variable {α : Type}

/-- The pattern calls rules that exist, before it consumes anything only ones of a lower rank than
the rule that it is a production of, and it consumes something unless that rule is `idle`. -/
structure RuleSet.Layer (rules : RuleSet) (rank : String → Nat) (idle : List String) (name : String)
    (pattern : Pattern) : Prop where
  known : ∀ called ∈ pattern.ruleNames, (Index.get? called rules).isSome = true
  lower : ∀ head ∈ pattern.heads idle, rank head < rank name
  idles : pattern.mayIdle idle = true → idle.contains name = true

/-- All productions are in layers, and custom readers leave an end of the input. -/
structure Peg.Layered (grammar : Peg α) (rank : String → Nat) (idle : List String) : Prop where
  reads : ∀ {reader input value rest}, grammar.reads reader input = some (value, rest) →
    rest <:+ input
  layer : ∀ {name productions}, Index.get? name grammar.rules = some productions →
    ∀ production ∈ productions, grammar.rules.Layer rank idle name production.expression

namespace Peg.Layered

variable {grammar : Peg α} {rank : String → Nat} {idle : List String}

theorem suffix (layered : grammar.Layered rank idle) {phrase : Phrase} {input : List α}
    {result : Option (Tree × List α)} (derives : Derives grammar phrase input result)
    {value : Tree} {rest : List α} (found : result = some (value, rest)) : rest <:+ input := by
  induction derives generalizing value rest with
  | token => cases found; exact List.suffix_cons ..
  | otherToken | noToken | noSequence | oneMissing | noIgnore | noFilter | termFails | restFails
  | noAlternatives => cases found
  | rule _ _ ih | choice _ ih => exact ih found
  | sequence _ ih | ignore _ ih | filter _ ih | decided _ ih => cases found; exact ih rfl
  | repetition _ _ ihFirst ihMore | nextTerm _ _ ihFirst ihMore =>
      cases found
      exact (ihMore rfl).trans (ihFirst rfl)
  | noneFound | empty | noTerms | idleRound | lastBody | lastSeparator =>
      cases found
      exact List.suffix_refl _
  | custom reads => exact layered.reads (reads.trans found)
  | nextAlternative _ _ _ ih => exact ih found
  | nextRound _ _ _ _ ihParted ihAgain ihMore =>
      cases found
      exact ((ihMore rfl).trans (ihAgain rfl)).trans (ihParted rfl)

theorem length_le (layered : grammar.Layered rank idle) {phrase : Phrase} {input rest : List α}
    {value : Tree} (derives : Derives grammar phrase input (some (value, rest))) :
    rest.length ≤ input.length :=
  (layered.suffix derives rfl).length_le

def mayIdle (idle : List String) : Phrase → Bool
  | .pattern pattern => pattern.mayIdle idle
  | .terms terms => Pattern.mayIdle.allIdle idle terms
  | .alternatives alternatives => Pattern.mayIdle.anyIdle idle alternatives
  | .rounds .. => true

theorem not_anyIdle {name : String} {productions : List Production}
    (layers : ∀ production ∈ productions,
      RuleSet.Layer grammar.rules rank idle name production.expression)
    (moves : ¬ idle.contains name = true) :
    Pattern.mayIdle.anyIdle idle (productions.map Production.expression) = false := by
  induction productions with
  | nil => rfl
  | cons production rest ih =>
      have here : production.expression.mayIdle idle = false := by
        have idles := (layers production (List.mem_cons_self ..)).idles
        exact Bool.eq_false_iff.mpr fun idle => moves (idles idle)
      have later := ih fun production member => layers production (List.mem_cons_of_mem _ member)
      rw [List.map_cons, Pattern.mayIdle.anyIdle, here, later]
      rfl

theorem consumes (layered : grammar.Layered rank idle) {phrase : Phrase} {input : List α}
    {result : Option (Tree × List α)} (derives : Derives grammar phrase input result)
    {value : Tree} {rest : List α} (found : result = some (value, rest))
    (moves : mayIdle idle phrase = false) : rest.length < input.length := by
  induction derives generalizing value rest with
  | token => cases found; exact Nat.lt_succ_self _
  | otherToken | noToken | noSequence | oneMissing | noIgnore | noFilter | termFails | restFails
  | noAlternatives => cases found
  | rule productions _ ih =>
      refine ih found (not_anyIdle (layered.layer productions) ?_)
      exact Bool.eq_false_iff.mp moves
  | choice _ ih => exact ih found moves
  | sequence _ ih | ignore _ ih | filter _ ih => cases found; exact ih rfl moves
  | repetition first more ih _ =>
      cases found
      have body := (Bool.or_eq_false_iff.mp moves).2
      have shorter := ih rfl body
      have := layered.length_le more
      omega
  | noneFound => cases moves
  | custom | empty | noTerms | idleRound | lastBody | lastSeparator | nextRound => cases moves
  | nextTerm first more ihFirst ihMore =>
      cases found
      have fewer := layered.length_le first
      have least := layered.length_le more
      rcases Bool.and_eq_false_iff.mp moves with moves | moves
      · have := ihFirst rfl moves
        omega
      · have := ihMore rfl moves
        omega
  | decided _ ih => cases found; exact ih rfl (Bool.or_eq_false_iff.mp moves).1
  | nextAlternative _ _ _ ih => exact ih found (Bool.or_eq_false_iff.mp moves).2

theorem idles_of_stays (layered : grammar.Layered rank idle) {pattern : Pattern}
    {input rest : List α} {value : Tree}
    (derives : Derives grammar (.pattern pattern) input (some (value, rest)))
    (stays : ¬ rest.length < input.length) : pattern.mayIdle idle = true := by
  cases idles : pattern.mayIdle idle with
  | true => rfl
  | false => exact absurd (layered.consumes derives rfl idles) stays

theorem eq_of_stays (layered : grammar.Layered rank idle) {pattern : Pattern}
    {input rest : List α} {value : Tree}
    (derives : Derives grammar (.pattern pattern) input (some (value, rest)))
    (stays : ¬ rest.length < input.length) : rest = input := by
  have suffix := layered.suffix derives rfl
  exact suffix.eq_of_length (Nat.le_antisymm suffix.length_le (Nat.not_lt.mp stays))

def Ends (grammar : Peg α) (phrase : Phrase) (input : List α) : Prop :=
  ∃ result, Derives grammar phrase input result

def EndsUpTo (grammar : Peg α) (length : Nat) (pattern : Pattern) : Prop :=
  ∀ input : List α, input.length ≤ length → Ends grammar (.pattern pattern) input

theorem ends_alternatives {alternatives : List Pattern} {input : List α}
    (ends : ∀ alternative ∈ alternatives, Ends grammar (.pattern alternative) input) :
    Ends grammar (.alternatives alternatives) input := by
  induction alternatives with
  | nil => exact ⟨_, .noAlternatives⟩
  | cons alternative rest ih =>
      obtain ⟨_ | ⟨value, left⟩, derives⟩ := ends alternative (List.mem_cons_self ..)
      · obtain ⟨result, more⟩ := ih fun other member => ends other (List.mem_cons_of_mem _ member)
        exact ⟨result, .nextAlternative derives more⟩
      · exact ⟨_, .decided derives⟩

/-- Rounds end, since each but the last consumes something. -/
theorem ends_rounds (layered : grammar.Layered rank idle) {body : Pattern}
    {separator : Option Pattern} {length : Nat} (ends : EndsUpTo grammar length body)
    (parts : EndsUpTo grammar length (separator.getD .empty)) {input : List α}
    (within : input.length ≤ length) : Ends grammar (.rounds body separator) input := by
  induction size : input.length using Nat.strongRecOn generalizing input with
  | ind size ih =>
      obtain ⟨_ | ⟨between, middle⟩, parted⟩ := parts input within
      · exact ⟨_, .lastSeparator parted⟩
      have fewer := layered.length_le parted
      obtain ⟨_ | ⟨value, next⟩, again⟩ := ends middle (Nat.le_trans fewer within)
      · exact ⟨_, .lastBody parted again⟩
      have least := layered.length_le again
      by_cases same : next = input
      · subst same
        exact ⟨_, .idleRound parted again⟩
      have suffix := (layered.suffix again rfl).trans (layered.suffix parted rfl)
      have shorter : next.length < input.length :=
        Nat.lt_of_le_of_ne suffix.length_le fun equal => same (suffix.eq_of_length equal)
      obtain ⟨result, more⟩ := ih _ (size ▸ shorter) (Nat.le_trans (Nat.le_of_lt shorter) within) rfl
      obtain ⟨values, rest, rfl⟩ := Derives.rounds_list more
      exact ⟨_, .nextRound parted again same more⟩

theorem ends_terms (layered : grammar.Layered rank idle) {terms : List Pattern} {length : Nat}
    (ends : ∀ term ∈ terms, EndsUpTo grammar length term) {input : List α}
    (within : input.length ≤ length) : Ends grammar (.terms terms) input := by
  induction terms generalizing input with
  | nil => exact ⟨_, .noTerms⟩
  | cons term rest ih =>
      obtain ⟨_ | ⟨value, middle⟩, first⟩ := ends term (List.mem_cons_self ..) input within
      · exact ⟨_, .termFails first⟩
      have fewer := Nat.le_trans (layered.length_le first) within
      obtain ⟨_ | ⟨values, left⟩, more⟩ :=
        ih (fun other member => ends other (List.mem_cons_of_mem _ member)) fewer
      · exact ⟨_, .restFails first more⟩
      · obtain ⟨values, rfl⟩ := Derives.terms_list more
        exact ⟨_, .nextTerm first more⟩

theorem ends_inTurn (layered : grammar.Layered rank idle) {terms : List Pattern} {length : Nat}
    (shorter : ∀ term ∈ terms, ∀ less < length, EndsUpTo grammar less term)
    (here : ∀ term ∈ terms, (∀ head ∈ term.heads idle,
      head ∈ Pattern.heads.headsInTurn idle terms) → EndsUpTo grammar length term)
    {input : List α} (within : input.length ≤ length) : Ends grammar (.terms terms) input := by
  induction terms with
  | nil => exact ⟨_, .noTerms⟩
  | cons term rest ih =>
      have begins := here term (List.mem_cons_self ..) fun _ => List.mem_append_left _
      obtain ⟨_ | ⟨value, middle⟩, first⟩ := begins input within
      · exact ⟨_, .termFails first⟩
      have later : Ends grammar (.terms rest) middle := by
        by_cases less : middle.length < input.length
        · refine layered.ends_terms (fun other member => ?_) (Nat.le_refl _)
          exact shorter other (List.mem_cons_of_mem _ member) _ (Nat.lt_of_lt_of_le less within)
        · obtain rfl := layered.eq_of_stays first less
          have idles := layered.idles_of_stays first less
          refine ih (fun other member => shorter other (List.mem_cons_of_mem _ member))
            fun other member heads => here other (List.mem_cons_of_mem _ member) ?_
          intro head among
          refine List.mem_append_right _ ?_
          rw [if_pos idles]
          exact heads head among
      obtain ⟨_ | ⟨values, left⟩, more⟩ := later
      · exact ⟨_, .restFails first more⟩
      · obtain ⟨values, rfl⟩ := Derives.terms_list more
        exact ⟨_, .nextTerm first more⟩

def Known (grammar : Peg α) (pattern : Pattern) : Prop :=
  ∀ called ∈ pattern.ruleNames, (Index.get? called grammar.rules).isSome = true

theorem Known.of_subset {whole part : Pattern} (known : Known grammar whole)
    (within : part.walk ⊆ whole.walk) : Known grammar part :=
  fun called member => known called (Pattern.ruleNames_subset within member)

theorem Known.of_mem {whole part : Pattern} {parts : List Pattern} (known : Known grammar whole)
    (below : parts.flatMap Pattern.walk ⊆ whole.walk) (member : part ∈ parts) :
    Known grammar part :=
  known.of_subset fun _ met => below (List.mem_flatMap.mpr ⟨part, member, met⟩)

theorem ends_pattern (layered : grammar.Layered rank idle) {length : Nat}
    (shorter : ∀ pattern, Known grammar pattern → ∀ less < length, EndsUpTo grammar less pattern)
    {pattern : Pattern} (known : Known grammar pattern)
    (ready : ∀ head ∈ pattern.heads idle, (Index.get? head grammar.rules).isSome = true →
      EndsUpTo grammar length (.rule head)) : EndsUpTo grammar length pattern := by
  intro input within
  induction pattern using Pattern.parts_induction generalizing input with
  | token kind role =>
      cases input with
      | nil => exact ⟨_, .noToken⟩
      | cons item rest =>
          by_cases fits : (grammar.token item).kind? = some kind
          · exact ⟨_, .token fits⟩
          · exact ⟨_, .otherToken fits⟩
  | rule name =>
      exact ready name (List.mem_singleton_self _) (known name (List.mem_singleton_self _)) input
        within
  | sequence terms ih =>
      have parts (term : Pattern) (member : term ∈ terms) : Known grammar term :=
        known.of_mem (by simp [Pattern.walk_sequence]) member
      obtain ⟨_ | ⟨values, rest⟩, derives⟩ := layered.ends_inTurn
        (fun term member => shorter term (parts term member))
        (fun term member heads input within => ih term member (parts term member)
          (fun head among => ready head (heads head among)) input within) within
      · exact ⟨_, .noSequence derives⟩
      · obtain ⟨values, rfl⟩ := Derives.terms_list derives
        exact ⟨_, .sequence derives⟩
  | choice alternatives ih =>
      obtain ⟨result, derives⟩ := ends_alternatives fun alternative member =>
        ih alternative member (known.of_mem (by simp [Pattern.walk_choice]) member)
          (fun head among => ready head (by
            rw [Pattern.heads, Pattern.headsOfAll_eq_flatMap]
            exact List.mem_flatMap.mpr ⟨_, member, among⟩)) input within
      exact ⟨result, .choice derives⟩
  | repetition body separator allowEmpty ihBody ihSeparator =>
      have knownBody : Known grammar body := known.of_subset (by simp [Pattern.walk_repetition])
      have knownSeparator : Known grammar (separator.getD .empty) := by
        cases separator with
        | none => intro called member; simp [Pattern.ruleNames, Pattern.walk] at member
        | some separator => exact known.of_subset (by simp [Pattern.walk_repetition])
      have bodies : EndsUpTo grammar length body :=
        ihBody knownBody fun head among => ready head (Pattern.mem_heads_body among)
      obtain ⟨_ | ⟨value, middle⟩, first⟩ := bodies input within
      · cases allowEmpty with
        | true => exact ⟨_, .noneFound first⟩
        | false => exact ⟨_, .oneMissing first⟩
      have later : Ends grammar (.rounds body separator) middle := by
        by_cases less : middle.length < input.length
        · have below := Nat.lt_of_lt_of_le less within
          exact layered.ends_rounds (shorter _ knownBody _ below)
            (shorter _ knownSeparator _ below) (Nat.le_refl _)
        · obtain rfl := layered.eq_of_stays first less
          have idles := layered.idles_of_stays first less
          refine layered.ends_rounds bodies ?_ within
          cases separator with
          | none => exact fun _ _ => ⟨_, .empty⟩
          | some separator =>
              exact ihSeparator separator rfl knownSeparator fun head among =>
                ready head (Pattern.mem_heads_separator idles among)
      obtain ⟨result, more⟩ := later
      obtain ⟨values, rest, rfl⟩ := Derives.rounds_list more
      exact ⟨_, .repetition first more⟩
  | ignore term ih =>
      obtain ⟨_ | ⟨value, rest⟩, derives⟩ :=
        ih (known.of_subset (by simp [Pattern.walk])) ready input within
      · exact ⟨_, .noIgnore derives⟩
      · exact ⟨_, .ignore derives⟩
  | filter term action arity ih =>
      obtain ⟨_ | ⟨value, rest⟩, derives⟩ :=
        ih (known.of_subset (by simp [Pattern.walk])) ready input within
      · exact ⟨_, .noFilter derives⟩
      · exact ⟨_, .filter derives⟩
  | custom reader parts => exact ⟨_, .custom rfl⟩
  | empty => exact ⟨_, .empty⟩

/-- In layers, every pattern whose rules are there comes to a result on every input. -/
theorem ends (layered : grammar.Layered rank idle) {pattern : Pattern}
    (known : Known grammar pattern) (input : List α) : Ends grammar (.pattern pattern) input := by
  suffices all : ∀ length pattern, Known grammar pattern → EndsUpTo grammar length pattern from
    all input.length pattern known input (Nat.le_refl _)
  intro length
  induction length using Nat.strongRecOn with
  | ind length ih =>
      have shorter (pattern : Pattern) (known : Known grammar pattern) (less : Nat)
          (below : less < length) : EndsUpTo grammar less pattern := ih less below pattern known
      have called (bound : Nat) (name : String) (below : rank name < bound)
          (found : (Index.get? name grammar.rules).isSome = true) :
          EndsUpTo grammar length (.rule name) := by
        induction bound generalizing name with
        | zero => exact absurd below (Nat.not_lt_zero _)
        | succ bound ihRank =>
            intro input within
            obtain ⟨productions, found⟩ := Option.isSome_iff_exists.mp found
            have each : ∀ alternative ∈ productions.map Production.expression,
                ∃ result, Derives grammar (.pattern alternative) input result := by
              intro alternative member
              obtain ⟨production, listed, rfl⟩ := List.mem_map.mp member
              have layer := layered.layer found production listed
              exact layered.ends_pattern shorter layer.known
                (fun head among => ihRank head (by have := layer.lower head among; omega))
                input within
            obtain ⟨result, derives⟩ := ends_alternatives each
            exact ⟨result, (Derives.rule_iff found).mpr derives⟩
      exact fun pattern known => layered.ends_pattern shorter known fun head _ found =>
        called (rank head + 1) head (Nat.lt_succ_self _) found

end Peg.Layered

end Parlance
