import Parlance.Grammar.Compiled
import Parlance.Parse.Parser
import Parlance.Proofs.Evaluation.Nesting

/-! The tokens that a pattern mentions, and those that a parse can come to. Whatever is begun inside a
task stands in the task already or in a rule, so a parser comes to no token that its grammar does not
mention, although it runs normalized rules and looks them up as it goes. -/

namespace Parlance

open Relation (ReflTransGen)

/-- A pattern stands in itself and in whatever it is a part of, at any depth: as a term, as an
alternative, as the body or the separator of a repetition, and among what a custom pattern exposes. -/
inductive Pattern.PartOf (part : Pattern) : Pattern → Prop where
  | here : PartOf part part
  | term {terms term} (member : term ∈ terms) (inner : PartOf part term) :
      PartOf part (.sequence terms)
  | alternative {alternatives alternative} (member : alternative ∈ alternatives)
      (inner : PartOf part alternative) : PartOf part (.choice alternatives)
  | body {body separator allowEmpty} (inner : PartOf part body) :
      PartOf part (.repetition body separator allowEmpty)
  | separator {body separator allowEmpty} (inner : PartOf part separator) :
      PartOf part (.repetition body (some separator) allowEmpty)
  | ignored {term} (inner : PartOf part term) : PartOf part (.ignore term)
  | filtered {term action arity} (inner : PartOf part term) : PartOf part (.filter term action arity)
  | exposed {reader parts exposed} (member : exposed ∈ parts) (inner : PartOf part exposed) :
      PartOf part (.custom reader parts)

namespace Pattern

variable {part whole : Pattern}

theorem PartOf.mem_walk (inner : part.PartOf whole) : part ∈ whole.walk := by
  induction inner with
  | here => cases part with
    | token | rule | sequence | choice | ignore | filter | custom | empty => exact List.mem_cons_self
    | repetition => rw [walk_repetition]; exact List.mem_cons_self
  | term member _ ih =>
      rw [walk_sequence]
      exact List.mem_cons_of_mem _ (List.mem_flatMap.mpr ⟨_, member, ih⟩)
  | alternative member _ ih =>
      rw [walk_choice]
      exact List.mem_cons_of_mem _ (List.mem_flatMap.mpr ⟨_, member, ih⟩)
  | exposed member _ ih =>
      rw [walk_custom]
      exact List.mem_cons_of_mem _ (List.mem_flatMap.mpr ⟨_, member, ih⟩)
  | body _ ih =>
      rw [walk_repetition]
      exact List.mem_cons_of_mem _ (List.mem_append_left _ ih)
  | separator _ ih => exact List.mem_cons_of_mem _ (List.mem_append_right _ ih)
  | ignored _ ih | filtered _ ih => exact List.mem_cons_of_mem _ ih

theorem partOf_of_mem_cons {below : List Pattern} (inner : part ∈ below → part.PartOf whole)
    (member : part ∈ whole :: below) : part.PartOf whole := by
  rcases List.mem_cons.mp member with rfl | member
  · exact .here
  · exact inner member

theorem partOf_of_mem_walk (member : part ∈ whole.walk) : part.PartOf whole := by
  induction whole using parts_induction with
  | token | rule | empty => rw [List.mem_singleton.mp member]; exact .here
  | sequence terms ih =>
      refine partOf_of_mem_cons (fun member => ?_) (walk_sequence terms ▸ member)
      obtain ⟨term, listed, inner⟩ := List.mem_flatMap.mp member
      exact .term listed (ih term listed inner)
  | choice alternatives ih =>
      refine partOf_of_mem_cons (fun member => ?_) (walk_choice alternatives ▸ member)
      obtain ⟨alternative, listed, inner⟩ := List.mem_flatMap.mp member
      exact .alternative listed (ih alternative listed inner)
  | custom reader parts ih =>
      refine partOf_of_mem_cons (fun member => ?_) (walk_custom reader parts ▸ member)
      obtain ⟨exposed, listed, inner⟩ := List.mem_flatMap.mp member
      exact .exposed listed (ih exposed listed inner)
  | repetition body separator allowEmpty ihBody ihSeparator =>
      refine partOf_of_mem_cons (fun member => ?_) (walk_repetition body separator _ ▸ member)
      rcases List.mem_append.mp member with member | member
      · exact .body (ihBody member)
      · cases separator with
        | none => cases member
        | some separator => exact .separator (ihSeparator separator rfl member)
  | ignore term ih => exact partOf_of_mem_cons (fun member => .ignored (ih member)) member
  | filter term action arity ih => exact partOf_of_mem_cons (fun member => .filtered (ih member)) member

/-- A walk meets all that stands in a pattern and nothing else. -/
theorem mem_walk_iff : part ∈ whole.walk ↔ part.PartOf whole := ⟨partOf_of_mem_walk, PartOf.mem_walk⟩

theorem mem_tokens_iff {kind : String} {role : Option Role} :
    (kind, role) ∈ whole.tokens ↔ (Pattern.token kind role).PartOf whole := by
  rw [mem_tokens_iff_mem_walk, mem_walk_iff]

end Pattern

def Task.patterns : Task → List Pattern
  | .pattern whole => [whole]
  | .terms rest _ => rest
  | .alternatives rest => rest
  | .rounds body separator _ => [body, separator.getD .empty]
  | .script parts _ => parts

def Task.Mentions (kind : String) (role : Option Role) (task : Task) : Prop :=
  ∃ whole ∈ task.patterns, (Pattern.token kind role).PartOf whole

section Begun

variable {kind : String} {role : Option Role}

theorem Task.mentions_pattern {whole : Pattern} :
    (Task.pattern whole).Mentions kind role ↔ (Pattern.token kind role).PartOf whole := by
  simp [Task.Mentions, Task.patterns]

theorem Pattern.PartOf.of_separator {body : Pattern} {separator : Option Pattern} {allowEmpty : Bool}
    (inner : (Pattern.token kind role).PartOf (separator.getD .empty)) :
    (Pattern.token kind role).PartOf (.repetition body separator allowEmpty) := by
  cases separator with
  | none => cases inner
  | some separator => exact .separator inner

variable {context : ParseContext} {task begun : Task × ParseState}

theorem Begins.mentions (begins : Begins context task begun) (mentions : begun.1.Mentions kind role) :
    task.1.Mentions kind role ∨ ∃ name body, Index.get? name context.rules = some body ∧
      (Pattern.token kind role).PartOf body := by
  have whole {pattern : Pattern} (inner : (Pattern.token kind role).PartOf pattern) :
      (Task.pattern pattern).Mentions kind role := Task.mentions_pattern.mpr inner
  cases begins with
  | rule found shallow => exact .inr ⟨_, _, found, Task.mentions_pattern.mp mentions⟩
  | sequence =>
      obtain ⟨term, member, inner⟩ := mentions
      exact .inl (whole (.term member inner))
  | choice =>
      obtain ⟨alternative, member, inner⟩ := mentions
      exact .inl (whole (.alternative member inner))
  | custom =>
      obtain ⟨part, member, inner⟩ := mentions
      exact .inl (whole (.exposed member inner))
  | firstBody => exact .inl (whole (.body (Task.mentions_pattern.mp mentions)))
  | ignore => exact .inl (whole (.ignored (Task.mentions_pattern.mp mentions)))
  | filter => exact .inl (whole (.filtered (Task.mentions_pattern.mp mentions)))
  | firstRound first =>
      obtain ⟨part, member, inner⟩ := mentions
      rcases List.mem_pair.mp member with rfl | rfl
      · exact .inl (whole (.body inner))
      · exact .inl (whole (.of_separator inner))
  | firstTerm | firstAlternative =>
      exact .inl ⟨_, List.mem_cons_self, Task.mentions_pattern.mp mentions⟩
  | nextTerm first | nextAlternative first =>
      obtain ⟨part, member, inner⟩ := mentions
      exact .inl ⟨part, List.mem_cons_of_mem _ member, inner⟩
  | separator => exact .inl ⟨_, List.mem_pair.mpr (.inr rfl), Task.mentions_pattern.mp mentions⟩
  | nextBody parted => exact .inl ⟨_, List.mem_pair.mpr (.inl rfl), Task.mentions_pattern.mp mentions⟩
  | nextRound parted again moved => exact .inl mentions
  | askRule => cases Task.mentions_pattern.mp mentions
  | askPart here => exact .inl ⟨_, List.mem_of_getElem? here, Task.mentions_pattern.mp mentions⟩
  | peek | ether | cursor | advance | rewind | ruleAnswered | partAnswered | noPart =>
      exact .inl mentions

theorem mentions_of_begun (leads : ReflTransGen (Begins context) task begun)
    (mentions : begun.1.Mentions kind role) :
    task.1.Mentions kind role ∨ ∃ name body, Index.get? name context.rules = some body ∧
      (Pattern.token kind role).PartOf body := by
  induction leads using ReflTransGen.head_induction_on with
  | refl => exact .inl mentions
  | head begins _ ih => exact ih.elim begins.mentions .inr

theorem Parser.mem_tokens_of_begun {parser : Parser} {tokens : List Token} {start : String}
    {state after : ParseState}
    (leads : ReflTransGen (Begins (parser.context tokens)) (.pattern (.rule start), state)
      (.pattern (.token kind role), after)) : (kind, role) ∈ parser.grammar.tokens := by
  rcases mentions_of_begun leads (Task.mentions_pattern.mpr .here) with
    here | ⟨name, body, found, inner⟩
  · cases Task.mentions_pattern.mp here
  · obtain ⟨raw, there, rfl⟩ := Grammar.raw_of_normalized found
    have mentioned := (raw.referAlike_normalize.tokens (kind, role)).mp (Pattern.mem_tokens_iff.mpr inner)
    exact List.mem_flatMap.mpr ⟨_, Index.mem_of_get? there, mentioned⟩

end Begun

end Parlance
