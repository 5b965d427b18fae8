import Parlance.Proofs.Evaluation.Enough
import Parlance.Proofs.Evaluation.Nesting
import Parlance.Proofs.Peg.Totality

/-! How deep rules nest when they are in layers: before anything is consumed a rule runs only rules of
a lower rank. Each hard token then pays for one run through all the ranks. -/

namespace Parlance

open ParseContext
open Index (get?)
open Relation (ReflTransGen)

theorem Evaluates.depth_eq {context : ParseContext} {task : Task} {state after : ParseState}
    {outcome : Outcome} (evaluates : Evaluates context task state outcome after) :
    after.depth = state.depth := by
  induction evaluates with
  | token =>
      unfold matchKind
      split
      · split <;> rfl
      · rfl
  | rule _ _ _ ih => simp only [ParseState.shallower, ih, ParseState.deeper, Nat.add_sub_cancel]
  | missing | tooDeep | empty | noTerms | noAlternatives | yield | refuse | abandon => rfl
  | sequence _ ih | choice _ ih | noneFound _ ih | oneMissing _ ih | firstBroken _ ih | ignore _ ih
  | filter _ ih | custom _ ih | termFails _ ih | termBroken _ ih | decided _ ih
  | alternativeBroken _ ih | lastSeparator _ ih | separatorBroken _ ih | peek _ ih | ether _ ih
  | cursor _ ih | advance _ ih | rewind _ ih | askRuleBroken _ ih | askPartBroken _ _ ih
  | askNoPart _ _ ih => exact ih
  | begun _ _ ihFirst ihRest | nextTerm _ _ ihFirst ihRest | nextAlternative _ _ ihFirst ihRest
  | askRule _ _ _ ihFirst ihRest | askPart _ _ _ _ ihFirst ihRest | bodyBroken _ _ ihFirst ihRest
  | idleRound _ _ _ ihFirst ihRest | lastBody _ _ ihFirst ihRest => exact ihRest.trans ihFirst
  | nextRound _ _ _ _ ihParted ihAgain ihRounds => exact ihRounds.trans (ihAgain.trans ihParted)

variable {context : ParseContext}

abbrev ParseContext.RestsAt (context : ParseContext) (state : ParseState) : Prop :=
  Cursor.Rests context.tokens state.position

theorem ParseState.rests_advance {tokens : Array Token} {state : ParseState}
    (within : state.position ≤ tokens.size) :
    Cursor.Rests tokens (state.advance tokens).position := (state.cursor.advance_spec within).1

theorem Evaluates.rests (onward : context.Onward) {task : Task} {state after : ParseState}
    {outcome : Outcome} (evaluates : Evaluates context task state outcome after)
    (read : task.ReadBy (fun reader => reader.script.Onward) Script.Onward)
    (rests : context.RestsAt state) : context.RestsAt after := by
  induction evaluates with
  | token =>
      unfold matchKind
      split
      · split
        · exact ParseState.rests_advance rests.within
        · exact rests
      · exact rests
  | missing | tooDeep | empty | noTerms | noAlternatives | yield | refuse | abandon | noneFound
  | idleRound | lastBody | lastSeparator => exact rests
  | rule found _ _ ih => exact ih (onward.readers _ _ found) rests
  | sequence _ ih => exact ih read.terms rests
  | choice _ ih => exact ih read.alternatives rests
  | begun _ _ ihFirst ihRounds => exact ihRounds read.repetition (ihFirst read.repetition.1 rests)
  | oneMissing _ ih | firstBroken _ ih => exact ih read.repetition.1 rests
  | ignore _ ih => exact ih read.ignored rests
  | filter _ ih => exact ih read.filtered rests
  | custom _ ih => exact ih read.reader rests
  | nextTerm _ _ ihFirst ihRest =>
      exact ihRest (fun term member => read term (by simp [member])) (ihFirst (read _ (by simp)) rests)
  | termFails _ ih | termBroken _ ih | decided _ ih | alternativeBroken _ ih =>
      exact ih (read _ (by simp)) rests
  | nextAlternative _ _ _ ihRest => exact ihRest (fun term member => read term (by simp [member])) rests
  | nextRound _ _ _ _ ihParted ihAgain ihRounds =>
      exact ihRounds read (ihAgain read.1 (ihParted read.2 rests))
  | bodyBroken _ _ ihParted ihAgain => exact ihAgain read.1 (ihParted read.2 rests)
  | separatorBroken _ ih => exact ih read.2 rests
  | peek _ ih | ether _ ih | cursor _ ih => exact ih (read _) rests
  | advance _ ih => exact ih read (ParseState.rests_advance rests.within)
  | rewind | askRule | askRuleBroken | askPart | askPartBroken | askNoPart => exact read.elim

/-- Rules that call ones of a lower rank before anything is consumed, and consume something unless they
are `idle`. -/
structure ParseContext.Layered (context : ParseContext) (rank : String → Nat) (limit : Nat)
    (idle : List String) : Prop where
  onward : context.Onward
  below : ∀ name, rank name < limit
  lower : ∀ name body, get? name context.rules = some body →
    ∀ head ∈ body.heads idle, rank head < rank name
  idles : ∀ name body, get? name context.rules = some body →
    body.mayIdle idle = true → idle.contains name = true

def Task.mayIdle (idle : List String) : Task → Bool
  | .pattern whole => whole.mayIdle idle
  | .terms list _ => Pattern.mayIdle.allIdle idle list
  | .alternatives list => Pattern.mayIdle.anyIdle idle list
  | .rounds .. | .script .. => true

/-- The rules that the task may call before anything is consumed; a script that asks for nothing calls
none. -/
def Task.heads (idle : List String) : Task → List String
  | .pattern whole => whole.heads idle
  | .terms list _ => Pattern.heads.headsInTurn idle list
  | .alternatives list => Pattern.heads.headsOfAll idle list
  | .rounds body separator _ => body.heads idle ++ (separator.getD .empty).heads idle
  | .script .. => []

variable {rank : String → Nat} {limit : Nat} {idle : List String}

theorem matchKind_moves {kind : String} {state : ParseState} {value : Tree}
    (found : (context.matchKind kind state).1 = .matched value) :
    state.position < (context.matchKind kind state).2.position := by
  unfold matchKind at found ⊢
  split at found
  next token peeked =>
    split at found
    next fits =>
      have inside : state.cursor.position < context.tokens.size :=
        (Array.getElem?_eq_some_iff.mp peeked).1
      simp only [if_pos fits]
      exact (state.cursor.advance_spec (Nat.le_of_lt inside)).2.2 inside
    next => cases found
  next => cases found

theorem Evaluates.moves (layered : context.Layered rank limit idle) {task : Task}
    {state after : ParseState} {outcome : Outcome}
    (evaluates : Evaluates context task state outcome after)
    (read : task.ReadBy (fun reader => reader.script.Onward) Script.Onward)
    (within : state.position ≤ context.tokens.size) {value : Tree}
    (found : outcome = .matched value) (moves : task.mayIdle idle = false) :
    state.position < after.position := by
  induction evaluates generalizing value with
  | token => exact matchKind_moves found
  | missing | tooDeep | oneMissing | firstBroken | termFails | termBroken | noAlternatives
  | alternativeBroken => cases found
  | @rule name _ _ _ _ here _ _ ih =>
      refine ih (layered.onward.readers _ _ here) within found (Bool.eq_false_iff.mpr fun idles => ?_)
      exact Bool.eq_false_iff.mp moves (layered.idles name _ here idles)
  | sequence _ ih => exact ih read.terms within found moves
  | choice _ ih => exact ih read.alternatives within found moves
  | begun first rounds ihFirst _ =>
      have body := (Bool.or_eq_false_iff.mp moves).2
      have moved := ihFirst read.repetition.1 within rfl body
      have inside := (first.onward layered.onward read.repetition.1 within).1
      have forward := (rounds.onward layered.onward read.repetition inside).2 _ found
      omega
  | @ignore _ _ inner _ _ ih | @filter _ _ _ _ inner _ _ ih =>
      have read := read
      cases inner with
      | matched value => exact ih (read.of_subset (by simp [Pattern.walk])) within rfl moves
      | mismatch | broken => cases found
  | nextTerm first rest ihFirst ihRest =>
      have readRest : ∀ term ∈ _, _ := fun term member => read term (List.mem_cons_of_mem _ member)
      obtain ⟨inside, forward⟩ := first.onward layered.onward (read _ (by simp)) within
      have forward := forward _ rfl
      have forwardToo := (rest.onward layered.onward readRest inside).2 _ found
      rcases Bool.and_eq_false_iff.mp moves with moves | moves
      · have := ihFirst (read _ (by simp)) within rfl moves
        omega
      · have := ihRest readRest inside found moves
        omega
  | decided _ ih => exact ih (read _ (by simp)) within rfl (Bool.or_eq_false_iff.mp moves).1
  | nextAlternative _ _ _ ihRest =>
      exact ihRest (fun term member => read term (by simp [member])) within found
        (Bool.or_eq_false_iff.mp moves).2
  | noneFound | custom | empty | noTerms | nextRound | idleRound | lastBody | lastSeparator
  | bodyBroken | separatorBroken | yield | refuse | abandon | peek | ether | cursor | advance
  | rewind | askRule | askRuleBroken | askPart | askPartBroken | askNoPart => cases moves

abbrev ParseContext.hardLeft (context : ParseContext) (state : ParseState) : Nat :=
  (Cursor.remaining context.tokens state.position).length

/-- The levels that are taken, those of the ranks that the task may begin with, and a run through all
ranks for each hard token that is left make up no more than the total. -/
structure ParseContext.Affords (context : ParseContext) (rank : String → Nat) (limit : Nat)
    (idle : List String) (total : Nat) (task : Task) (state : ParseState) : Prop where
  read : task.ReadBy (fun reader => reader.script.Onward) Script.Onward
  rests : context.RestsAt state
  room : ∃ cap, (∀ head ∈ task.heads idle, rank head < cap) ∧
    state.depth + cap + limit * context.hardLeft state ≤ total

variable {total : Nat} {task inner : Task} {state begun middle : ParseState}

theorem ParseContext.Affords.later (layered : context.Layered rank limit idle)
    (affords : context.Affords rank limit idle total task state)
    (read : inner.ReadBy (fun reader => reader.script.Onward) Script.Onward)
    (depth : begun.depth = state.depth) (rests : context.RestsAt begun)
    (forward : state.position ≤ begun.position)
    (stays : begun.position = state.position → ∀ head ∈ inner.heads idle, head ∈ task.heads idle) :
    context.Affords rank limit idle total inner begun := by
  refine ⟨read, rests, ?_⟩
  obtain ⟨cap, heads, room⟩ := affords.room
  by_cases same : begun.position = state.position
  · refine ⟨cap, fun head member => heads head (stays same head member), ?_⟩
    rw [depth, ParseContext.hardLeft, same]
    exact room
  · refine ⟨limit, fun head _ => layered.below head, ?_⟩
    have lt : state.position < begun.position := by omega
    have fewer : context.hardLeft begun + 1 ≤ context.hardLeft state :=
      affords.rests.length_lt lt rests.within
    have paid := Nat.mul_le_mul_left limit fewer
    rw [Nat.mul_succ] at paid
    omega

theorem ParseContext.Affords.here (layered : context.Layered rank limit idle)
    (affords : context.Affords rank limit idle total task state)
    (read : inner.ReadBy (fun reader => reader.script.Onward) Script.Onward)
    (heads : ∀ head ∈ inner.heads idle, head ∈ task.heads idle) :
    context.Affords rank limit idle total inner state :=
  affords.later layered read rfl affords.rests (Nat.le_refl _) fun _ => heads

theorem ParseContext.Affords.after (layered : context.Layered rank limit idle)
    (affords : context.Affords rank limit idle total task state)
    (read : inner.ReadBy (fun reader => reader.script.Onward) Script.Onward) {first : Pattern}
    {value : Tree} (readFirst : first.Onward)
    (ran : Evaluates context (.pattern first) state (.matched value) middle)
    (heads : first.mayIdle idle = true → ∀ head ∈ inner.heads idle, head ∈ task.heads idle) :
    context.Affords rank limit idle total inner middle := by
  have forward := (ran.onward layered.onward readFirst affords.rests.within).2 _ rfl
  refine affords.later layered read ran.depth_eq (ran.rests layered.onward readFirst affords.rests)
    forward fun same => heads ?_
  by_contra moves
  have moved := ran.moves layered readFirst affords.rests.within rfl (Bool.eq_false_iff.mpr moves)
  omega

theorem Begins.affords (layered : context.Layered rank limit idle)
    (begins : Begins context (task, state) (inner, begun))
    (affords : context.Affords rank limit idle total task state) :
    context.Affords rank limit idle total inner begun := by
  have read := affords.read
  cases begins with
  | @rule name _ body found _ =>
      refine ⟨layered.onward.readers _ _ found, affords.rests, rank name,
        layered.lower name body found, ?_⟩
      obtain ⟨cap, heads, room⟩ := affords.room
      have below : rank name < cap := heads name (List.mem_singleton_self _)
      show state.depth + 1 + rank name + limit * context.hardLeft state ≤ total
      omega
  | sequence => exact affords.here layered read.terms fun _ => id
  | choice => exact affords.here layered read.alternatives fun _ => id
  | firstBody => exact affords.here layered read.repetition.1 fun _ => Pattern.mem_heads_body
  | firstRound first =>
      refine affords.after layered read.repetition read.repetition.1 first fun idles head member => ?_
      rcases List.mem_append.mp member with member | member
      · exact Pattern.mem_heads_body member
      · exact Pattern.mem_heads_separator idles member
  | ignore => exact affords.here layered read.ignored fun _ => id
  | filter => exact affords.here layered read.filtered fun _ => id
  | custom => exact affords.here layered read.reader nofun
  | firstTerm => exact affords.here layered (read _ (by simp)) fun _ => List.mem_append_left _
  | nextTerm first =>
      refine affords.after layered (fun term member => read term (by simp [member])) (read _ (by simp))
        first fun idles head member => List.mem_append_right _ ?_
      rwa [if_pos idles]
  | firstAlternative => exact affords.here layered (read _ (by simp)) fun _ => List.mem_append_left _
  | nextAlternative first =>
      exact affords.later layered (fun term member => read term (by simp [member])) first.depth_eq
        affords.rests (Nat.le_refl _) fun _ _ => List.mem_append_right _
  | separator => exact affords.here layered read.2 fun _ => List.mem_append_right _
  | nextBody parted =>
      exact affords.after layered read.1 read.2 parted fun _ _ => List.mem_append_left _
  | nextRound parted again moved =>
      have first : context.Affords rank limit idle total (.rounds _ _ []) _ :=
        affords.after layered read read.2 parted fun _ _ => id
      exact first.after layered read read.1 again fun _ _ => id
  | peek | ether | cursor => exact affords.here layered (read _) nofun
  | advance =>
      exact affords.later layered read rfl (ParseState.rests_advance affords.rests.within)
        (ParseState.advance_spec affords.rests.within).2 nofun
  | rewind | askRule | ruleAnswered | askPart | partAnswered | noPart => exact read.elim

theorem ParseContext.Affords.nestsWithin (layered : context.Layered rank limit idle)
    (affords : context.Affords rank limit idle total task state) :
    context.NestsWithin total task state := by
  intro last leads
  suffices afforded : context.Affords rank limit idle total last.1 last.2 by
    obtain ⟨cap, -, room⟩ := afforded.room
    omega
  induction leads with
  | refl => exact affords
  | tail _ begins ih => exact begins.affords layered ih

/-- A rule that is run at the start of some tokens nests through all ranks once for each hard token, and
once more at the end. -/
theorem ParseContext.Layered.nestsWithin (layered : context.Layered rank limit idle) (start : String)
    (traced : Bool) :
    context.NestsWithin (limit * ((context.tokens.toList.filter Token.isHard).length + 1))
      (.pattern (.rule start)) ⟨.start context.tokens traced, 0⟩ := by
  obtain ⟨rests, left⟩ := Cursor.start_spec context.tokens traced
  have affords : context.Affords rank limit idle
      (limit * ((context.tokens.toList.filter Token.isHard).length + 1)) (.pattern (.rule start))
      ⟨.start context.tokens traced, 0⟩ := by
    refine ⟨.of_rule, rests, limit, fun head _ => layered.below head, ?_⟩
    have count := congrArg List.length (Token.token_landedAfter [] context.tokens.toList)
    rw [List.length_map] at count
    show 0 + limit + limit *
      (Cursor.remaining context.tokens (Cursor.start context.tokens traced).position).length ≤ _
    rw [left, Token.landed, count, Nat.mul_succ]
    omega
  exact affords.nestsWithin layered

end Parlance
