import Parlance.Parse.Evaluate

/-! What a cursor has before it: the hard tokens that are left, each with the ether right before it.
Moving past ether does not change what is left, and two places of rest with the same left are one.
-/

namespace Parlance

/-- A hard token and the soft tokens between it and the hard token before it. -/
structure Landed where
  ether : List Token
  token : Token

namespace Token

def landedAfter (ether : List Token) : List Token → List Landed
  | [] => []
  | .soft text :: rest => landedAfter (ether ++ [.soft text]) rest
  | .hard kind text :: rest => ⟨ether, .hard kind text⟩ :: landedAfter [] rest

def landed (tokens : List Token) : List Landed := landedAfter [] tokens

theorem token_landedAfter (ether tokens : List Token) :
    (landedAfter ether tokens).map Landed.token = tokens.filter isHard := by
  induction tokens generalizing ether with
  | nil => rfl
  | cons token rest ih =>
      cases token with
      | soft text => exact ih _
      | hard kind text => exact congrArg _ (ih [])

end Token

namespace Cursor

variable {tokens : Array Token}

def etherAt (tokens : Array Token) (position : Nat) : List Token := etherEndingAt tokens position []

def remaining (tokens : Array Token) (position : Nat) : List Landed :=
  Token.landedAfter (etherAt tokens position) (tokens.toList.drop position)

/-- Within the tokens or at their end, and not at a soft token. -/
structure Rests (tokens : Array Token) (position : Nat) : Prop where
  within : position ≤ tokens.size
  hard : ∀ text, tokens[position]? ≠ some (.soft text)

theorem etherEndingAt_append (position : Nat) (collected : List Token) :
    etherEndingAt tokens position collected = etherEndingAt tokens position [] ++ collected := by
  induction position generalizing collected with
  | zero => rfl
  | succ position ih =>
      simp only [etherEndingAt]
      split
      · rw [ih, ih [_], List.append_assoc, List.singleton_append]
      · rfl

theorem etherAt_succ_soft {position : Nat} {text : String}
    (soft : tokens[position]? = some (.soft text)) :
    etherAt tokens (position + 1) = etherAt tokens position ++ [.soft text] := by
  unfold etherAt
  simp only [etherEndingAt, soft]
  exact etherEndingAt_append position _

theorem etherAt_succ_hard {position : Nat} {kind text : String}
    (hard : tokens[position]? = some (.hard kind text)) : etherAt tokens (position + 1) = [] := by
  unfold etherAt
  simp only [etherEndingAt, hard]

theorem drop_of_getElem? {position : Nat} {token : Token} (here : tokens[position]? = some token) :
    tokens.toList.drop position = token :: tokens.toList.drop (position + 1) := by
  obtain ⟨within, same⟩ := Array.getElem?_eq_some_iff.mp here
  rw [← same, ← Array.getElem_toList]
  exact List.drop_eq_getElem_cons _

theorem remaining_soft {position : Nat} {text : String}
    (soft : tokens[position]? = some (.soft text)) :
    remaining tokens (position + 1) = remaining tokens position := by
  unfold remaining
  rw [etherAt_succ_soft soft, drop_of_getElem? soft, Token.landedAfter]

theorem remaining_hard {position : Nat} {kind text : String}
    (hard : tokens[position]? = some (.hard kind text)) :
    remaining tokens position =
      ⟨etherAt tokens position, .hard kind text⟩ :: remaining tokens (position + 1) := by
  unfold remaining
  rw [etherAt_succ_hard hard, drop_of_getElem? hard, Token.landedAfter]

theorem remaining_end {position : Nat} (atEnd : tokens.size ≤ position) :
    remaining tokens position = [] := by
  unfold remaining
  rw [List.drop_eq_nil_of_le (by simpa using atEnd), Token.landedAfter]

theorem pastEther_spec {fuel position : Nat} (within : position ≤ tokens.size)
    (enough : tokens.size - position ≤ fuel) :
    Rests tokens (pastEther tokens fuel position) ∧
      remaining tokens (pastEther tokens fuel position) = remaining tokens position ∧
      position ≤ pastEther tokens fuel position := by
  induction fuel generalizing position with
  | zero =>
      have atEnd : tokens.size ≤ position := by omega
      refine ⟨⟨within, fun text soft => ?_⟩, rfl, Nat.le_refl _⟩
      rw [pastEther, Array.getElem?_eq_none atEnd] at soft
      cases soft
  | succ fuel ih =>
      simp only [pastEther]
      split
      next text soft =>
        have inside : position < tokens.size := (Array.getElem?_eq_some_iff.mp soft).1
        obtain ⟨rests, same, forward⟩ := ih (show position + 1 ≤ _ from inside) (by omega)
        exact ⟨rests, same.trans (remaining_soft soft), by omega⟩
      next hard => exact ⟨⟨within, hard⟩, rfl, Nat.le_refl _⟩

theorem restAt_spec {position : Nat} (cursor : Cursor) (within : position ≤ tokens.size) :
    Rests tokens (restAt tokens position cursor).position ∧
      remaining tokens (restAt tokens position cursor).position = remaining tokens position ∧
      position ≤ (restAt tokens position cursor).position :=
  pastEther_spec within (Nat.le_refl _)

theorem start_spec (tokens : Array Token) (traced : Bool) :
    Rests tokens (start tokens traced).position ∧
      remaining tokens (start tokens traced).position = Token.landed tokens.toList := by
  obtain ⟨rests, same, -⟩ := restAt_spec ⟨0, 0, if traced then some [] else none⟩
    (Nat.zero_le tokens.size)
  exact ⟨rests, same⟩

theorem highWater_start (tokens : Array Token) (traced : Bool) :
    (start tokens traced).highWater = (start tokens traced).position :=
  Nat.max_eq_right (Nat.zero_le _)

theorem advance_spec (cursor : Cursor) (within : cursor.position ≤ tokens.size) :
    Rests tokens (cursor.advance tokens).position ∧
      cursor.position ≤ (cursor.advance tokens).position ∧
      (cursor.position < tokens.size → cursor.position < (cursor.advance tokens).position) := by
  by_cases inside : cursor.position < tokens.size
  · obtain ⟨rests, -, forward⟩ := restAt_spec cursor inside
    rw [advance, if_pos inside]
    exact ⟨rests, Nat.le_of_succ_le forward, fun _ => forward⟩
  · obtain ⟨rests, -, forward⟩ := restAt_spec cursor within
    rw [advance, if_neg inside]
    exact ⟨rests, forward, fun inside' => absurd inside' inside⟩

/-- At rest a cursor is at the end, or at the first of the hard tokens that are left. -/
theorem Rests.cases {cursor : Cursor} (rests : Rests tokens cursor.position) :
    (cursor.position = tokens.size ∧ cursor.peek? tokens = none ∧
      remaining tokens cursor.position = []) ∨
    ∃ kind text, cursor.position < tokens.size ∧ cursor.peek? tokens = some (.hard kind text) ∧
      Rests tokens (cursor.advance tokens).position ∧
      remaining tokens cursor.position = ⟨cursor.ether tokens, .hard kind text⟩ ::
        remaining tokens (cursor.advance tokens).position := by
  cases here : tokens[cursor.position]? with
  | none =>
      have atEnd := Array.getElem?_eq_none_iff.mp here
      exact .inl ⟨Nat.le_antisymm rests.within atEnd, here, remaining_end atEnd⟩
  | some token =>
      cases token with
      | soft text => exact absurd here (rests.hard text)
      | hard kind text =>
          have inside : cursor.position < tokens.size := (Array.getElem?_eq_some_iff.mp here).1
          have ether : cursor.ether tokens = etherAt tokens cursor.position := by
            unfold Cursor.ether etherAt
            rw [Nat.min_eq_left rests.within]
          have moved : cursor.advance tokens = restAt tokens (cursor.position + 1) cursor := by
            unfold advance
            rw [if_pos inside]
          obtain ⟨restsToo, same, -⟩ := restAt_spec cursor inside
          refine .inr ⟨kind, text, inside, here, moved ▸ restsToo, ?_⟩
          rw [ether, moved, same]
          exact remaining_hard here

theorem length_remaining_anti {position later : Nat} (le : position ≤ later) :
    (remaining tokens later).length ≤ (remaining tokens position).length := by
  induction le with
  | refl => exact Nat.le_refl _
  | @step middle _ ih =>
      refine Nat.le_trans ?_ ih
      cases here : tokens[middle]? with
      | none =>
          have atEnd := Array.getElem?_eq_none_iff.mp here
          rw [remaining_end (Nat.le_succ_of_le atEnd)]
          exact Nat.zero_le _
      | some token =>
          cases token with
          | soft text => exact Nat.le_of_eq (congrArg _ (remaining_soft here))
          | hard kind text => rw [remaining_hard here]; exact Nat.le_succ _

theorem Rests.length_lt {position later : Nat} (rests : Rests tokens position)
    (lt : position < later) (within : later ≤ tokens.size) :
    (remaining tokens later).length < (remaining tokens position).length := by
  have inside : position < tokens.size := by omega
  cases here : tokens[position] with
  | soft text => exact absurd (Array.getElem?_eq_some_iff.mpr ⟨inside, here⟩) (rests.hard text)
  | hard kind text =>
      have fewer : (remaining tokens later).length ≤ (remaining tokens (position + 1)).length :=
        length_remaining_anti lt
      rw [remaining_hard (Array.getElem?_eq_some_iff.mpr ⟨inside, here⟩), List.length_cons]
      omega

theorem Rests.eq_of_length {position other : Nat} (rests : Rests tokens position)
    (restsToo : Rests tokens other)
    (same : (remaining tokens position).length = (remaining tokens other).length) :
    position = other := by
  rcases Nat.lt_trichotomy position other with lt | eq | gt
  · exact absurd same (Nat.ne_of_gt (rests.length_lt lt restsToo.within))
  · exact eq
  · exact absurd same.symm (Nat.ne_of_gt (restsToo.length_lt gt rests.within))

theorem Rests.atEnd_iff {cursor : Cursor} (rests : Rests tokens cursor.position) :
    cursor.atEnd tokens = true ↔ remaining tokens cursor.position = [] := by
  unfold atEnd
  rw [decide_eq_true_iff]
  rcases rests.cases with ⟨atEnd, -, none⟩ | ⟨kind, text, inside, -, -, some⟩
  · simp only [none, iff_true]
    exact Nat.le_of_eq atEnd.symm
  · simp [some, inside]

end Cursor

end Parlance
