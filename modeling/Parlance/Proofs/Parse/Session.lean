import Parlance.Proofs.Parse.Reached

/-! Sessions: a client moves a cursor about, on or back to where it has been, and asks what is there.
Whatever it does, the cursor is at rest, the high-water mark and the log tell where it has been, and the
ether before it is all the ether that there is. -/

namespace Parlance.Cursor

variable {tokens : Array Token} {traced : Bool}

theorem log_advance (cursor : Cursor) : (cursor.advance tokens).log =
    cursor.log.map ((cursor.advance tokens).position :: ·) := rfl

/-- What a client wants of a cursor: to be moved, or to tell what is there. -/
inductive Request where
  | advance
  | rewind (mark : Nat)
  | peek
  | atEnd
  | ether

def Request.serve (tokens : Array Token) (cursor : Cursor) : Request → Cursor
  | .advance => cursor.advance tokens
  | .rewind mark => cursor.rewind mark
  | .peek | .atEnd | .ether => cursor

/-- A cursor, and all positions at which the client has found it, the latest first. -/
structure Session where
  cursor : Cursor
  seen : List Nat

namespace Session

variable {session : Session} {request : Request} {requests : List Request}

def opened (tokens : Array Token) (traced : Bool) : Session :=
  ⟨start tokens traced, [(start tokens traced).position]⟩

def serve (tokens : Array Token) (session : Session) (request : Request) : Session :=
  let cursor := request.serve tokens session.cursor
  ⟨cursor, cursor.position :: session.seen⟩

def serveAll (tokens : Array Token) (session : Session) (requests : List Request) : Session :=
  requests.foldl (serve tokens) session

def Allows (session : Session) : Request → Prop
  | .rewind mark => mark ∈ session.seen
  | .advance | .peek | .atEnd | .ether => True

instance : ∀ request, Decidable (session.Allows request)
  | .rewind mark => inferInstanceAs (Decidable (mark ∈ session.seen))
  | .advance | .peek | .atEnd | .ether => inferInstanceAs (Decidable True)

/-- Each request is allowed when its turn comes. -/
def AllowsAll (tokens : Array Token) (session : Session) : List Request → Prop
  | [] => True
  | request :: rest => session.Allows request ∧ (session.serve tokens request).AllowsAll tokens rest

instance decidableAllowsAll : ∀ (session : Session) (requests : List Request),
    Decidable (session.AllowsAll tokens requests)
  | _, [] => inferInstanceAs (Decidable True)
  | session, request :: rest =>
      have := decidableAllowsAll (session.serve tokens request) rest
      inferInstanceAs (Decidable (_ ∧ _))

/-- The cursor has been found where it is, and only at places of rest; the high-water mark is the
furthest of them, and a log holds just these. -/
structure Sound (tokens : Array Token) (traced : Bool) (session : Session) : Prop where
  here : session.cursor.position ∈ session.seen
  rests : ∀ position ∈ session.seen, Rests tokens position
  peak : IsGreatest {position | position ∈ session.seen} session.cursor.highWater
  logging : session.cursor.log.isSome = traced
  logged : ∀ log, session.cursor.log = some log →
    ∀ position, position ∈ log ↔ position ∈ session.seen

theorem sound_opened (tokens : Array Token) (traced : Bool) :
    (opened tokens traced).Sound tokens traced where
  here := List.mem_singleton_self _
  rests position member := List.mem_singleton.mp member ▸ (start_spec tokens traced).1
  peak := by
    have only : {position | position ∈ (opened tokens traced).seen} =
        {(start tokens traced).position} := Set.ext fun _ => List.mem_singleton
    exact only ▸ isGreatest_start tokens traced
  logging := by cases traced <;> rfl
  logged log logs position := by
    cases traced with
    | false => cases logs
    | true => cases logs; rfl

theorem Sound.advance (sound : session.Sound tokens traced) :
    (session.serve tokens .advance).Sound tokens traced where
  here := List.mem_cons_self
  rests position member := by
    rcases List.mem_cons.mp member with rfl | member
    · exact (session.cursor.advance_spec (sound.rests _ sound.here).within).1
    · exact sound.rests position member
  peak := by
    have one : {position | position ∈ (session.serve tokens .advance).seen} =
        insert (session.cursor.advance tokens).position {position | position ∈ session.seen} :=
      Set.ext fun _ => List.mem_cons
    exact one ▸ isGreatest_advance sound.peak
  logging := Option.isSome_map.trans sound.logging
  logged log logs position := by
    obtain ⟨earlier, kept, rfl⟩ := Option.map_eq_some_iff.mp ((log_advance _).symm.trans logs)
    exact List.mem_cons.trans ((or_congr_right (sound.logged earlier kept position)).trans
      List.mem_cons.symm)

theorem Sound.found (sound : session.Sound tokens traced) {position : Nat}
    (member : position ∈ session.seen) :
    Sound tokens traced ⟨session.cursor.rewind position, position :: session.seen⟩ := by
  have same (other : Nat) : other ∈ position :: session.seen ↔ other ∈ session.seen :=
    List.mem_cons.trans (or_iff_right_of_imp fun equal => equal ▸ member)
  refine ⟨List.mem_cons_self, fun other among => sound.rests other ((same other).mp among), ?_,
    sound.logging, fun log logs other => (sound.logged log logs other).trans (same other).symm⟩
  simp only [same]
  exact sound.peak

theorem Sound.serve (sound : session.Sound tokens traced) (allowed : session.Allows request) :
    (session.serve tokens request).Sound tokens traced := by
  cases request with
  | advance => exact sound.advance
  | rewind mark => exact sound.found allowed
  | peek | atEnd | ether => exact sound.found sound.here

theorem Sound.serveAll (sound : session.Sound tokens traced)
    (allowed : session.AllowsAll tokens requests) :
    (session.serveAll tokens requests).Sound tokens traced := by
  induction requests generalizing session with
  | nil => exact sound
  | cons request rest ih => exact ih (sound.serve allowed.1) allowed.2

end Session

def Request.script : List Request → Script
  | [] => .yield .null
  | .advance :: rest => .advance (script rest)
  | .rewind mark :: rest => .rewind mark (script rest)
  | .peek :: rest | .atEnd :: rest => .peek fun _ => script rest
  | .ether :: rest => .ether fun _ => script rest

theorem Session.runScript_requests (context : ParseContext) (run : Runner) (parts : List Pattern)
    (requests : List Request) (session : Session) (depth : Nat) :
    context.runScript run parts (Request.script requests) ⟨session.cursor, depth⟩ =
      some (.matched .null, ⟨(session.serveAll context.tokens requests).cursor, depth⟩) := by
  induction requests generalizing session with
  | nil => rfl
  | cons request rest ih =>
      have next := ih (session.serve context.tokens request)
      cases request <;> exact next

theorem etherAt_run {position : Nat} (within : position ≤ tokens.size) :
    ∃ before, tokens.toList.take position = before ++ etherAt tokens position ∧
      (∀ token ∈ etherAt tokens position, token.isSoft = true) ∧
      ∀ last ∈ before.getLast?, last.isHard = true := by
  induction position with
  | zero => exact ⟨[], rfl, nofun, nofun⟩
  | succ position ih =>
      have taken : tokens.toList.take (position + 1) =
          tokens.toList.take position ++ [tokens[position]] := by
        rw [List.take_succ_eq_append_getElem within, Array.getElem_toList]
      rw [taken]
      have there := Array.getElem?_eq_getElem within
      cases here : tokens[position] with
      | soft text =>
          obtain ⟨before, same, soft, hard⟩ := ih (Nat.le_of_succ_le within)
          rw [etherAt_succ_soft (there.trans (congrArg some here)), same, List.append_assoc]
          refine ⟨before, rfl, fun token member => ?_, hard⟩
          rcases List.mem_append.mp member with member | member
          · exact soft token member
          · rw [List.mem_singleton.mp member]
            rfl
      | hard kind text =>
          rw [etherAt_succ_hard (there.trans (congrArg some here))]
          refine ⟨_, (List.append_nil _).symm, nofun, fun last ends => ?_⟩
          rw [List.getLast?_concat, Option.mem_some_iff] at ends
          exact ends ▸ rfl

/-- However a client moves a cursor on, at the end too, and back to where it has found it: the cursor
is on a hard token or at the end, the high-water mark is the furthest position at which it was found and
the furthest entry of the log, if there is one; that holds all positions at which it was found; and the
ether before the cursor is the longest run of soft tokens that ends there. -/
theorem requests_keep_marks {requests : List Request}
    (allowed : (Session.opened tokens traced).AllowsAll tokens requests) :
    let session := (Session.opened tokens traced).serveAll tokens requests
    let cursor := session.cursor
    (cursor.position = tokens.size ∨
      ∃ kind text, tokens[cursor.position]? = some (.hard kind text)) ∧
    IsGreatest {position | position ∈ session.seen} cursor.highWater ∧
    cursor.trace?.isSome = traced ∧
    (∀ log, cursor.trace? = some log →
      IsGreatest {position | position ∈ log} cursor.highWater ∧
      ∀ position ∈ session.seen, position ∈ log) ∧
    ∃ before, tokens.toList.take cursor.position = before ++ cursor.ether tokens ∧
      (∀ token ∈ cursor.ether tokens, token.isSoft = true) ∧
      ∀ last ∈ before.getLast?, last.isHard = true := by
  intro session cursor
  have sound : session.Sound tokens traced := (Session.sound_opened tokens traced).serveAll allowed
  have rests : Rests tokens cursor.position := sound.rests _ sound.here
  refine ⟨?_, sound.peak, Option.isSome_map.trans sound.logging, fun log logs => ?_, ?_⟩
  · rcases rests.cases with ⟨atEnd, -, -⟩ | ⟨kind, text, -, here, -, -⟩
    · exact .inl atEnd
    · exact .inr ⟨kind, text, here⟩
  · obtain ⟨kept, held, rfl⟩ := Option.map_eq_some_iff.mp logs
    simp only [List.mem_reverse, sound.logged kept held]
    exact ⟨sound.peak, fun position => id⟩
  · have ether : cursor.ether tokens = etherAt tokens cursor.position := by
      rw [Cursor.ether, etherAt, Nat.min_eq_left rests.within]
    rw [ether]
    exact etherAt_run rests.within

/-- The client meets the end twice and goes back behind a comment. -/
theorem requests_keep_marks_behindComment :
    let tokens : Array Token := #[.soft " ", .hard "Identifier" "a", .soft " ", .soft "// c\n",
      .literal "+", .hard "Identifier" "b", .soft "\n"]
    let requests : List Request :=
      [.advance, .peek, .advance, .advance, .atEnd, .advance, .rewind 4, .ether]
    let session := (Session.opened tokens true).serveAll tokens requests
    (Session.opened tokens true).AllowsAll tokens requests ∧
      session.cursor = ⟨4, 7, some [7, 7, 5, 4, 1]⟩ ∧
      IsGreatest {position | position ∈ session.seen} 7 ∧
      ∃ before, tokens.toList.take 4 = before ++ [.soft " ", .soft "// c\n"] ∧
        ∀ last ∈ before.getLast?, last.isHard = true := by
  intro tokens requests session
  have allowed : (Session.opened tokens true).AllowsAll tokens requests := by decide
  have moved : session.cursor = ⟨4, 7, some [7, 7, 5, 4, 1]⟩ := by decide
  obtain ⟨-, peak, -, -, before, taken, -, hard⟩ := requests_keep_marks allowed
  have ether : session.cursor.ether tokens = [.soft " ", .soft "// c\n"] := by
    rw [moved]
    rfl
  refine ⟨allowed, moved, ?_, before, ?_, hard⟩
  · have mark : session.cursor.highWater = 7 := by rw [moved]
    exact mark ▸ peak
  · have place : session.cursor.position = 4 := by rw [moved]
    rw [← ether, ← place]
    exact taken

end Parlance.Cursor
