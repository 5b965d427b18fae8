import Mathlib.Data.List.Basic
import Mathlib.Data.String.Basic
import Parlance.Proofs.Token.Lexemes
import Parlance.Proofs.Token.Trie
import Parlance.Token.Lexicon

/-! How a source is read. The lexer is always seated between two characters; a turn takes some of the
characters behind its seat, however far an unrecognised span goes, and seats it behind them. With the
lexer of the lexemes the tokens are those that are cut off the text one by one. -/

namespace Parlance

open Text

namespace Token

def chars (tokens : List Token) : List Char := tokens.flatMap fun token => token.text.toList

@[simp] theorem chars_nil : chars [] = [] := rfl

@[simp] theorem chars_cons (token : Token) (tokens : List Token) :
    chars (token :: tokens) = token.text.toList ++ chars tokens := rfl

@[simp] theorem chars_append (first second : List Token) :
    chars (first ++ second) = chars first ++ chars second :=
  List.flatMap_append

theorem toList_join (tokens : List Token) : (join tokens).toList = chars tokens := by
  rw [join, String.toList_join, List.flatMap_map, chars]

end Token

/-- A lexer ends at the end of its text and nowhere before, a span starts where the lexer stands, and
a span of a class is some characters from there. Where an unrecognised span stops is left open. -/
structure Lexer.Lawful (lexer : Lexer) : Prop where
  ends (before rest : List Char) : lexer.next (before ++ rest) (byteSize before) = none ↔ rest = []
  starts {before rest : List Char} {found : Option LexemeClass} {span : Span}
    (scanned : lexer.next (before ++ rest) (byteSize before) = some (found, span)) :
    span.start = byteSize before
  recognises {before rest : List Char} {lexemeClass : LexemeClass} {span : Span}
    (scanned : lexer.next (before ++ rest) (byteSize before) = some (some lexemeClass, span)) :
    ∃ piece after, piece ≠ [] ∧ rest = piece ++ after ∧ span.stop = span.start + byteSize piece

theorem Lexeme.scan?_pos {text : List Char} {lexemeClass : LexemeClass} {length : Nat}
    (scanned : scan? text = some (lexemeClass, length)) : 0 < length := by
  unfold scan? at scanned
  split at scanned
  next => cases scanned
  next => cases scanned; omega
  next => cases scanned; omega
  next first rest _ _ =>
    split at scanned
    next blank =>
      cases scanned
      rw [List.takeWhile_cons_of_pos blank]
      exact Nat.succ_pos _
    split at scanned
    next digit =>
      cases scanned
      exact numberLength_pos digit rest
    split at scanned
    next => cases scanned; omega
    split at scanned
    next =>
      obtain ⟨inner, -, same⟩ := Option.map_eq_some_iff.mp scanned
      cases same
      omega
    next => cases scanned

theorem Lexeme.lexer_next (lost : List Char → Nat) (before : List Char) (first : Char)
    (rest : List Char) :
    (lexer lost).next (before ++ first :: rest) (byteSize before) =
      match scan? (first :: rest) with
      | some (lexemeClass, length) =>
          some (some lexemeClass,
            ⟨byteSize before, byteSize before + byteSize ((first :: rest).take length)⟩)
      | none => some (none, ⟨byteSize before, byteSize before + lost (first :: rest)⟩) := by
  cases scanned : scan? (first :: rest) <;> simp [lexer, after?_append, scanned]

theorem Lexeme.lawful_lexer (lost : List Char → Nat) : (lexer lost).Lawful where
  ends before rest := by
    cases rest with
    | nil => simp only [lexer, after?_append]
    | cons first rest =>
        rw [lexer_next]
        cases scan? (first :: rest) <;> simp
  starts {before rest found span} scanned := by
    cases rest with
    | nil => simp only [lexer, after?_append, reduceCtorEq] at scanned
    | cons first rest =>
        rw [lexer_next] at scanned
        split at scanned <;> cases scanned <;> rfl
  recognises {before rest lexemeClass span} scanned := by
    cases rest with
    | nil => simp only [lexer, after?_append, reduceCtorEq] at scanned
    | cons first rest =>
        rw [lexer_next] at scanned
        split at scanned
        next found length here =>
          cases scanned
          have positive := scan?_pos here
          refine ⟨(first :: rest).take length, (first :: rest).drop length, ?_,
            (List.take_append_drop ..).symm, rfl⟩
          simp [List.take_eq_nil_iff, Nat.ne_of_gt positive]
        next => cases scanned

namespace Lexicon

/-- The lexer is seated behind the characters. -/
def Seat.Behind (seat : Seat) (before : List Char) : Prop :=
  ∃ skipped read, before = skipped ++ read ∧ seat = ⟨byteSize skipped, byteSize read⟩

theorem Seat.behind_nil : Behind ⟨0, 0⟩ [] := ⟨[], [], rfl, rfl⟩

def recovered (trie : Trie) (first : Char) (rest : List Char) : Token :=
  match trie.munch (first :: rest) with
  | [] => .soft first.toString
  | matched => .literal (String.ofList matched)

variable (lexicon : Lexicon) (trie : Trie) {lexer : Lexer} {seat : Seat} {before rest : List Char}

theorem text_recovered (first : Char) (rest : List Char) :
    ∃ more after, (recovered trie first rest).text.toList = first :: more ∧
      rest = more ++ after := by
  have whole := trie.munch_append_drop (first :: rest)
  cases munched : trie.munch (first :: rest) with
  | nil => exact ⟨[], rest, by simp [recovered, munched, Token.text], rfl⟩
  | cons char more =>
      rw [munched, List.cons_append] at whole
      obtain ⟨rfl, whole⟩ := List.cons.inj whole
      exact ⟨more, _, by simp [recovered, munched, Token.text, Token.literal], whole.symm⟩

theorem recover_cons (first : Char) (rest : List Char) :
    recover trie (first :: rest) =
      some (recovered trie first rest, byteSize (recovered trie first rest).text.toList) := by
  have size := trie.munchSize_eq (first :: rest)
  cases munched : trie.munch (first :: rest) with
  | nil =>
      rw [munched, byteSize] at size
      have char : slice? 0 first.utf8Size (first :: rest) = some [first] := slice?_prefix [first] rest
      simp [recover, recovered, size, munched, byteSize, char, Token.text]
  | cons char more =>
      have whole := trie.munch_append_drop (first :: rest)
      rw [munched] at size whole
      have word := slice?_prefix (char :: more) ((first :: rest).drop (char :: more).length)
      rw [whole] at word
      obtain ⟨width, positive⟩ :=
        Nat.exists_eq_add_one.mpr (byteSize_pos (List.cons_ne_nil char more))
      rw [positive] at size word
      simp only [recover, size, word, recovered, munched, Option.map_some, Token.literal, Token.text,
        String.toList_ofList, positive]

@[simp] theorem text_classify (lexemeClass : LexemeClass) (text : String) :
    (lexicon.classify lexemeClass text).text = text := by
  cases lexemeClass <;> simp only [classify] <;> try rfl
  split <;> rfl

theorem Seat.Behind.text (seated : seat.Behind before) (rest : List Char) :
    ∃ read, after? seat.base (before ++ rest) = some (read ++ rest) ∧ seat.position = byteSize read := by
  obtain ⟨skipped, read, rfl, rfl⟩ := seated
  exact ⟨read, by rw [List.append_assoc, after?_append], rfl⟩

theorem turn_recognised (lexemeClass : LexemeClass) (span : Span) (seated : seat.Behind before)
    (starts : span.start = seat.position) {piece : List Char}
    (stops : span.stop = span.start + byteSize piece) (after : List Char) :
    ∃ next : Seat, next.Behind (before ++ piece) ∧
      lexicon.turn trie (before ++ (piece ++ after)) seat (some lexemeClass, span) =
        some (lexicon.classify lexemeClass (String.ofList piece), next) := by
  obtain ⟨skipped, read, rfl, rfl⟩ := seated
  have start : byteSize skipped + span.start = byteSize (skipped ++ read) := by
    rw [starts, byteSize_append]
  refine ⟨⟨byteSize skipped, span.stop⟩, ⟨skipped, read ++ piece, ?_, ?_⟩, ?_⟩
  · exact List.append_assoc ..
  · rw [stops, starts, byteSize_append]
  · simp only [turn, stops, ← Nat.add_assoc, start, slice?_append, Option.map_some]

/-- However far the span goes, the turn takes what can be recovered and goes on behind it. -/
theorem turn_unrecognised (span : Span) (seated : seat.Behind before)
    (starts : span.start = seat.position) (first : Char) (rest : List Char) :
    ∃ next : Seat, next.Behind (before ++ (recovered trie first rest).text.toList) ∧
      lexicon.turn trie (before ++ first :: rest) seat (none, span) =
        some (recovered trie first rest, next) := by
  obtain ⟨skipped, read, rfl, rfl⟩ := seated
  have start : byteSize skipped + span.start = byteSize (skipped ++ read) := by
    rw [starts, byteSize_append]
  simp only [turn, start, after?_append, Option.bind_eq_bind, Option.bind_some, recover_cons]
  generalize recovered trie first rest = token
  split
  next ends =>
    refine ⟨_, ⟨skipped, read ++ token.text.toList, List.append_assoc .., ?_⟩, rfl⟩
    rw [byteSize_append] at ends ⊢
    congr 1
    omega
  next =>
    exact ⟨_, ⟨skipped ++ read ++ token.text.toList, [], (List.append_nil _).symm,
      by rw [byteSize_append (skipped ++ read)]; rfl⟩, rfl⟩

theorem turns_end (lawful : lexer.Lawful) (seated : seat.Behind before) (count : Nat) :
    lexicon.turns lexer trie before (count + 1) seat = some [] := by
  obtain ⟨read, here, position⟩ := seated.text []
  rw [List.append_nil, List.append_nil] at here
  have ended := (lawful.ends read []).mpr rfl
  rw [List.append_nil, ← position] at ended
  simp [turns, here, ended]

theorem turns_cons {source text : List Char} {scanned : Option LexemeClass × Span} {token : Token}
    {next : Seat} (here : after? seat.base source = some text)
    (scan : lexer.next text seat.position = some scanned)
    (turned : lexicon.turn trie source seat scanned = some (token, next)) (count : Nat) :
    lexicon.turns lexer trie source (count + 1) seat =
      (lexicon.turns lexer trie source count next).map (token :: ·) := by
  simp only [turns, here, scan, turned, Option.bind_eq_bind, Option.bind_some]
  cases lexicon.turns lexer trie source count next <;> rfl

theorem turns_takes (lawful : lexer.Lawful) (seated : seat.Behind before) (some : rest ≠ []) :
    ∃ token after, ∃ next : Seat, token.text.toList ≠ [] ∧ rest = token.text.toList ++ after ∧
      next.Behind (before ++ token.text.toList) ∧ ∀ count,
        lexicon.turns lexer trie (before ++ rest) (count + 1) seat =
          (lexicon.turns lexer trie (before ++ rest) count next).map (token :: ·) := by
  obtain ⟨read, here, position⟩ := seated.text rest
  cases scan : lexer.next (read ++ rest) (byteSize read) with
  | none => exact absurd ((lawful.ends read rest).mp scan) some
  | some scanned =>
      obtain ⟨found, span⟩ := scanned
      have starts : span.start = seat.position := (lawful.starts scan).trans position.symm
      cases found with
      | some lexemeClass =>
          obtain ⟨piece, after, nonempty, rfl, stops⟩ := lawful.recognises scan
          obtain ⟨next, behind, turned⟩ :=
            lexicon.turn_recognised trie lexemeClass span seated starts stops after
          have text : (lexicon.classify lexemeClass (String.ofList piece)).text.toList = piece := by
            rw [text_classify, String.toList_ofList]
          refine ⟨_, after, next, by rwa [text], by rw [text], by rwa [text], ?_⟩
          exact lexicon.turns_cons trie here (position ▸ scan) turned
      | none =>
          obtain ⟨first, more, rfl⟩ := List.exists_cons_of_ne_nil some
          obtain ⟨next, behind, turned⟩ :=
            lexicon.turn_unrecognised trie span seated starts first more
          obtain ⟨taken, after, text, rfl⟩ := text_recovered trie first more
          refine ⟨_, after, next, by simp [text], by simp [text], behind, ?_⟩
          exact lexicon.turns_cons trie here (position ▸ scan) turned

/-- Enough turns come to the end, and the tokens are what was left of the source. -/
theorem turns_lossless (lawful : lexer.Lawful) (seated : seat.Behind before) {count : Nat}
    (enough : byteSize rest < count) :
    ∃ tokens, lexicon.turns lexer trie (before ++ rest) count seat = some tokens ∧
      (∀ token ∈ tokens, token.text.toList ≠ []) ∧ Token.chars tokens = rest := by
  -- The count bounds the bytes that are left, and each turn takes one of them at least.
  induction count generalizing seat before rest with
  | zero => omega
  | succ count ih =>
      by_cases left : rest = []
      · subst left
        exact ⟨[], by rw [List.append_nil, lexicon.turns_end trie lawful seated], nofun, rfl⟩
      obtain ⟨token, after, next, nonempty, rfl, behind, turned⟩ :=
        lexicon.turns_takes trie lawful seated left
      have fewer := byteSize_pos nonempty
      rw [byteSize_append] at enough
      obtain ⟨tokens, ran, each, whole⟩ := @ih _ _ after behind (by omega)
      refine ⟨token :: tokens, ?_, List.forall_mem_cons.mpr ⟨nonempty, each⟩, ?_⟩
      · rw [turned, ← List.append_assoc, ran]
        rfl
      · rw [Token.chars_cons, whole]

/-- The token at the start of a text that is not empty. Where no lexeme starts, a punctuator does if
the trie can follow the first character, and else that character alone is ether. -/
def next (lexicon : Lexicon) (trie : Trie) (first : Char) (rest : List Char) : Token :=
  match Lexeme.scan? (first :: rest) with
  | some (lexemeClass, length) =>
      lexicon.classify lexemeClass (String.ofList ((first :: rest).take length))
  | none => recovered trie first rest

theorem text_next (first : Char) (rest : List Char) :
    ∃ more after, (lexicon.next trie first rest).text.toList = first :: more ∧
      rest = more ++ after := by
  cases scanned : Lexeme.scan? (first :: rest) with
  | some lexeme =>
      obtain ⟨lexemeClass, length⟩ := lexeme
      have positive := Lexeme.scan?_pos scanned
      obtain ⟨length, rfl⟩ := Nat.exists_eq_succ_of_ne_zero (Nat.ne_of_gt positive)
      refine ⟨rest.take length, rest.drop length, ?_, (List.take_append_drop length rest).symm⟩
      simp [next, scanned]
  | none => simpa only [next, scanned] using text_recovered trie first rest

/-- The tokens of a text after its first `skip` characters. -/
def tokensFrom (lexicon : Lexicon) (trie : Trie) : Nat → List Char → List Token
  | _, [] => []
  | skip + 1, _ :: rest => tokensFrom lexicon trie skip rest
  | 0, first :: rest =>
      let token := lexicon.next trie first rest
      token :: tokensFrom lexicon trie (token.text.length - 1) rest

theorem tokensFrom_drop (skip : Nat) (text : List Char) :
    lexicon.tokensFrom trie skip text = lexicon.tokensFrom trie 0 (text.drop skip) := by
  induction text generalizing skip with
  | nil => simp [tokensFrom]
  | cons first rest ih =>
      cases skip with
      | zero => rfl
      | succ skip => simpa [tokensFrom] using ih skip

theorem turn_next (lost : List Char → Nat) (seated : seat.Behind before) (first : Char)
    (rest : List Char) :
    ∃ next : Seat, next.Behind (before ++ (lexicon.next trie first rest).text.toList) ∧ ∀ count,
      lexicon.turns (Lexeme.lexer lost) trie (before ++ first :: rest) (count + 1) seat =
        (lexicon.turns (Lexeme.lexer lost) trie (before ++ first :: rest) count next).map
          (lexicon.next trie first rest :: ·) := by
  obtain ⟨read, here, position⟩ := seated.text (first :: rest)
  have scan := Lexeme.lexer_next lost read first rest
  rw [← position] at scan
  cases scanned : Lexeme.scan? (first :: rest) with
  | some lexeme =>
      obtain ⟨lexemeClass, length⟩ := lexeme
      rw [scanned] at scan
      obtain ⟨next, behind, turned⟩ := lexicon.turn_recognised trie lexemeClass
        ⟨seat.position, seat.position + byteSize ((first :: rest).take length)⟩ seated rfl rfl
        ((first :: rest).drop length)
      rw [List.take_append_drop] at turned
      simp only [Lexicon.next, scanned, text_classify, String.toList_ofList]
      exact ⟨next, behind, lexicon.turns_cons trie here scan turned⟩
  | none =>
      rw [scanned] at scan
      obtain ⟨next, behind, turned⟩ := lexicon.turn_unrecognised trie
        ⟨seat.position, seat.position + lost (first :: rest)⟩ seated rfl first rest
      simp only [Lexicon.next, scanned]
      exact ⟨next, behind, lexicon.turns_cons trie here scan turned⟩

theorem turns_tokensFrom (lost : List Char → Nat) (seated : seat.Behind before) {count : Nat}
    (enough : byteSize rest < count) :
    lexicon.turns (Lexeme.lexer lost) trie (before ++ rest) count seat =
      some (lexicon.tokensFrom trie 0 rest) := by
  induction count generalizing seat before rest with
  | zero => omega
  | succ count ih =>
      cases rest with
      | nil => rw [List.append_nil, lexicon.turns_end trie (Lexeme.lawful_lexer lost) seated, tokensFrom]
      | cons first rest =>
          obtain ⟨seat, behind, turned⟩ := lexicon.turn_next trie lost seated first rest
          obtain ⟨more, after, text, rfl⟩ := lexicon.text_next trie first rest
          have skipped : (lexicon.next trie first (more ++ after)).text.length - 1 =
              more.length := by
            rw [← String.length_toList, text]
            rfl
          have fewer : byteSize after < count := by
            have positive := byteSize_pos (List.cons_ne_nil first more)
            rw [← List.cons_append, byteSize_append] at enough
            omega
          rw [turned, tokensFrom, skipped, tokensFrom_drop, List.drop_left, ← List.cons_append, ← text,
            ← List.append_assoc, ih behind fewer]
          rfl

theorem tokenizeWith_lexer (lost : List Char → Nat) (source : String) :
    lexicon.tokenizeWith (Lexeme.lexer lost) source =
      some (lexicon.tokensFrom lexicon.trie 0 source.toList) :=
  lexicon.turns_tokensFrom lexicon.trie lost Seat.behind_nil (Nat.lt_succ_self _)

theorem tokenize_eq (source : String) :
    lexicon.tokenize source = lexicon.tokensFrom lexicon.trie 0 source.toList := by
  rw [tokenize, tokenizeWith_lexer]
  rfl

end Lexicon

end Parlance
