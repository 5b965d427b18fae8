import Parlance.Proofs.Builtin.Lexicon
import Parlance.Proofs.Builtin.Written

/-! Expressions and statements that are written out are read as the tokens they were written from,
but for whole numbers before the dots of members. -/

namespace Parlance.Builtin

open Lexeme (Stops stops_cons isWhitespace isWordPart isWordStart)
open Lexicon (IsClass Rereads rereads_append)
open Token (chars clashes clashes_append clashes_cons)

variable {source : Lexicon} {sugar : Bool} {unit : String} {form : Form} {part : Part} {level : Nat}
  {tree : Tree} {tokens more : List Token} {word : String} {following : List Char}

def Begins (kind : Char → Bool) (tokens : List Token) : Prop :=
  ∃ first rest, chars tokens = first :: rest ∧ kind first = true

theorem Begins.append {kind : Char → Bool} (begins : Begins kind tokens) (more : List Token) :
    Begins kind (tokens ++ more) := by
  obtain ⟨first, rest, same, isKind⟩ := begins
  exact ⟨first, rest ++ chars more, by rw [Token.chars_append, same, List.cons_append], isKind⟩

theorem Begins.mono {kind wider : Char → Bool} (begins : Begins kind tokens)
    (sub : ∀ char, kind char = true → wider char = true) : Begins wider tokens := by
  obtain ⟨first, rest, same, isKind⟩ := begins
  exact ⟨first, rest, same, sub first isKind⟩

theorem Begins.stops {kind other : Char → Bool} (begins : Begins kind tokens)
    (apart : ∀ char, other char = true → kind char = false) (following : List Char) :
    Stops other (chars tokens ++ following) := by
  obtain ⟨first, rest, same, isKind⟩ := begins
  rw [same, List.cons_append, stops_cons]
  by_contra isOther
  have differs := apart first (by simpa using isOther)
  rw [isKind] at differs
  cases differs

theorem begins_cons {kind : Char → Bool} {token : Token}
    (isKind : token.text.toList.head?.any kind = true) (rest : List Token) :
    Begins kind (token :: rest) := by
  cases same : token.text.toList with
  | nil => simp [same] at isKind
  | cons first more =>
      rw [same] at isKind
      exact ⟨first, more ++ chars rest, by rw [Token.chars_cons, same, List.cons_append], isKind⟩

theorem begins_literal {kind : Char → Bool} (isKind : word.toList.head?.any kind = true)
    (rest : List Token) : Begins kind (.literal word :: rest) := by
  have isKind : (Token.literal word).text.toList.head?.any kind = true := isKind
  exact begins_cons isKind rest

def opensExpression (char : Char) : Bool :=
  char.isDigit || isWordStart char || ['"', '\'', '(', '!', '-'].contains char

def opensStatement (char : Char) : Bool :=
  opensExpression char || ['\x7b', ';'].contains char

theorem opensStatement_of_expression {char : Char} (opens : opensExpression char = true) :
    opensStatement char = true := by
  rw [opensStatement, opens, Bool.true_or]

theorem opensStatement_of_blank (char : Char) (blank : isWhitespace char = true) :
    opensStatement char = false := by
  simp only [isWhitespace, Bool.or_eq_true, decide_eq_true_eq] at blank
  rcases blank with (((rfl | rfl) | rfl) | rfl) | rfl <;> decide

theorem begins_class {kind text : String} (reads : source.Reads (.hard kind text))
    (isClass : IsClass kind) (rest : List Token) :
    Begins opensExpression (.hard kind text :: rest) := by
  obtain ⟨first, more, same, formed⟩ := reads.formed isClass
  refine ⟨first, more ++ chars rest, ?_, ?_⟩
  · rw [Token.chars_cons, Token.text, same, List.cons_append]
  · cases formed with
    | number _ digit => simp [opensExpression, digit]
    | word start => simp [opensExpression, start]
    | string _ quotes => rcases quotes with rfl | rfl <;> decide

theorem Formula.begins (formula : Formula source form tree tokens) :
    Begins opensExpression tokens := by
  induction formula with
  | number reads => exact begins_class reads (by decide) _
  | string reads => exact begins_class reads (by decide) _
  | identifier reads => exact begins_class reads (by decide) _
  | boolean isBoolean =>
      have all : ∀ word ∈ ["true", "false"], word.toList.head?.any opensExpression = true := by
        decide
      exact begins_literal (all _ isBoolean) _
  | null => exact begins_cons (by decide) _
  | parenthesized => exact begins_cons (by decide) _
  | prefixed isPrefix =>
      have all : ∀ word ∈ prefixOperators, word.toList.head?.any opensExpression = true := by
        decide
      exact begins_literal (all _ isPrefix) _
  | callWithout _ ih | member _ _ ih => exact ih.append _
  | call _ _ ih | index _ _ ih | nextArgument _ _ ih | binary _ _ _ _ ih | assigned _ _ _ ih =>
      rw [List.append_assoc]
      exact ih.append _
  | suffixed _ ih | argument _ ih | unprefixed _ ih | lifted _ _ ih | unassigned _ ih => exact ih

theorem Formula.opens (formula : Formula source form tree tokens) : Begins opensStatement tokens :=
  formula.begins.mono fun _ => opensStatement_of_expression

theorem Written.begins (written : Written source unit sugar part level tree tokens) :
    Begins opensStatement tokens := by
  induction written with
  | declaration isKind =>
      have all : ∀ word ∈ declarationKinds, word.toList.head?.any opensStatement = true := by
        decide
      exact begins_literal (all _ isKind) _
  | expression value => exact value.opens.append _
  | bareDeclarator reads => exact (Formula.identifier reads).opens
  | initialized reads => exact (Formula.identifier reads).opens.append _
  | statement _ ih | declarator _ ih => exact ih
  | nextStatement _ _ ih => exact ih.append _
  | nextDeclarator _ _ ih =>
      rw [List.append_assoc]
      exact ih.append _
  | emptyBlock | block | conditional | conditionalElse | loop | returning | returningValue | empty
  | inverted => exact begins_cons (by decide) _

/-- The tokens are read as they are where no letter or digit follows. -/
def Rereadable (sugar : Bool) (tokens : List Token) : Prop :=
  ∀ following, Stops isWordPart following → (lexicon sugar).Rereads tokens following

theorem stops_token {kind : Char → Bool} {token : Token}
    (apart : token.text.toList.head?.any (!kind ·) = true) (rest : List Token)
    (following : List Char) : Stops kind (chars (token :: rest) ++ following) := by
  refine (begins_cons apart rest).stops (fun char isKind => ?_) following
  rw [isKind, Bool.not_true]

theorem stops_literal {kind : Char → Bool} (apart : word.toList.head?.any (!kind ·) = true)
    (rest : List Token) (following : List Char) :
    Stops kind (chars (.literal word :: rest) ++ following) := by
  have apart : (Token.literal word).text.toList.head?.any (!kind ·) = true := apart
  exact stops_token apart rest following

theorem Begins.stops_blank (begins : Begins opensStatement tokens) (following : List Char) :
    Stops isWhitespace (chars tokens ++ following) :=
  begins.stops opensStatement_of_blank following

theorem holds_space (stops : Stops isWhitespace following) (sugar : Bool) :
    (lexicon sugar).Holds (.soft " ") following :=
  Lexicon.holds_blank (by decide) (List.all_eq_true.mp rfl) stops

theorem rereads_nil : Rereadable sugar [] := fun _ _ => trivial

theorem rereads_class {kind text : String} (reads : (lexicon sugar).Reads (.hard kind text))
    (isClass : IsClass kind) : Rereadable sugar [.hard kind text] := by
  intro following stops
  refine ⟨?_, trivial⟩
  rw [Token.chars_nil, List.nil_append]
  by_cases dotted : (Token.hard kind text).isWhole = true ∧ following.head? = some '.'
  · exact .inr ⟨reads, dotted⟩
  · exact .inl (reads.holds isClass stops fun whole dot => dotted ⟨whole, dot⟩)

theorem rereads_keyword (listed : word ∈ keywords sugar) : Rereadable sugar [.literal word] :=
  fun _ stops => ⟨.inl (holds_keyword listed stops), trivial⟩

namespace Rereadable

theorem append {token : Token} (before : Rereadable sugar tokens)
    (apart : token.text.toList.head?.any (!isWordPart ·) = true)
    (after : Rereadable sugar (token :: more)) : Rereadable sugar (tokens ++ token :: more) :=
  fun following stops =>
    rereads_append.mpr ⟨before _ (stops_token apart _ _), after following stops⟩

theorem bracket (listed : word ∈ brackets) (after : Rereadable sugar tokens) :
    Rereadable sugar (.literal word :: tokens) :=
  fun following stops => ⟨.inl (holds_bracket listed _), after following stops⟩

theorem bracketed {opening closing : String} (opens : opening ∈ brackets)
    (closes : closing ∈ brackets) (inner : Rereadable sugar tokens) :
    Rereadable sugar (.literal opening :: tokens ++ [.literal closing]) := by
  have all : ∀ word ∈ brackets, word.toList.head?.any (!isWordPart ·) = true := by decide
  have apart := all closing closes
  exact bracket opens (inner.append apart (bracket closes rereads_nil))

theorem ended (inner : Rereadable sugar tokens) : Rereadable sugar (tokens ++ [.literal ";"]) :=
  inner.append (by decide) (bracket (by decide) rereads_nil)

theorem space (begins : Begins opensStatement tokens) (after : Rereadable sugar tokens) :
    Rereadable sugar (.soft " " :: tokens) :=
  fun following stops =>
    ⟨.inl (holds_space (begins.stops_blank following) sugar), after following stops⟩

theorem led (listed : word ∈ keywords sugar) (begins : Begins opensStatement tokens)
    (after : Rereadable sugar tokens) : Rereadable sugar (.literal word :: .soft " " :: tokens) :=
  fun following stops => ⟨.inl (holds_keyword listed (stops_token (by decide) _ _)),
    after.space begins following stops⟩

theorem between {separator : List Token}
    (separates : ∀ following, Stops isWhitespace following →
      (lexicon sugar).Rereads separator following)
    (apart : ∀ following, Stops isWordPart (chars separator ++ following))
    (before : Rereadable sugar tokens) (begins : Begins opensStatement more)
    (after : Rereadable sugar more) : Rereadable sugar (tokens ++ separator ++ more) := by
  intro following stops
  rw [List.append_assoc]
  refine rereads_append.mpr ⟨before _ ?_, rereads_append.mpr
    ⟨separates _ (begins.stops_blank following), after following stops⟩⟩
  rw [Token.chars_append, List.append_assoc]
  exact apart _

theorem spaced (holds : ∀ rest, (lexicon sugar).Holds (.literal word) (' ' :: rest))
    (apart : word.toList.head?.any (!isWhitespace ·) = true) (before : Rereadable sugar tokens)
    (begins : Begins opensStatement more) (after : Rereadable sugar more) :
    Rereadable sugar (tokens ++ Builtin.spaced word ++ more) :=
  before.between
    (fun following stops => ⟨.inl (holds_space (stops_literal apart _ _) sugar),
      .inl (holds following), .inl (holds_space stops sugar), trivial⟩)
    (stops_token (by decide) _) begins after

theorem operation (listed : word ∈ punctuators) (before : Rereadable sugar tokens)
    (begins : Begins opensStatement more) (after : Rereadable sugar more) :
    Rereadable sugar (tokens ++ Builtin.spaced word ++ more) := by
  have all : ∀ word ∈ punctuators, word.toList.head?.any (!isWhitespace ·) = true := by
    decide
  exact before.spaced (holds_operator listed) (all word listed) begins after

theorem comma (before : Rereadable sugar tokens) (begins : Begins opensStatement more)
    (after : Rereadable sugar more) : Rereadable sugar (tokens ++ Builtin.comma ++ more) :=
  before.between
    (fun _ stops => ⟨.inl (holds_bracket (by decide) _), .inl (holds_space stops sugar), trivial⟩)
    (stops_token (by decide) _) begins after

end Rereadable

/-- The reader of what is written knows the numbers, strings and identifiers of the source. -/
def Knows (sugar : Bool) (source : Lexicon) : Prop :=
  ∀ kind text, IsClass kind → source.Reads (.hard kind text) →
    (lexicon sugar).Reads (.hard kind text)

theorem Formula.rereads (formula : Formula source form tree tokens) (knows : Knows sugar source) :
    Rereadable sugar tokens := by
  induction formula with
  | number reads => exact rereads_class (knows _ _ (by decide) reads) (by decide)
  | string reads => exact rereads_class (knows _ _ (by decide) reads) (by decide)
  | identifier reads => exact rereads_class (knows _ _ (by decide) reads) (by decide)
  | boolean isBoolean =>
      have all : ∀ word ∈ ["true", "false"], word ∈ keywords sugar := by
        cases sugar <;> decide
      exact rereads_keyword (all _ isBoolean)
  | null => exact rereads_keyword (by cases sugar <;> decide)
  | parenthesized _ ih => exact .bracketed (by decide) (by decide) ih
  | callWithout _ ih =>
      exact ih.append (by decide)
        (.bracket (by decide) (.bracket (by decide) rereads_nil))
  | call _ _ ih ihArguments =>
      rw [List.append_assoc]
      exact ih.append (by decide) (.bracketed (by decide) (by decide) ihArguments)
  | member _ reads ih =>
      have name := rereads_class (knows _ _ (by decide) reads) (by decide)
      exact ih.append (by decide) (.bracket (by decide) name)
  | index _ _ ih ihInner =>
      rw [List.append_assoc]
      exact ih.append (by decide) (.bracketed (by decide) (by decide) ihInner)
  | nextArgument _ later ih ihLater => exact ih.comma later.opens ihLater
  | prefixed isPrefix inner ih =>
      intro following stops
      refine ⟨.inl (holds_prefixOperator isPrefix ?_), ih following stops⟩
      obtain ⟨first, rest, same, opens⟩ := inner.begins
      rw [same]
      rintro ⟨rfl⟩
      cases opens
  | binary here isOperator _ after ih ihRight =>
      have all : ∀ level ∈ tiers, ∀ operator ∈ level.operators, operator ∈ punctuators := by
        decide
      exact ih.operation (all _ (List.mem_of_getElem? here) _ isOperator) after.opens ihRight
  | assigned isOperator _ after ih ihSource =>
      have all : ∀ operator ∈ assignmentOperators, operator ∈ punctuators := by decide
      exact ih.operation (all _ isOperator) after.opens ihSource
  | suffixed _ ih | argument _ ih | unprefixed _ ih | lifted _ _ ih | unassigned _ ih => exact ih

def Blank (unit : String) : Prop := ∀ char ∈ unit.toList, isWhitespace char = true

theorem blank_defaults : Blank Settings.defaults.indentUnit := List.all_eq_true.mp rfl

theorem chars_lineBreak (unit : String) (level : Nat) :
    (lineBreak unit level).text.toList =
      '\n' :: (List.replicate level unit).flatMap String.toList := by
  rw [lineBreak, Token.text, Writer.lineStart, String.toList_append, String.toList_join]
  rfl

theorem lineBreak_apart (unit : String) (level : Nat) :
    (lineBreak unit level).text.toList.head?.any (!isWordPart ·) = true := by
  rw [chars_lineBreak]
  rfl

theorem Rereadable.lineBreak (blank : Blank unit) (level : Nat)
    (apart : ∀ following, Stops isWhitespace (chars tokens ++ following))
    (after : Rereadable sugar tokens) :
    Rereadable sugar (Builtin.lineBreak unit level :: tokens) := by
  refine fun following stops => ⟨.inl ?_, after following stops⟩
  have chars : (Writer.lineStart unit level).toList = _ := chars_lineBreak unit level
  refine Lexicon.holds_blank (by rw [chars]; exact List.cons_ne_nil _ _) ?_ (apart following)
  intro char member
  rw [chars] at member
  rcases List.mem_cons.mp member with rfl | member
  · decide
  · obtain ⟨text, repeated, member⟩ := List.mem_flatMap.mp member
    rw [List.eq_of_mem_replicate repeated] at member
    exact blank char member

theorem Rereadable.guarded (listed : word ∈ keywords sugar) (test : Rereadable sugar tokens)
    (begins : Begins opensStatement more) (after : Rereadable sugar more) :
    Rereadable sugar (guard word tokens ++ more) := by
  intro following stops
  refine rereads_append.mpr
    ⟨⟨.inl (holds_keyword listed (stops_token (by decide) _ _)),
      .inl (holds_space (stops_token (by decide) _ _) sugar),
      .inl (holds_bracket (by decide) _), rereads_append.mpr ⟨?_, ?_⟩⟩, after following stops⟩
  · exact test _ (stops_token (by decide) _ _)
  · exact ⟨.inl (holds_bracket (by decide) _),
      .inl (holds_space (begins.stops_blank following) sugar), trivial⟩

theorem Written.rereads {sweet : Bool} (blank : Blank unit) (knows : Knows sugar source)
    (sugars : sweet = true → sugar = true)
    (written : Written source unit sweet part level tree tokens) : Rereadable sugar tokens := by
  have words : ∀ word ∈ keywords false, word ∈ keywords sugar := by
    cases sugar <;> decide
  induction written with
  | emptyBlock => exact .bracket (by decide) (.bracket (by decide) rereads_nil)
  | block body ih =>
      have closing : Rereadable sugar [.literal "\x7d"] := .bracket (by decide) rereads_nil
      refine .bracket (by decide) (.lineBreak blank _ (body.begins.append _).stops_blank ?_)
      exact ih.append (lineBreak_apart _ _)
        (closing.lineBreak blank _ (stops_token (by decide) _))
  | declaration isKind given ih =>
      have all : ∀ kind ∈ declarationKinds, kind ∈ keywords false := by decide
      exact .led (words _ (all _ isKind)) (given.begins.append _) ih.ended
  | conditional tested body ih =>
      exact .guarded (words _ (by decide)) (tested.rereads knows) body.begins ih
  | conditionalElse tested body otherwise ih ihElse =>
      rw [List.append_assoc, List.append_assoc]
      refine .guarded (words _ (by decide)) (tested.rereads knows) (body.begins.append _) ?_
      rw [← List.append_assoc]
      exact ih.spaced
        (fun _ => holds_keyword (words _ (by decide)) (stops_cons.mpr (by decide)))
        (by decide) otherwise.begins ihElse
  | loop tested repeated ih =>
      exact .guarded (words _ (by decide)) (tested.rereads knows) repeated.begins ih
  | inverted sweet tested avoided ih =>
      have listed : "unless" ∈ keywords sugar := by
        rw [sugars sweet]
        decide
      exact .guarded listed (tested.rereads knows) avoided.begins ih
  | returning => exact (rereads_keyword (words _ (by decide))).ended
  | returningValue value =>
      exact .led (words _ (by decide)) (value.opens.append _) (value.rereads knows).ended
  | empty => exact .bracket (by decide) rereads_nil
  | expression value => exact (value.rereads knows).ended
  | statement _ ih | declarator _ ih => exact ih
  | nextStatement first later ih ihLater =>
      exact ih.append (lineBreak_apart _ _) (ihLater.lineBreak blank _ later.begins.stops_blank)
  | bareDeclarator reads => exact rereads_class (knows _ _ (by decide) reads) (by decide)
  | initialized reads value =>
      have name := rereads_class (knows _ _ (by decide) reads) (by decide)
      exact name.operation (by decide) value.opens (value.rereads knows)
  | nextDeclarator _ later ih ihLater => exact ih.comma later.begins ihLater

end Parlance.Builtin
