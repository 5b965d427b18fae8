import Parlance.Index
import Parlance.Token.Basic
import Parlance.Token.Trie
import Parlance.Token.Lexer

/-! Lexicons: the keywords and punctuators of a dialect, and how they turn source text into tokens.
Every text has a token list, and its tokens join to the text again. -/

namespace Parlance

structure Lexicon where
  keywords : List String
  punctuators : List String
  deriving DecidableEq, Inhabited

namespace Lexicon

def ofWords (keywords punctuators : List String) : Lexicon :=
  ⟨Index.sortNames keywords, Index.sortNames punctuators⟩

def trie (lexicon : Lexicon) : Trie := Trie.ofWords lexicon.punctuators

def isLiteral (lexicon : Lexicon) (word : String) : Bool :=
  lexicon.keywords.contains word || lexicon.punctuators.contains word

def identifierClass : String := "Identifier"
def numberClass : String := "NumericLiteral"
def stringClass : String := "StringLiteral"

def classify (lexicon : Lexicon) (lexemeClass : LexemeClass) (text : String) : Token :=
  match lexemeClass with
  | .whitespace | .lineComment | .blockComment => .soft text
  | .number => .hard numberClass text
  | .string => .hard stringClass text
  | .word => if lexicon.isLiteral text then .literal text else .hard identifierClass text

/-- The token where no lexeme starts, with its bytes: what the trie can follow, or else one character. -/
def recover (trie : Trie) (text : List Char) : Option (Token × Nat) :=
  match trie.munchSize text with
  | 0 =>
      let width := (text.head?.map Char.utf8Size).getD 1
      (Text.slice? 0 width text).map fun char => (.soft (String.ofList char), width)
  | width => (Text.slice? 0 width text).map fun word => (.literal (String.ofList word), width)

/-- A lexer's place in a source: it is at a position of the part that starts at the base. -/
structure Seat where
  base : Nat
  position : Nat
  deriving DecidableEq

/-- The token of a span, and where the lexer goes on: behind the span, or seated anew behind the
token if that ends elsewhere. -/
def turn (lexicon : Lexicon) (trie : Trie) (source : List Char) (seat : Seat) :
    Option LexemeClass × Span → Option (Token × Seat)
  | (some lexemeClass, span) =>
      (Text.slice? (seat.base + span.start) (seat.base + span.stop) source).map fun text =>
        (lexicon.classify lexemeClass (String.ofList text), ⟨seat.base, span.stop⟩)
  | (none, span) => do
      let start := seat.base + span.start
      let rest ← Text.after? start source
      let (token, consumed) ← recover trie rest
      if start + consumed = seat.base + span.stop then pure (token, ⟨seat.base, span.stop⟩)
      else pure (token, ⟨start + consumed, 0⟩)

/-- The tokens of so many turns at most. There are none if the lexer has not ended by then, or if a
character would have to be cut in two. -/
def turns (lexicon : Lexicon) (lexer : Lexer) (trie : Trie) (source : List Char) :
    Nat → Seat → Option (List Token)
  | 0, _ => none
  | count + 1, seat => do
      let text ← Text.after? seat.base source
      match lexer.next text seat.position with
      | none => pure []
      | some scanned =>
          let (token, seat) ← lexicon.turn trie source seat scanned
          let tokens ← lexicon.turns lexer trie source count seat
          pure (token :: tokens)

def tokenizeWith (lexicon : Lexicon) (lexer : Lexer) (source : String) : Option (List Token) :=
  let text := source.toList
  lexicon.turns lexer lexicon.trie text (Text.byteSize text + 1) ⟨0, 0⟩

def tokenize (lexicon : Lexicon) (source : String) : List Token :=
  (lexicon.tokenizeWith (Lexeme.lexer fun _ => 1) source).getD []

end Lexicon

end Parlance
