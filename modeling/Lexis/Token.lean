import Lexis.Number.Decimal
import Lexis.Text.Utf8
import Lexis.Token.Kind

/-!
# Tokens

A token has a kind, the source text it was cut from, the byte offset of that text, and for strings
and numbers the value that the text denotes.
-/

namespace Lexis

inductive Literal where
  | string (contents : String)
  | number (value : Binary64)
  deriving Repr, DecidableEq

namespace Literal

def display : Literal → String
  | .string contents => contents
  | .number value => value.display

def equals : Literal → Literal → Bool
  | .string a, .string b => a == b
  | .number a, .number b => a.equals b
  | _, _ => false

end Literal

structure Token where
  kind : Kind
  lexeme : String
  offset : Nat
  literal : Option Literal
  deriving Repr, DecidableEq

namespace Token

def endOffset (token : Token) : Nat := token.offset + token.lexeme.utf8ByteSize

def shift (token : Token) (distance : Nat) : Token :=
  { token with offset := token.offset + distance }

/-- What is printed for a token, piece by piece: the name of its kind, its lexeme and, if it has
one, its literal. -/
def pieces (token : Token) : List String :=
  [token.kind.name, " ", token.lexeme] ++
    match token.literal with
    | some literal => [" ", literal.display]
    | none => []

def display (token : Token) : String := String.join token.pieces

def equals (a b : Token) : Bool :=
  a.kind == b.kind && a.lexeme == b.lexeme && a.offset == b.offset &&
    match a.literal, b.literal with
    | some x, some y => x.equals y
    | none, none => true
    | _, _ => false

/-- The token that closes every token list: an empty lexeme at the end of the text. -/
def endOfFile (offset : Nat) : Token := ⟨.endOfFile, "", offset, none⟩

example : (endOfFile 3).display = "END_OF_FILE " := by decide

end Token

end Lexis
