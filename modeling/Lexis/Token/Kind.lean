import Lexis.Token.Keyword
import Lexis.Token.Operator

/-!
# Kinds of token

A kind is an operator, a keyword, one of the three open classes, or the end of the file. Its names
are made of the same words, which every kind has.
-/

namespace Lexis

inductive Kind where
  | operator (op : Operator)
  | identifier
  | string
  | number
  | keyword (word : Keyword)
  | endOfFile
  deriving Repr, DecidableEq

namespace Kind

def all : List Kind :=
  Operator.all.map .operator ++ [.identifier, .string, .number] ++ Keyword.all.map .keyword ++
    [.endOfFile]

theorem mem_all (kind : Kind) : kind ∈ all := by
  cases kind <;> simp [all, Operator.mem_all, Keyword.mem_all]

def ordinal (kind : Kind) : Nat := all.idxOf kind

/-- What a word of the source is: a keyword if it is reserved, otherwise an identifier. -/
def ofWord (text : String) : Kind :=
  match Keyword.ofSpelling? text with
  | some word => .keyword word
  | none => .identifier

def words : Kind → List String
  | .operator op => op.words
  | .identifier => ["Identifier"]
  | .string => ["String"]
  | .number => ["Number"]
  | .keyword word => word.words
  | .endOfFile => ["End", "Of", "File"]

def upperCase (text : String) : String := String.ofList (text.toList.map Char.toUpper)

def name (kind : Kind) : String := "_".intercalate (kind.words.map upperCase)

def label (kind : Kind) : String := String.join kind.words

def ofName? (text : String) : Option Kind := all.find? (fun kind => kind.name == text)

example : (Kind.operator .bangEqual).name = "BANG_EQUAL" := by decide
example : Kind.endOfFile.name = "END_OF_FILE" ∧ Kind.endOfFile.label = "EndOfFile" := by decide

end Kind

end Lexis
