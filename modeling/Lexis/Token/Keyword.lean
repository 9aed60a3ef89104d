/-!
# Keywords

The words that are reserved, with their spellings.
-/

namespace Lexis

inductive Keyword where
  | kwAnd
  | kwClass
  | kwElse
  | kwFalse
  | kwFn
  | kwFor
  | kwIf
  | kwNil
  | kwOr
  | kwPrint
  | kwReturn
  | kwSuper
  | kwThis
  | kwTrue
  | kwVar
  | kwWhile
  deriving Repr, DecidableEq

namespace Keyword

def all : List Keyword :=
  [.kwAnd, .kwClass, .kwElse, .kwFalse, .kwFn, .kwFor, .kwIf, .kwNil, .kwOr, .kwPrint, .kwReturn,
    .kwSuper, .kwThis, .kwTrue, .kwVar, .kwWhile]

theorem mem_all (word : Keyword) : word ∈ all := by
  cases word <;> simp [all]

/-- The reserved spelling; the keyword `kwNil` is written `null`. -/
def spelling : Keyword → String
  | .kwAnd => "and"
  | .kwClass => "class"
  | .kwElse => "else"
  | .kwFalse => "false"
  | .kwFn => "fn"
  | .kwFor => "for"
  | .kwIf => "if"
  | .kwNil => "null"
  | .kwOr => "or"
  | .kwPrint => "print"
  | .kwReturn => "return"
  | .kwSuper => "super"
  | .kwThis => "this"
  | .kwTrue => "true"
  | .kwVar => "var"
  | .kwWhile => "while"

def ofSpelling? (text : String) : Option Keyword :=
  all.find? (fun word => word.spelling == text)

theorem ofSpelling?_spelling (word : Keyword) : ofSpelling? word.spelling = some word := by
  cases word <;> decide

theorem spelling_of_ofSpelling? {text : String} {word : Keyword}
    (h : ofSpelling? text = some word) : word.spelling = text := by
  simpa using List.find?_some h

def words : Keyword → List String
  | .kwAnd => ["And"]
  | .kwClass => ["Class"]
  | .kwElse => ["Else"]
  | .kwFalse => ["False"]
  | .kwFn => ["Fn"]
  | .kwFor => ["For"]
  | .kwIf => ["If"]
  | .kwNil => ["Nil"]
  | .kwOr => ["Or"]
  | .kwPrint => ["Print"]
  | .kwReturn => ["Return"]
  | .kwSuper => ["Super"]
  | .kwThis => ["This"]
  | .kwTrue => ["True"]
  | .kwVar => ["Var"]
  | .kwWhile => ["While"]

end Keyword

end Lexis
