/-!
# Operators

The operators and punctuation marks. A spelling is one character, or one character and an equals
sign, so two characters decide which operator stands at the front of a text.
-/

namespace Lexis

inductive Operator where
  | leftParen
  | rightParen
  | leftBrace
  | rightBrace
  | comma
  | dot
  | minus
  | plus
  | semicolon
  | slash
  | star
  | bang
  | bangEqual
  | equal
  | equalEqual
  | greater
  | greaterEqual
  | less
  | lessEqual
  deriving Repr, DecidableEq

namespace Operator

def all : List Operator :=
  [.leftParen, .rightParen, .leftBrace, .rightBrace, .comma, .dot, .minus, .plus, .semicolon,
    .slash, .star, .bang, .bangEqual, .equal, .equalEqual, .greater, .greaterEqual, .less,
    .lessEqual]

theorem mem_all (op : Operator) : op ∈ all := by
  cases op <;> simp [all]

def spelling : Operator → List Char
  | .leftParen => ['(']
  | .rightParen => [')']
  | .leftBrace => ['\x7b']
  | .rightBrace => ['\x7d']
  | .comma => [',']
  | .dot => ['.']
  | .minus => ['-']
  | .plus => ['+']
  | .semicolon => [';']
  | .slash => ['/']
  | .star => ['*']
  | .bang => ['!']
  | .bangEqual => ['!', '=']
  | .equal => ['=']
  | .equalEqual => ['=', '=']
  | .greater => ['>']
  | .greaterEqual => ['>', '=']
  | .less => ['<']
  | .lessEqual => ['<', '=']

def ofChar? : Char → Option Operator
  | '(' => some .leftParen
  | ')' => some .rightParen
  | '\x7b' => some .leftBrace
  | '\x7d' => some .rightBrace
  | ',' => some .comma
  | '.' => some .dot
  | '-' => some .minus
  | '+' => some .plus
  | ';' => some .semicolon
  | '/' => some .slash
  | '*' => some .star
  | '!' => some .bang
  | '=' => some .equal
  | '>' => some .greater
  | '<' => some .less
  | _ => none

/-- The longer operator that a `=` right after this one makes of it. -/
def withEqual? : Operator → Option Operator
  | .bang => some .bangEqual
  | .equal => some .equalEqual
  | .greater => some .greaterEqual
  | .less => some .lessEqual
  | _ => none

theorem spelling_of_ofChar? {c : Char} {op : Operator} (h : ofChar? c = some op) :
    op.spelling = [c] := by
  unfold ofChar? at h
  split at h <;> simp_all [spelling] <;> (subst h; rfl)

theorem spelling_of_withEqual? {op long : Operator} (h : op.withEqual? = some long) :
    long.spelling = op.spelling ++ ['='] := by
  cases op <;> simp [withEqual?] at h <;> (subst h; rfl)

def words : Operator → List String
  | .leftParen => ["Left", "Paren"]
  | .rightParen => ["Right", "Paren"]
  | .leftBrace => ["Left", "Brace"]
  | .rightBrace => ["Right", "Brace"]
  | .comma => ["Comma"]
  | .dot => ["Dot"]
  | .minus => ["Minus"]
  | .plus => ["Plus"]
  | .semicolon => ["Semicolon"]
  | .slash => ["Slash"]
  | .star => ["Star"]
  | .bang => ["Bang"]
  | .bangEqual => ["Bang", "Equal"]
  | .equal => ["Equal"]
  | .equalEqual => ["Equal", "Equal"]
  | .greater => ["Greater"]
  | .greaterEqual => ["Greater", "Equal"]
  | .less => ["Less"]
  | .lessEqual => ["Less", "Equal"]

end Operator

end Lexis
