/-!
# White space at the ends of a line

The characters of the Unicode property White_Space, and a text without those at its two ends.
-/

namespace Lexis.Text

def isWhiteSpace (c : Char) : Bool :=
  (0x9 ≤ c.val && c.val ≤ 0xD) || c.val == 0x20 || c.val == 0x85 || c.val == 0xA0 ||
    c.val == 0x1680 || (0x2000 ≤ c.val && c.val ≤ 0x200A) || c.val == 0x2028 ||
    c.val == 0x2029 || c.val == 0x202F || c.val == 0x205F || c.val == 0x3000

def trimStart (text : List Char) : List Char := text.dropWhile isWhiteSpace

def trim (text : List Char) : List Char := (trimStart (trimStart text).reverse).reverse

example : trim " a b\t".toList = "a b".toList := by decide

end Lexis.Text
