import Lexis.Text.Conjunct
import Lexis.Text.Pictograph

/-!
# Clusters

The extended grapheme clusters of Unicode are what a reader takes for single characters: a letter
with its marks, a Hangul syllable, a flag, a pictograph put together from several.
-/

namespace Lexis.Text

/-- Whether the half of a flag at the end of a cluster still waits for its other half. A cluster
that is being read is kept from its last character to its first. -/
def endsInHalfFlag (cluster : List Char) : Bool :=
  (cluster.takeWhile (BreakClass.of · = .regional)).length % 2 = 1

def endsInJoinedPictograph : List Char → Bool
  | [] => false
  | last :: before =>
      BreakClass.of last = .joiner &&
        (before.dropWhile (BreakClass.of · = .extend)).head?.any isPictograph

def endsInLinkedConsonant (cluster : List Char) : Bool :=
  (cluster.takeWhile isConjunctMark).any isConjunctLinker &&
    (cluster.dropWhile isConjunctMark).head?.any isConjunctConsonant

def joins (cluster : List Char) (c : Char) : Bool :=
  match cluster with
  | [] => false
  | last :: _ =>
      let left := BreakClass.of last
      let right := BreakClass.of c
      if left.isControl || right.isControl then left = .carriageReturn && right = .lineFeed
      else
        left = .prepend || right.isAttached || left.sharesSyllable right ||
          (right = .regional && endsInHalfFlag cluster) ||
          (isPictograph c && endsInJoinedPictograph cluster) ||
          (isConjunctConsonant c && endsInLinkedConsonant cluster)

/-- Reads one character more; the clusters so far are kept from the last to the first. -/
def readCluster (read : List (List Char)) (c : Char) : List (List Char) :=
  match read with
  | [] => [[c]]
  | cluster :: before =>
      if joins cluster c then (c :: cluster) :: before else [c] :: cluster :: before

def clusters (text : List Char) : List (List Char) :=
  ((text.foldl readCluster []).map List.reverse).reverse

example : clusters ['x', 'e', '\u0301', '\u0302', '\x08', '\u0301', '@'] =
    [['x'], ['e', '\u0301', '\u0302'], ['\x08'], ['\u0301'], ['@']] := by decide +kernel

example : clusters ['\u1112', '\u1161', '\u11ab', '\uac01', '\u1161'] =
    [['\u1112', '\u1161', '\u11ab'], ['\uac01'], ['\u1161']] := by decide +kernel

example : clusters "🇺🇸🇫".toList = ["🇺🇸".toList, "🇫".toList] := by decide +kernel

end Lexis.Text
