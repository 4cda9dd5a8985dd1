import IngressControl.Text.Basic

/-!
Suggestions for a word that names nothing: the names that are close to it. How close two texts are
is measured by the characters that they share in longest common runs.
-/

namespace IngressControl.Command

def commonStart : List Char → List Char → Nat
  | a :: as, b :: bs => if a = b then commonStart as bs + 1 else 0
  | _, _ => 0

/-- A run of characters in two texts: where it begins in each of them, and its length. -/
structure CommonRun where
  first : Nat
  second : Nat
  length : Nat
deriving DecidableEq, Repr

/-- The longest run that two texts have in common; of several, the one that begins first in the
first text, and then in the second. -/
def longestRun (as bs : List Char) : CommonRun :=
  (List.range as.length).foldl (fun best i =>
    (List.range bs.length).foldl (fun best j =>
      let length := commonStart (as.drop i) (bs.drop j)
      if best.length < length then ⟨i, j, length⟩ else best) best) ⟨0, 0, 0⟩

/-- The number of characters that two texts share: those of their longest common run, and those that
they share before it and behind it. The fuel bounds the number of runs inside each other. -/
def shared : Nat → List Char → List Char → Nat
  | 0, _, _ => 0
  | fuel + 1, as, bs =>
    let run := longestRun as bs
    if run.length = 0 then 0
    else run.length + shared fuel (as.take run.first) (bs.take run.second) +
      shared fuel (as.drop (run.first + run.length)) (bs.drop (run.second + run.length))

/-- How close a name is to a word: the characters that they share, among all that they have. -/
structure Closeness where
  shared : Nat
  total : Nat
deriving DecidableEq, Repr

namespace Closeness

def of (word name : String) : Closeness where
  shared := Command.shared (name.length + 1) name.toList word.toList
  total := name.length + word.length

/-- Three shared characters in ten are enough; each of them is one of either text. -/
def isEnough (c : Closeness) : Bool := decide (3 * c.total ≤ 10 * c.shared)

def le (c d : Closeness) : Bool := decide (c.shared * d.total ≤ d.shared * c.total)

end Closeness

def maxSuggestions : Nat := 3

/-- The names closest to a word, in their order; of names as close as each other the later ones. -/
def suggestions (word : String) (names : List String) : List String :=
  let close := (sortTexts names).reverse.filter (fun name => (Closeness.of word name).isEnough)
  let best := close.mergeSort (fun a b => (Closeness.of word b).le (Closeness.of word a))
  sortTexts (best.take maxSuggestions)

end IngressControl.Command
