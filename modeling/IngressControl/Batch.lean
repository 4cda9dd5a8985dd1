import IngressControl.Fault

/-!
Batches: a list cut into consecutive groups of nearly equal size, either into a wanted number of
groups or into the fewest that respect a limit per call.
-/

namespace IngressControl

def ceilDiv (n k : Nat) : Nat := (n + k - 1) / k

/-- The power of two by which a quotient has to fall short of one to count as zero. -/
def vanishingPower : Nat := 1075

/-- The least whole number that is not below n / k, a quotient that is too small counting as zero.
-/
def ceilQuotient (n k : Nat) : Nat :=
  if n * Nat.pow 2 vanishingPower ≤ k then 0 else ceilDiv n k

/-- Consecutive groups of the given size, the last one holding the remainder; a size of zero counts
as one. -/
def chunks {α : Type} (size : Nat) : List α → List (List α)
  | [] => []
  | x :: xs => (x :: xs.take (size - 1)) :: chunks size (xs.drop (size - 1))
termination_by xs => xs.length
decreasing_by simp only [List.length_drop, List.length_cons]; omega

/-- Consecutive groups of one size, at most as many as asked for. -/
def splitIntoGroups {α : Type} (items : List α) (count : Int) : Except Fault (List (List α)) :=
  if count ≤ 0 then .error (.groupCount count)
  else if items.isEmpty then .ok []
  else match ceilQuotient items.length count.toNat with
    | 0 => .error .groupSize
    | size => .ok (chunks size items)

/-- The fewest groups of nearly equal size that respect a limit per call. -/
def groupsForLimit {α : Type} (items : List α) (limit : Int) : Except Fault (List (List α)) :=
  if limit ≤ 0 then .error (.callLimit limit)
  else if items.isEmpty then .ok []
  else splitIntoGroups items (ceilQuotient items.length limit.toNat)

end IngressControl
