import IngressControl.Document.Basic
import IngressControl.Text.Basic

/-! The order of documents. Numbers have an order, texts by code point, and arrays of comparable
items; all other pairs have none, so sorting may fail. It fails with the first pair that it meets: a
list is cut into runs, a run is filled up by binary insertion, and the runs are merged. -/

namespace IngressControl.Document

mutual

/-- Whether the first document is below the second, if the two have an order. -/
def less : Document → Document → Except Fault Bool
  | string s, string t => .ok (decide (s < t))
  | array xs, array ys => lessItems xs ys
  | x, y => match x.quantity?, y.quantity? with
    | some a, some b => .ok (a.less b)
    | _, _ => .error (.noOrder "<" x.kind y.kind)

def lessItems : List Document → List Document → Except Fault Bool
  | [], [] => .ok false
  | [], _ :: _ => .ok true
  | _ :: _, [] => .ok false
  | x :: xs, y :: ys => if same x y then lessItems xs ys else less x y

end

/-- The documents behind the last one that go on downwards, or that do not, and the rest. -/
def takeRun (down : Bool) (last : Document) :
    List Document → Except Fault (List Document × List Document)
  | [] => .ok ([], [])
  | x :: rest =>
    match less x last with
    | .error fault => .error fault
    | .ok goesDown =>
      if goesDown == down then (takeRun down x rest).map (fun (run, rest) => (x :: run, rest))
      else .ok ([], x :: rest)

def headRun : List Document → Except Fault (List Document × List Document)
  | x :: y :: rest =>
    match less y x with
    | .error fault => .error fault
    | .ok down => (takeRun down y rest).map (fun (run, rest) =>
        (if down then (x :: y :: run).reverse else x :: y :: run, rest))
  | short => .ok (short, [])

/-- The position of a document among the sorted ones from one bound to another, behind its
equals. -/
def position (sorted : Array Document) (x : Document) (low high : Nat) : Except Fault Nat :=
  if low < high then
    let middle := low + (high - low) / 2
    match less x (sorted[middle]?.getD null) with
    | .error fault => .error fault
    | .ok true => position sorted x low middle
    | .ok false => position sorted x (middle + 1) high
  else .ok low
termination_by high - low

def insertAll (sorted : Array Document) : List Document → Except Fault (Array Document)
  | [] => .ok sorted
  | x :: rest =>
    match position sorted x 0 sorted.size with
    | .error fault => .error fault
    | .ok i => insertAll (sorted.insertIdxIfInBounds i x) rest

/-- Merges two runs, of equals those of the first one first. -/
def merge : List Document → List Document → Except Fault (List Document)
  | [], ys => .ok ys
  | xs, [] => .ok xs
  | x :: xs, y :: ys =>
    match less y x with
    | .error fault => .error fault
    | .ok true => (merge (x :: xs) ys).map (y :: ·)
    | .ok false => (merge xs (y :: ys)).map (x :: ·)
termination_by xs ys => xs.length + ys.length

def longRun : Nat := 64

def minRun (length : Nat) : Nat :=
  if length < longRun then length
  else
    let bits := length.log2 - 5
    length / Nat.pow 2 bits + (if length % Nat.pow 2 bits = 0 then 0 else 1)

/-- Sorts by runs of a least length; the fuel bounds the number of runs. -/
def sortRuns (least : Nat) : Nat → List Document → List Document → Except Fault (List Document)
  | 0, done, _ => .ok done
  | _, done, [] => .ok done
  | fuel + 1, done, ds => do
    let (run, rest) ← headRun ds
    let missing := least - run.length
    let filled ← insertAll run.toArray (rest.take missing)
    sortRuns least fuel (← merge done filled.toList) (rest.drop missing)

def allTexts? (ds : List Document) : Option (List String) := ds.mapM text?

/-- The documents in increasing order, equals in their first order. Texts can always be sorted. -/
def sort (ds : List Document) : Except Fault (List Document) :=
  match allTexts? ds with
  | some texts => .ok ((sortTexts texts).map string)
  | none => sortRuns (minRun ds.length) ds.length [] ds

@[simp] theorem allTexts?_map_string (texts : List String) :
    allTexts? (texts.map string) = some texts := by
  induction texts with
  | nil => rfl
  | cons s rest ih => simp_all [allTexts?, text?]

@[simp] theorem sort_map_string (texts : List String) :
    sort (texts.map string) = .ok ((sortTexts texts).map string) := by
  simp only [sort, allTexts?_map_string]

end IngressControl.Document
