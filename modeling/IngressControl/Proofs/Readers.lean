import IngressControl.Engine.Cycle
import IngressControl.Proofs.Readings
import Mathlib.Data.Multiset.Basic
import Mathlib.Logic.Relation

/-! Assemblies that read the load balancers side by side. No more calls for targets than allowed are
under way at once; they are made and answered in any order. However that goes, there is one call for
every load balancer that has a name within the service, and all of them are answered before the
assembly concludes. -/

namespace IngressControl.Discovery
open scoped List

def Reading.calls (x : Reading) : List Call :=
  match x.arn with
  | .ok arn => [⟨.describe, arn⟩]
  | .error _ => []

inductive Reader
  | waiting (x : Reading)
  | asking (x : Reading)
  | finished (x : Reading)

namespace Reader

def isAsking : Reader → Bool
  | asking _ => true
  | _ => false

def reading : Reader → Reading
  | waiting x => x
  | asking x => x
  | finished x => x

def made : Reader → List Call
  | waiting _ => []
  | asking x => x.calls
  | finished x => x.calls

def left : Reader → Nat
  | waiting _ => 2
  | asking _ => 1
  | finished _ => 0

inductive Steps (limit : Int) (busy : Nat) : Reader → List Call → Reader → Prop
  | refuse {x : Reading} {fault : Fault} (room : (busy : Int) < limit) (h : x.arn = .error fault) :
      Steps limit busy (waiting x) [] (finished x)
  | ask {x : Reading} {arn : Document} (room : (busy : Int) < limit) (h : x.arn = .ok arn) :
      Steps limit busy (waiting x) [⟨.describe, arn⟩] (asking x)
  | answer {x : Reading} : Steps limit busy (asking x) [] (finished x)

end Reader

structure Assembly where
  readers : List Reader
  calls : List Call

def Assembly.start (readings : List Reading) : Assembly := ⟨readings.map .waiting, []⟩

/-- What is concluded when the tasks are over: from the outcomes in the order of the tasks,
whichever came first. -/
def Assembly.outcome (s : Assembly) : Except Fault ResourceSet :=
  conclude (s.readers.map fun t => t.reading.outcome)

inductive Turn (limit : Int) : Assembly → Assembly → Prop
  | step {before after : List Reader} {t t' : Reader} {made calls : List Call}
      (h : t.Steps limit ((before ++ t :: after).countP Reader.isAsking) made t') :
      Turn limit ⟨before ++ t :: after, calls⟩ ⟨before ++ t' :: after, calls ++ made⟩

abbrev Turns (limit : Int) : Assembly → Assembly → Prop := Relation.ReflTransGen (Turn limit)

section Turns

variable {limit : Int} {readings : List Reading} {s s' : Assembly} {t t' : Reader}
  {busy : Nat} {made : List Call}

theorem Reader.Steps.left_lt (h : t.Steps limit busy made t') : t'.left < t.left := by
  cases h with
  | refuse _ _ => exact Nat.two_pos
  | ask _ _ => exact Nat.one_lt_two
  | answer => exact Nat.one_pos

theorem Reader.Steps.reading_eq (h : t.Steps limit busy made t') : t'.reading = t.reading := by
  cases h <;> rfl

/-- A step adds its calls to those that the task has made. -/
theorem Reader.Steps.made_eq (h : t.Steps limit busy made t') : t'.made = t.made ++ made := by
  cases h with
  | refuse room h => simp [Reader.made, Reading.calls, h]
  | ask room h => simp [Reader.made, Reading.calls, h]
  | answer => simp [Reader.made]

/-- The tasks do not take turns for ever. -/
theorem wellFounded_turn : WellFounded fun after before => Turn limit before after := by
  refine Subrelation.wf (fun {after before} h => ?_)
    (measure fun s : Assembly => (s.readers.map Reader.left).sum).wf
  cases h with
  | step h =>
    have hlt := h.left_lt
    change ((_ ++ _ :: _).map Reader.left).sum < ((_ ++ _ :: _).map Reader.left).sum
    simp only [List.map_append, List.map_cons, List.sum_append, List.sum_cons]
    omega

structure Underway (readings : List Reading) (s : Assembly) : Prop where
  readings : s.readers.map Reader.reading = readings
  calls : s.calls ~ s.readers.flatMap Reader.made

theorem underway_start (readings : List Reading) : Underway readings (.start readings) where
  readings := by
    rw [Assembly.start, List.map_map]
    exact List.map_id _
  calls := by
    have hnone : (readings.map Reader.waiting).flatMap Reader.made = [] := by
      rw [List.flatMap_map]
      exact List.flatMap_eq_nil_iff.mpr fun _ _ => rfl
    rw [Assembly.start, hnone]

theorem Underway.turn (hu : Underway readings s) (h : Turn limit s s') : Underway readings s' := by
  cases h with
  | @step before after t t' made calls h =>
    refine ⟨?_, ?_⟩
    · have hreadings := hu.readings
      simp only [List.map_append, List.map_cons] at hreadings ⊢
      rw [h.reading_eq, hreadings]
    · have hcalls := hu.calls
      simp only [List.flatMap_append, List.flatMap_cons] at hcalls ⊢
      rw [h.made_eq]
      -- the calls of the step come last, and their task stands among the others
      calc calls ++ made
        _ ~ (before.flatMap Reader.made ++ (t.made ++ after.flatMap Reader.made)) ++ made :=
          hcalls.append_right made
        _ ~ before.flatMap Reader.made ++ ((t.made ++ made) ++ after.flatMap Reader.made) := by
          rw [List.append_assoc, List.append_assoc, List.append_assoc]
          exact ((List.perm_append_comm.append_left _).append_left _)

theorem Underway.turns (hu : Underway readings s) (h : Turns limit s s') :
    Underway readings s' := by
  induction h with
  | refl => exact hu
  | tail _ hturn ih => exact ih.turn hturn

theorem eq_map_finished {readers : List Reader} (h : ∀ t ∈ readers, t.left = 0) :
    readers = (readers.map Reader.reading).map .finished := by
  rw [List.map_map]
  refine (List.map_id readers).symm.trans (List.map_congr_left fun t ht => ?_)
  have hleft := h t ht
  cases t with
  | finished x => rfl
  | waiting x => cases hleft
  | asking x => cases hleft

/-- Some task can make a step as long as not all are over. -/
theorem exists_turn (hl : 0 < limit) (s : Assembly) :
    (∀ t ∈ s.readers, t.left = 0) ∨ ∃ s', Turn limit s s' := by
  by_contra hn
  push Not at hn
  obtain ⟨⟨t, ht, hleft⟩, hstuck⟩ := hn
  obtain ⟨readers, calls⟩ := s
  have hstep {t : Reader} (ht : t ∈ readers) {made : List Call} {t' : Reader} :
      ¬ t.Steps limit (readers.countP Reader.isAsking) made t' := by
    intro h
    obtain ⟨before, after, rfl⟩ := List.append_of_mem ht
    exact hstuck _ (.step h)
  -- no call is under way, since it could be answered, so there is room for one
  have hidle : readers.countP Reader.isAsking = 0 := by
    rw [List.countP_eq_zero]
    intro u hu hasking
    cases u with
    | asking x => exact hstep hu .answer
    | waiting x => cases hasking
    | finished x => cases hasking
  have hroom : ((readers.countP Reader.isAsking : Nat) : Int) < limit := by
    rw [hidle]
    exact hl
  cases t with
  | waiting x =>
    cases harn : x.arn with
    | error fault => exact hstep ht (.refuse hroom harn)
    | ok arn => exact hstep ht (.ask hroom harn)
  | asking x => exact hstep ht .answer
  | finished x => exact hleft rfl

/-- A turn keeps the number of readers that ask within the limit. -/
theorem countP_turn (h : Turn limit s s')
    (hb : ((s.readers.countP Reader.isAsking : Nat) : Int) ≤ limit) :
    ((s'.readers.countP Reader.isAsking : Nat) : Int) ≤ limit := by
  cases h with
  | @step before after t t' made calls h =>
    cases h with
    | refuse room harn =>
      simp only [List.countP_append, List.countP_cons, Reader.isAsking] at hb ⊢
      push_cast at hb ⊢
      omega
    | ask room harn =>
      simp only [List.countP_append, List.countP_cons, Reader.isAsking] at room ⊢
      push_cast at room ⊢
      omega
    | answer =>
      simp only [List.countP_append, List.countP_cons, Reader.isAsking] at hb ⊢
      push_cast at hb ⊢
      omega

theorem countP_turns (hl : 0 < limit) (h : Turns limit (.start readings) s) :
    ((s.readers.countP Reader.isAsking : Nat) : Int) ≤ limit := by
  induction h with
  | refl =>
    have hnone : (readings.map Reader.waiting).countP Reader.isAsking = 0 := by
      rw [List.countP_map]
      exact List.countP_eq_zero.mpr fun _ _ => Bool.false_ne_true
    show (((readings.map Reader.waiting).countP Reader.isAsking : Nat) : Int) ≤ limit
    rw [hnone]
    exact Int.le_of_lt hl
  | tail _ hturn ih => exact countP_turn hturn ih

def Assembly.halfway (before after : List Reading) (calls : List Call) : Assembly :=
  ⟨before.map .finished ++ after.map .waiting, calls⟩

theorem countP_halfway (before after : List Reading) (x : Reading) :
    (before.map Reader.finished ++ Reader.waiting x :: after.map Reader.waiting).countP
      Reader.isAsking = 0 := by
  rw [List.countP_eq_zero]
  intro t ht
  rcases List.mem_append.mp ht with ht | ht
  · obtain ⟨y, -, rfl⟩ := List.mem_map.mp ht
    exact Bool.false_ne_true
  · rcases List.mem_cons.mp ht with rfl | ht
    · exact Bool.false_ne_true
    · obtain ⟨y, -, rfl⟩ := List.mem_map.mp ht
      exact Bool.false_ne_true

/-- The next task that waits can come to its end before any other. -/
theorem turns_next (hl : 0 < limit) (before after : List Reading) (x : Reading)
    (calls : List Call) : Turns limit (.halfway before (x :: after) calls)
      (.halfway (before ++ [x]) after (calls ++ x.calls)) := by
  set busy := (before.map Reader.finished ++ Reader.waiting x :: after.map Reader.waiting).countP
    Reader.isAsking with hbusy
  have hroom : (busy : Int) < limit := by
    rw [hbusy, countP_halfway]
    exact hl
  have hnext : Assembly.halfway (before ++ [x]) after (calls ++ x.calls) =
      ⟨before.map .finished ++ .finished x :: after.map .waiting, calls ++ x.calls⟩ := by
    rw [Assembly.halfway, List.map_append, List.append_assoc]
    rfl
  rw [hnext]
  cases harn : x.arn with
  | error fault =>
    have hcalls : x.calls = [] := by rw [Reading.calls, harn]
    rw [hcalls]
    exact .single (.step (.refuse hroom harn))
  | ok arn =>
    have hcalls : x.calls = [⟨.describe, arn⟩] := by rw [Reading.calls, harn]
    rw [hcalls]
    have hasked : Turns limit (.halfway before (x :: after) calls)
        ⟨before.map .finished ++ .asking x :: after.map .waiting,
          calls ++ [⟨.describe, arn⟩]⟩ := .single (.step (.ask hroom harn))
    have hanswer : Turn limit
        ⟨before.map .finished ++ .asking x :: after.map .waiting, calls ++ [⟨.describe, arn⟩]⟩
        ⟨before.map .finished ++ .finished x :: after.map .waiting,
          calls ++ [⟨.describe, arn⟩] ++ []⟩ := .step .answer
    rw [List.append_nil] at hanswer
    exact hasked.tail hanswer

/-- One after the other is one of the orders. -/
theorem turns_serial (hl : 0 < limit) (readings : List Reading) :
    Turns limit (.start readings)
      ⟨readings.map .finished, readings.flatMap Reading.calls⟩ := by
  have hfrom (before after : List Reading) (calls : List Call) :
      Turns limit (.halfway before after calls)
        (.halfway (before ++ after) [] (calls ++ after.flatMap Reading.calls)) := by
    induction after generalizing before calls with
    | nil => simpa using Relation.ReflTransGen.refl
    | cons x rest ih =>
      have hnext := turns_next hl before rest x calls
      have hrest := ih (before ++ [x]) (calls ++ x.calls)
      rw [List.append_assoc, List.append_assoc] at hrest
      exact hnext.trans hrest
  simpa [Assembly.halfway, Assembly.start] using hfrom [] readings []

/-- However the tasks of an assembly take turns, all of them come to an end. What is concluded then
is what the readings make, and one call was made for each reading that has a name within the
service. -/
structure Concludes (limit : Int) (readings : List Reading) : Prop where
  finite : WellFounded fun after before => Turn limit before after
  bounded : ∀ s, Turns limit (.start readings) s →
    ((s.readers.countP Reader.isAsking : Nat) : Int) ≤ limit
  last : ∀ s, Turns limit (.start readings) s → (∀ s', ¬ Turn limit s s') →
    s.readers = readings.map .finished ∧ s.outcome = assembled (.ok readings) ∧
      s.calls ~ readings.flatMap Reading.calls
  /-- One after the other is one of the orders. -/
  serial : Turns limit (.start readings)
    ⟨readings.map .finished, readings.flatMap Reading.calls⟩

/-- Reading in turns ends, with every reading made once. -/
theorem concludes (hl : 0 < limit) (readings : List Reading) : Concludes limit readings where
  finite := wellFounded_turn
  bounded _ := countP_turns hl
  last s hturns hlast := by
    have hu := (underway_start readings).turns hturns
    rcases exists_turn hl s with hover | ⟨s', hturn⟩
    · have hreaders := eq_map_finished hover
      rw [hu.readings] at hreaders
      have hcalls := hu.calls
      rw [hreaders, List.flatMap_map] at hcalls
      refine ⟨hreaders, ?_, hcalls⟩
      rw [Assembly.outcome, hreaders, List.map_map]
      rfl
    · exact absurd hturn (hlast s')
  serial := turns_serial hl readings

end Turns

end IngressControl.Discovery
