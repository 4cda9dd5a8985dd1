import IngressControl.Proofs.Requests

/-! How the calls for a resource can end. Nothing is asked of the answers: a call may return any
handle or fail with any fault, so what is shown here holds for every load balancer service. -/

namespace IngressControl

inductive Program.Yields {α : Type} : Program α → α → Prop
  | done {result : α} : Yields (.done result) result
  | ask {request : Request} {next : Except Fault Handle → Program α}
      (answer : Except Fault Handle) {result : α} (h : (next answer).Yields result) :
      Yields (.ask request next) result

namespace Program

variable {α β : Type}

/-- The result on a cloud is one of those that are possible. -/
theorem yields_run (p : Program α) (cloud : Cloud) : p.Yields (p.run cloud).1 := by
  induction p generalizing cloud with
  | done result => exact .done
  | ask request next ih => exact .ask _ (ih _ _)

theorem yields_of_bind {p : Program α} {f : α → Program β} {b : β} (h : (p.bind f).Yields b) :
    ∃ a, p.Yields a ∧ (f a).Yields b := by
  induction p with
  | done result => exact ⟨result, .done, h⟩
  | ask request next ih =>
    cases h with
    | ask answer h =>
      obtain ⟨a, ha, hb⟩ := ih answer h
      exact ⟨a, .ask answer ha, hb⟩

theorem eq_of_yields_done {a b : α} (h : (Program.done a).Yields b) : b = a := by
  cases h
  rfl

end Program

namespace Engine
open Program

/-- How the calls for a resource can end. The name is that of the load balancer that is told of. -/
inductive EndsAs (r : Resource) : Ending → Prop
  | created {spec : DesiredSpec} (wanted : r.desired = some spec) (fresh : r.handle = none)
      (h : Handle) : EndsAs r ⟨.ok .created, some h, h.name⟩
  | updated {spec : DesiredSpec} {old : Handle} {status : Status} (wanted : r.desired = some spec)
      (held : r.handle = some old) (reached : status = .modified ∨ status = .ready)
      (h : Handle) : EndsAs r ⟨.ok status, some h, h.name⟩
  | deleted {h : Handle} (unwanted : r.desired = none) (held : r.handle = some h) :
      EndsAs r ⟨.ok .deleted, none, h.name⟩
  | idle (unwanted : r.desired = none) (absent : r.handle = none) :
      EndsAs r ⟨.ok r.status, none, .string ""⟩
  | failed {handle : Option Handle} (kept : r.handle.isSome → handle.isSome)
      (undeleted : r.desired = none → handle = r.handle ∧ r.handle.isSome) (fault : Fault)
      (name : Document) : EndsAs r ⟨.error fault, handle, name⟩

section Yields

variable {context : Context} {r : Resource}

theorem bare_of_yields_batchesProgram {request : Handle → List Document → Request}
    {change : List Document → List Document → List Document} {h : Handle}
    {batches : List (List Document)} {x : Except Fault Unit × Handle}
    (hx : (batchesProgram request change h batches).Yields x) : x.2.bare = h.bare := by
  -- each batch starts from a handle that differs from the one before it in its instances
  induction batches generalizing h with
  | nil =>
    obtain rfl := eq_of_yields_done hx
    rfl
  | cons batch rest ih =>
    cases hx with
    | ask answer hx =>
      cases answer with
      | error fault =>
        obtain rfl := eq_of_yields_done hx
        rfl
      | ok _ =>
        dsimp only at hx
        split at hx
        · obtain rfl := eq_of_yields_done hx
          rfl
        · have hbare := ih hx
          exact hbare

theorem bare_of_yields_inBatchesProgram {request : Handle → List Document → Request}
    {change : List Document → List Document → List Document} {limit : Int} {h : Handle}
    {instances : List Document} {x : Except Fault Unit × Handle}
    (hx : (inBatchesProgram request change limit h instances).Yields x) : x.2.bare = h.bare := by
  unfold inBatchesProgram at hx
  split at hx
  · obtain rfl := eq_of_yields_done hx
    rfl
  · exact bare_of_yields_batchesProgram hx

/-- Aligning targets changes a handle in its instances only. -/
theorem bare_of_yields_alignProgram {limit : Int} {h : Handle} {wanted : List Document}
    {x : Except Fault Bool × Handle} (hx : (alignProgram limit h wanted).Yields x) :
    x.2.bare = h.bare := by
  unfold alignProgram at hx
  split at hx
  · obtain rfl := eq_of_yields_done hx
    rfl
  · split at hx
    · obtain rfl := eq_of_yields_done hx
      rfl
    · obtain ⟨added, hadded, hx⟩ := yields_of_bind hx
      have hbare := bare_of_yields_inBatchesProgram hadded
      split at hx
      · obtain rfl := eq_of_yields_done hx
        exact hbare
      · obtain ⟨removed, hremoved, hx⟩ := yields_of_bind hx
        obtain rfl := eq_of_yields_done hx
        exact (bare_of_yields_inBatchesProgram hremoved).trans hbare

/-- However its calls are answered, a creation ends as it may. -/
theorem endsAs_of_yields_createProgram {spec : DesiredSpec} {e : Ending}
    (hd : r.desired = some spec) (hh : r.handle = none)
    (he : (createProgram context r.owner spec).Yields e) : EndsAs r e := by
  have hfailed (fault : Fault) (handle : Option Handle) (name : Document) :
      EndsAs r ⟨.error fault, handle, name⟩ := .failed (by simp [hh]) (by simp [hd]) fault name
  cases he with
  | ask answer he =>
    cases answer with
    | error fault =>
      obtain rfl := eq_of_yields_done he
      exact hfailed _ _ _
    | ok handle =>
      obtain ⟨⟨outcome, h⟩, haligned, he⟩ := yields_of_bind he
      obtain rfl := eq_of_yields_done he
      have hname : handle.name = h.name :=
        (Handle.name_of_bare (bare_of_yields_alignProgram haligned)).symm
      cases outcome with
      | error fault => exact hfailed _ _ _
      | ok changed =>
        rw [hname]
        exact .created hd hh h

/-- However its calls are answered, an update ends as it may. -/
theorem endsAs_of_yields_updateProgram {spec : DesiredSpec} {old : Handle} {e : Ending}
    (hd : r.desired = some spec) (hh : r.handle = some old)
    (he : (updateProgram context old spec).Yields e) : EndsAs r e := by
  have hfailed (fault : Fault) (h : Handle) (name : Document) :
      EndsAs r ⟨.error fault, some h, name⟩ := .failed (fun _ => rfl) (by simp [hd]) fault name
  obtain ⟨attributes, -, he⟩ := yields_of_bind he
  cases attributes with
  | error fault =>
    obtain rfl := eq_of_yields_done he
    exact hfailed _ _ _
  | ok result =>
    obtain ⟨current, updated⟩ := result
    obtain ⟨⟨outcome, h⟩, haligned, he⟩ := yields_of_bind he
    obtain rfl := eq_of_yields_done he
    have hname : current.name = h.name :=
      (Handle.name_of_bare (bare_of_yields_alignProgram haligned)).symm
    cases outcome with
    | error fault => exact hfailed _ _ _
    | ok aligned =>
      rw [hname]
      refine .updated hd hh ?_ h
      cases updated <;> cases aligned <;> simp

theorem endsAs_of_yields_deleteProgram {h : Handle} {e : Ending} (hd : r.desired = none)
    (hh : r.handle = some h) (he : (deleteProgram h).Yields e) : EndsAs r e := by
  cases he with
  | ask answer he =>
    cases answer with
    | error fault =>
      obtain rfl := eq_of_yields_done he
      exact .failed (fun _ => rfl) (fun _ => ⟨hh.symm, by simp [hh]⟩) _ _
    | ok _ =>
      obtain rfl := eq_of_yields_done he
      exact .deleted hd hh

/-- Whatever the answers are, the calls for a resource end in one of these ways. -/
theorem endsAs_of_yields {e : Ending} (he : (program context r).Yields e) : EndsAs r e := by
  unfold program at he
  cases hd : r.desired with
  | none =>
    cases hh : r.handle with
    | none =>
      rw [hd, hh] at he
      obtain rfl := eq_of_yields_done he
      exact .idle hd hh
    | some h =>
      rw [hd, hh] at he
      exact endsAs_of_yields_deleteProgram hd hh he
  | some spec =>
    cases hh : r.handle with
    | none =>
      rw [hd, hh] at he
      exact endsAs_of_yields_createProgram hd hh he
    | some h =>
      rw [hd, hh] at he
      exact endsAs_of_yields_updateProgram hd hh he

end Yields

def conclude (now : Moment) (r : Resource) (e : Ending) : Resource × Option Event :=
  match e.outcome with
  | .ok status =>
    ({ r with handle := e.handle, error := none, status := status, lastReconciled := some now },
      reachedEvent? now r.owner e.name status)
  | .error fault =>
    ({ r with handle := e.handle, error := some fault.message, status := .failed,
              lastReconciled := some now },
      some (Event.ofMoment now .warning (.string "ERROR") r.owner (.string fault.message)))

inductive Becomes (context : Context) (now : Moment) (r : Resource) :
    Resource × Option Event → Prop
  | untouched (tainted : r.tainted = true) : Becomes context now r (r, none)
  | concluded (untainted : r.tainted = false) {e : Ending} (h : (program context r).Yields e) :
      Becomes context now r (conclude now r e)

section Becomes

variable {context : Context} {now : Moment} {r : Resource} {x : Resource × Option Event}

/-- A reconciliation runs the program of the entry and draws the conclusion. -/
theorem reconcile_eq_conclude (context : Context) (now : Moment) (cloud : Cloud)
    (ht : r.tainted = false) :
    reconcile context now cloud r =
      ⟨(conclude now r ((program context r).run cloud).1).1,
        (conclude now r ((program context r).run cloud).1).2,
        ((program context r).run cloud).2⟩ := by
  rw [run_program, reconcile, if_neg (by simp [ht]), conclude]
  dsimp only
  cases (apply context cloud r).outcome <;> rfl

/-- What is made of a resource on a cloud is one of these. -/
theorem becomes_reconcile (context : Context) (now : Moment) (cloud : Cloud) (r : Resource) :
    Becomes context now r
      ((reconcile context now cloud r).resource, (reconcile context now cloud r).event) := by
  cases ht : r.tainted with
  | true =>
    simpa [ht] using .untouched ht
  | false =>
    rw [reconcile_eq_conclude context now cloud ht]
    exact .concluded ht (yields_run _ _)

theorem Becomes.owner (h : Becomes context now r x) : x.1.owner = r.owner := by
  cases h with
  | untouched _ => rfl
  | @concluded _ e _ =>
    unfold conclude
    split <;> rfl

end Becomes

end Engine

end IngressControl
