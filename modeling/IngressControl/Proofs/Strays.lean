import IngressControl.Proofs.Answers

/-! Targets without a load balancer. What registers targets or takes them off does not ask whether
there is a load balancer of the name, so a name can have targets that no load balancer has. It does
exactly if its targets were changed while no load balancer had it, and since then none was put under
the name or deleted. -/

namespace IngressControl

namespace Cloud

inductive Use
  | configure (settings : Document)
  | visit (access : Access)

def Use.reply (cloud : Cloud) : Use → Reply (Option Effect)
  | configure settings => (cloud.configure settings).telling fun _ => none
  | visit access => access.reply cloud

def used (cloud : Cloud) (uses : List Use) : Cloud :=
  uses.foldl (fun cloud use => (use.reply cloud).2) cloud

def traces (cloud : Cloud) : List Use → List Effect
  | [] => []
  | use :: rest => (effectOf (use.reply cloud).1).toList ++ traces (use.reply cloud).2 rest

/-- An effect on the targets of a name that goes by without a load balancer. -/
def Effect.Retargets (arn : String) : Effect → Prop
  | join name _ => name = arn
  | leave name _ => name = arn
  | _ => False

def standing (effects : List Effect) : List String := effects.foldl Effect.onOrder []

/-- The targets of a name were changed while no load balancer had the name, and since then none was
put under it or deleted. -/
def Stray (effects : List Effect) (arn : String) : Prop :=
  ∃ before effect after, effects = before ++ effect :: after ∧ effect.Retargets arn ∧
    arn ∉ standing before ∧ ∀ later ∈ after, ¬ later.Resets arn

def Effect.onNames (names : List String) : Effect → List String
  | put balancer _ => if balancer.arn ∈ names then names else names ++ [balancer.arn]
  | change _ _ => names
  | drop arn => names.filter fun other => !decide (other = arn)
  | join arn _ => if arn ∈ names then names else names ++ [arn]
  | leave arn _ => if arn ∈ names then names else names ++ [arn]

def targeted (effects : List Effect) : List String := effects.foldl Effect.onNames []

section Names

variable {effects : List Effect} {effect : Effect} {arn : String}

theorem mem_insertion {name : String} {names : List String} :
    arn ∈ (if name ∈ names then names else names ++ [name]) ↔ arn ∈ names ∨ arn = name := by
  split
  · next hmem =>
    refine ⟨Or.inl, ?_⟩
    rintro (h | rfl)
    · exact h
    · exact hmem
  · rw [List.mem_append, List.mem_singleton]

theorem mem_deletion {name : String} {names : List String} :
    arn ∈ names.filter (fun other => !decide (other = name)) ↔ arn ∈ names ∧ arn ≠ name := by
  rw [List.mem_filter, Bool.not_eq_true', decide_eq_false_iff_not]

@[simp] theorem standing_concat (effects : List Effect) (effect : Effect) :
    standing (effects ++ [effect]) = effect.onOrder (standing effects) := by
  rw [standing, List.foldl_append]
  rfl

/-- One more effect changes the load balancers with targets as it says. -/
theorem targeted_concat (effects : List Effect) (effect : Effect) :
    targeted (effects ++ [effect]) = effect.onNames (targeted effects) := by
  rw [targeted, List.foldl_append]
  rfl

theorem not_stray_nil : ¬ Stray [] arn := by
  rintro ⟨before, effect, after, hsplit, -⟩
  have hlength := congrArg List.length hsplit
  simp at hlength

/-- One more effect makes a stray of a name, or it leaves one alone. -/
theorem stray_concat : Stray (effects ++ [effect]) arn ↔
    (effect.Retargets arn ∧ arn ∉ standing effects) ∨
      (Stray effects arn ∧ ¬ effect.Resets arn) := by
  constructor
  · rintro ⟨before, change, after, hsplit, hchange, hfree, hlater⟩
    rcases List.eq_nil_or_concat after with rfl | ⟨after, last, rfl⟩
    · obtain ⟨rfl, hlast⟩ := List.append_inj' hsplit rfl
      obtain rfl := List.singleton_inj.mp hlast
      exact Or.inl ⟨hchange, hfree⟩
    · -- the change was before, and the last effect is one of those that came since
      rw [List.concat_eq_append, ← List.cons_append, ← List.append_assoc] at hsplit
      obtain ⟨rfl, hlast⟩ := List.append_inj' hsplit rfl
      obtain rfl := List.singleton_inj.mp hlast
      rw [List.concat_eq_append] at hlater
      refine Or.inr ⟨⟨before, change, after, rfl, hchange, hfree, fun later hmem => ?_⟩, ?_⟩
      · exact hlater later (List.mem_append_left _ hmem)
      · exact hlater effect (List.mem_append_right _ (List.mem_singleton_self effect))
  · rintro (⟨hchange, hfree⟩ | ⟨⟨before, change, after, rfl, hchange, hfree, hlater⟩, hlast⟩)
    · exact ⟨effects, effect, [], rfl, hchange, hfree, fun _ hmem => absurd hmem (by simp)⟩
    · refine ⟨before, change, after ++ [effect], by simp, hchange, hfree, fun later hmem => ?_⟩
      rcases List.mem_append.mp hmem with hmem | hmem
      · exact hlater later hmem
      · exact List.mem_singleton.mp hmem ▸ hlast

/-- No load balancer has the name of a stray. -/
theorem Stray.not_standing (h : Stray effects arn) : arn ∉ standing effects := by
  induction effects using List.reverseRecOn with
  | nil => exact absurd h not_stray_nil
  | append_singleton effects effect ih =>
    rw [standing_concat]
    rcases stray_concat.mp h with ⟨hchange, hfree⟩ | ⟨hstray, hlast⟩
    · cases effect with
      | join name instances => exact hfree
      | leave name instances => exact hfree
      | _ => exact hchange.elim
    · have hfree := ih hstray
      cases effect with
      | put balancer instances =>
        rw [Effect.onOrder, mem_insertion]
        rintro (hmem | rfl)
        · exact hfree hmem
        · exact hlast rfl
      | drop name =>
        rw [Effect.onOrder, mem_deletion]
        exact fun hmem => hfree hmem.1
      | _ => exact hfree

/-- The names with targets are those of the load balancers and the strays. -/
theorem mem_targeted_iff : arn ∈ targeted effects ↔ arn ∈ standing effects ∨ Stray effects arn := by
  induction effects using List.reverseRecOn with
  | nil => simp [targeted, standing, not_stray_nil]
  | append_singleton effects effect ih =>
    rw [targeted_concat, standing_concat, stray_concat]
    have htouched {name : String} : (arn ∈ targeted effects ∨ arn = name) ↔
        arn ∈ standing effects ∨ (name = arn ∧ arn ∉ standing effects) ∨ Stray effects arn := by
      rw [ih, eq_comm (a := arn)]
      tauto
    cases effect with
    | put balancer instances =>
      rw [Effect.onNames, Effect.onOrder, mem_insertion, mem_insertion, ih]
      simp only [Effect.Retargets, Effect.Resets, eq_comm (a := arn)]
      tauto
    | change name attributes =>
      change arn ∈ targeted effects ↔ arn ∈ standing effects ∨ _
      rw [ih]
      simp [Effect.Retargets, Effect.Resets]
    | drop name =>
      rw [Effect.onNames, Effect.onOrder, mem_deletion, mem_deletion, ih]
      simp only [Effect.Retargets, Effect.Resets, Ne, eq_comm (a := arn)]
      tauto
    | join name instances =>
      rw [Effect.onNames, mem_insertion, htouched]
      simp [Effect.Retargets, Effect.Resets, Effect.onOrder]
    | leave name instances =>
      rw [Effect.onNames, mem_insertion, htouched]
      simp [Effect.Retargets, Effect.Resets, Effect.onOrder]

end Names

section Uses

variable {cloud : Cloud}

theorem follows_configure (cloud : Cloud) (settings : Document) :
    Follows cloud ((cloud.configure settings).telling fun _ => none) := by
  cases settings with
  | object fields =>
    rw [configure]
    cases ((Ledger.get? "latency" fields).getD (.float ⟨false, 0⟩)).toDecimal with
    | ok latency => exact ⟨rfl, rfl, rfl, id⟩
    | error fault => exact ⟨rfl, rfl, rfl, id⟩
  | _ => exact ⟨rfl, rfl, rfl, id⟩

theorem follows_use (cloud : Cloud) (use : Use) : Follows cloud (use.reply cloud) := by
  cases use with
  | configure settings => exact follows_configure cloud settings
  | visit access => exact follows_reply cloud access

theorem keys_onLedger (effect : Effect) (ledger : List (String × List Document)) :
    Ledger.keys (effect.onLedger ledger) = effect.onNames (Ledger.keys ledger) := by
  cases effect with
  | put balancer instances => exact Ledger.keys_put _ _ _
  | change name attributes => rfl
  | drop name => exact Ledger.keys_erase _ _
  | join name instances => exact Ledger.keys_put _ _ _
  | leave name instances => exact Ledger.keys_put _ _ _

/-- One use changes the names by its effect. -/
theorem keys_reply (cloud : Cloud) (use : Use) :
    Ledger.keys (use.reply cloud).2.balancers =
        (effectOf (use.reply cloud).1).toList.foldl Effect.onOrder (Ledger.keys cloud.balancers) ∧
      Ledger.keys (use.reply cloud).2.targets =
        (effectOf (use.reply cloud).1).toList.foldl Effect.onNames (Ledger.keys cloud.targets) := by
  obtain ⟨hbalancers, htargets, -, -⟩ := follows_use cloud use
  rw [hbalancers, htargets]
  cases effectOf (use.reply cloud).1 with
  | none => exact ⟨rfl, rfl⟩
  | some effect => exact ⟨keys_onBalancers effect _, keys_onLedger effect _⟩

/-- After any uses the names are what their effects make of them. -/
theorem keys_used (cloud : Cloud) (uses : List Use) :
    Ledger.keys (cloud.used uses).balancers =
        (cloud.traces uses).foldl Effect.onOrder (Ledger.keys cloud.balancers) ∧
      Ledger.keys (cloud.used uses).targets =
        (cloud.traces uses).foldl Effect.onNames (Ledger.keys cloud.targets) := by
  induction uses generalizing cloud with
  | nil => exact ⟨rfl, rfl⟩
  | cons use rest ih =>
    obtain ⟨hbalancers, htargets⟩ := ih (use.reply cloud).2
    obtain ⟨hfirst, hfirst'⟩ := keys_reply cloud use
    rw [hfirst] at hbalancers
    rw [hfirst'] at htargets
    rw [traces, List.foldl_append, List.foldl_append]
    exact ⟨hbalancers, htargets⟩

/-- From a blank service, the names with a record and the names with targets are those that the
effects leave. -/
theorem Blank.keys_used {start : Cloud} (h : start.Blank) (uses : List Use) :
    Ledger.keys (start.used uses).balancers = standing (start.traces uses) ∧
      Ledger.keys (start.used uses).targets = targeted (start.traces uses) := by
  have hkeys := Cloud.keys_used start uses
  rwa [h.balancers, h.targets] at hkeys

end Uses

/-- A call that changes the targets of a name is taken exactly if their number is within the limit,
whether a load balancer has the name or not, and then the name has targets. -/
structure Takes (cloud : Cloud) (arn : String) (count : Nat) (reply : Reply Unit) : Prop where
  answers : Answers cloud reply fun outcome =>
    (outcome = .ok () ↔ cloud.exceedsLimit count = .ok false)
  targets : reply.1 = .ok () → arn ∈ Ledger.keys reply.2.targets ∧
    reply.2.balancers = cloud.balancers

section Answering

variable {cloud : Cloud} {handle : Handle} {instances : List Document}

/-- A change of targets succeeds if it keeps the limit, whether or not the load balancer is
there. -/
theorem answers_change (operation : Operation)
    (change : List Document → List Document → List Document) :
    Answers cloud (cloud.perform operation handle.name fun cloud =>
      cloud.withinLimit instances fun cloud =>
        (.ok (), cloud.withTargets handle.arn (fun ts => change ts instances))) fun outcome =>
      (outcome = .ok () ↔ cloud.exceedsLimit instances.length = .ok false) := by
  refine answers_perform fun c hc => ?_
  have hlimit : c.exceedsLimit instances.length = cloud.exceedsLimit instances.length := by
    rw [exceedsLimit, exceedsLimit, limit_of_store hc]
  rw [withinLimit, hlimit]
  cases cloud.exceedsLimit instances.length with
  | error fault => simp
  | ok exceeds => cases exceeds <;> simp

theorem takes_of_changesTargets {call : Cloud → Handle → List Document → Reply Unit}
    {change : List Document → List Document → List Document} (h : ChangesTargets call change)
    (ha : Answers cloud (call cloud handle instances) fun outcome =>
      (outcome = .ok () ↔ cloud.exceedsLimit instances.length = .ok false)) :
    Takes cloud handle.arn instances.length (call cloud handle instances) := by
  refine ⟨ha, fun hok => ?_⟩
  rcases h.cases (rfl : call cloud handle instances = (_, _)) with
    ⟨-, ⟨fault, hfault⟩, -⟩ | ⟨-, hs, -⟩
  · exact absurd (hok.symm.trans hfault) nofun
  · have htargets := congrArg Cloud.targets hs
    have hbalancers := congrArg Cloud.balancers hs
    refine ⟨?_, hbalancers⟩
    change (call cloud handle instances).2.targets = Ledger.put handle.arn _ cloud.targets
      at htargets
    rw [htargets]
    exact Ledger.mem_keys_put.mpr (Or.inl rfl)

/-- A change of attributes is refused exactly where there is no load balancer. -/
theorem answers_update (cloud : Cloud) (handle : Handle) (attributes : Attributes) :
    Answers cloud (cloud.update handle attributes) fun outcome =>
      (outcome = .error (.loadBalancerMissing handle.arn) ↔
        handle.arn ∉ Ledger.keys cloud.balancers) := by
  refine answers_perform fun c hc => ?_
  rw [← Ledger.get?_eq_none_iff, ← balancers_of_store hc]
  cases Ledger.get? handle.arn c.balancers with
  | none => simp
  | some stored => simp

/-- What there is under a name is described, a load balancer or not. -/
theorem answers_describe {arn : String} {targets : List Document}
    (h : Ledger.get? arn cloud.targets = some targets) :
    Answers cloud (cloud.describe (.string arn)) fun outcome => outcome = Document.sort targets :=
  answers_perform fun _ hc => targetsOf_of_some ((targets_of_store hc).symm ▸ h)

end Answering

/-- What a service that had some uses has under its names, and what it answers about them. -/
structure Lodges (start : Cloud) (uses : List Use) (cloud : Cloud) : Prop where
  housed : ∀ arn ∈ Ledger.keys cloud.balancers, arn ∈ Ledger.keys cloud.targets
  /-- What has targets besides is a stray, and every stray has. -/
  strays : ∀ arn, (arn ∈ Ledger.keys cloud.targets ∧ arn ∉ Ledger.keys cloud.balancers) ↔
    Stray (start.traces uses) arn
  aligned : (∀ arn, arn ∈ Ledger.keys cloud.targets ↔ arn ∈ Ledger.keys cloud.balancers) ↔
    ∀ arn, ¬ Stray (start.traces uses) arn
  registered : ∀ (handle : Handle) instances,
    Takes cloud handle.arn instances.length (cloud.register handle instances)
  deregistered : ∀ (handle : Handle) instances,
    Takes cloud handle.arn instances.length (cloud.deregister handle instances)
  updated : ∀ (handle : Handle) attributes,
    Answers cloud (cloud.update handle attributes) fun outcome =>
      (outcome = .error (.loadBalancerMissing handle.arn) ↔
        handle.arn ∉ Ledger.keys cloud.balancers)
  described : ∀ arn targets, Ledger.get? arn cloud.targets = some targets →
    Answers cloud (cloud.describe (.string arn)) fun outcome => outcome = Document.sort targets
  undescribed : ∀ arn, arn ∉ Ledger.keys cloud.targets →
    Answers cloud (cloud.describe (.string arn)) fun outcome =>
      outcome = .error (.loadBalancerMissing arn)

/-- Whatever uses a service has had, it holds targets for its load balancers and for the strays. -/
theorem Blank.lodges_uses {start : Cloud} (h : start.Blank) (uses : List Use) :
    Lodges start uses (start.used uses) := by
  obtain ⟨hbalancers, htargets⟩ := h.keys_used uses
  have hmem (arn : String) : arn ∈ Ledger.keys (start.used uses).targets ↔
      arn ∈ Ledger.keys (start.used uses).balancers ∨ Stray (start.traces uses) arn := by
    rw [hbalancers, htargets]
    exact mem_targeted_iff
  have hfree {arn : String} (hs : Stray (start.traces uses) arn) :
      arn ∉ Ledger.keys (start.used uses).balancers := hbalancers ▸ hs.not_standing
  refine ⟨fun arn hb => (hmem arn).mpr (Or.inl hb), fun arn => ?_, ?_, fun handle instances => ?_,
    fun handle instances => ?_, answers_update _, fun arn targets => answers_describe,
    fun arn hn => ?_⟩
  · rw [hmem]
    exact ⟨fun hboth => hboth.1.resolve_left hboth.2, fun hs => ⟨Or.inr hs, hfree hs⟩⟩
  · refine ⟨fun halike arn hs => ?_, fun hnone arn => ?_⟩
    · exact hfree hs ((halike arn).mp ((hmem arn).mpr (Or.inr hs)))
    · rw [hmem]
      exact or_iff_left (hnone arn)
  · exact takes_of_changesTargets register_changesTargets (answers_change .register join)
  · exact takes_of_changesTargets deregister_changesTargets (answers_change .deregister leave)
  · refine describe_none ?_
    rw [inventory, Option.map_eq_none_iff, Ledger.get?_eq_none_iff]
    exact hn

end Cloud

namespace Shop
open Cloud (Lodges Stray)

def early : List Cloud.Use :=
  [.visit (.register front [.string "i-1"]),
    .configure (.object [("max_targets_per_call", .int 1)]), .visit (.add front [.string "i-2"])]

/-- Targets are registered before their load balancer is there, and lodged once it is added. -/
theorem lodges_early : Lodges {} early (Cloud.used {} early) ∧
    Stray (Cloud.traces {} (early.take 2)) "front" ∧
    ∀ arn, arn ∈ Ledger.keys (Cloud.used {} early).targets ↔
      arn ∈ Ledger.keys (Cloud.used {} early).balancers := by
  have hlodges (uses : List Cloud.Use) : Lodges {} uses (Cloud.used {} uses) :=
    Cloud.Blank.lodges_uses ⟨rfl, rfl, rfl⟩ uses
  refine ⟨hlodges early, ?_, fun arn => ?_⟩
  · exact ((hlodges (early.take 2)).strays "front").mp ⟨by decide +kernel, by decide +kernel⟩
  · have hkeys : Ledger.keys (Cloud.used {} early).targets =
        Ledger.keys (Cloud.used {} early).balancers := by decide +kernel
    rw [hkeys]

def late : List Cloud.Use :=
  [.visit (.add front [.string "i-1"]), .visit (.delete front),
    .visit (.register front [.string "i-2"])]

/-- Registering behind a deletion succeeds, where a change of attributes is refused, and leaves
targets without a load balancer. -/
theorem stray_late :
    ((Cloud.used {} (late.take 2)).register front [.string "i-2"]).1.isOk = true ∧
    ((Cloud.used {} (late.take 2)).update front ⟨.null, [], [], []⟩).1 =
      .error (.loadBalancerMissing "front") ∧
    Ledger.keys (Cloud.used {} late).targets = ["front"] ∧
    Ledger.keys (Cloud.used {} late).balancers = [] := by
  refine ⟨by decide +kernel, rfl, by decide +kernel, by decide +kernel⟩

end Shop

end IngressControl
