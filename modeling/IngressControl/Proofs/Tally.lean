import IngressControl.Proofs.Adoption

/-! What the counters of an engine count. In every run they agree with the cycles that were
committed: how many there were, what failed in the sets that they committed, and when the last one
was. -/

namespace IngressControl

structure Commit where
  time : Moment
  set : ResourceSet

def Step.commit? (site : Site) : Step → Option Commit
  | bootstrap _ => none
  | sync outages sources now =>
    match ((sync outages sources now).cycle site).outcome with
    | .ok () => some ⟨now, (site.next (.sync outages sources now)).engine.resources⟩
    | .error _ => none

structure Engine.Balanced (engine : Engine) (commits : List Commit) : Prop where
  managed : engine.stats.managedResources = engine.resources.length
  cycles : engine.stats.syncCount = engine.stats.failedSyncs + commits.length
  errors : engine.stats.reconcileErrors = (commits.map fun c => failures c.set).sum
  time : engine.stats.lastSync = commits.getLast?.map Commit.time

namespace Engine

/-- A bootstrap leaves the engine alone, or only fills its set and counts that. -/
theorem bootstrap_engine_cases (engine : Engine) (cloud : Cloud) :
    (engine.bootstrap cloud).engine = engine ∨
      ∃ found : ResourceSet, (engine.bootstrap cloud).engine =
        { engine with
          resources := found
          stats := { engine.stats with managedResources := found.length } } := by
  unfold bootstrap
  split
  · exact Or.inl rfl
  · split
    · exact Or.inl rfl
    · exact Or.inr ⟨_, rfl⟩

namespace Balanced

variable {engine : Engine} {commits : List Commit}

/-- The counters of a new engine are balanced. -/
theorem start {context : Context} (h : Engine.start context [] = .ok engine) :
    engine.Balanced [] := by
  obtain ⟨_, -, h⟩ := bind_eq_ok h
  obtain rfl := Except.ok.inj h
  exact ⟨rfl, rfl, rfl, rfl⟩

theorem bootstrap (h : engine.Balanced commits) (cloud : Cloud) :
    (engine.bootstrap cloud).engine.Balanced commits := by
  rcases bootstrap_engine_cases engine cloud with he | ⟨found, he⟩
  · rwa [he]
  · rw [he]
    exact ⟨rfl, h.cycles, h.errors, h.time⟩

/-- A cycle that fails keeps the counters balanced. -/
theorem missed (h : engine.Balanced commits) : engine.missed.Balanced commits where
  managed := h.managed
  cycles := by
    have hcycles := h.cycles
    simp only [Engine.missed]
    omega
  errors := h.errors
  time := h.time

/-- A cycle that is carried through adds what it committed. -/
theorem carriesThrough (h : engine.Balanced commits) {sources : Sources} {now : Moment}
    {after : Engine} (hafter : engine.CarriesThrough sources now after) :
    after.Balanced (commits ++ [⟨now, after.resources⟩]) where
  managed := hafter.managedResources
  cycles := by
    rw [hafter.syncCount, hafter.failedSyncs, h.cycles, List.length_append, List.length_singleton,
      Nat.add_assoc]
  errors := by
    rw [hafter.reconcileErrors, h.errors, List.map_append, List.sum_append,
      List.map_singleton, List.sum_singleton]
  time := by rw [hafter.lastSync, List.getLast?_concat]; rfl

end Balanced

end Engine

namespace Site

variable {site : Site}

/-- What the cycles of a run commit, in their order. -/
def commits : Site → List Step → List Commit
  | _, [] => []
  | site, step :: rest => (step.commit? site).toList ++ commits (site.next step) rest

@[simp] theorem commits_append_singleton (site : Site) (steps : List Step) (step : Step) :
    site.commits (steps ++ [step]) =
      site.commits steps ++ (step.commit? (site.run steps)).toList := by
  induction steps generalizing site with
  | nil => simp [commits, run_nil]
  | cons first rest ih => simp [commits, ih]

/-- Every step keeps the counters in agreement with what was committed. -/
theorem balanced_next {commits : List Commit} (h : site.engine.Balanced commits) (step : Step) :
    (site.next step).engine.Balanced (commits ++ (step.commit? site).toList) := by
  cases step with
  | bootstrap outages =>
    rw [Step.commit?, Option.toList_none, List.append_nil]
    exact h.bootstrap _
  | sync outages sources now =>
    rcases Engine.sync_cases_of_plan site.engine sources now (site.cloud.withOutages outages) with
      ⟨fault, hsync⟩ | ⟨hok, hafter⟩
    · have hengine : (site.next (.sync outages sources now)).engine = site.engine.missed :=
        congrArg Cycle.engine hsync
      have houtcome : ((Step.sync outages sources now).cycle site).outcome = .error fault :=
        congrArg Cycle.outcome hsync
      rw [hengine, Step.commit?, houtcome, Option.toList_none, List.append_nil]
      exact h.missed
    · have houtcome : ((Step.sync outages sources now).cycle site).outcome = .ok () := hok
      rw [Step.commit?, houtcome]
      exact h.carriesThrough hafter

/-- From an engine that starts with nothing, wherever a run of bootstraps and cycles gets and
whichever of them fail, the counters agree with what was committed. -/
theorem balanced_run {context : Context} {engine : Engine}
    (h : Engine.start context [] = .ok engine) (cloud : Cloud) (steps : List Step) :
    (Site.run ⟨engine, cloud⟩ steps).engine.Balanced (Site.commits ⟨engine, cloud⟩ steps) := by
  induction steps using List.reverseRecOn with
  | nil => exact .start h
  | append_singleton steps step ih =>
    simpa [commits_append_singleton] using balanced_next ih step

end Site

namespace Shop

/-- A cycle whose ingresses cannot be listed. -/
def unlisted : Step := .sync [] { sources [] [] with ingresses := .broken "down" } default

/-- A bootstrap, a cycle that fails to register a target, one that cannot be planned and one that
succeeds: two were committed, and one error was counted. -/
theorem balanced_after_outage :
    Engine.start start.engine.context [] = .ok start.engine ∧
      (start.run [.bootstrap [], sync [registrationFails] [ingress] [service], unlisted,
        sync [] [ingress] [service]]).engine.Balanced
        (start.commits [.bootstrap [], sync [registrationFails] [ingress] [service], unlisted,
          sync [] [ingress] [service]]) ∧
      ((start.commits [.bootstrap [], sync [registrationFails] [ingress] [service], unlisted,
          sync [] [ingress] [service]]).map fun c => Engine.failures c.set) = [1, 0] := by
  have hstart : Engine.start start.engine.context [] = .ok start.engine := by
    have hc : start.engine.context.check = .ok () := by decide +kernel
    rw [Engine.start, hc]
    rfl
  exact ⟨hstart, Site.balanced_run hstart start.cloud _, by decide +kernel⟩

end Shop

end IngressControl
