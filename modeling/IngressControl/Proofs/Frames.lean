import IngressControl.Proofs.Recorded

/-! What a move leaves alone. A load balancer stays as it is in the cloud as long as neither the
moves are made for its own handle nor its name is one that the service is going to give; so what is
settled for one resource is not undone by the others. -/

namespace IngressControl

namespace Cloud

/-- Every load balancer stands in the ledger of the service under its own name. -/
def Filed (cloud : Cloud) : Prop :=
  ∀ arn b, Ledger.get? arn cloud.balancers = some b → b.arn = arn

/-- A sound service files every load balancer under its own name. -/
theorem Sound.filed {cloud : Cloud} (h : cloud.Sound) : cloud.Filed := fun _ _ hb => h.arn hb

/-- Under a name there stand the same load balancer and the same targets as before. -/
structure SameAt (arn : String) (before after : Cloud) : Prop where
  balancer : Ledger.get? arn after.balancers = Ledger.get? arn before.balancers
  targets : Ledger.get? arn after.targets = Ledger.get? arn before.targets

namespace SameAt

variable {arn : String} {a b c : Cloud}

instance (arn : String) (before after : Cloud) : Decidable (SameAt arn before after) :=
  decidable_of_iff
    (Ledger.get? arn after.balancers = Ledger.get? arn before.balancers ∧
      Ledger.get? arn after.targets = Ledger.get? arn before.targets)
    ⟨fun h => ⟨h.1, h.2⟩, fun h => ⟨h.balancer, h.targets⟩⟩

theorem refl (arn : String) (cloud : Cloud) : SameAt arn cloud cloud := ⟨rfl, rfl⟩

theorem symm (h : SameAt arn a b) : SameAt arn b a := ⟨h.balancer.symm, h.targets.symm⟩

theorem trans (h : SameAt arn a b) (h' : SameAt arn b c) : SameAt arn a c :=
  ⟨h'.balancer.trans h.balancer, h'.targets.trans h.targets⟩

theorem of_store (h : b.store = a.store) : SameAt arn a b :=
  ⟨congrArg _ (balancers_of_store h), congrArg _ (targets_of_store h)⟩

end SameAt

end Cloud

namespace Engine

theorem Move.spent {context : Context} {r : Resource} {a b : Stage} {arn : String}
    (hm : Move context r a b) (hspent : a.cloud.Spent arn) : b.cloud.Spent arn := by
  have hspent : a.cloud.store.Spent arn := hspent
  have transfer {cloud' effect : Cloud} (hs : cloud'.store = effect) (hp : effect.Spent arn) :
      cloud'.Spent arn := by
    subst hs
    exact hp
  cases hm with
  | refused hs => exact transfer hs hspent
  | create spec hd hs => exact transfer hs hspent.withMade
  | update spec hd hb hs => exact transfer hs hspent
  | delete hd hs => exact transfer hs hspent
  | register spec batch hd hb hs => exact transfer hs hspent
  | deregister batch hs => exact transfer hs hspent

theorem Moves.spent {context : Context} {r : Resource} {a b : Stage} {arn : String}
    (hm : Moves context r a b) (hspent : a.cloud.Spent arn) : b.cloud.Spent arn := by
  induction hm with
  | refl => exact hspent
  | tail _ hmove ih => exact hmove.spent ih

/-- A move leaves alone what stands under a name that is neither that of the handle nor one that
the service is going to give. -/
theorem Move.frame {context : Context} {r : Resource} {a b : Stage} {arn : String}
    (hm : Move context r a b) (hown : ∀ h, a.handle = some h → arn ≠ h.arn)
    (hspent : a.cloud.Spent arn) : Cloud.SameAt arn a.cloud b.cloud := by
  have hspent : a.cloud.store.Spent arn := hspent
  have transfer {cloud' effect : Cloud} (hs : cloud'.store = effect)
      (hb : Ledger.get? arn effect.balancers = Ledger.get? arn a.cloud.balancers)
      (ht : Ledger.get? arn effect.targets = Ledger.get? arn a.cloud.targets) :
      Cloud.SameAt arn a.cloud cloud' := by
    subst hs
    exact ⟨hb, ht⟩
  cases hm with
  | refused hs => exact transfer hs rfl rfl
  | @create cloud _ spec hd hs =>
    have hne : arn ≠ (cloud.made (nameOfKey context.clusterName r.owner.key) (attributes spec)
        (tags context r.owner)).arn := hspent.made_arn_ne.symm
    exact transfer hs (by simp [hne]) (by simp [hne])
  | update spec hd hb hs => exact transfer hs (by simp [hown _ rfl]) rfl
  | delete hd hs => exact transfer hs (by simp [hown _ rfl]) (by simp [hown _ rfl])
  | register spec batch hd hb hs => exact transfer hs rfl (by simp [hown _ rfl])
  | deregister batch hs => exact transfer hs rfl (by simp [hown _ rfl])

/-- A load balancer that is there after a move was there before it, perhaps with other attributes,
or is new. -/
theorem Move.balancer_cases {context : Context} {r : Resource} {a b : Stage} {arn : String}
    {balancer : Handle} (hm : Move context r a b)
    (hb : Ledger.get? arn b.cloud.balancers = some balancer) :
    (∃ stored, Ledger.get? arn a.cloud.balancers = some stored ∧
        (balancer = stored ∨ ∃ spec, balancer = (attributes spec).change stored)) ∨
      ∃ spec, r.desired = some spec ∧ balancer = a.cloud.made
        (nameOfKey context.clusterName r.owner.key) (attributes spec) (tags context r.owner) ∧
        arn = balancer.arn := by
  cases hm with
  | refused hs => exact Or.inl ⟨balancer, Cloud.balancers_of_store hs ▸ hb, Or.inl rfl⟩
  | create spec hd hs =>
    rw [Cloud.balancers_of_effect hs] at hb
    rcases Ledger.get?_put_eq_some_iff.mp hb with ⟨hk, rfl⟩ | ⟨-, hb⟩
    · exact Or.inr ⟨spec, hd, rfl, hk⟩
    · exact Or.inl ⟨balancer, hb, Or.inl rfl⟩
  | @update cloud cloud' h stored spec hd hg hs =>
    rw [Cloud.balancers_of_effect hs] at hb
    rcases Ledger.get?_put_eq_some_iff.mp hb with ⟨rfl, rfl⟩ | ⟨-, hb⟩
    · exact Or.inl ⟨stored, hg, Or.inr ⟨spec, rfl⟩⟩
    · exact Or.inl ⟨balancer, hb, Or.inl rfl⟩
  | delete hd hs =>
    rw [Cloud.balancers_of_effect hs] at hb
    exact Or.inl ⟨balancer, (Ledger.get?_erase_eq_some_iff.mp hb).2, Or.inl rfl⟩
  | register spec batch hd hsub hs =>
    rw [Cloud.balancers_of_effect hs] at hb
    exact Or.inl ⟨balancer, hb, Or.inl rfl⟩
  | deregister batch hs =>
    rw [Cloud.balancers_of_effect hs] at hb
    exact Or.inl ⟨balancer, hb, Or.inl rfl⟩

theorem Move.filed {context : Context} {r : Resource} {a b : Stage} (hm : Move context r a b)
    (hf : a.cloud.Filed) : b.cloud.Filed := by
  intro arn balancer hb
  rcases hm.balancer_cases hb with ⟨stored, hg, rfl | ⟨spec, rfl⟩⟩ | ⟨spec, -, -, rfl⟩
  · exact hf arn balancer hg
  · exact hf arn stored hg
  · rfl

theorem Moves.filed {context : Context} {r : Resource} {a b : Stage} (hm : Moves context r a b)
    (hf : a.cloud.Filed) : b.cloud.Filed := by
  induction hm with
  | refl => exact hf
  | tail _ hmove ih => exact hmove.filed ih

/-- The handle that a move leaves has the name that it had, or one that the service was going to
give, and that is spent now. -/
theorem Move.handle_arn {context : Context} {r : Resource} {a b : Stage}
    (hm : Move context r a b) (hf : a.cloud.Filed) {h' : Handle} (hh : b.handle = some h') :
    (∃ h, a.handle = some h ∧ h'.arn = h.arn) ∨
      ¬ a.cloud.Spent h'.arn ∧ b.cloud.Spent h'.arn := by
  cases hm with
  | refused hs => exact Or.inl ⟨h', hh, rfl⟩
  | @create cloud cloud' spec hd hs =>
    obtain rfl := Option.some.inj hh
    refine Or.inr ⟨fun hspent => hspent.made_arn_ne rfl, ?_⟩
    have hspent : cloud'.store.Spent (cloud.store.made (nameOfKey context.clusterName r.owner.key)
        (attributes spec) (tags context r.owner)).arn := hs ▸ Cloud.spent_withMade _ _ _ _
    exact hspent
  | @update cloud cloud' h stored spec hd hb hs =>
    obtain rfl := Option.some.inj hh
    have hname : stored.arn = h.arn := hf _ _ hb
    exact Or.inl ⟨h, rfl, hname⟩
  | delete hd hs => cases hh
  | register spec batch hd hb hs =>
    obtain rfl := Option.some.inj hh
    exact Or.inl ⟨_, rfl, follow_arn _ _⟩
  | deregister batch hs =>
    obtain rfl := Option.some.inj hh
    exact Or.inl ⟨_, rfl, follow_arn _ _⟩

/-- In particular a move leaves alone what the engine's other handles stand for. -/
theorem Move.frame_others {context : Context} {r : Resource} {a b : Stage} {others : List Holding}
    (hm : Move context r a b) (hr : Recorded a.cloud (held r.owner a.handle ++ others))
    {x : Holding} (hx : x ∈ others) : Cloud.SameAt x.handle.arn a.cloud b.cloud := by
  obtain ⟨balancer, hb, -⟩ := hr.known x (List.mem_append_right _ hx)
  have hspent := hr.fresh _ (Ledger.mem_keys_of_get? hb)
  have hown : ∀ h, a.handle = some h → x.handle.arn ≠ h.arn := by
    intro h hh
    rw [hh] at hr
    exact Recorded.arn_ne hr hx
  exact hm.frame hown hspent

/-- A run of moves that does not start with a name does not come to it, and leaves alone what
stands there. -/
theorem Moves.frame {context : Context} {r : Resource} {a b : Stage} {arn : String}
    (hm : Moves context r a b) (hf : a.cloud.Filed) (hspent : a.cloud.Spent arn)
    (hown : a.handle.map Handle.arn ≠ some arn) :
    b.handle.map Handle.arn ≠ some arn ∧ Cloud.SameAt arn a.cloud b.cloud := by
  induction hm with
  | refl => exact ⟨hown, .refl arn _⟩
  | tail hmoves hmove ih =>
    obtain ⟨hown, hsame⟩ := ih
    have hspent := Moves.spent hmoves hspent
    refine ⟨fun hn => ?_, hsame.trans (hmove.frame (fun h hh he => hown ?_) hspent)⟩
    · obtain ⟨h', hh, rfl⟩ := Option.map_eq_some_iff.mp hn
      rcases hmove.handle_arn (Moves.filed hmoves hf) hh with ⟨h, ha, he⟩ | ⟨hnot, -⟩
      · exact hown (by rw [ha, Option.map_some, he])
      · exact hnot hspent
    · rw [hh, he]
      rfl

/-- As long as something is wanted, no move gives a load balancer up for another one. -/
theorem Moves.handle_of_wanted {context : Context} {r : Resource} {a b : Stage}
    {spec : DesiredSpec} {h : Handle} (hm : Moves context r a b) (hf : a.cloud.Filed)
    (hd : r.desired = some spec) (ha : a.handle = some h) :
    ∃ h', b.handle = some h' ∧ h'.arn = h.arn := by
  induction hm with
  | refl => exact ⟨h, ha, rfl⟩
  | tail hmoves hmove ih =>
    obtain ⟨h', hh, he⟩ := ih
    have hf := Moves.filed hmoves hf
    cases hmove with
    | refused hs => exact ⟨h', hh, he⟩
    | create => cases hh
    | update spec hd hb hs =>
      obtain rfl := Option.some.inj hh
      exact ⟨_, rfl, (hf _ _ hb).trans he⟩
    | delete hnone =>
      rw [hd] at hnone
      cases hnone
    | register spec batch hd hb hs =>
      obtain rfl := Option.some.inj hh
      exact ⟨_, rfl, (follow_arn _ _).trans he⟩
    | deregister batch hs =>
      obtain rfl := Option.some.inj hh
      exact ⟨_, rfl, (follow_arn _ _).trans he⟩

/-- No move changes the settings of the service. -/
theorem Move.settings {context : Context} {r : Resource} {a b : Stage} (hm : Move context r a b) :
    b.cloud.region = a.cloud.region ∧ b.cloud.limit = a.cloud.limit := by
  have transfer {cloud cloud' effect : Cloud} (hs : cloud'.store = effect)
      (hr : effect.region = cloud.region) (hl : effect.limit = cloud.limit) :
      cloud'.region = cloud.region ∧ cloud'.limit = cloud.limit := by
    subst hs
    exact ⟨hr, hl⟩
  cases hm with
  | refused hs => exact transfer hs rfl rfl
  | create spec hd hs => exact transfer hs rfl rfl
  | update spec hd hb hs => exact transfer hs rfl rfl
  | delete hd hs => exact transfer hs rfl rfl
  | register spec batch hd hb hs => exact transfer hs rfl rfl
  | deregister batch hs => exact transfer hs rfl rfl

/-- Moves change neither the region of the service nor its limit. -/
theorem Moves.settings {context : Context} {r : Resource} {a b : Stage} (hm : Moves context r a b) :
    b.cloud.region = a.cloud.region ∧ b.cloud.limit = a.cloud.limit := by
  induction hm with
  | refl => exact ⟨rfl, rfl⟩
  | tail _ hmove ih => exact ⟨hmove.settings.1.trans ih.1, hmove.settings.2.trans ih.2⟩

section Cycle

variable {context : Context} {now : Moment} {cloud : Cloud} {planned : ResourceSet} {arn : String}

/-- A name that is spent stays spent through a commit. -/
theorem spent_cloudAfter (hspent : cloud.Spent arn) (planned : ResourceSet) :
    (cloudAfter context now cloud planned).Spent arn := by
  induction planned generalizing cloud with
  | nil => exact hspent
  | cons r rest ih => simpa using ih ((reconcile_moves context now cloud r).spent hspent)

theorem filed_cloudAfter (hf : cloud.Filed) (planned : ResourceSet) :
    (cloudAfter context now cloud planned).Filed := by
  induction planned generalizing cloud with
  | nil => exact hf
  | cons r rest ih => simpa using ih ((reconcile_moves context now cloud r).filed hf)

/-- A commit changes neither the region of the service nor its limit. -/
theorem settings_cloudAfter (cloud : Cloud) (planned : ResourceSet) :
    (cloudAfter context now cloud planned).region = cloud.region ∧
      (cloudAfter context now cloud planned).limit = cloud.limit := by
  induction planned generalizing cloud with
  | nil => exact ⟨rfl, rfl⟩
  | cons r rest ih =>
    simpa [ih] using (reconcile_moves context now cloud r).settings

/-- What stands under a name that will not be given stays there while a plan is reconciled, unless
the plan has it for a resource that is not tainted. -/
theorem sameAt_cloudAfter (hf : cloud.Filed) (hspent : cloud.Spent arn)
    (hn : ∀ r ∈ planned, r.tainted = false → r.handle.map Handle.arn ≠ some arn) :
    Cloud.SameAt arn cloud (cloudAfter context now cloud planned) := by
  induction planned generalizing cloud with
  | nil => exact .refl arn cloud
  | cons r rest ih =>
    have hrest := fun r hr => hn r (List.mem_cons_of_mem _ hr)
    have hmoves := reconcile_moves context now cloud r
    rw [cloudAfter_cons]
    cases ht : r.tainted with
    | true =>
      simpa [ht] using ih hf hspent hrest
    | false =>
      have hfirst := (hmoves.frame hf hspent (hn r List.mem_cons_self ht)).2
      exact hfirst.trans (ih (hmoves.filed hf) (hmoves.spent hspent) hrest)

/-- No resource takes such a name over: whoever has it in the end is tainted and had it before. -/
theorem tainted_of_mem_resourcesAfter (hf : cloud.Filed) (hspent : cloud.Spent arn)
    (hn : ∀ r ∈ planned, r.tainted = false → r.handle.map Handle.arn ≠ some arn) {r : Resource}
    (hr : r ∈ resourcesAfter context now cloud planned) (ha : r.handle.map Handle.arn = some arn) :
    r ∈ planned ∧ r.tainted = true := by
  induction planned generalizing cloud with
  | nil => cases hr
  | cons first rest ih =>
    have hrest := fun r hr => hn r (List.mem_cons_of_mem _ hr)
    have hmoves := reconcile_moves context now cloud first
    rw [resourcesAfter_cons] at hr
    rcases List.mem_cons.mp hr with rfl | hr
    · cases ht : first.tainted with
      | true =>
        rw [reconcile_of_tainted ht]
        exact ⟨List.mem_cons_self, ht⟩
      | false => exact absurd ha (hmoves.frame hf hspent (hn first List.mem_cons_self ht)).1
    · obtain ⟨hmem, ht⟩ := ih (hmoves.filed hf) (hmoves.spent hspent) hrest hr
      exact ⟨List.mem_cons_of_mem _ hmem, ht⟩

end Cycle

end Engine

end IngressControl
