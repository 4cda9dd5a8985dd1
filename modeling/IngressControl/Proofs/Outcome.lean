import IngressControl.Fault
import Mathlib.Data.List.Perm.Basic

/-! Outcomes that succeed: each step before them has succeeded. Two outcomes agree if both fail, or
both succeed with related results, which carries over from the steps of a computation to its end. -/

namespace IngressControl

variable {ε α β : Type}

theorem map_eq_ok {f : α → β} {x : Except ε α} {b : β} (h : x.map f = .ok b) :
    ∃ a, x = .ok a ∧ f a = b := by
  cases x with
  | error e => exact absurd h (by simp [Except.map])
  | ok a => exact ⟨a, rfl, Except.ok.inj h⟩

theorem bind_eq_ok {f : α → Except ε β} {x : Except ε α} {b : β} (h : x >>= f = .ok b) :
    ∃ a, x = .ok a ∧ f a = .ok b := by
  cases x with
  | error e => exact absurd h (by simp [Bind.bind, Except.bind])
  | ok a => exact ⟨a, rfl, h⟩

theorem bind_eq_error {f : α → Except ε β} {x : Except ε α} {e : ε} (h : x >>= f = .error e) :
    x = .error e ∨ ∃ a, x = .ok a ∧ f a = .error e := by
  cases x with
  | error e' =>
    obtain rfl := Except.error.inj h
    exact Or.inl rfl
  | ok a => exact Or.inr ⟨a, rfl, h⟩

/-- A list is gone through successfully if every member is. -/
theorem mapM_eq_ok_iff {f : α → Except ε β} {xs : List α} {ys : List β} :
    xs.mapM f = .ok ys ↔ List.Forall₂ (fun x y => f x = .ok y) xs ys := by
  induction xs generalizing ys with
  | nil => cases ys <;> simp [pure, Except.pure]
  | cons x rest ih =>
    rw [List.mapM_cons]
    constructor
    · intro h
      obtain ⟨y, hx, h⟩ := bind_eq_ok h
      obtain ⟨ys', hrest, h⟩ := bind_eq_ok h
      obtain rfl := Except.ok.inj h
      exact .cons hx (ih.mp hrest)
    · intro h
      cases h with
      | cons hx hrest =>
        rw [hx, ih.mpr hrest]
        rfl

/-- A computation that succeeds on every element succeeds on the list. -/
theorem exists_mapM {f : α → Except ε β} {xs : List α} (h : ∀ x ∈ xs, ∃ y, f x = .ok y) :
    ∃ ys, xs.mapM f = .ok ys := by
  induction xs with
  | nil => exact ⟨[], rfl⟩
  | cons x rest ih =>
    obtain ⟨y, hx⟩ := h x List.mem_cons_self
    obtain ⟨ys, hrest⟩ := ih fun x hx => h x (List.mem_cons_of_mem _ hx)
    exact ⟨y :: ys, mapM_eq_ok_iff.mpr (.cons hx (mapM_eq_ok_iff.mp hrest))⟩

/-- What goes well with every member goes well in the same way where each step does. -/
theorem mapM_eq_ok_of_imp {f g : α → Except ε β} {xs : List α} {ys : List β}
    (hfg : ∀ x ∈ xs, ∀ y, f x = .ok y → g x = .ok y) (h : xs.mapM f = .ok ys) :
    xs.mapM g = .ok ys := by
  rw [mapM_eq_ok_iff] at h ⊢
  induction h with
  | nil => exact .nil
  | cons hx _ ih =>
    obtain ⟨hfirst, hrest⟩ := List.forall_mem_cons.mp hfg
    exact .cons (hfirst _ hx) (ih hrest)

/-- Going through a list fails with the fault of the first member that fails. -/
theorem mapM_eq_error_iff {f : α → Except ε β} {xs : List α} {e : ε} :
    xs.mapM f = .error e ↔ ∃ before x after, xs = before ++ x :: after ∧
      (∀ y ∈ before, ∃ z, f y = .ok z) ∧ f x = .error e := by
  induction xs with
  | nil =>
    refine ⟨nofun, ?_⟩
    rintro ⟨before, x, after, h, -, -⟩
    cases before <;> cases h
  | cons x rest ih =>
    rw [List.mapM_cons]
    constructor
    · intro h
      rcases bind_eq_error h with hx | ⟨y, hy, h⟩
      · exact ⟨[], x, rest, rfl, nofun, hx⟩
      · rcases bind_eq_error h with hrest | ⟨ys, -, hnone⟩
        · obtain ⟨before, x', after, rfl, hbefore, he⟩ := ih.mp hrest
          exact ⟨x :: before, x', after, rfl, List.forall_mem_cons.mpr ⟨⟨y, hy⟩, hbefore⟩, he⟩
        · cases hnone
    · rintro ⟨before, x', after, h, hbefore, he⟩
      cases before with
      | nil =>
        obtain ⟨rfl, rfl⟩ := List.cons.inj h
        rw [he]
        rfl
      | cons y before =>
        obtain ⟨rfl, rfl⟩ := List.cons.inj h
        obtain ⟨⟨z, hz⟩, hbefore⟩ := List.forall_mem_cons.mp hbefore
        rw [hz, ih.mpr ⟨before, x', after, rfl, hbefore, he⟩]
        rfl

/-- A list fails with the fault of one of its elements. -/
theorem mapM_eq_error {f : α → Except ε β} {xs : List α} {e : ε} (h : xs.mapM f = .error e) :
    ∃ x ∈ xs, f x = .error e := by
  obtain ⟨before, x, after, rfl, -, he⟩ := mapM_eq_error_iff.mp h
  exact ⟨x, List.mem_append_right _ List.mem_cons_self, he⟩

theorem exists_left_of_forall₂ {R : α → β → Prop} {as : List α} {bs : List β}
    (h : List.Forall₂ R as bs) {b : β} (hb : b ∈ bs) : ∃ a ∈ as, R a b := by
  induction h with
  | nil => cases hb
  | cons hab _ ih =>
    rcases List.mem_cons.mp hb with rfl | hb
    · exact ⟨_, List.mem_cons_self, hab⟩
    · obtain ⟨a, ha, hr⟩ := ih hb
      exact ⟨a, List.mem_cons_of_mem _ ha, hr⟩

theorem exists_right_of_forall₂ {R : α → β → Prop} {as : List α} {bs : List β}
    (h : List.Forall₂ R as bs) {a : α} (ha : a ∈ as) : ∃ b ∈ bs, R a b :=
  exists_left_of_forall₂ h.flip ha

/-- What is related to a list in two parts is a list in two parts. -/
theorem exists_append_of_forall₂ {R : α → β → Prop} {as as' : List α} {bs : List β}
    (h : List.Forall₂ R (as ++ as') bs) :
    ∃ cs cs', bs = cs ++ cs' ∧ List.Forall₂ R as cs ∧ List.Forall₂ R as' cs' := by
  induction as generalizing bs with
  | nil => exact ⟨[], bs, rfl, .nil, h⟩
  | cons a as ih =>
    cases h with
    | cons hab hrest =>
      obtain ⟨cs, cs', rfl, hcs, hcs'⟩ := ih hrest
      exact ⟨_ :: cs, cs', rfl, .cons hab hcs, hcs'⟩

def Delivers (P : α → Prop) (x : Except ε α) : Prop := ∃ a, x = .ok a ∧ P a

namespace Delivers

variable {P : α → Prop} {Q : β → Prop} {x : Except ε α}

theorem of_eq_ok {a : α} (h : Delivers P x) (hx : x = .ok a) : P a := by
  obtain ⟨b, hb, hp⟩ := h
  obtain rfl := Except.ok.inj (hx.symm.trans hb)
  exact hp

theorem bind {f : α → Except ε β} (h : Delivers P x) (hf : ∀ a, P a → Delivers Q (f a)) :
    Delivers Q (x >>= f) := by
  obtain ⟨a, rfl, hp⟩ := h
  exact hf a hp

/-- A list delivers if every element does. -/
theorem mapM {f : α → Except ε β} {xs : List α} (h : ∀ x ∈ xs, Delivers Q (f x)) :
    Delivers (fun ys => ∀ y ∈ ys, Q y) (xs.mapM f) := by
  obtain ⟨ys, hys⟩ := exists_mapM fun x hx => (h x hx).imp fun _ hy => hy.1
  refine ⟨ys, hys, fun y hy => ?_⟩
  obtain ⟨x, hx, hxy⟩ := exists_left_of_forall₂ (mapM_eq_ok_iff.mp hys) hy
  exact (h x hx).of_eq_ok hxy

end Delivers

def Reordering (R : α → β → Prop) (xs : List α) (ys : List β) : Prop :=
  ∃ zs, List.Forall₂ R xs zs ∧ zs.Perm ys

namespace Reordering

variable {R : α → β → Prop} {xs : List α} {ys : List β}

theorem of_perm {xs ys : List α} (h : xs.Perm ys) : Reordering (· = ·) xs ys :=
  ⟨xs, List.forall₂_eq_eq_eq ▸ rfl, h⟩

theorem perm {xs ys : List α} (h : Reordering (· = ·) xs ys) : xs.Perm ys := by
  obtain ⟨zs, hzs, hp⟩ := h
  rw [List.forall₂_eq_eq_eq] at hzs
  exact hzs ▸ hp

theorem refl {R : α → α → Prop} (hr : ∀ a, R a a) (xs : List α) : Reordering R xs xs :=
  ⟨xs, List.forall₂_same.mpr fun a _ => hr a, .refl _⟩

theorem flip (h : Reordering R xs ys) : Reordering (fun y x => R x y) ys xs := by
  obtain ⟨zs, hzs, hp⟩ := h
  obtain ⟨ws, hws, hp⟩ := List.perm_comp_forall₂ hp.symm hzs.flip
  exact ⟨ws, hws, hp⟩

theorem exists_right (h : Reordering R xs ys) {x : α} (hx : x ∈ xs) : ∃ y ∈ ys, R x y := by
  obtain ⟨zs, hzs, hp⟩ := h
  obtain ⟨y, hy, hr⟩ := exists_right_of_forall₂ hzs hx
  exact ⟨y, hp.mem_iff.mp hy, hr⟩

theorem exists_left (h : Reordering R xs ys) {y : β} (hy : y ∈ ys) : ∃ x ∈ xs, R x y :=
  h.flip.exists_right hy

/-- Members whose keys are the same, in whatever order, belong together. -/
theorem of_keys {κ : Type} {f : α → κ} {g : β → κ} (h : (xs.map f).Perm (ys.map g)) :
    Reordering (fun x y => f x = g y) xs ys := by
  have hkeys : List.Forall₂ (fun k y => k = g y) (ys.map g) ys :=
    List.forall₂_map_left_iff.mpr (List.forall₂_same.mpr fun _ _ => rfl)
  obtain ⟨zs, hzs, hp⟩ := List.perm_comp_forall₂ h hkeys
  exact ⟨zs, List.forall₂_map_left_iff.mp hzs, hp⟩

theorem imp_of_mem {S : α → β → Prop} (h : Reordering R xs ys)
    (hs : ∀ x ∈ xs, ∀ y ∈ ys, R x y → S x y) : Reordering S xs ys := by
  obtain ⟨zs, hzs, hp⟩ := h
  have hleft := (List.forall₂_and_left _ _).mpr ⟨fun x (hx : x ∈ xs) => hx, hzs⟩
  have hboth := (List.forall₂_and_left _ _).mpr ⟨fun y (hy : y ∈ zs) => hy, hleft.flip⟩
  exact ⟨zs, hboth.flip.imp fun x y h => hs x h.2.1 y (hp.mem_iff.mp h.1) h.2.2, hp⟩

theorem trans_forall₂ {γ : Type} {S : β → γ → Prop} {zs : List γ} (h : Reordering R xs ys)
    (hs : List.Forall₂ S ys zs) : Reordering (fun x z => ∃ y, R x y ∧ S y z) xs zs := by
  obtain ⟨us, hus, hpu⟩ := h
  obtain ⟨vs, hvs, hpv⟩ := List.perm_comp_forall₂ hpu hs
  refine ⟨vs, ?_, hpv⟩
  clear hpu hpv
  induction hus generalizing vs with
  | nil =>
    cases hvs
    exact .nil
  | cons hxy _ ih =>
    cases hvs with
    | cons hyz hrest => exact .cons ⟨_, hxy, hyz⟩ (ih _ hrest)

/-- Predicates that agree on related elements keep a reordering. -/
theorem filter {p : α → Bool} {q : β → Bool} (h : Reordering R xs ys)
    (hpq : ∀ x y, R x y → p x = q y) : Reordering R (xs.filter p) (ys.filter q) := by
  obtain ⟨zs, hzs, hp⟩ := h
  exact ⟨zs.filter q, List.rel_filter (fun x y hr => Bool.eq_iff_iff.mp (hpq x y hr)) hzs,
    hp.filter q⟩

/-- Related elements with equal images have images that are permutations of each other. -/
theorem map_perm {κ : Type} {f : α → κ} {g : β → κ} (h : Reordering R xs ys)
    (hr : ∀ x y, R x y → f x = g y) : (xs.map f).Perm (ys.map g) := by
  obtain ⟨zs, hzs, hp⟩ := h
  have heq : xs.map f = zs.map g := by
    clear hp
    induction hzs with
    | nil => rfl
    | cons hxy _ ih => rw [List.map_cons, List.map_cons, hr _ _ hxy, ih]
  exact heq ▸ hp.map g

end Reordering

/-- Two outcomes both fail, or both succeed with related results. -/
structure Agree (R : α → β → Prop) (x : Except ε α) (y : Except ε β) : Prop where
  left : ∀ {a}, x = .ok a → ∃ b, y = .ok b ∧ R a b
  right : ∀ {b}, y = .ok b → ∃ a, x = .ok a ∧ R a b

namespace Agree

variable {R : α → β → Prop} {x : Except ε α} {y : Except ε β}

theorem ok {a : α} {b : β} (h : R a b) : Agree R (.ok a : Except ε α) (.ok b) where
  left ha := ⟨b, rfl, Except.ok.inj ha ▸ h⟩
  right hb := ⟨a, rfl, Except.ok.inj hb ▸ h⟩

theorem error (e e' : ε) : Agree R (.error e : Except ε α) (.error e') where
  left h := nomatch h
  right h := nomatch h

theorem refl {R : α → α → Prop} (hr : ∀ a, R a a) (x : Except ε α) : Agree R x x where
  left h := ⟨_, h, hr _⟩
  right h := ⟨_, h, hr _⟩

theorem mono {S : α → β → Prop} (h : Agree R x y) (hs : ∀ a b, R a b → S a b) : Agree S x y where
  left ha := by
    obtain ⟨b, hb, hr⟩ := h.left ha
    exact ⟨b, hb, hs _ _ hr⟩
  right hb := by
    obtain ⟨a, ha, hr⟩ := h.right hb
    exact ⟨a, ha, hs _ _ hr⟩

theorem flip (h : Agree R x y) : Agree (fun b a => R a b) y x := ⟨h.right, h.left⟩

/-- Steps that agree may be followed by steps that agree on related results. -/
theorem bind {γ δ : Type} {S : γ → δ → Prop} {f : α → Except ε γ} {g : β → Except ε δ}
    (h : Agree R x y)
    (hf : ∀ a b, x = .ok a → y = .ok b → R a b → Agree S (f a) (g b)) :
    Agree S (x >>= f) (y >>= g) where
  left hc := by
    obtain ⟨a, ha, hc⟩ := bind_eq_ok hc
    obtain ⟨b, hb, hr⟩ := h.left ha
    obtain ⟨d, hd, hs⟩ := (hf a b ha hb hr).left hc
    exact ⟨d, by rw [hb]; exact hd, hs⟩
  right hd := by
    obtain ⟨b, hb, hd⟩ := bind_eq_ok hd
    obtain ⟨a, ha, hr⟩ := h.right hb
    obtain ⟨c, hc, hs⟩ := (hf a b ha hb hr).right hd
    exact ⟨c, by rw [ha]; exact hc, hs⟩

/-- Going through related members in whatever order agrees, if each step does. -/
theorem mapM {γ δ : Type} {S : γ → δ → Prop} {f : α → Except ε γ} {g : β → Except ε δ}
    {xs : List α} {ys : List β} (h : Reordering R xs ys)
    (hf : ∀ x y, R x y → Agree S (f x) (g y)) : Agree (Reordering S) (xs.mapM f) (ys.mapM g) := by
  have honce {α β γ δ : Type} {R : α → β → Prop} {S : γ → δ → Prop} {f : α → Except ε γ}
      {g : β → Except ε δ} {xs : List α} {ys : List β} (h : Reordering R xs ys)
      (hf : ∀ x y, R x y → Agree S (f x) (g y)) {as : List γ} (ha : xs.mapM f = .ok as) :
      ∃ bs, ys.mapM g = .ok bs ∧ Reordering S as bs := by
    obtain ⟨zs, hzs, hp⟩ := h
    have hall : ∃ bs, List.Forall₂ (fun z b => g z = .ok b) zs bs ∧ List.Forall₂ S as bs := by
      rw [mapM_eq_ok_iff] at ha
      clear hp
      induction hzs generalizing as with
      | nil =>
        cases ha
        exact ⟨[], .nil, .nil⟩
      | cons hxz _ ih =>
        cases ha with
        | cons hx hrest =>
          obtain ⟨b, hb, hs⟩ := (hf _ _ hxz).left hx
          obtain ⟨bs, hbs, hss⟩ := ih hrest
          exact ⟨b :: bs, .cons hb hbs, .cons hs hss⟩
    obtain ⟨bs, hbs, hs⟩ := hall
    obtain ⟨cs, hcs, hpc⟩ := List.perm_comp_forall₂ hp.symm hbs
    exact ⟨cs, mapM_eq_ok_iff.mpr hcs, bs, hs, hpc.symm⟩
  refine ⟨fun ha => honce h hf ha, fun hb => ?_⟩
  obtain ⟨as, ha, hr⟩ := honce h.flip (fun y x hr => (hf x y hr).flip) hb
  exact ⟨as, ha, hr.flip⟩

end Agree

end IngressControl
