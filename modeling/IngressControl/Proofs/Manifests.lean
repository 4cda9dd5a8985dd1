import IngressControl.Command.Run
import IngressControl.Proofs.Extraction

/-! Manifests as the tool checks them and as a controller reads them. The controller also reads what
stands in a list, the tool does not, so the two see the same ingresses exactly if no list holds an
ingress. -/

namespace IngressControl
open scoped List

namespace Document

def hasKind (kind : String) (d : Document) : Bool := d.select [.key "kind"] = [.string kind]

def items (d : Document) : List Document := d.select [.key "items", .each]

/-- A document of a manifest: it is void or an object, and a list has nothing but objects. -/
structure InManifest (d : Document) : Prop where
  object : d.isVoid = true ∨ ∃ fields, d = .object fields
  items : d.hasKind "List" = true →
    (∀ v ∈ d.select [.key "items"], v.isVoid = true ∨ ∃ items, v = .array items) ∧
      ∀ item ∈ d.items, ∃ fields, item = .object fields

section Kinds

variable {kind : String} {d : Document}

/-- The kind of an object can be read, and compared with any word. -/
theorem exists_kind (fields : List (String × Document)) :
    ∃ v, (object fields).field "kind" = .ok v ∧
      ∀ kind, v.same (.string kind) = (object fields).hasKind kind := by
  cases hg : Ledger.get? "kind" fields with
  | none =>
    refine ⟨.null, field_of_none hg, fun kind => ?_⟩
    simp [hasKind, select_of_none hg, same, quantity?]
  | some v =>
    refine ⟨v, field_of_some hg, fun kind => ?_⟩
    rw [hasKind, select_of_some hg, Bool.eq_iff_iff, same_string_iff]
    simp [select]

theorem hasKind_of_isVoid (h : d.isVoid = true) : d.hasKind kind = false := by
  cases d with
  | object fields =>
    cases fields with
    | nil => simp [hasKind, select, Ledger.get?]
    | cons entry rest => cases h
  | _ => simp [hasKind, select]

/-- What is of one kind is of no other. -/
theorem not_hasKind_of_ne {kind' : String} (h : d.hasKind kind = true) (hne : kind ≠ kind') :
    d.hasKind kind' = false := by
  simp only [hasKind, decide_eq_true_eq, decide_eq_false_iff_not] at h ⊢
  rw [h]
  simpa using hne

/-- The items of a list are what it has under their key. -/
theorem exists_items {fields : List (String × Document)}
    (h : ∀ v ∈ (object fields).select [.key "items"], v.isVoid = true ∨ ∃ items, v = .array items) :
    ∃ v, (object fields).field "items" = .ok v ∧ v.elementsOrNone = .ok (object fields).items := by
  cases hg : Ledger.get? "items" fields with
  | none => exact ⟨.null, field_of_none hg, by rw [items, select_of_none hg]; rfl⟩
  | some v =>
    refine ⟨v, field_of_some hg, ?_⟩
    have hv := h v (select_of_some hg [] ▸ List.mem_singleton_self v)
    rw [items, select_of_some hg]
    rcases hv with hv | ⟨elements, rfl⟩
    · rw [elementsOrNone, if_pos hv]
      cases v with
      | array elements => cases elements with
        | nil => rfl
        | cons => cases hv
      | _ => rfl
    · rw [elementsOrNone_array]
      change _ = Except.ok (elements.flatMap fun d => [d])
      rw [List.flatMap_singleton']

end Kinds

end Document

theorem filterAuxM_eq_ok {α : Type} {f : α → Except Fault Bool} {p : α → Bool} {xs : List α}
    (h : ∀ x ∈ xs, f x = .ok (p x)) (kept : List α) :
    List.filterAuxM f xs kept = .ok ((xs.filter p).reverse ++ kept) := by
  induction xs generalizing kept with
  | nil => rfl
  | cons x rest ih =>
    obtain ⟨hx, hrest⟩ := List.forall_mem_cons.mp h
    rw [List.filterAuxM, hx]
    change List.filterAuxM f rest (cond (p x) (x :: kept) kept) = _
    rw [ih hrest]
    cases hp : p x <;> simp [hp]

theorem filterM_eq_ok {α : Type} {f : α → Except Fault Bool} {p : α → Bool} {xs : List α}
    (h : ∀ x ∈ xs, f x = .ok (p x)) : xs.filterM f = .ok (xs.filter p) := by
  rw [List.filterM, filterAuxM_eq_ok h, List.append_nil]
  exact congrArg Except.ok (List.reverse_reverse _)

namespace Manifest
open Document (hasKind InManifest)

def declaredIn (kind : String) (d : Document) : List Document :=
  (if d.hasKind "List" then d.items else [d]).filter (hasKind kind)

def declared (kind : String) (documents : List Document) : List Document :=
  documents.flatMap (declaredIn kind)

def plain (documents : List Document) : List Document := documents.filter (hasKind "Ingress")

def wrapped (documents : List Document) : List Document :=
  (documents.filter (hasKind "List")).flatMap fun d => d.items.filter (hasKind "Ingress")

section Reading

variable {documents : List Document} {kind : String}

theorem filterM_hasKind {ds : List Document} (h : ∀ d ∈ ds, ∃ fields, d = .object fields) :
    ds.filterM (fun d => return (← d.field "kind").same (.string kind)) =
      (.ok (ds.filter (hasKind kind)) : Except Fault (List Document)) := by
  refine filterM_eq_ok fun d hd => ?_
  obtain ⟨fields, rfl⟩ := h d hd
  obtain ⟨v, hv, hsame⟩ := Document.exists_kind fields
  rw [hv, ← hsame]
  rfl

/-- A document of a manifest gives the objects of the kind that it declares, alone or in a list. -/
theorem objectsOf_eq {d : Document} (h : InManifest d) :
    Source.objectsOf kind d = .ok (declaredIn kind d) := by
  cases hv : d.isVoid with
  | true =>
    rw [Source.objectsOf, if_pos hv, declaredIn, Document.hasKind_of_isVoid hv]
    simp only [Bool.false_eq_true, if_false, List.filter_cons, Document.hasKind_of_isVoid hv]
    rfl
  | false =>
    obtain hvoid | ⟨fields, rfl⟩ := h.object
    · rw [hv] at hvoid
      cases hvoid
    obtain ⟨v, hkind, hsame⟩ := Document.exists_kind fields
    rw [Source.objectsOf, hv, hkind, declaredIn]
    cases hlist : (Document.object fields).hasKind "List" with
    | true =>
      obtain ⟨hitems, hobjects⟩ := h.items hlist
      obtain ⟨w, hfield, helements⟩ := Document.exists_items hitems
      simp only [Bind.bind, Except.bind, hsame, hlist, if_true, hfield, helements]
      exact filterM_hasKind hobjects
    | false =>
      simp only [Bind.bind, Except.bind, hsame, hlist, Bool.false_eq_true, if_false]
      exact filterM_hasKind (List.forall_mem_singleton.mpr ⟨fields, rfl⟩)

/-- A controller reads the objects that a manifest declares. -/
theorem list_eq (hm : ∀ d ∈ documents, InManifest d) :
    (Source.manifest kind (.ok documents)).list = .ok (declared kind documents) := by
  have hmapM : documents.mapM (Source.objectsOf kind) = .ok (documents.map (declaredIn kind)) := by
    rw [mapM_eq_ok_iff, List.forall₂_map_right_iff, List.forall₂_same]
    exact fun d hd => objectsOf_eq (hm d hd)
  simp only [Source.list, hmapM, Bind.bind, Except.bind, declared, List.flatMap_def]
  rfl

/-- The tool finds the ingresses that are documents themselves. -/
theorem ingressesOf_eq (hm : ∀ d ∈ documents, InManifest d) :
    Command.ingressesOf documents = .ok (plain documents) := by
  rw [Command.ingressesOf, filterM_hasKind, List.filter_filter, plain]
  · congr 1
    refine List.filter_congr fun d _ => ?_
    cases hv : d.isVoid with
    | true => rw [Document.hasKind_of_isVoid hv, Bool.false_and]
    | false => rw [Bool.not_false, Bool.and_true]
  · intro d hd
    obtain ⟨hmem, hv⟩ := List.mem_filter.mp hd
    exact (hm d hmem).object.resolve_left fun hvoid => by simp [hvoid] at hv

/-- What a first document adds to what the tool and what a controller reads of a manifest: an
ingress to both, a list to the one only. -/
theorem reads_cons (d : Document) (rest : List Document) :
    (plain (d :: rest) = plain [d] ++ plain rest ∧ wrapped (d :: rest) = wrapped rest ∧
        declared "Ingress" (d :: rest) = plain [d] ++ declared "Ingress" rest) ∨
      ∃ inner, plain (d :: rest) = plain rest ∧ wrapped (d :: rest) = inner ++ wrapped rest ∧
        declared "Ingress" (d :: rest) = inner ++ declared "Ingress" rest := by
  cases hlist : d.hasKind "List" with
  | false =>
    refine Or.inl ⟨List.filter_append [d] rest, ?_, ?_⟩
    · rw [wrapped, List.filter_cons_of_neg (by simp [hlist]), ← wrapped]
    · rw [declared, List.flatMap_cons, declaredIn, hlist]
      rfl
  | true =>
    have hother : d.hasKind "Ingress" = false := Document.not_hasKind_of_ne hlist (by decide)
    refine Or.inr ⟨d.items.filter (hasKind "Ingress"), ?_, ?_, ?_⟩
    · rw [plain, List.filter_cons_of_neg (by simp [hother]), ← plain]
    · rw [wrapped, List.filter_cons_of_pos hlist, List.flatMap_cons, ← wrapped]
    · rw [declared, List.flatMap_cons, declaredIn, hlist]
      rfl

/-- Each ingress of a manifest is declared by itself or in a list. -/
theorem declared_perm (documents : List Document) :
    declared "Ingress" documents ~ plain documents ++ wrapped documents := by
  induction documents with
  | nil => exact .refl _
  | cons d rest ih =>
    rcases reads_cons d rest with
      ⟨hplain, hwrapped, hdeclared⟩ | ⟨inner, hplain, hwrapped, hdeclared⟩
    · rw [hplain, hwrapped, hdeclared, List.append_assoc]
      exact ih.append_left _
    · rw [hplain, hwrapped, hdeclared]
      exact (ih.append_left _).trans (List.perm_append_comm_assoc _ _ _)

/-- Both readings of a manifest agree exactly if no ingress is in a list. -/
theorem plain_eq_declared_iff (documents : List Document) :
    plain documents = declared "Ingress" documents ↔ wrapped documents = [] := by
  constructor
  · intro h
    have hlength := (declared_perm documents).length_eq
    rw [← h, List.length_append] at hlength
    exact List.length_eq_zero_iff.mp (by omega)
  · intro h
    induction documents with
    | nil => rfl
    | cons d rest ih =>
      rcases reads_cons d rest with
        ⟨hplain, hwrapped, hdeclared⟩ | ⟨inner, hplain, hwrapped, hdeclared⟩
      · rw [hplain, hdeclared, ih (hwrapped ▸ h)]
      · obtain ⟨rfl, hrest⟩ := List.append_eq_nil_iff.mp (hwrapped ▸ h)
        rw [hplain, hdeclared, ih hrest, List.nil_append]

end Reading

end Manifest

namespace Command

/-- Metadata from which it can be read how an ingress is called. -/
def Legible (ingress : Document) : Prop :=
  ∀ v ∈ ingress.select [.key "metadata"], v.isVoid = true ∨ ∃ entries, v = .object entries

def IsValid (ingress : Document) : Prop := Schema.ingressReport ingress = none

/-- What a check of a manifest comes to, beside what a controller reads of the same manifest. -/
structure Checks (documents : List Document) (contents : Except Fault (List Document))
    (ending : Except Fault Nat) : Prop where
  found : contents.bind ingressesOf = .ok (Manifest.plain documents)
  read : (Sources.ofManifest contents).ingresses.list = .ok (Manifest.declared "Ingress" documents)
  same_iff : Manifest.plain documents = Manifest.declared "Ingress" documents ↔
    Manifest.wrapped documents = []
  succeeds_iff : ending = .ok 0 ↔ ∀ ingress ∈ Manifest.plain documents, IsValid ingress
  stops_iff : (∃ fault, ending = .error fault) ↔
    ∃ ingress ∈ Manifest.plain documents, ¬ Legible ingress
  tells_iff : (ending = .ok 0 ↔ ∀ ingress ∈ Manifest.declared "Ingress" documents,
      IsValid ingress) ↔
    (∀ ingress ∈ Manifest.wrapped documents, IsValid ingress) ∨
      ∃ ingress ∈ Manifest.plain documents, ¬ IsValid ingress

section Verdicts

variable {ingress : Document} {ingresses : List Document}

theorem labelOf_cases (h : ∃ fields, ingress = .object fields) :
    Legible ingress ∧ (∃ label, labelOf ingress = .ok label) ∨
      ¬ Legible ingress ∧ ∃ kind, labelOf ingress = .error (.noOperation kind "get") := by
  obtain ⟨fields, rfl⟩ := h
  cases hg : Ledger.get? "metadata" fields with
  | none =>
    refine Or.inl ⟨?_, ?_⟩
    · rw [Legible, Document.select_of_none hg]
      nofun
    · rw [labelOf, Document.field_of_none hg]
      exact ⟨_, rfl⟩
  | some v =>
    have hlegible : Legible (.object fields) ↔
        v.isVoid = true ∨ ∃ entries, v = .object entries := by
      rw [Legible, Document.select_of_some hg]
      exact List.forall_mem_singleton
    rw [hlegible, labelOf, Document.field_of_some hg]
    cases hv : v.isVoid with
    | true =>
      have hempty : v.orEmpty = .object [] := if_pos hv
      exact Or.inl ⟨Or.inl rfl, by simp only [Bind.bind, Except.bind, hempty]; exact ⟨_, rfl⟩⟩
    | false =>
      have hself : v.orEmpty = v := by rw [Document.orEmpty, hv]; rfl
      simp only [Bind.bind, Except.bind, hself]
      cases v with
      | object entries => exact Or.inl ⟨Or.inr ⟨entries, rfl⟩, _, rfl⟩
      | _ => exact Or.inr ⟨by simp, _, rfl⟩

/-- An ingress gets its verdict if its label can be read, and stops the check otherwise. -/
theorem verdict_cases (h : ∃ fields, ingress = .object fields) :
    Legible ingress ∧
        (∃ line, verdict ingress = .ok (line, (Schema.ingressReport ingress).isNone)) ∨
      ¬ Legible ingress ∧ ∃ kind, verdict ingress = .error (.noOperation kind "get") := by
  rcases labelOf_cases h with ⟨hl, label, hlabel⟩ | ⟨hl, kind, hlabel⟩
  · refine Or.inl ⟨hl, ?_⟩
    simp only [verdict, hlabel, Bind.bind, Except.bind]
    cases Schema.ingressReport ingress with
    | none => exact ⟨_, rfl⟩
    | some violations => exact ⟨_, rfl⟩
  · refine Or.inr ⟨hl, kind, ?_⟩
    simp only [verdict, hlabel, Bind.bind, Except.bind]

/-- What is valid can be called by name. -/
theorem legible_of_isValid (h : IsValid ingress) : Legible ingress := by
  have hm := (Schema.report_eq_none Schema.ingress ingress).mp h
  obtain ⟨fields, rfl⟩ := hm.object (.head _)
  obtain ⟨v, hv⟩ := hm.exists_field (.tail _ (.head _)) (.head _)
  have hmetadata := (hm.property (.tail _ (.tail _ (.head _))) (.head _) hv).object (.head _)
  rw [Legible, Document.select_of_some hv]
  exact List.forall_mem_singleton.mpr (Or.inr hmetadata)

/-- If every label can be read, the valid ingresses are counted. -/
theorem verdicts_of_legible (ho : ∀ i ∈ ingresses, ∃ fields, i = .object fields)
    (hl : ∀ i ∈ ingresses, Legible i) : ∃ lines, verdicts ingresses =
      (lines, ingresses.countP (fun i => (Schema.ingressReport i).isNone), none) := by
  induction ingresses with
  | nil => exact ⟨"", rfl⟩
  | cons first rest ih =>
    obtain ⟨hofirst, horest⟩ := List.forall_mem_cons.mp ho
    obtain ⟨hlfirst, hlrest⟩ := List.forall_mem_cons.mp hl
    obtain ⟨lines, hrest⟩ := ih horest hlrest
    rcases verdict_cases hofirst with ⟨-, line, hline⟩ | ⟨hn, -⟩
    · refine ⟨line ++ lines, ?_⟩
      simp only [verdicts, hline, hrest, List.countP_cons, Nat.add_comm]
    · exact absurd hlfirst hn

/-- A label that cannot be read stops the check. -/
theorem verdicts_of_illegible (ho : ∀ i ∈ ingresses, ∃ fields, i = .object fields)
    (hl : ∃ i ∈ ingresses, ¬ Legible i) : ∃ lines valid kind,
      verdicts ingresses = (lines, valid, some (.noOperation kind "get")) := by
  induction ingresses with
  | nil => exact absurd hl (by simp)
  | cons first rest ih =>
    obtain ⟨hofirst, horest⟩ := List.forall_mem_cons.mp ho
    rcases verdict_cases hofirst with ⟨hlfirst, line, hline⟩ | ⟨-, kind, hfault⟩
    · obtain ⟨i, hi, hn⟩ := hl
      have hmem : i ∈ rest := (List.mem_cons.mp hi).resolve_left fun h => hn (h ▸ hlfirst)
      obtain ⟨lines, valid, kind, hrest⟩ := ih horest ⟨i, hmem, hn⟩
      refine ⟨line ++ lines, (if (Schema.ingressReport first).isNone then 1 else 0) + valid, kind,
        ?_⟩
      simp only [verdicts, hline, hrest]
    · exact ⟨"", 0, kind, by simp only [verdicts, hfault]⟩

/-- A check succeeds exactly if all ingresses are valid, and is stopped exactly by an ingress that
cannot be called by name. -/
theorem ending_validateOutcome {contents : Except Fault (List Document)}
    (hc : contents.bind ingressesOf = .ok ingresses)
    (ho : ∀ i ∈ ingresses, ∃ fields, i = .object fields) :
    ((validateOutcome contents).ending = .ok 0 ↔ ∀ i ∈ ingresses, IsValid i) ∧
      ((∃ fault, (validateOutcome contents).ending = .error fault) ↔
        ∃ i ∈ ingresses, ¬ Legible i) := by
  by_cases hl : ∃ i ∈ ingresses, ¬ Legible i
  · obtain ⟨lines, valid, kind, hv⟩ := verdicts_of_illegible ho hl
    have hending : (validateOutcome contents).ending = .error (.noOperation kind "get") := by
      simp only [validateOutcome, hc, hv]
    rw [hending]
    refine ⟨⟨nofun, fun hall => ?_⟩, iff_of_true ⟨_, rfl⟩ hl⟩
    obtain ⟨i, hi, hn⟩ := hl
    exact absurd (legible_of_isValid (hall i hi)) hn
  · have hlegible : ∀ i ∈ ingresses, Legible i := fun i hi => by_contra fun hn => hl ⟨i, hi, hn⟩
    obtain ⟨lines, hv⟩ := verdicts_of_legible ho hlegible
    have hending : (validateOutcome contents).ending = .ok (if ingresses.countP
        (fun i => (Schema.ingressReport i).isNone) = ingresses.length then 0 else 1) := by
      simp only [validateOutcome, hc, hv]
    have hcount : ingresses.countP (fun i => (Schema.ingressReport i).isNone) = ingresses.length ↔
        ∀ i ∈ ingresses, IsValid i := by
      simp only [List.countP_eq_length, Option.isNone_iff_eq_none, IsValid]
    rw [hending, ← hcount]
    refine ⟨?_, iff_of_false nofun hl⟩
    split <;> simp_all

end Verdicts

/-- A check of a manifest finds the ingresses that are documents themselves, whatever a controller
reads besides. -/
theorem checks_manifest {folder : Folder} {service file : String} {words : List String}
    {i : Invocation} {documents : List Document} (hread : read folder.holds service words = .ok i)
    (hi : i.action = .validate file) (hfile : folder.read file = .ok documents)
    (hm : ∀ d ∈ documents, d.InManifest) (answer : Request → Answer) :
    Checks documents (folder.read file) (run folder service words answer).2.ending := by
  have hfound : (folder.read file).bind ingressesOf = .ok (Manifest.plain documents) := by
    rw [hfile]
    exact Manifest.ingressesOf_eq hm
  have hending : (run folder service words answer).2.ending =
      (validateOutcome (folder.read file)).ending := by
    simp only [run, perform, hread, Invocation.request?, hi, Outcome.plain]
  have hobject : ∀ i ∈ Manifest.plain documents, ∃ fields, i = .object fields := by
    intro i hmem
    obtain ⟨hd, hkind⟩ := List.mem_filter.mp hmem
    refine (hm i hd).object.resolve_left fun hv => ?_
    rw [Document.hasKind_of_isVoid hv] at hkind
    cases hkind
  obtain ⟨hsucceeds, hstops⟩ := ending_validateOutcome hfound hobject
  rw [hending]
  refine ⟨hfound, ?_, Manifest.plain_eq_declared_iff documents, hsucceeds, hstops, ?_⟩
  · rw [hfile]
    exact Manifest.list_eq hm
  · have hdeclared : (∀ i ∈ Manifest.declared "Ingress" documents, IsValid i) ↔
        (∀ i ∈ Manifest.plain documents, IsValid i) ∧
          ∀ i ∈ Manifest.wrapped documents, IsValid i := by
      simp only [(Manifest.declared_perm documents).mem_iff, List.forall_mem_append]
    rw [hsucceeds, hdeclared]
    by_cases hplain : ∀ i ∈ Manifest.plain documents, IsValid i
    · have hnone : ¬ ∃ i ∈ Manifest.plain documents, ¬ IsValid i := by simpa using hplain
      rw [or_iff_left hnone, iff_true_intro hplain, true_and, true_iff]
    · have hsome : ∃ i ∈ Manifest.plain documents, ¬ IsValid i := by simpa using hplain
      exact iff_of_true ⟨fun h => absurd h hplain, fun h => absurd h.1 hplain⟩ (Or.inr hsome)

/-- The command that checks a file which is there. -/
theorem read_validate {isThere : String → Except Fault Bool} {file : String} (service : String)
    (hfile : isFlag file = false) (hthere : isThere file = .ok true) :
    read isThere service ["validate", file] = .ok ⟨service, .validate file⟩ := by
  have hverb : isFlag "validate" = false := by decide +kernel
  have hname : Verb.ofName? "validate" = some .validate := by decide +kernel
  have hne : (file == "--") = false := by
    rw [beq_eq_false_iff_ne]
    rintro rfl
    exact absurd hfile (by decide +kernel)
  have htool : readTool ["validate", file] = .ok { rest := ["validate", file] } := by
    simp [readTool, readOptions, readWords, hverb, orMisuse, Except.mapError, Bind.bind,
      Except.bind, Pure.pure, Except.pure]
  have hoptions : readOptions (some .validate) [helpFlag] [file] = .ok { rest := [file] } := by
    simp [readOptions, readWords, hfile, hne, orMisuse, Except.mapError, Bind.bind, Except.bind,
      Pure.pure, Except.pure, Except.map]
  have haction : actionOf isThere .validate { rest := [file] } = .ok (.validate file) := by
    simp [actionOf, checkFile, hthere, takeArguments, Verb.arguments, orMisuse, Except.mapError,
      Bind.bind, Except.bind, Pure.pure, Except.pure, Except.map]
  simp [read, htool, hname, readVerb, Verb.flags, hoptions, haction, Reading.value?, Bind.bind,
    Except.bind, Pure.pure, Except.pure]

end Command

namespace Shop
open Document (InManifest)
open Command (Checks IsValid)

def frontIngress : Document :=
  .object [("kind", .string "Ingress"), ("metadata", .object [("name", .string "web")]),
    ("spec", .object [("backend",
      .object [("serviceName", .string "web"), ("servicePort", .int 80)])])]

def bareIngress : Document :=
  .object [("kind", .string "Ingress"), ("metadata", .object [("name", .string "bare")])]

def listOfBare : Document :=
  .object [("kind", .string "List"), ("items", .array [bareIngress])]

def manifest : List Document := [frontIngress, .null, listOfBare]

def folder : Folder := [("cluster.yaml", manifest)]

theorem inManifest_manifest : ∀ d ∈ manifest, InManifest d := by
  simp only [manifest, List.forall_mem_cons]
  refine ⟨⟨Or.inr ⟨_, rfl⟩, ?_⟩, ⟨Or.inl rfl, ?_⟩, ⟨Or.inr ⟨_, rfl⟩, fun _ => ⟨?_, ?_⟩⟩,
    List.forall_mem_nil _⟩
  · simp [frontIngress, Document.hasKind, Document.select, Ledger.get?]
  · simp [Document.hasKind, Document.select]
  · simp [listOfBare, Document.select, Ledger.get?]
  · simp [listOfBare, Document.items, Document.select, Ledger.get?, bareIngress]

theorem read_words : Command.read folder.holds "http://status" ["validate", "cluster.yaml"] =
    .ok ⟨"http://status", .validate "cluster.yaml"⟩ := by
  have hflag : Command.isFlag "cluster.yaml" = false := by decide +kernel
  exact Command.read_validate "http://status" hflag rfl

def checked : Command.Outcome :=
  (Command.run folder "http://status" ["validate", "cluster.yaml"] fun _ => .unreachable "down").2

/-- The file of the folder is read and checked. -/
theorem checks_folder : folder.read "cluster.yaml" = .ok manifest ∧
    Checks manifest (folder.read "cluster.yaml") checked.ending :=
  ⟨rfl, Command.checks_manifest read_words rfl rfl inManifest_manifest _⟩

/-- The check succeeds, and is of one of the two ingresses that a controller reads; the other one is
not valid. -/
theorem unchecked_bareIngress : (∀ d ∈ manifest, InManifest d) ∧ checked.ending = .ok 0 ∧
    (folder.read "cluster.yaml").bind Command.ingressesOf = .ok [frontIngress] ∧
    (Sources.ofManifest (folder.read "cluster.yaml")).ingresses.list =
      .ok [frontIngress, bareIngress] ∧
    ¬ IsValid bareIngress := by
  have hplain : (folder.read "cluster.yaml").bind Command.ingressesOf = .ok [frontIngress] := by
    decide +kernel
  have hvalid : IsValid frontIngress := by
    have hreport : (Schema.ingressReport frontIngress).isNone = true := by decide +kernel
    exact Option.isNone_iff_eq_none.mp hreport
  have hinvalid : (Schema.ingressReport bareIngress).isNone = false := by decide +kernel
  have hending : checked.ending =
      (Command.validateOutcome (folder.read "cluster.yaml")).ending := by
    simp only [checked, Command.run, Command.perform, read_words, Command.Invocation.request?,
      Command.Outcome.plain]
  refine ⟨inManifest_manifest, ?_, hplain, by decide +kernel, ?_⟩
  · rw [hending]
    refine (Command.ending_validateOutcome hplain ?_).1.mpr (List.forall_mem_singleton.mpr hvalid)
    exact List.forall_mem_singleton.mpr ⟨_, rfl⟩
  · intro h
    rw [IsValid, ← Option.isNone_iff_eq_none, hinvalid] at h
    cases h

end Shop

end IngressControl
