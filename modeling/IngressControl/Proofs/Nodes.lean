import IngressControl.Proofs.Extraction
import IngressControl.Proofs.Pieces
import IngressControl.Proofs.Texts
import IngressControl.Source
import Mathlib.Data.List.TakeWhile

/-! Instances behind nodes. A node has at most one instance, which its spec names; the nodes that
have one are listed by it, whatever else stands in them. A node without an instance is not passed
over in silence: its name is looked up, which stops the listing where its metadata are no object. -/

namespace IngressControl
open scoped List

namespace Node

def segments (path : String) : List String :=
  ((Text.pieces '/' path.toList).map String.ofList).filter (· ≠ "")

/-- The text that the spec of a node has under a key; the empty one if it has none. -/
def specText (node : Document) (key : String) : String :=
  match node.select [.key "spec", .key key] with
  | [.string s] => s
  | _ => ""

/-- The id of the instance behind a node: its external id if that is not empty, or else the last
segment of its provider id. -/
def id? (node : Document) : Option String :=
  if specText node "externalID" = "" then (segments (specText node "providerID")).getLast?
  else some (specText node "externalID")

structure IsNode (node : Document) : Prop where
  object : ∃ fields, node = .object fields
  spec : ∀ v ∈ node.select [.key "spec"], v = .null ∨ ∃ fields, v = .object fields
  ids : ∀ key ∈ ["externalID", "providerID"], ∀ v ∈ node.select [.key "spec", .key key],
    v = .null ∨ v.IsText

/-- Metadata in which a name can be looked up. -/
def Legible (node : Document) : Prop :=
  ∀ v ∈ node.select [.key "metadata"], ∃ fields, v = .object fields

section Segments

variable {cs : List Char}

theorem mem_segments {path s : String} (h : s ∈ segments path) : s ≠ "" := by
  simpa using (List.mem_filter.mp h).2

/-- What stands behind the last slash is the last piece. -/
theorem exists_pieces_concat {c : Char} (hc : c ≠ '/') (cs : List Char) :
    ∃ front, Text.pieces '/' (cs ++ [c]) =
      front ++ [(cs.reverse.takeWhile (· != '/')).reverse ++ [c]] := by
  set back := cs.reverse.takeWhile (· != '/')
  have hlast : '/' ∉ back.reverse ++ [c] := by
    rw [List.mem_append, List.mem_reverse, List.mem_singleton]
    rintro (hm | he)
    · simpa using List.mem_takeWhile_imp hm
    · exact hc he.symm
  have hsplit : cs = (cs.reverse.dropWhile (· != '/')).reverse ++ back.reverse := by
    rw [← List.reverse_append, List.takeWhile_append_dropWhile, List.reverse_reverse]
  cases hdrop : cs.reverse.dropWhile (· != '/') with
  | nil =>
    refine ⟨[], ?_⟩
    rw [hsplit, hdrop, List.reverse_nil, List.nil_append, Text.pieces_of_not_mem hlast]
    rfl
  | cons d front =>
    have hd : d = '/' := by
      have hhead := List.head?_dropWhile_not (· != '/') cs.reverse
      rw [hdrop] at hhead
      simpa using hhead
    refine ⟨Text.pieces '/' front.reverse, ?_⟩
    rw [hsplit, hdrop, hd, List.reverse_cons, List.append_assoc, List.append_assoc,
      List.singleton_append, Text.pieces_append_sep, Text.pieces_of_not_mem hlast]

/-- The last piece that is not empty stands before the slashes at the end. -/
theorem getLast?_pieces (cs : List Char) :
    (((Text.pieces '/' cs).filter (· ≠ [])).getLast?).getD [] =
      ((Text.dropEndWhile (· == '/') cs).reverse.takeWhile (· != '/')).reverse := by
  induction cs using List.reverseRecOn with
  | nil => rfl
  | append_singleton cs c ih =>
    by_cases hc : c = '/'
    · -- a slash at the end adds an empty piece only
      subst hc
      rw [Text.pieces_append_sep, List.filter_append]
      simpa [Text.dropEndWhile, Text.pieces] using ih
    · have hbehind : Text.dropEndWhile (· == '/') (cs ++ [c]) = cs ++ [c] := by
        simp [Text.dropEndWhile, hc]
      obtain ⟨front, hpieces⟩ := exists_pieces_concat hc cs
      rw [hbehind, hpieces, List.filter_append]
      simp [hc]

theorem lastSegment_eq (path : String) :
    lastSegment path = (segments path).getLast?.getD "" := by
  have hfilter : segments path =
      ((Text.pieces '/' path.toList).filter (· ≠ [])).map String.ofList := by
    rw [segments, List.filter_map]
    congr 1
    refine List.filter_congr fun piece _ => ?_
    simp [String.ofList_eq_empty_iff]
  rw [hfilter, List.getLast?_map, lastSegment, ← getLast?_pieces]
  cases ((Text.pieces '/' path.toList).filter (· ≠ [])).getLast? <;> rfl

end Segments

section Spec

variable {node : Document}

/-- The spec of a node can be read, and its ids are the texts that it has. -/
theorem exists_spec (h : IsNode node) : ∃ spec fields, node.field "spec" = .ok spec ∧
    spec.orEmpty = .object fields ∧ ∀ key ∈ ["externalID", "providerID"],
      ∃ v, (Document.object fields).field key = .ok v ∧
        (v = .null ∧ specText node key = "" ∨ v = .string (specText node key)) := by
  obtain ⟨nodeFields, rfl⟩ := h.object
  cases hg : Ledger.get? "spec" nodeFields with
  | none =>
    refine ⟨.null, [], Document.field_of_none hg, rfl, fun key _ => ⟨.null, rfl, Or.inl ⟨rfl, ?_⟩⟩⟩
    simp [specText, hg]
  | some v =>
    have hselect (path : List Document.Step) := Document.select_of_some hg path
    have hspec := h.spec v (hselect [] ▸ List.mem_singleton_self v)
    rcases hspec with rfl | ⟨fields, rfl⟩
    · refine ⟨.null, [], Document.field_of_some hg, rfl, fun key _ =>
        ⟨.null, rfl, Or.inl ⟨rfl, ?_⟩⟩⟩
      rw [specText, hselect]
      rfl
    · refine ⟨.object fields, fields, Document.field_of_some hg, Document.orEmpty_object fields,
        fun key hkey => ?_⟩
      cases hk : Ledger.get? key fields with
      | none =>
        refine ⟨.null, Document.field_of_none hk, Or.inl ⟨rfl, ?_⟩⟩
        simp [specText, hselect, hk]
      | some w =>
        have hw : w ∈ (Document.object nodeFields).select [.key "spec", .key key] := by
          rw [hselect, Document.select_of_some hk]
          exact List.mem_singleton_self w
        refine ⟨w, Document.field_of_some hk, ?_⟩
        rw [specText, hselect, Document.select_of_some hk]
        rcases h.ids key hkey w hw with rfl | ⟨t, rfl⟩
        · exact Or.inl ⟨rfl, rfl⟩
        · exact Or.inr rfl

theorem id?_eq_some {s : String} (h : id? node = some s) : s ≠ "" := by
  unfold id? at h
  split at h
  · exact mem_segments (List.mem_of_getLast? h)
  · obtain rfl := Option.some.inj h
    assumption

/-- What is read as the instance is the id as a text, or void. -/
theorem instanceOf_eq (h : IsNode node) : ∃ found, instanceOf node = .ok found ∧
    (id? node = none ∧ found.isVoid = true ∨ ∃ s, id? node = some s ∧ found = .string s) := by
  obtain ⟨spec, fields, hspec, hempty, hids⟩ := exists_spec h
  obtain ⟨external, hexternal, hcases⟩ := hids "externalID" List.mem_cons_self
  obtain ⟨provider, hprovider, hpath⟩ := hids "providerID" (by simp)
  have hvoid : external.isVoid = true ↔ specText node "externalID" = "" := by
    rcases hcases with ⟨rfl, hs⟩ | rfl
    · simp [hs, Document.isVoid]
    · simp [Document.isVoid]
  simp only [instanceOf, hspec, hempty, hexternal, hprovider, Bind.bind, Except.bind]
  by_cases hs : specText node "externalID" = ""
  · -- without an external id the path of the provider decides
    have hid : id? node = (segments (specText node "providerID")).getLast? := by rw [id?, if_pos hs]
    rw [hvoid.mpr hs, hid]
    rcases hpath with ⟨rfl, hp⟩ | rfl
    · exact ⟨external, rfl, Or.inl ⟨by rw [hp]; rfl, hvoid.mpr hs⟩⟩
    · set path := specText node "providerID" with hset
      by_cases hp : path = ""
      · have hv : (Document.string path).isVoid = true := by simp [Document.isVoid, hp]
        rw [hv]
        exact ⟨external, rfl, Or.inl ⟨by rw [hp]; rfl, hvoid.mpr hs⟩⟩
      · have hv : (Document.string path).isVoid = false := by simp [Document.isVoid, hp]
        rw [hv]
        refine ⟨.string (lastSegment path), rfl, ?_⟩
        rw [lastSegment_eq]
        cases (segments path).getLast? with
        | none => exact Or.inl ⟨rfl, rfl⟩
        | some s => exact Or.inr ⟨s, rfl, rfl⟩
  · have hid : id? node = some (specText node "externalID") := by rw [id?, if_neg hs]
    rcases hcases with ⟨rfl, he⟩ | rfl
    · exact absurd he hs
    · rw [Bool.eq_false_iff.mpr (mt hvoid.mp hs)]
      exact ⟨_, rfl, Or.inr ⟨_, hid, rfl⟩⟩

theorem instances_of_some (h : IsNode node) {s : String} (hid : id? node = some s) :
    instances node = .ok [.string s] := by
  obtain ⟨found, hfound, ⟨hnone, -⟩ | ⟨t, ht, rfl⟩⟩ := instanceOf_eq h
  · exact absurd (hnone.symm.trans hid) (by simp)
  · obtain rfl := Option.some.inj (ht.symm.trans hid)
    have hv : (Document.string t).isVoid = false := by simp [Document.isVoid, id?_eq_some hid]
    simp only [instances, hfound, hv, Bind.bind, Except.bind]
    rfl

/-- Without an id all depends on the metadata, in which the name is looked up. -/
theorem instances_of_none (h : IsNode node) (hid : id? node = none) :
    Legible node ∧ instances node = .ok [] ∨
      ¬ Legible node ∧
        ∃ kind, kind ≠ .object ∧ instances node = .error (.noOperation kind "get") := by
  obtain ⟨found, hfound, ⟨-, hv⟩ | ⟨t, ht, -⟩⟩ := instanceOf_eq h
  · obtain ⟨fields, rfl⟩ := h.object
    cases hg : Ledger.get? "metadata" fields with
    | none =>
      refine Or.inl ⟨fun v hm => ?_, ?_⟩
      · rw [Document.select_of_none hg] at hm
        exact absurd hm List.not_mem_nil
      · simp only [instances, hfound, hv, Document.field?, hg, Bind.bind, Except.bind]
        rfl
    | some v =>
      have hselect : (Document.object fields).select [.key "metadata"] = [v] :=
        Document.select_of_some hg []
      have hlegible : Legible (.object fields) ↔ v.kind = .object := by
        simp only [Legible, hselect, List.forall_mem_singleton]
        cases v <;> simp [Document.kind]
      have hname : instances (.object fields) = (v.field "name").map fun _ => [] := by
        simp only [instances, hfound, hv, Document.field?, hg, Bind.bind, Except.bind]
        rfl
      rw [hlegible, hname]
      cases v with
      | object entries => exact Or.inl ⟨rfl, rfl⟩
      | _ => exact Or.inr ⟨by simp [Document.kind], _, by simp [Document.kind], rfl⟩
  · exact absurd (ht.symm.trans hid) (by simp)

end Spec

/-- A listing of nodes: the ids in order, one for each node that has one, and the same ones in
whatever order the nodes stand. -/
structure Lists (nodes : List Document) (ids : List String) : Prop where
  listed : ∀ nodes', nodes' ~ nodes → listInstances (.objects nodes') = .ok (ids.map .string)
  sorted : ids.Pairwise (· ≤ ·)
  each : ids ~ nodes.filterMap id?

section Listing

variable {nodes : List Document}

/-- If every node has an identifier or can be named, the identifiers are listed in order. -/
theorem listInstances_of_legible (hn : ∀ n ∈ nodes, IsNode n)
    (hl : ∀ n ∈ nodes, id? n = none → Legible n) :
    listInstances (.objects nodes) = .ok ((sortTexts (nodes.filterMap id?)).map .string) := by
  have hmapM : nodes.mapM instances =
      .ok (nodes.map fun n => (id? n).toList.map Document.string) := by
    rw [mapM_eq_ok_iff, List.forall₂_map_right_iff, List.forall₂_same]
    intro n hm
    cases hid : id? n with
    | some s => exact instances_of_some (hn n hm) hid
    | none =>
      rcases instances_of_none (hn n hm) hid with ⟨-, h⟩ | ⟨hillegible, -⟩
      · exact h
      · exact absurd (hl n hm hid) hillegible
  have hflat : (nodes.map fun n => (id? n).toList.map Document.string).flatten =
      (nodes.filterMap id?).map .string := by
    rw [List.filterMap_eq_flatMap_toList, List.map_flatMap, List.flatMap_def]
  simp only [listInstances, Source.list, hmapM, hflat, Document.sort_map_string, Bind.bind,
    Except.bind]

/-- One node without an id and with illegible metadata stops the listing. -/
theorem listInstances_of_illegible (hn : ∀ n ∈ nodes, IsNode n) {node : Document}
    (hm : node ∈ nodes) (hid : id? node = none) (hl : ¬ Legible node) :
    ∃ kind, kind ≠ .object ∧
      listInstances (.objects nodes) = .error (.noOperation kind "get") := by
  have hfault : ∀ fault, nodes.mapM instances = .error fault →
      ∃ kind, kind ≠ .object ∧ fault = .noOperation kind "get" := by
    intro fault he
    obtain ⟨n, hmem, he⟩ := mapM_eq_error he
    cases hid : id? n with
    | some s => exact absurd ((instances_of_some (hn n hmem) hid).symm.trans he) (by simp)
    | none =>
      rcases instances_of_none (hn n hmem) hid with ⟨-, h⟩ | ⟨-, kind, hkind, h⟩
      · exact absurd (h.symm.trans he) (by simp)
      · exact ⟨kind, hkind, Except.error.inj (he.symm.trans h)⟩
  cases hmapM : nodes.mapM instances with
  | ok parts =>
    obtain ⟨part, -, hpart⟩ := exists_right_of_forall₂ (mapM_eq_ok_iff.mp hmapM) hm
    rcases instances_of_none (hn node hm) hid with ⟨hlegible, -⟩ | ⟨-, kind, -, h⟩
    · exact absurd hlegible hl
    · exact absurd (hpart.symm.trans h) (by simp)
  | error fault =>
    obtain ⟨kind, hkind, rfl⟩ := hfault fault hmapM
    refine ⟨kind, hkind, ?_⟩
    simp only [listInstances, Source.list, hmapM, Bind.bind, Except.bind]

end Listing

/-- Nodes are listed exactly if those without an id have legible metadata. Otherwise the listing
fails, in whatever order the nodes stand. -/
theorem lists_iff {nodes : List Document} (hn : ∀ n ∈ nodes, IsNode n) :
    ((∃ ids, Lists nodes ids) ↔ ∀ n ∈ nodes, id? n = none → Legible n) ∧
      ∀ n ∈ nodes, id? n = none → ¬ Legible n → ∀ nodes', nodes' ~ nodes →
        ∃ kind, kind ≠ .object ∧
          listInstances (.objects nodes') = .error (.noOperation kind "get") := by
  have hstops : ∀ n ∈ nodes, id? n = none → ¬ Legible n → ∀ nodes', nodes' ~ nodes →
      ∃ kind, kind ≠ .object ∧
        listInstances (.objects nodes') = .error (.noOperation kind "get") :=
    fun n hm hid hl nodes' hp =>
      listInstances_of_illegible (fun n' hm' => hn n' (hp.mem_iff.mp hm')) (hp.mem_iff.mpr hm) hid
        hl
  refine ⟨⟨fun ⟨ids, h⟩ n hm hid => ?_, fun hl => ?_⟩, hstops⟩
  · by_contra hillegible
    obtain ⟨kind, -, he⟩ := hstops n hm hid hillegible nodes (.refl _)
    exact absurd ((h.listed nodes (.refl _)).symm.trans he) (by simp)
  · refine ⟨sortTexts (nodes.filterMap id?), fun nodes' hp => ?_, pairwise_sortTexts _,
      sortTexts_perm _⟩
    rw [listInstances_of_legible (fun n hm => hn n (hp.mem_iff.mp hm))
      (fun n hm => hl n (hp.mem_iff.mp hm)), sortTexts_eq_of_perm (hp.filterMap id?)]

end Node

namespace Shop
open Node (IsNode Lists listInstances)

def mixedNodes : List Document :=
  [.object [("metadata", .null), ("spec", .object [("externalID", .string ""),
      ("providerID", .string "aws:///us-east-1a/i-2//")])],
    node, .object [("spec", .null)]]

theorem isNode_mixedNodes : ∀ n ∈ mixedNodes, IsNode n := by
  simp only [mixedNodes, List.forall_mem_cons]
  refine ⟨⟨⟨_, rfl⟩, ?_, ?_⟩, ⟨⟨_, rfl⟩, ?_, ?_⟩, ⟨⟨_, rfl⟩, ?_, ?_⟩, List.forall_mem_nil _⟩ <;>
    simp [Document.select, Ledger.get?, Document.IsText, node]

/-- Illegible metadata do no harm to a node with an id. -/
theorem lists_mixedNodes : (∀ n ∈ mixedNodes, IsNode n) ∧
    mixedNodes.filterMap Node.id? = ["i-2", "i-1"] ∧ ∃ ids, Lists mixedNodes ids := by
  have hids : mixedNodes.map Node.id? = [some "i-2", some "i-1", none] := by decide +kernel
  refine ⟨isNode_mixedNodes, by decide +kernel, (Node.lists_iff isNode_mixedNodes).1.mpr ?_⟩
  simp only [mixedNodes, List.map_cons, List.map_nil, List.cons.injEq] at hids
  simp only [mixedNodes, List.forall_mem_cons, hids]
  refine ⟨nofun, nofun, fun _ v hv => ?_, List.forall_mem_nil _⟩
  exact absurd hv List.not_mem_nil

def blankNode : Document := .object [("metadata", .null)]

/-- A node with null metadata stops the listing. -/
theorem unlisted_blankNode : IsNode blankNode ∧ (¬ ∃ ids, Lists [blankNode] ids) ∧
    listInstances (.objects [blankNode]) = .error (.noOperation .null "get") := by
  have hfault : listInstances (.objects [blankNode]) = .error (.noOperation .null "get") := by
    decide +kernel
  refine ⟨⟨⟨_, rfl⟩, nofun, ?_⟩, ?_, hfault⟩
  · simp [blankNode, Ledger.get?]
  · rintro ⟨ids, h⟩
    exact absurd ((h.listed _ (.refl _)).symm.trans hfault) (by simp)

end Shop

end IngressControl
