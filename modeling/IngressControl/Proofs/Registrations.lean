import IngressControl.Registry
import IngressControl.Proofs.Ledger
import Mathlib.Data.List.Induction

/-! Registrations that fail. A client is entered before its settings are read, so a registration
that fails may leave its client behind, with the settings of another one or with none. -/

namespace IngressControl

def Found.entered? : Found → Option ClientType
  | .client type => if type.flaw.isNone then some type else none
  | .broken _ => none

/-- Whether a find is registered without a failure. -/
def Found.isUsable (env : Environment) : Found → Bool
  | .client type => (({} : Registry).register env type).1.isOk
  | .broken _ => false

namespace Registry

def entered (found : List Found) : List ClientType := found.filterMap Found.entered?

/-- A table of clients of which the later ones stand in place of the earlier ones. -/
def tableOf (types : List ClientType) : List (String × ClientType) :=
  types.foldl (fun table type => Ledger.put type.name type table) []

def namesOf (types : List ClientType) : List String := (types.map ClientType.name).eraseDups

structure Leaves (r : Registry) (client : ClientType) (r' : Registry) : Prop where
  settings : r'.settings = r.settings
  same_iff : r' = r ↔ client.flaw.isSome ∨ Ledger.get? client.name r.clients = some client
  names : r'.names =
    if client.flaw.isSome ∨ client.name ∈ r.names then r.names else r.names ++ [client.name]
  create_other : ∀ name ∈ r.names, name ≠ client.name → ∀ given,
    r'.create name given = r.create name given
  /-- Clients of the name are made by the one that failed, from the settings of the one before. -/
  create_self : client.flaw = none → ∀ given, r'.create client.name given = do
    let base := (Ledger.get? client.name r.settings).getD (.object [])
    client.setUp (← SettingsTable.merge base given)

/-- Registrations that fail leave no trace among the finds: they bring no name in before its time,
and all clients that they enter are replaced. -/
structure Traceless (env : Environment) (found : List Found) : Prop where
  order : namesOf (ClientType.builtIn :: entered found) =
    namesOf (ClientType.builtIn :: entered (found.filter (Found.isUsable env)))
  replaced : ∀ before client after, entered found = before ++ client :: after →
    Found.isUsable env (.client client) = false →
    ∃ other ∈ after, Found.isUsable env (.client other) = true ∧ other.name = client.name

variable {env : Environment} {r : Registry} {client : ClientType} {found : List Found}

/-- What a registration can do. -/
theorem register_cases (r : Registry) (env : Environment) (client : ClientType) :
    (∃ fault, client.flaw = some fault ∧ r.register env client = (.error fault, r)) ∨
    (∃ fault, client.flaw = none ∧ client.defaults env = .error fault ∧
      r.register env client =
        (.error fault, { r with clients := Ledger.put client.name client r.clients })) ∨
    ∃ settings, client.flaw = none ∧ client.defaults env = .ok settings ∧
      r.register env client = (.ok (), ⟨Ledger.put client.name client r.clients,
        Ledger.put client.name settings r.settings⟩) := by
  unfold register
  cases hf : client.flaw with
  | some fault => exact Or.inl ⟨fault, rfl, rfl⟩
  | none =>
    cases hd : client.defaults env with
    | error fault => exact Or.inr (Or.inl ⟨fault, rfl, rfl, rfl⟩)
    | ok settings => exact Or.inr (Or.inr ⟨settings, rfl, rfl, rfl⟩)

/-- A registration succeeds if the client has no flaw and its defaults can be read. -/
theorem isOk_register (r : Registry) (env : Environment) (client : ClientType) :
    (r.register env client).1.isOk = (client.flaw.isNone && (client.defaults env).isOk) := by
  rcases register_cases r env client with ⟨_, hf, hr⟩ | ⟨_, hf, hd, hr⟩ | ⟨_, hf, hd, hr⟩
  · rw [hr, hf]
    rfl
  · rw [hr, hf, hd]
    rfl
  · rw [hr, hf, hd]
    rfl

/-- A registration fails for what the client is, never for what is registered already. -/
theorem isUsable_client (r : Registry) (env : Environment) (client : ClientType) :
    Found.isUsable env (.client client) = (r.register env client).1.isOk := by
  rw [Found.isUsable, isOk_register, isOk_register]

/-- A registration that fails leaves the settings alone, but not the clients. -/
theorem leaves_of_error {fault : Fault} (h : (r.register env client).1 = .error fault) :
    Leaves r client (r.register env client).2 := by
  rcases register_cases r env client with ⟨_, hf, hr⟩ | ⟨_, hf, -, hr⟩ | ⟨_, -, -, hr⟩
  · -- nothing is written of a client that cannot be named
    rw [hr]
    refine ⟨rfl, by simp [hf], by simp [hf], fun _ _ _ _ => rfl, fun hnone => ?_⟩
    rw [hf] at hnone
    cases hnone
  · rw [hr]
    have hflaw : ¬ client.flaw.isSome = true := by simp [hf]
    refine ⟨rfl, ?_, ?_, fun name hmem hne given => ?_, fun _ given => ?_⟩
    · rw [or_iff_right hflaw, ← Ledger.put_eq_self_iff]
      exact ⟨congrArg Registry.clients, fun heq => by rw [heq]⟩
    · simp only [or_iff_right hflaw]
      exact Ledger.keys_put _ _ _
    · -- a name that is registered is found, so none is reported as missing
      cases hg : Ledger.get? name r.clients with
      | none => exact absurd hmem (Ledger.get?_eq_none_iff.mp hg)
      | some type => simp [create, hne, hg]
    · simp [create]
  · rw [hr] at h
    cases h

section Tables

variable {types others : List ClientType}

@[simp] theorem tableOf_concat (types : List ClientType) (type : ClientType) :
    tableOf (types ++ [type]) = Ledger.put type.name type (tableOf types) := by
  rw [tableOf, List.foldl_append]
  rfl

theorem eraseDups_concat (names : List String) (name : String) :
    (names ++ [name]).eraseDups =
      if name ∈ names then names.eraseDups else names.eraseDups ++ [name] := by
  rw [List.eraseDups_append]
  split
  · next hmem => simp [List.removeAll, hmem]
  · next hmem => simp [List.removeAll, hmem, List.eraseDups_cons]

@[simp] theorem keys_tableOf (types : List ClientType) :
    Ledger.keys (tableOf types) = namesOf types := by
  induction types using List.reverseRecOn with
  | nil => rfl
  | append_singleton types type ih =>
    have hmem : type.name ∈ namesOf types ↔ type.name ∈ types.map ClientType.name :=
      List.mem_eraseDups
    have hnames : namesOf (types ++ [type]) =
        (types.map ClientType.name ++ [type.name]).eraseDups := by
      rw [namesOf, List.map_append]
      rfl
    rw [tableOf_concat, Ledger.keys_put, ih, hnames, eraseDups_concat]
    exact if_congr hmem rfl rfl

/-- Under a name stands the last client of the name. -/
theorem get?_tableOf (types : List ClientType) (name : String) :
    Ledger.get? name (tableOf types) = types.reverse.find? (fun type => type.name == name) := by
  induction types using List.reverseRecOn with
  | nil => rfl
  | append_singleton types type ih =>
    by_cases hname : type.name = name
    · simp [hname]
    · simp [hname, Ne.symm hname, ih]

theorem nodup_keys_tableOf (types : List ClientType) : (Ledger.keys (tableOf types)).Nodup := by
  induction types using List.reverseRecOn with
  | nil => exact List.nodup_nil
  | append_singleton types type ih => simpa using Ledger.nodup_keys_put ih

/-- Tables are equal if they have the same names in the same order, each with the same last
client. -/
theorem tableOf_eq_iff : tableOf types = tableOf others ↔ namesOf types = namesOf others ∧
    ∀ name, types.reverse.find? (fun type => type.name == name) =
      others.reverse.find? (fun type => type.name == name) := by
  simp only [← keys_tableOf, ← get?_tableOf]
  constructor
  · intro h
    exact ⟨congrArg _ h, fun _ => congrArg _ h⟩
  · rintro ⟨hkeys, hget⟩
    exact Ledger.eq_of_get?_eq (nodup_keys_tableOf types) hkeys hget

/-- Leaving some clients out changes no last client of a name exactly if behind each of them there
is one of its name that stays. -/
theorem find?_reverse_filter_iff (p : ClientType → Bool) :
    (∀ name, types.reverse.find? (fun type => type.name == name) =
        (types.filter p).reverse.find? (fun type => type.name == name)) ↔
      ∀ before type after, types = before ++ type :: after → p type = false →
        ∃ other ∈ after, p other = true ∧ other.name = type.name := by
  constructor
  · rintro h before type after rfl hp
    have hlast := h type.name
    have hsplit : (before ++ type :: after).reverse =
        (after.reverse ++ [type]) ++ before.reverse := by simp
    rw [hsplit, List.find?_append] at hlast
    cases hf : (after.reverse ++ [type]).find? fun other => other.name == type.name with
    | none =>
      have hnone := List.find?_eq_none.mp hf type (by simp)
      simp at hnone
    | some other =>
      rw [hf, Option.some_or, eq_comm] at hlast
      have hpother : p other = true :=
        (List.mem_filter.mp (List.mem_reverse.mp (List.mem_of_find?_eq_some hlast))).2
      have hname := List.find?_some hf
      have hmem : other ∈ after.reverse ++ [type] := List.mem_of_find?_eq_some hf
      rcases List.mem_append.mp hmem with hmem | hmem
      · exact ⟨other, List.mem_reverse.mp hmem, hpother, beq_iff_eq.mp hname⟩
      · rw [List.mem_singleton.mp hmem, hp] at hpother
        cases hpother
  · intro h name
    rw [← List.filter_reverse, List.find?_filter]
    cases hf : types.reverse.find? fun type => type.name == name with
    | none =>
      rw [eq_comm, List.find?_eq_none]
      intro type hmem
      have hne := List.find?_eq_none.mp hf type hmem
      simp [hne]
    | some type =>
      obtain ⟨hname, after, before, hsplit, hafter⟩ := List.find?_eq_some_iff_append.mp hf
      rw [eq_comm, List.find?_eq_some_iff_append]
      refine ⟨?_, after, before, hsplit, fun other hmem => ?_⟩
      · -- none behind it has the name, so it cannot be one of those that are left out
        cases hp : p type with
        | true => simp [hname]
        | false =>
          have htypes : types = before.reverse ++ type :: after.reverse := by
            rw [← List.reverse_reverse types, hsplit]
            simp
          obtain ⟨other, hmem, -, hsame⟩ := h _ _ _ htypes hp
          have hother := hafter other (List.mem_reverse.mp hmem)
          rw [hsame, hname] at hother
          cases hother
      · have hother : (other.name == name) = false := by simpa using hafter other hmem
        simp [hother]

end Tables

section Builds

/-- What one find can do to a registry, however it stands. -/
theorem registerFound_cases (env : Environment) (f : Found) :
    (f.entered? = none ∧ f.isUsable env = false ∧ ∀ r, registerFound env r f = r) ∨
    ∃ client, f = .client client ∧ f.entered? = some client ∧
      ((f.isUsable env = false ∧ ∀ r, registerFound env r f =
          { r with clients := Ledger.put client.name client r.clients }) ∨
        ∃ settings, client.defaults env = .ok settings ∧ f.isUsable env = true ∧
          ∀ r, registerFound env r f = ⟨Ledger.put client.name client r.clients,
            Ledger.put client.name settings r.settings⟩) := by
  cases f with
  | broken reason => exact Or.inl ⟨rfl, rfl, fun _ => rfl⟩
  | client client =>
    rw [isUsable_client {}, isOk_register, Found.entered?]
    simp only [registerFound, register]
    cases hf : client.flaw with
    | some fault => exact Or.inl ⟨rfl, rfl, fun _ => rfl⟩
    | none =>
      refine Or.inr ⟨client, rfl, rfl, ?_⟩
      cases hd : client.defaults env with
      | error fault => exact Or.inl ⟨rfl, fun _ => rfl⟩
      | ok settings => exact Or.inr ⟨settings, rfl, rfl, fun _ => rfl⟩

/-- The finds that are usable enter those clients among all that are usable. -/
theorem entered_filter (env : Environment) (found : List Found) :
    entered (found.filter (Found.isUsable env)) =
      (entered found).filter fun client => Found.isUsable env (.client client) := by
  rw [entered, entered, List.filterMap_filter, List.filter_filterMap]
  refine List.filterMap_congr fun f _ => ?_
  obtain ⟨he, hu, -⟩ | ⟨client, rfl, he, ⟨hu, -⟩ | ⟨-, -, hu, -⟩⟩ := registerFound_cases env f
  · simp [he, hu]
  · simp [he, hu, Option.filter]
  · simp [he, hu, Option.filter]

/-- All clients that can be named get into the table. -/
theorem clients_foldl (env : Environment) (r : Registry) (found : List Found) :
    (found.foldl (registerFound env) r).clients = (entered found).foldl
      (fun table client => Ledger.put client.name client table) r.clients := by
  induction found generalizing r with
  | nil => rfl
  | cons f rest ih =>
    rw [List.foldl_cons, ih]
    obtain ⟨he, -, hr⟩ | ⟨client, -, he, ⟨-, hr⟩ | ⟨_, -, -, hr⟩⟩ := registerFound_cases env f
    · rw [hr, entered, entered, List.filterMap_cons_none he]
    · rw [hr, entered, entered, List.filterMap_cons_some he, List.foldl_cons]
    · rw [hr, entered, entered, List.filterMap_cons_some he, List.foldl_cons]

/-- Settings are those of usable finds. -/
theorem settings_foldl {r r' : Registry} (h : r.settings = r'.settings) (env : Environment)
    (found : List Found) : (found.foldl (registerFound env) r).settings =
      ((found.filter (Found.isUsable env)).foldl (registerFound env) r').settings := by
  induction found generalizing r r' with
  | nil => exact h
  | cons f rest ih =>
    rw [List.foldl_cons, List.filter_cons]
    obtain ⟨-, hu, hr⟩ | ⟨client, -, -, ⟨hu, hr⟩ | ⟨settings, -, hu, hr⟩⟩ :=
      registerFound_cases env f
    · rw [hu, hr]
      exact ih h
    · rw [hu, hr]
      exact ih h
    · -- the only find that writes settings stays, and writes the same ones
      rw [hu, if_pos rfl, List.foldl_cons, hr, hr]
      exact ih (congrArg (Ledger.put client.name settings) h)

/-- Whether a registry can be built at all depends on the built-in client only. -/
theorem build_cases (env : Environment) :
    (∃ fault, ClientType.builtIn.defaults env = .error fault ∧
      ∀ found, build env found = .error fault) ∨
    ∃ first, first.clients = tableOf [ClientType.builtIn] ∧
      Found.isUsable env (.client ClientType.builtIn) = true ∧
      ∀ found, build env found = .ok (found.foldl (registerFound env) first) := by
  rw [isUsable_client {}]
  unfold build
  rcases register_cases {} env ClientType.builtIn with
    ⟨_, hf, -⟩ | ⟨fault, -, hd, hr⟩ | ⟨_, -, -, hr⟩
  · cases hf
  · exact Or.inl ⟨fault, hd, fun _ => by rw [hr]⟩
  · rw [hr]
    exact Or.inr ⟨_, rfl, rfl, fun _ => rfl⟩

/-- The clients of a registry are the one that is built in and those that were entered. -/
theorem clients_build {first : Registry} (h : first.clients = tableOf [ClientType.builtIn])
    (env : Environment) (found : List Found) : (found.foldl (registerFound env) first).clients =
      tableOf (ClientType.builtIn :: entered found) := by
  rw [clients_foldl, h]
  rfl

theorem traceless_iff (hb : Found.isUsable env (.client ClientType.builtIn) = true) :
    tableOf (ClientType.builtIn :: entered found) =
      tableOf (ClientType.builtIn :: entered (found.filter (Found.isUsable env))) ↔
      Traceless env found := by
  -- the built-in client is usable itself, so it is the first of those that stay
  have hstay : ClientType.builtIn :: entered (found.filter (Found.isUsable env)) =
      (ClientType.builtIn :: entered found).filter
        fun client => Found.isUsable env (.client client) := by
    rw [entered_filter, List.filter_cons, if_pos hb]
  rw [tableOf_eq_iff, hstay, find?_reverse_filter_iff, ← hstay]
  constructor
  · rintro ⟨horder, hreplaced⟩
    refine ⟨horder, fun before client after hsplit => ?_⟩
    exact hreplaced (ClientType.builtIn :: before) client after (by rw [hsplit]; rfl)
  · rintro ⟨horder, hreplaced⟩
    refine ⟨horder, fun before client after hsplit hu => ?_⟩
    cases before with
    | nil =>
      obtain ⟨rfl, -⟩ := List.cons.inj hsplit
      rw [hb] at hu
      cases hu
    | cons first before =>
      exact hreplaced before client after (List.cons.inj hsplit).2 hu

end Builds

structure Builds (env : Environment) (found : List Found) (whole part : Registry) : Prop where
  of_all : build env found = .ok whole
  of_usable : build env (found.filter (Found.isUsable env)) = .ok part
  settings : whole.settings = part.settings
  mem_names : ∀ name, name ∈ whole.names ↔ name ∈ part.names ∨
    ∃ client ∈ entered found, Found.isUsable env (.client client) = false ∧ client.name = name
  eq_iff : whole = part ↔ Traceless env found

theorem builds_of_build {first : Registry} (hfirst : first.clients = tableOf [ClientType.builtIn])
    (hb : Found.isUsable env (.client ClientType.builtIn) = true)
    (hbuild : ∀ found, build env found = .ok (found.foldl (registerFound env) first))
    (found : List Found) : Builds env found (found.foldl (registerFound env) first)
      ((found.filter (Found.isUsable env)).foldl (registerFound env) first) := by
  have hsettings := settings_foldl (r := first) rfl env found
  refine ⟨hbuild _, hbuild _, hsettings, fun name => ?_, ?_⟩
  · simp only [names, clients_build hfirst, keys_tableOf, namesOf, List.mem_eraseDups,
      List.map_cons, List.mem_cons, List.mem_map, entered_filter, List.mem_filter, or_assoc]
    refine or_congr_right ⟨?_, ?_⟩
    · -- a name comes from a usable client, or from one that the usable finds lack
      rintro ⟨client, hmem, rfl⟩
      cases hu : Found.isUsable env (.client client) with
      | true => exact Or.inl ⟨client, ⟨hmem, hu⟩, rfl⟩
      | false => exact Or.inr ⟨client, hmem, hu, rfl⟩
    · rintro (⟨client, ⟨hmem, -⟩, rfl⟩ | ⟨client, hmem, -, rfl⟩)
      · exact ⟨client, hmem, rfl⟩
      · exact ⟨client, hmem, rfl⟩
  · rw [← traceless_iff hb, ← clients_build hfirst, ← clients_build hfirst]
    exact ⟨congrArg Registry.clients, fun hclients => Registry.ext hclients hsettings⟩

/-- Registrations that fail change nothing of the settings, but they change the clients, unless they
fail before the client can be named or others come in its place. -/
theorem failed_registrations (env : Environment) :
    (∀ (r : Registry) client,
      (r.register env client).1.isOk = Found.isUsable env (.client client)) ∧
    (∀ (r : Registry) client fault, (r.register env client).1 = .error fault →
      Leaves r client (r.register env client).2) ∧
    ((∃ fault, ClientType.builtIn.defaults env = .error fault ∧
        ∀ found, build env found = .error fault) ∨
      ∀ found, ∃ whole part, Builds env found whole part) := by
  refine ⟨fun r client => (isUsable_client r env client).symm, fun _ _ _ => leaves_of_error, ?_⟩
  rcases build_cases env with hfault | ⟨first, hfirst, hb, hbuild⟩
  · exact Or.inl hfault
  · exact Or.inr fun found => ⟨_, _, builds_of_build hfirst hb hbuild found⟩

end Registry

namespace Shop
open Registry (Leaves Builds)

def mute (name : String) : ClientType where
  name := name
  defaults := fun _ => .error (.outage "no credentials")
  setUp := fun _ => .error (.outage "no credentials")

/-- A client whose settings cannot be loaded fails, and stays in the registry. -/
theorem failed_registrations_mute :
    (({} : Registry).register [] (mute "mute")).1 = .error (.outage "no credentials") ∧
    Leaves {} (mute "mute") (({} : Registry).register [] (mute "mute")).2 ∧
    ∃ whole part, Builds [] [.broken "no module", .client (mute "mute")] whole part := by
  obtain ⟨-, hleaves, hbuild⟩ := Registry.failed_registrations []
  refine ⟨rfl, hleaves _ _ _ rfl, ?_⟩
  rcases hbuild with ⟨fault, hfault, -⟩ | hbuilds
  · cases hfault
  · exact hbuilds _

/-- A client that could not be registered is listed, and one with the name of the built-in client
takes the place of that one. -/
theorem mute_remains :
    (({} : Registry).register [("MAX_TARGETS_PER_CALL", "x")] { name := "a" }).1.isOk = false ∧
    (({} : Registry).register [("MAX_TARGETS_PER_CALL", "x")] { name := "a" }).2.names = ["a"] ∧
    Found.isUsable [] (.client (mute "memory")) = false ∧
    ((Registry.build [] [.client (mute "memory")]).bind (·.create "memory" .null)).isOk = false ∧
    ((Registry.build [] []).bind (·.create "memory" .null)).isOk = true := by
  decide +kernel

end Shop

end IngressControl
