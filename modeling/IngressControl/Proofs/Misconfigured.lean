import IngressControl.Daemon
import IngressControl.Proofs.Names
import IngressControl.Proofs.Outcome
import IngressControl.Proofs.Wholes

/-! Environments that make no settings. A faulty cluster name and a text that is not JSON are told
as faults of the settings. A number that cannot be read is a fault of its own, which ends the daemon
without a word, and client settings that are JSON are taken whatever their kind. -/

namespace IngressControl

namespace Environment

/-- The name of the cluster is set, fits, and holds no hyphen. -/
def Named (env : Environment) : Prop :=
  env.text "CLUSTER_NAME" "" ≠ "" ∧ (env.text "CLUSTER_NAME" "").length ≤ maxClusterName ∧
    '-' ∉ (env.text "CLUSTER_NAME" "").toList

/-- A variable writes a whole number if it is set. -/
def Whole (env : Environment) (name : String) : Prop :=
  ∀ value, Ledger.get? name env = some value → ∃ n, Numeral.Writes value n

/-- The client settings are empty, or an object, or not JSON. -/
def Told (env : Environment) : Prop :=
  env.text "LB_CLIENT_CONFIG" "" = "" ∨
    (∃ fields, Json.read (env.text "LB_CLIENT_CONFIG" "") = .ok (.object fields)) ∨
    ∃ fault, Json.read (env.text "LB_CLIENT_CONFIG" "") = .error (.malformed fault)

variable {env : Environment}

theorem whole_iff_ok (name : String) (byDefault : Int) :
    env.Whole name ↔ ∃ n, env.whole name byDefault = .ok n := by
  rw [Whole, whole]
  cases Ledger.get? name env with
  | none => simp
  | some value => simp [Numeral.readWhole_iff_writes]

theorem whole_of_ok {name : String} {byDefault n : Int} (h : env.whole name byDefault = .ok n) :
    env.Whole name := (whole_iff_ok name byDefault).mpr ⟨n, h⟩

/-- A whole number of the environment fails only on a value that is there and is none. -/
theorem whole_fault {name : String} {byDefault : Int} {fault : Fault}
    (h : env.whole name byDefault = .error fault) : ∃ value, Ledger.get? name env = some value ∧
      (fault = .wholeNumber value ∨ ∃ digits, fault = .tooManyDigits digits) := by
  rw [whole] at h
  split at h
  · next value hget => exact ⟨value, hget, Numeral.readWhole_fault h⟩
  · cases h

end Environment

namespace Settings

def wholes : List String :=
  ["SYNC_INTERVAL", "MAX_CONCURRENT_RECONCILES", "MAX_TARGETS_PER_CALL", "API_PORT"]

/-- Reading ends with settings whose client settings are an object, or with a fault that is one of
the settings. -/
def Reported : Except Fault Settings → Prop
  | .ok settings => ∃ fields, settings.clientSettings = .object fields
  | .error fault => fault.isSettings = true

section Reading

variable {env : Environment} {settings : Settings} {fault : Fault}

theorem named_iff_ok :
    env.Named ↔ ∃ name, validateClusterName (env.text "CLUSTER_NAME" "") = .ok name := by
  simp [validateClusterName_eq_ok_iff, Environment.Named]

theorem isSettings_of_validateClusterName {name : String}
    (h : validateClusterName name = .error fault) : fault.isSettings = true := by
  rw [validateClusterName] at h
  split at h
  · exact Except.error.inj h ▸ rfl
  · split at h
    · exact Except.error.inj h ▸ rfl
    · split at h
      · exact Except.error.inj h ▸ rfl
      · cases h

theorem forall_wholes {p : String → Prop} (hinterval : p "SYNC_INTERVAL")
    (hconcurrent : p "MAX_CONCURRENT_RECONCILES") (htargets : p "MAX_TARGETS_PER_CALL")
    (hport : p "API_PORT") : ∀ name ∈ wholes, p name := by
  simp [wholes, hinterval, hconcurrent, htargets, hport]

/-- What is read has a cluster name and whole numbers. -/
theorem load_eq_ok (h : load env = .ok settings) :
    env.Named ∧ (∀ name ∈ wholes, env.Whole name) ∧
      readClientSettings env = .ok settings.clientSettings := by
  obtain ⟨name, hname, h⟩ := bind_eq_ok h
  obtain ⟨interval, hinterval, h⟩ := bind_eq_ok h
  obtain ⟨concurrent, hconcurrent, h⟩ := bind_eq_ok h
  obtain ⟨targets, htargets, h⟩ := bind_eq_ok h
  obtain ⟨port, hport, h⟩ := bind_eq_ok h
  obtain ⟨client, hclient, h⟩ := bind_eq_ok h
  obtain rfl := Except.ok.inj h
  refine ⟨named_iff_ok.mpr ⟨name, hname⟩, ?_, hclient⟩
  exact forall_wholes (Environment.whole_of_ok hinterval) (Environment.whole_of_ok hconcurrent)
    (Environment.whole_of_ok htargets) (Environment.whole_of_ok hport)

/-- Why nothing is read: there is no cluster name, or else a variable writes no whole number, or
else the client settings cannot be read. -/
inductive Breaks (env : Environment) (fault : Fault) : Prop
  | name (unnamed : ¬ env.Named) (told : fault.isSettings = true)
  | number (name : String) (byDefault : Int) (named : env.Named) (listed : name ∈ wholes)
      (unread : env.whole name byDefault = .error fault)
  | client (named : env.Named) (whole : ∀ name ∈ wholes, env.Whole name)
      (unread : readClientSettings env = .error fault)

theorem load_eq_error (h : load env = .error fault) : Breaks env fault := by
  -- the variables are read one after the other, and each is reached if those before it are read
  rcases bind_eq_error h with hname | ⟨name, hname, h⟩
  · refine .name (fun hnamed => ?_) (isSettings_of_validateClusterName hname)
    obtain ⟨name, hok⟩ := named_iff_ok.mp hnamed
    exact absurd (hok.symm.trans hname) nofun
  have hnamed : env.Named := named_iff_ok.mpr ⟨name, hname⟩
  rcases bind_eq_error h with hinterval | ⟨interval, hinterval, h⟩
  · exact .number _ _ hnamed (by decide) hinterval
  rcases bind_eq_error h with hconcurrent | ⟨concurrent, hconcurrent, h⟩
  · exact .number _ _ hnamed (by decide) hconcurrent
  rcases bind_eq_error h with htargets | ⟨targets, htargets, h⟩
  · exact .number _ _ hnamed (by decide) htargets
  rcases bind_eq_error h with hport | ⟨port, hport, h⟩
  · exact .number _ _ hnamed (by decide) hport
  rcases bind_eq_error h with hclient | ⟨client, -, h⟩
  · refine .client hnamed ?_ hclient
    exact forall_wholes (Environment.whole_of_ok hinterval) (Environment.whole_of_ok hconcurrent)
      (Environment.whole_of_ok htargets) (Environment.whole_of_ok hport)
  · cases h

/-- The client settings are empty, or else they are what the JSON reader makes of the text. -/
theorem readClientSettings_cases (env : Environment) :
    (env.text "LB_CLIENT_CONFIG" "" = "" ∧ readClientSettings env = .ok (.object [])) ∨
    (∃ value, env.text "LB_CLIENT_CONFIG" "" ≠ "" ∧
      Json.read (env.text "LB_CLIENT_CONFIG" "") = .ok value ∧
      readClientSettings env = .ok value) ∨
    ∃ failure, env.text "LB_CLIENT_CONFIG" "" ≠ "" ∧
      Json.read (env.text "LB_CLIENT_CONFIG" "") = .error failure ∧
      readClientSettings env = .error failure.toFault := by
  by_cases hempty : env.text "LB_CLIENT_CONFIG" "" = ""
  · exact Or.inl ⟨hempty, by simp [readClientSettings, hempty]⟩
  · refine Or.inr ?_
    cases hread : Json.read (env.text "LB_CLIENT_CONFIG" "") with
    | ok value => exact Or.inl ⟨value, hempty, rfl, by simp [readClientSettings, hempty, hread]⟩
    | error failure =>
      exact Or.inr ⟨failure, hempty, rfl, by simp [readClientSettings, hempty, hread]⟩

/-- Client settings that are read are told if they are an object. -/
theorem told_iff_of_ok {client : Document} (h : readClientSettings env = .ok client) :
    env.Told ↔ ∃ fields, client = .object fields := by
  rcases readClientSettings_cases env with
    ⟨hempty, heq⟩ | ⟨value, hne, hread, heq⟩ | ⟨failure, hne, hread, heq⟩
  · obtain rfl := Except.ok.inj (heq.symm.trans h)
    exact ⟨fun _ => ⟨[], rfl⟩, fun _ => Or.inl hempty⟩
  · obtain rfl := Except.ok.inj (heq.symm.trans h)
    simp [Environment.Told, hne, hread]
  · exact absurd (heq.symm.trans h) nofun

/-- Client settings that are not read are told if they are not JSON. Else they write a number of
too many digits or are too deep. -/
theorem told_iff_of_error (h : readClientSettings env = .error fault) :
    (env.Told ↔ fault.isSettings = true) ∧ (fault.isSettings = false →
      (∃ digits, fault = .tooManyDigits digits) ∨ ∃ kind, fault = .tooDeep kind) := by
  rcases readClientSettings_cases env with
    ⟨hempty, heq⟩ | ⟨value, hne, hread, heq⟩ | ⟨failure, hne, hread, heq⟩
  · exact absurd (heq.symm.trans h) nofun
  · exact absurd (heq.symm.trans h) nofun
  · obtain rfl := Except.error.inj (heq.symm.trans h)
    cases failure <;>
      simp [Environment.Told, hne, hread, Json.Failure.toFault, Fault.isSettings]

/-- Settings that are not read are told of unless a number or the client settings are the cause. -/
theorem Breaks.reported_iff (h : Breaks env fault) : fault.isSettings = true ↔
    ¬ env.Named ∨ (∀ name ∈ wholes, env.Whole name) ∧ env.Told := by
  cases h with
  | name unnamed told => exact ⟨fun _ => Or.inl unnamed, fun _ => told⟩
  | client named whole unread =>
    rw [← (told_iff_of_error unread).1]
    exact ⟨fun htold => Or.inr ⟨whole, htold⟩, fun h => (h.resolve_left (not_not_intro named)).2⟩
  | number name byDefault named listed unread =>
    have hunwhole : ¬ env.Whole name := by
      rw [Environment.whole_iff_ok name byDefault, unread]
      rintro ⟨n, hn⟩
      cases hn
    have huntold : fault.isSettings = false := by
      obtain ⟨value, -, rfl | ⟨digits, rfl⟩⟩ := Environment.whole_fault unread
      · rfl
      · rfl
    rw [huntold]
    refine ⟨nofun, fun h => ?_⟩
    rcases h with hunnamed | ⟨hwhole, -⟩
    · exact absurd named hunnamed
    · exact absurd (hwhole name listed) hunwhole

/-- A fault that is not told is of a number, in a variable or in the client settings, or of client
settings too deep to be read. -/
theorem Breaks.untold (h : Breaks env fault) (hf : fault.isSettings = false) :
    (∃ name ∈ wholes, ∃ value, Ledger.get? name env = some value ∧ fault = .wholeNumber value) ∨
      (∃ digits, fault = .tooManyDigits digits) ∨ ∃ kind, fault = .tooDeep kind := by
  cases h with
  | name unnamed told => exact absurd (told.symm.trans hf) nofun
  | client named whole unread => exact Or.inr ((told_iff_of_error unread).2 hf)
  | number name byDefault named listed unread =>
    obtain ⟨value, hget, hfault | hmany⟩ := Environment.whole_fault unread
    · exact Or.inl ⟨name, listed, value, hget, hfault⟩
    · exact Or.inr (Or.inl hmany)

/-- Reading ends as reported if the cluster name is wrong, and otherwise exactly if every whole
number is one and the client settings are empty, an object or not JSON. -/
theorem reported_load_iff (env : Environment) : Reported (load env) ↔
    ¬ env.Named ∨ (∀ name ∈ wholes, env.Whole name) ∧ env.Told := by
  cases hload : load env with
  | error fault => exact (load_eq_error hload).reported_iff
  | ok settings =>
    obtain ⟨hnamed, hwhole, hclient⟩ := load_eq_ok hload
    rw [Reported, ← told_iff_of_ok hclient]
    exact ⟨fun htold => Or.inr ⟨hwhole, htold⟩, fun h => (h.resolve_left (not_not_intro hnamed)).2⟩

end Reading

/-- What becomes of an environment: when the reading ends as it should, how else it can end, and
what the daemon makes of it. -/
structure Outcome (env : Environment) : Prop where
  /-- The reading ends as it should exactly if the cluster name is faulty, or else the numbers are
  numbers and the client settings are empty, an object, or not JSON. -/
  reported : Reported (load env) ↔
    ¬ env.Named ∨ (∀ name ∈ wholes, env.Whole name) ∧ env.Told
  read : ∀ settings, load env = .ok settings →
    readClientSettings env = .ok settings.clientSettings ∧
      ∀ fault, Daemon.readSettings env ≠ .error (.settings fault)
  untold : ∀ fault, load env = .error fault → fault.isSettings = false →
    (∃ name ∈ wholes, ∃ value, Ledger.get? name env = some value ∧ fault = .wholeNumber value) ∨
      (∃ digits, fault = .tooManyDigits digits) ∨ ∃ kind, fault = .tooDeep kind
  logged : ∀ fault found folder now, load env = .error fault → fault.isSettings = true →
    Daemon.runOnce env found folder now =
      { critical := ["Invalid configuration: " ++ fault.message], ending := .ok 1 }
  unlogged : ∀ fault found folder now, load env = .error fault → fault.isSettings = false →
    Daemon.runOnce env found folder now = { ending := .error fault }

/-- The outcome of every environment. -/
theorem outcome_load (env : Environment) : Outcome env := by
  have hrefused {fault : Fault} (h : load env = .error fault) :
      Daemon.readSettings env = .error (Daemon.ofFault fault) := by
    rw [Daemon.readSettings, h]
  refine ⟨reported_load_iff env, fun settings h => ⟨(load_eq_ok h).2.2, fun fault hs => ?_⟩,
    fun fault h => (load_eq_error h).untold, fun fault found folder now h hf => ?_,
    fun fault found folder now h hf => ?_⟩
  · rw [Daemon.readSettings, h] at hs
    dsimp only at hs
    split at hs <;> cases hs
  · rw [Daemon.runOnce, hrefused h, Daemon.ofFault, if_pos hf]
    rfl
  · rw [Daemon.runOnce, hrefused h, Daemon.ofFault, if_neg (by rw [hf]; nofun)]
    rfl

end Settings

namespace Shop

def letters : Environment := [("CLUSTER_NAME", "prod"), ("SYNC_INTERVAL", "x")]

def listed : Environment := [("CLUSTER_NAME", "prod"), ("LB_CLIENT_CONFIG", "[1]")]

/-- An interval that is no number ends the daemon without a word, and client settings that are a
list are taken for settings. -/
theorem unreported_letters : ¬ Settings.Reported (Settings.load letters) ∧
    (∀ found folder now, Daemon.runOnce letters found folder now =
      { ending := .error (.wholeNumber "x") }) ∧
    ¬ Settings.Reported (Settings.load listed) ∧
    (Settings.load listed).map (·.clientSettings) = .ok (.array [.int 1]) := by
  have hletters : Settings.load letters = .error (.wholeNumber "x") := rfl
  refine ⟨?_, fun _ _ _ => rfl, ?_, rfl⟩
  · rw [hletters]
    exact nofun
  · rintro ⟨fields, hfields⟩
    cases hfields

end Shop

end IngressControl
