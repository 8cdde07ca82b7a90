import TaiSkeleton.Config.SecretSeal
import TaiSkeleton.Lib.Dict
import TaiSkeleton.Lib.Except

/-!
# The config pipeline

A change of the manifest or of the environment is checked, written under the lock of its file, and
then followed by a reload of this process and a broadcast of the reload to the fleet. Each of the
steps can fail in its own way; what the files hold and what a call meets outside are parameters.
-/

namespace TaiSkeleton.Config.Service

open Lib

variable {ν ρ : Type}

/-- The members of a manifest, with their markers or resolved. -/
abbrev Document (ν : Type) := List (String × Json ν)

abbrev Environ := List (String × String)

/-! ## Failures -/

/-- What code can raise: an `Exception`, or a `BaseException` such as a cancellation, which
`except Exception` lets through. -/
inductive Fault where
  | exception (name text : String)
  | base (name : String)
deriving DecidableEq

/-- `f"{type(exc).__name__}: {exc}"` -/
def Fault.describe : Fault → String
  | exception name text => name ++ ": " ++ text
  | base name => name ++ ": "

def Fault.isException : Fault → Bool
  | exception .. => true
  | base _ => false

inductive OpOutcome where
  | applied
  | failed
  | missing
  | departed
  | timedOut
deriving DecidableEq

/-- `LocalApplyResult` -/
structure LocalApplyResult (ρ : Type) where
  outcome : OpOutcome
  payload : Option ρ := none
  error : Option String := none

/-- `OriginResult` -/
structure OriginResult where
  origin : String
  outcome : OpOutcome
deriving DecidableEq

/-- `FleetResult` -/
structure FleetResult where
  op : String
  reachable : Bool := true
  localOnly : Bool := false
  results : List OriginResult := []
  error : Option String := none
deriving DecidableEq

/-- Every origin applied the op. -/
def FleetResult.ok (report : FleetResult) : Bool :=
  report.reachable && report.results.all fun result => result.outcome == .applied

/-- What a call raises: a `FleetBroadcastError`, or anything else. -/
inductive Raised where
  | fleetBroadcast (opName : String) (report : FleetResult) (cause : Fault)
  | other (fault : Fault)
deriving DecidableEq

/-- The `ApplyResult` of a call. -/
structure ApplyResult (ν ρ : Type) where
  fleet : FleetResult
  localResult : ρ
  document : Option (Document ν)

/-! ## What a call meets -/

/-- The texts of the manifest file and of the env file, where they are there. -/
structure Disk where
  manifest : Option String
  env : Option String
deriving DecidableEq

/-- The store and what has been done: a file has been renamed over the target, and the reload has
been handed to the bus. -/
structure Trace where
  disk : Disk
  landed : Bool := false
  broadcast : Bool := false

/-- The code and the state outside of the pipeline. -/
structure Outside (ν ρ : Type) where
  /-- The parsers and the printers. -/
  loadYamlPreserved : String → Except Fault (Document ν)
  mergeAndDumpManifest : Document ν → Document ν → Except Fault (String × Document ν)
  dotenvValues : String → Except Fault (List (String × Option String))
  /-- The projection of a document under an environment, and the backend of one that is valid. -/
  resolve : Environ → Document ν → Except Fault (Document ν)
  modelValidate : Document ν → Except Fault (Option String)
  /-- The environment of the process, and whether the bus is configured. -/
  environ : Environ
  busEnabled : Bool
  strip : String → String
  defaultsManifest : Option String
  /-- What goes wrong with the lock, with the write up to the rename and with the sync after it. -/
  lockFault : Option Fault
  writeFault : Option Fault
  syncFault : Option Fault
  unlockFault : Option Fault
  /-- The reload of this process, the broadcast, and the log of its report. -/
  reloadConfig : Except Fault ρ
  publish : LocalApplyResult ρ → Except Fault FleetResult
  logFault : Option Fault

/-- A change; a mutator can raise whatever it likes. -/
inductive Change (ν : Type) where
  | change (mutator : Document ν → Except Raised (Document ν))
  | replace (document : Document ν)
  | env (changes : Environ)

variable (W : Outside ν ρ)

/-- What is not raised by a mutator is no `FleetBroadcastError`. -/
def raising {α : Type} : Except Fault α → Except Raised α
  | .ok a => .ok a
  | .error fault => .error (.other fault)

/-- A file that may be missing. -/
def loadOrEmpty (text : Option String) : Except Fault (Document ν) :=
  match text with
  | none => .ok []
  | some text => W.loadYamlPreserved text

/-! ## Validation -/

/-- `check_backend_needs_bus` -/
def checkBackendNeedsBus (backendModule : Option String) (busConfigured : Bool) :
    Except Fault Unit :=
  match backendModule with
  | none => .ok ()
  | some backend =>
    if backend ≠ "" ∧ busConfigured = false then
      .error (.exception "BackendNeedsBusError"
        ("Refusing a config that registers a task backend ('" ++ backend ++
          "') with no worker bus: " ++
          "the backend-runtime and server processes must converge on config reloads. " ++
          "Set TAI_BUS_REDIS_URL."))
    else .ok ()

/-- `_validated_projection`, for the backend of the manifest. -/
def validatedProjection (environ : Environ) (document : Document ν) :
    Except Fault (Option String) := do
  let resolved ← W.resolve environ document
  W.modelValidate resolved

/-- `_validate_manifest` -/
def validateManifest (document : Document ν) : Except Fault Unit := do
  let backendModule ← validatedProjection W W.environ document
  checkBackendNeedsBus backendModule W.busEnabled

/-- `_seal_secrets` -/
def sealSecrets [PyNumber ν] (document currentPreserved : Document ν) :
    Except Fault (Document ν) := do
  let expanded ← W.resolve W.environ currentPreserved
  match sealResolvedSecrets document currentPreserved expanded with
  | .ok sealed => .ok sealed
  | .error refusal => .error (.exception "ResolvedSecretError" refusal.path)

/-- `read_env` -/
def readEnv (text : String) : Except Fault Environ := do
  let parsed ← W.dotenvValues text
  return parsed.filterMap fun (key, value) => value.map (key, ·)

/-- `_read_stored_env` -/
def readStoredEnv (disk : Disk) : Except Fault Environ :=
  match disk.env with
  | none => .ok []
  | some text => readEnv W text

/-- `_effective_env` -/
def effectiveEnv (changes : Environ) (disk : Disk) : Except Fault Environ := do
  let stored ← readStoredEnv W disk
  let removed := (changes.filter fun (_, value) => value = "").map Prod.fst
  let merged := (updated stored changes).filter fun (_, value) => value ≠ ""
  return updated (W.environ.filter fun (key, _) => key ∉ removed) merged

/-- `_validate_env` -/
def validateEnv (changes : Environ) (disk : Disk) : Except Fault Unit := do
  let effective ← effectiveEnv W changes disk
  let current ← loadOrEmpty W disk.manifest
  let backendModule ← validatedProjection W effective current
  let busConfigured := W.strip ((effective.lookup "TAI_BUS_REDIS_URL").getD "") ≠ ""
  checkBackendNeedsBus backendModule busConfigured

/-! ## The writers -/

section

variable [PyNumber ν]

/-- The mutator of `apply_change`, guarded. -/
def guarded (mutator : Document ν → Except Raised (Document ν)) (document : Document ν) :
    Except Raised (Document ν) := do
  let mutated ← mutator document
  raising (validateManifest W mutated)
  raising (sealSecrets W mutated document)

/-- The text of a document with the defaults, and the document that it is of. -/
def dump (document : Document ν) (disk : Disk) :
    Except Raised (Option (Document ν) × Disk) := do
  let defaults ← raising (loadOrEmpty W W.defaultsManifest)
  let (content, persisted) ← raising (W.mergeAndDumpManifest defaults document)
  return (some persisted, { disk with manifest := some content })

/-- What `mutate_manifest` comes to write. -/
def mutateManifest (mutator : Document ν → Except Raised (Document ν)) (disk : Disk) :
    Except Raised (Option (Document ν) × Disk) := do
  let document ← raising (loadOrEmpty W disk.manifest)
  let changed ← guarded W mutator document
  dump W changed disk

/-- What `replace_manifest` comes to write. -/
def replaceManifest (document : Document ν) (disk : Disk) :
    Except Raised (Option (Document ν) × Disk) :=
  dump W document disk

end

/-- `_ENV_KEY_RE.fullmatch` -/
def isEnvKey (key : String) : Bool :=
  match key.toList with
  | [] => false
  | c :: rest => (c.isAlpha || c == '_') && rest.all fun c => c.isAlphanum || c == '_'

/-- `_dotenv_serialize_value` -/
def dotenvSerializeValue (value : String) : String :=
  "\"" ++ String.ofList (value.toList.flatMap fun c =>
    if c = '\\' then ['\\', '\\']
    else if c = '"' then ['\\', '"']
    else if c = '\n' then ['\\', 'n']
    else if c = '\r' then ['\\', 'r']
    else [c]) ++ "\""

/-- The key of the probe, grown until it is none of the written ones. -/
def probeKey (written : List String) : ℕ → String → String
  | 0, key => key
  | fuel + 1, key => if key ∈ written then probeKey written fuel (key ++ "_") else key

theorem probeKey_notMem_of_lt {written : List String} {fuel : ℕ} {key : String}
    (h : (written.filter fun k => decide (key.length ≤ k.length)).length < fuel) :
    probeKey written fuel key ∉ written := by
  induction fuel generalizing key with
  | zero => cases h
  | succ fuel ih =>
    unfold probeKey
    split_ifs with hmem
    · refine ih (Nat.lt_of_lt_of_le ?_ (Nat.le_of_lt_succ h))
      -- The key itself is shorter than the one it is grown to.
      have hgrown : (key ++ "_").length = key.length + 1 := String.length_append key "_"
      have hfilter : (written.filter fun k => decide ((key ++ "_").length ≤ k.length)) =
          (written.filter fun k => decide (key.length ≤ k.length)).filter
            fun k => decide (key.length + 1 ≤ k.length) := by
        rw [List.filter_filter, hgrown]
        refine List.filter_congr fun k _ => ?_
        simp only [← Bool.decide_and, decide_eq_decide]
        omega
      rw [hfilter, List.length_filter_lt_length_iff_exists]
      exact ⟨key, List.mem_filter.mpr ⟨hmem, by simp⟩, by simp⟩
    · exact hmem

/-- The probe is none of the written keys. -/
theorem probeKey_notMem (written : List String) (key : String) :
    probeKey written (written.length + 1) key ∉ written :=
  probeKey_notMem_of_lt (Nat.lt_succ_of_le (List.length_filter_le _ _))

/-- The lines of an env file. -/
def envContent (written : Environ) : String :=
  let lines := written.map fun (key, value) => key ++ "=" ++ dotenvSerializeValue value
  "\n".intercalate lines ++ if lines.isEmpty then "" else "\n"

/-- The keys whose values do not read back. -/
def corrupted (written : Environ) : Except Fault (List String) := do
  let keys := written.map Prod.fst
  let probe := probeKey keys (keys.length + 1) "_TAI_ENV_ROUNDTRIP_PROBE"
  let reparsed ← W.dotenvValues (envContent written ++ probe ++ "=\"0\"\n")
  return (written.filter fun (key, value) =>
    reparsed.reverse.lookup key ≠ some (some value)).map Prod.fst

/-- What `write_env` comes to write. -/
def writeEnv (config : Environ) (disk : Disk) : Except Raised (Option (Document ν) × Disk) := do
  let existing ← raising (readStoredEnv W disk)
  let written := (updated existing config).filter fun (_, value) => value ≠ ""
  match ← raising (corrupted W written) with
  | [] => return (none, { disk with env := some (envContent written) })
  | names => .error (.other (.exception "ValueError" ("env value for " ++
      ", ".intercalate (names.map fun name => "'" ++ name ++ "'") ++
      " cannot be round-tripped through the .env format")))

/-- The check of the keys. -/
def checkEnvKeys (config : Environ) : Except Fault Unit :=
  match config.find? fun (key, _) => !isEnvKey key with
  | none => .ok ()
  | some (key, _) =>
    .error (.exception "ValueError"
      ("invalid env key '" ++ key ++ "': must match [A-Za-z_][A-Za-z0-9_]*"))

/-! ## The persist -/

/-- `_atomic_write`: the temp file, the rename, and then the sync of the directory. -/
def atomicWrite (disk : Disk) (t : Trace) : Except Raised Unit × Trace :=
  match W.writeFault with
  | some fault => (.error (.other fault), t)
  | none =>
    let renamed := { t with disk, landed := true }
    match W.syncFault with
    | some fault => (.error (.other fault), renamed)
    | none => (.ok (), renamed)

/-- A read, a change and a write under the lock of the file. -/
def transaction (body : Disk → Except Raised (Option (Document ν) × Disk)) (t : Trace) :
    Except Raised (Option (Document ν)) × Trace :=
  match W.lockFault with
  | some fault => (.error (.other fault), t)
  | none =>
    let (result, written) :=
      match body t.disk with
      | .error raised => (.error raised, t)
      | .ok (document, disk) =>
        match atomicWrite W disk t with
        | (.error raised, t') => (.error raised, t')
        | (.ok (), t') => (.ok document, t')
    -- What the close of the lock raises takes the place of what the body raised.
    match W.unlockFault with
    | some fault => (.error (.other fault), written)
    | none => (result, written)

/-! ## The tail -/

/-- The reload as the bus is told of it. -/
def localResult : Except Fault ρ → LocalApplyResult ρ
  | .ok payload => { outcome := .applied, payload := some payload }
  | .error fault => { outcome := .failed, error := some fault.describe }

/-- `log_non_convergence` -/
def logNonConvergence (report : FleetResult) : Except Fault Unit :=
  if report.reachable && !report.ok then
    match W.logFault with
    | some fault => .error fault
    | none => .ok ()
  else .ok ()

/-- The report of a broadcast that raised. -/
def unreachable (fault : Fault) (reload : Except Fault ρ) : FleetResult where
  op := "reload_config"
  reachable := false
  error := some (match reload with
    | .ok _ => fault.describe
    | .error failure =>
      fault.describe ++ " (local reload also failed: " ++ failure.describe ++ ")")

/-- `_reload_and_broadcast` -/
def reloadAndBroadcast (document : Option (Document ν)) (t : Trace) :
    Except Raised (ApplyResult ν ρ) × Trace :=
  match W.reloadConfig with
  | .error (.base name) => (.error (.other (.base name)), t)
  | reload =>
    let attempted := { t with broadcast := true }
    match W.publish (localResult reload) with
    | .error (.base name) => (.error (.other (.base name)), attempted)
    | .error fault =>
      (.error (.fleetBroadcast "reload_config" (unreachable fault reload) fault), attempted)
    | .ok report =>
      match logNonConvergence W report with
      | .error fault => (.error (.other fault), attempted)
      | .ok () =>
        match reload with
        | .error failure => (.error (.fleetBroadcast report.op report failure), attempted)
        | .ok payload => (.ok ⟨report, payload, document⟩, attempted)

/-! ## The calls -/

section

variable [PyNumber ν]

/-- The checks before the lock, and what is then done under it. -/
def Change.prepare (disk : Disk) :
    Change ν → Except Raised (Disk → Except Raised (Option (Document ν) × Disk))
  | .change mutator => .ok (mutateManifest W mutator)
  | .replace document => do
    raising (validateManifest W document)
    let current ← raising (loadOrEmpty W disk.manifest)
    let sealed ← raising (sealSecrets W document current)
    return replaceManifest W sealed
  | .env changes => do
    raising (validateEnv W changes disk)
    raising (checkEnvKeys changes)
    return writeEnv W changes

/-- The pipeline. -/
def apply (change : Change ν) (t : Trace) : Except Raised (ApplyResult ν ρ) × Trace :=
  match change.prepare W t.disk with
  | .error raised => (.error raised, t)
  | .ok body =>
    match transaction W body t with
    | (.error raised, t') => (.error raised, t')
    | (.ok document, t') => reloadAndBroadcast W document t'

def applyChange (mutator : Document ν → Except Raised (Document ν)) :=
  apply W (.change mutator)

def applyReplace (document : Document ν) := apply W (.replace document)

def applyEnvChange (changes : Environ) := apply W (.env changes)

end

end TaiSkeleton.Config.Service
