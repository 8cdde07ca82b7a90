import TaiSkeleton.Config.Service

/-!
# What the failure of a call tells

A caller takes a `FleetBroadcastError` for a change that is in the store and anything else for one
that is not. A call that fails between the rename and the broadcast tells otherwise, and so does one
that is cancelled there.
-/

namespace TaiSkeleton.Config.Service

open Lib

variable {ν ρ : Type} [PyNumber ν] (W : Outside ν ρ)

/-! ## The new document -/

/-- The store with the new validated document or env. -/
def Change.Intended : Change ν → Disk → Disk → Prop
  | .change mutator, disk, disk' => ∃ current mutated, loadOrEmpty W disk.manifest = .ok current ∧
      mutator current = .ok mutated ∧ validateManifest W mutated = .ok () ∧
      ∃ sealed defaults content persisted, sealSecrets W mutated current = .ok sealed ∧
        loadOrEmpty W W.defaultsManifest = .ok defaults ∧
        W.mergeAndDumpManifest defaults sealed = .ok (content, persisted) ∧
        disk' = { disk with manifest := some content }
  | .replace document, disk, disk' => validateManifest W document = .ok () ∧
      ∃ current sealed defaults content persisted, loadOrEmpty W disk.manifest = .ok current ∧
        sealSecrets W document current = .ok sealed ∧
        loadOrEmpty W W.defaultsManifest = .ok defaults ∧
        W.mergeAndDumpManifest defaults sealed = .ok (content, persisted) ∧
        disk' = { disk with manifest := some content }
  | .env changes, disk, disk' => validateEnv W changes disk = .ok () ∧
      ∃ existing, readStoredEnv W disk = .ok existing ∧
        disk' = { disk with env := some (envContent
          ((updated existing changes).filter fun (_, value) => value ≠ "")) }

variable {W} {change : Change ν} {disk disk' : Disk} {t : Trace}

omit [PyNumber ν] in
theorem raising_eq_ok {α : Type} {x : Except Fault α} {a : α} : raising x = .ok a ↔ x = .ok a := by
  cases x with
  | error fault => simp [raising]
  | ok b => simp [raising]

omit [PyNumber ν] in
theorem raising_eq_error {α : Type} {x : Except Fault α} {raised : Raised}
    (h : raising x = .error raised) : ∃ fault, raised = .other fault := by
  cases x with
  | error fault => exact ⟨fault, (Except.error.inj h).symm⟩
  | ok b => cases h

omit [PyNumber ν] in
theorem dump_eq_ok {document : Document ν} {result : Option (Document ν)}
    (h : dump W document disk = .ok (result, disk')) :
    ∃ defaults content persisted, loadOrEmpty W W.defaultsManifest = .ok defaults ∧
      W.mergeAndDumpManifest defaults document = .ok (content, persisted) ∧
      disk' = { disk with manifest := some content } := by
  simp only [dump, bind_eq_ok, raising_eq_ok, pure_eq_ok] at h
  obtain ⟨defaults, hdefaults, ⟨content, persisted⟩, hmerge, hresult⟩ := h
  exact ⟨defaults, content, persisted, hdefaults, hmerge,
    (Prod.mk.inj (Except.ok.inj hresult)).2.symm⟩

/-- What a call writes is what its change has been checked for. -/
theorem intended_of_body {body : Disk → Except Raised (Option (Document ν) × Disk)}
    {document : Option (Document ν)} (hprepare : change.prepare W disk = .ok body)
    (hbody : body disk = .ok (document, disk')) : change.Intended W disk disk' := by
  cases change with
  | change mutator =>
    obtain rfl := Except.ok.inj hprepare
    simp only [mutateManifest, guarded, bind_eq_ok, raising_eq_ok] at hbody
    obtain ⟨current, hcurrent, sealed, ⟨mutated, hmutated, u, hvalid, hsealed⟩, hdump⟩ := hbody
    exact ⟨current, mutated, hcurrent, hmutated, hvalid, sealed,
      let ⟨defaults, content, persisted, hrest⟩ := dump_eq_ok hdump
      ⟨defaults, content, persisted, hsealed, hrest⟩⟩
  | replace document =>
    simp only [Change.prepare, bind_eq_ok, raising_eq_ok, pure_eq_ok] at hprepare
    obtain ⟨u, hvalid, current, hcurrent, sealed, hsealed, hreplace⟩ := hprepare
    obtain rfl := Except.ok.inj hreplace
    obtain ⟨defaults, content, persisted, hrest⟩ := dump_eq_ok hbody
    exact ⟨hvalid, current, sealed, defaults, content, persisted, hcurrent, hsealed, hrest⟩
  | env changes =>
    simp only [Change.prepare, bind_eq_ok, raising_eq_ok, pure_eq_ok] at hprepare
    obtain ⟨u, hvalid, u', -, hwrite⟩ := hprepare
    obtain rfl := Except.ok.inj hwrite
    simp only [writeEnv, bind_eq_ok, raising_eq_ok] at hbody
    obtain ⟨existing, hexisting, names, -, hresult⟩ := hbody
    cases names with
    | nil =>
      exact ⟨hvalid, existing, hexisting, (Prod.mk.inj (Except.ok.inj hresult)).2.symm⟩
    | cons name names => cases hresult

/-- Only a mutator raises a `FleetBroadcastError` before the write. -/
theorem other_of_prepare {raised : Raised} (h : change.prepare W disk = .error raised) :
    ∃ fault, raised = .other fault := by
  cases change with
  | change mutator => cases h
  | replace document =>
    simp only [Change.prepare, bind_eq_error, raising_eq_ok] at h
    obtain h | ⟨u, -, h | ⟨current, -, h | ⟨sealed, -, h⟩⟩⟩ := h
    · exact raising_eq_error h
    · exact raising_eq_error h
    · exact raising_eq_error h
    · cases h
  | env changes =>
    simp only [Change.prepare, bind_eq_error, raising_eq_ok] at h
    obtain h | ⟨u, -, h | ⟨u', -, h⟩⟩ := h
    · exact raising_eq_error h
    · exact raising_eq_error h
    · cases h

theorem exists_mutator_of_body {body : Disk → Except Raised (Option (Document ν) × Disk)}
    {opName : String} {report : FleetResult} {cause : Fault}
    (hprepare : change.prepare W disk = .ok body)
    (hbody : body disk = .error (.fleetBroadcast opName report cause)) :
    ∃ mutator current, change = .change mutator ∧ loadOrEmpty W disk.manifest = .ok current ∧
      mutator current = .error (.fleetBroadcast opName report cause) := by
  have hother : ∀ {α : Type} {x : Except Fault α},
      raising x ≠ .error (.fleetBroadcast opName report cause) := by
    intro α x hx
    obtain ⟨fault, hfault⟩ := raising_eq_error hx
    cases hfault
  have hdump : ∀ document, dump W document disk ≠ .error (.fleetBroadcast opName report cause) := by
    intro document hx
    simp only [dump, bind_eq_error, raising_eq_ok] at hx
    obtain hx | ⟨defaults, -, hx | ⟨merged, -, hx⟩⟩ := hx
    · exact hother hx
    · exact hother hx
    · cases hx
  cases change with
  | change mutator =>
    obtain rfl := Except.ok.inj hprepare
    simp only [mutateManifest, guarded, bind_eq_error, raising_eq_ok] at hbody
    obtain hx | ⟨current, hcurrent, (hx | ⟨mutated, -, hx | ⟨u, -, hx⟩⟩) | ⟨sealed, -, hx⟩⟩ := hbody
    · exact absurd hx hother
    · exact ⟨mutator, current, rfl, hcurrent, hx⟩
    · exact absurd hx hother
    · exact absurd hx hother
    · exact absurd hx (hdump _)
  | replace document =>
    simp only [Change.prepare, bind_eq_ok, raising_eq_ok, pure_eq_ok] at hprepare
    obtain ⟨u, -, current, -, sealed, -, hreplace⟩ := hprepare
    obtain rfl := Except.ok.inj hreplace
    exact absurd hbody (hdump _)
  | env changes =>
    simp only [Change.prepare, bind_eq_ok, raising_eq_ok, pure_eq_ok] at hprepare
    obtain ⟨u, -, u', -, hwrite⟩ := hprepare
    obtain rfl := Except.ok.inj hwrite
    simp only [writeEnv, bind_eq_error, raising_eq_ok] at hbody
    obtain hx | ⟨existing, -, hx | ⟨names, -, hx⟩⟩ := hbody
    · exact absurd hx hother
    · exact absurd hx hother
    · cases names with
      | nil => cases hx
      | cons name names => cases hx

theorem body_of_mutator {body : Disk → Except Raised (Option (Document ν) × Disk)}
    {mutator : Document ν → Except Raised (Document ν)} {current : Document ν} {raised : Raised}
    (hprepare : (Change.change mutator).prepare W disk = .ok body)
    (hcurrent : loadOrEmpty W disk.manifest = .ok current)
    (hmutated : mutator current = .error raised) : body disk = .error raised := by
  obtain rfl := Except.ok.inj hprepare
  simp only [mutateManifest, hcurrent, raising, ok_bind, guarded, hmutated, error_bind]

/-! ## The contract -/

variable (W change disk) in
/-- A `FleetBroadcastError` tells that the store holds the new document, anything else that is
raised that the store is as it was, and a write that landed has been broadcast. -/
def Contract : Prop :=
  (∀ opName report cause,
    (apply W change { disk }).1 = .error (.fleetBroadcast opName report cause) →
      change.Intended W disk (apply W change { disk }).2.disk) ∧
  (∀ fault, (apply W change { disk }).1 = .error (.other fault) →
    (apply W change { disk }).2.disk = disk) ∧
  ((apply W change { disk }).2.landed = true → (apply W change { disk }).2.broadcast = true)

variable (W change disk disk') in
/-- The file is renamed over the target. -/
def Lands : Prop :=
  ∃ body document, change.prepare W disk = .ok body ∧ W.lockFault = none ∧
    body disk = .ok (document, disk') ∧ W.writeFault = none

variable (W disk disk') in
/-- The reload and the broadcast are not cancelled and the log does not raise; after the broadcast
this matters only for a change that changes something. -/
def Propagates : Prop :=
  (∀ name, W.reloadConfig ≠ .error (.base name)) ∧
    match W.publish (localResult W.reloadConfig) with
    | .error (.base _) => disk' = disk
    | .error (.exception ..) => True
    | .ok report => logNonConvergence W report = .ok () ∨ disk' = disk

omit [PyNumber ν] in
/-- The tail keeps the store. -/
theorem reloadAndBroadcast_disk (document : Option (Document ν)) (t : Trace) :
    (reloadAndBroadcast W document t).2.disk = t.disk ∧
      (reloadAndBroadcast W document t).2.landed = t.landed := by
  unfold reloadAndBroadcast
  split
  · exact ⟨rfl, rfl⟩
  · dsimp only
    split
    · exact ⟨rfl, rfl⟩
    · exact ⟨rfl, rfl⟩
    · split
      · exact ⟨rfl, rfl⟩
      · split
        · exact ⟨rfl, rfl⟩
        · exact ⟨rfl, rfl⟩

omit [PyNumber ν] in
theorem propagates_iff (document : Option (Document ν)) (ht : t.broadcast = false) :
    ((∀ fault, (reloadAndBroadcast W document t).1 = .error (.other fault) → disk' = disk) ∧
      (reloadAndBroadcast W document t).2.broadcast = true) ↔ Propagates W disk disk' := by
  unfold reloadAndBroadcast Propagates
  split
  next name hreload => simp [ht, hreload]
  next reload hbase =>
    have hnever : ∀ name, W.reloadConfig ≠ .error (.base name) := fun name h => hbase name h
    dsimp only
    split
    next name hpublish => simp [hnever, hpublish]
    next fault hne hpublish =>
      cases fault with
      | base name => exact absurd rfl (hne name)
      | exception name text => simp [hnever, hpublish]
    next report hpublish =>
      split
      next fault hlog => simp [hnever, hpublish, hlog]
      next u hlog =>
        split
        · simp [hnever, hpublish, hlog]
        · simp [hnever, hpublish, hlog]

/-- A call that leaves the store and raises something else keeps to the contract. -/
theorem contract_of_unwritten {raised : Raised} {fault : Fault} (hraised : raised = .other fault)
    (happly : apply W change { disk } = (.error raised, { disk })) : Contract W change disk := by
  subst hraised
  unfold Contract
  rw [happly]
  refine ⟨fun opName report cause h => ?_, fun _ _ => rfl, fun h => ?_⟩
  · cases h
  · cases h

variable {body : Disk → Except Raised (Option (Document ν) × Disk)}

/-- What a call comes to whose file has been renamed. -/
theorem apply_of_landed {document : Option (Document ν)}
    (hprepare : change.prepare W disk = .ok body)
    (hlock : W.lockFault = none) (hbody : body disk = .ok (document, disk'))
    (hwrite : W.writeFault = none) :
    apply W change { disk } = match W.unlockFault, W.syncFault with
      | some fault, _ => (.error (.other fault), { disk := disk', landed := true })
      | none, some fault => (.error (.other fault), { disk := disk', landed := true })
      | none, none => reloadAndBroadcast W document { disk := disk', landed := true } := by
  simp only [apply, hprepare, transaction, hlock, hbody, atomicWrite, hwrite]
  cases W.syncFault with
  | none =>
    cases W.unlockFault with
    | none => rfl
    | some fault => rfl
  | some fault =>
    cases W.unlockFault with
    | none => rfl
    | some fault => rfl

/-- A landed write keeps to the contract just when nothing goes wrong before the broadcast, and
after it nothing but what becomes a `FleetBroadcastError`. -/
theorem contract_of_landed {document : Option (Document ν)}
    (hprepare : change.prepare W disk = .ok body) (hlock : W.lockFault = none)
    (hbody : body disk = .ok (document, disk')) (hwrite : W.writeFault = none) :
    Contract W change disk ↔
      W.syncFault = none ∧ W.unlockFault = none ∧ Propagates W disk disk' := by
  have hintended : change.Intended W disk disk' := intended_of_body hprepare hbody
  have happly := apply_of_landed hprepare hlock hbody hwrite
  unfold Contract
  rw [happly]
  cases W.unlockFault with
  | some fault => simp
  | none =>
    cases W.syncFault with
    | some fault => simp
    | none =>
      obtain ⟨hdisk, hlanded⟩ := reloadAndBroadcast_disk (W := W) document
        { disk := disk', landed := true }
      simp only [hdisk, hlanded, true_and, forall_const]
      rw [← propagates_iff (t := { disk := disk', landed := true }) document rfl]
      exact ⟨fun h => h.2, fun h => ⟨fun _ _ _ _ => hintended, h⟩⟩

/-- A call tells the truth about the store just when its mutator raises no `FleetBroadcastError`,
and, once the file is renamed, neither the sync nor the close of the lock fails, the reload and the
broadcast are not cancelled, and the log does not raise. -/
theorem contract_iff (W : Outside ν ρ) (change : Change ν) (disk : Disk) :
    Contract W change disk ↔
      (∀ mutator current opName report cause, change = .change mutator →
        loadOrEmpty W disk.manifest = .ok current →
        mutator current = .error (.fleetBroadcast opName report cause) →
        W.lockFault ≠ none ∨ W.unlockFault ≠ none) ∧
      ∀ disk', Lands W change disk disk' →
        W.syncFault = none ∧ W.unlockFault = none ∧ Propagates W disk disk' := by
  cases hprepare : change.prepare W disk with
  | error raised =>
    obtain ⟨fault, hfault⟩ := other_of_prepare hprepare
    have hcontract : Contract W change disk :=
      contract_of_unwritten hfault (by simp only [apply, hprepare])
    refine iff_of_true hcontract ⟨?_, ?_⟩
    · rintro mutator current opName report cause rfl
      cases hprepare
    · rintro disk' ⟨body, document, hbody, -⟩
      rw [hprepare] at hbody
      cases hbody
  | ok body =>
    cases hlock : W.lockFault with
    | some fault =>
      have hcontract : Contract W change disk :=
        contract_of_unwritten (Eq.refl (Raised.other fault))
          (by simp only [apply, hprepare, transaction, hlock])
      refine iff_of_true hcontract ⟨fun _ _ _ _ _ _ _ _ => .inl (by simp), ?_⟩
      rintro disk' ⟨body', document, -, hunlocked, -⟩
      rw [hlock] at hunlocked
      cases hunlocked
    | none =>
      have hlands : ∀ disk', Lands W change disk disk' ↔
          ∃ document, body disk = .ok (document, disk') ∧ W.writeFault = none := by
        intro disk'
        simp [Lands, hprepare, hlock]
      cases hbody : body disk with
      | error raised =>
        have hnever : ∀ disk', ¬ Lands W change disk disk' := by
          intro disk' hlanded
          obtain ⟨document, hsame, -⟩ := (hlands disk').mp hlanded
          rw [hbody] at hsame
          cases hsame
        cases hunlock : W.unlockFault with
        | some fault =>
          have hcontract : Contract W change disk :=
            contract_of_unwritten (Eq.refl (Raised.other fault))
              (by simp only [apply, hprepare, transaction, hlock, hbody, hunlock])
          exact iff_of_true hcontract ⟨fun _ _ _ _ _ _ _ _ => .inr (by simp),
            fun disk' hlanded => absurd hlanded (hnever disk')⟩
        | none =>
          have happly : apply W change { disk } = (.error raised, { disk }) := by
            simp only [apply, hprepare, transaction, hlock, hbody, hunlock]
          cases raised with
          | other fault =>
            refine iff_of_true (contract_of_unwritten rfl happly)
              ⟨?_, fun disk' hlanded => absurd hlanded (hnever disk')⟩
            rintro mutator current opName report cause rfl hcurrent hmutated
            rw [body_of_mutator hprepare hcurrent hmutated] at hbody
            cases hbody
          | fleetBroadcast opName report cause =>
            obtain ⟨mutator, current, rfl, hcurrent, hmutated⟩ :=
              exists_mutator_of_body hprepare hbody
            refine iff_of_false (fun hcontract => ?_) (fun h => ?_)
            · obtain ⟨current', mutated, hcurrent', hmutated', -⟩ :=
                hcontract.1 opName report cause (by rw [happly])
              rw [hcurrent] at hcurrent'
              obtain rfl := Except.ok.inj hcurrent'
              rw [hmutated] at hmutated'
              cases hmutated'
            · rcases h.1 mutator current opName report cause rfl hcurrent hmutated with h | h
              · exact h rfl
              · exact h rfl
      | ok result =>
        obtain ⟨document, disk'⟩ := result
        have hmutator : ∀ mutator current opName report cause, change = .change mutator →
            loadOrEmpty W disk.manifest = .ok current →
            mutator current ≠ .error (.fleetBroadcast opName report cause) := by
          rintro mutator current opName report cause rfl hcurrent hmutated
          obtain ⟨current', mutated, hcurrent', hmutated', -⟩ := intended_of_body hprepare hbody
          rw [hcurrent] at hcurrent'
          obtain rfl := Except.ok.inj hcurrent'
          rw [hmutated] at hmutated'
          cases hmutated'
        cases hwrite : W.writeFault with
        | some fault =>
          have hcontract : Contract W change disk := by
            cases hunlock : W.unlockFault with
            | some fault' =>
              exact contract_of_unwritten (Eq.refl (Raised.other fault'))
                (by simp only [apply, hprepare, transaction, hlock, hbody, atomicWrite, hwrite,
                  hunlock])
            | none =>
              exact contract_of_unwritten (Eq.refl (Raised.other fault))
                (by simp only [apply, hprepare, transaction, hlock, hbody, atomicWrite, hwrite,
                  hunlock])
          refine iff_of_true hcontract ⟨fun mutator current opName report cause hchange hcurrent
            hmutated => absurd hmutated (hmutator _ _ _ _ _ hchange hcurrent), fun disk'' hlanded =>
            ?_⟩
          obtain ⟨-, -, hunwritten⟩ := (hlands disk'').mp hlanded
          rw [hwrite] at hunwritten
          cases hunwritten
        | none =>
          rw [contract_of_landed hprepare hlock hbody hwrite]
          constructor
          · intro h
            refine ⟨fun mutator current opName report cause hchange hcurrent hmutated =>
              absurd hmutated (hmutator _ _ _ _ _ hchange hcurrent), fun disk'' hlanded => ?_⟩
            obtain ⟨document', hsame, -⟩ := (hlands disk'').mp hlanded
            rw [hbody] at hsame
            obtain ⟨-, rfl⟩ := Prod.mk.inj (Except.ok.inj hsame)
            exact h
          · intro h
            exact h.2 disk' ((hlands disk').mpr ⟨document, hbody, hwrite⟩)

/-! ## A cancelled reload -/

/-- The lines of the env file that a deployment without files writes for one override. -/
def oneOverride : String := "LOG_LEVEL=\"debug\"\n"

/-- A deployment with no files and no bus, where the call is cancelled while it reloads. -/
def cancelledReload : Outside ℤ Unit where
  loadYamlPreserved _ := .ok []
  mergeAndDumpManifest defaults document := .ok ("\x7b\x7d\n", updated defaults document)
  dotenvValues text :=
    if text = oneOverride then .ok [("LOG_LEVEL", some "debug")]
    else if text = oneOverride ++ "_TAI_ENV_ROUNDTRIP_PROBE=\"0\"\n" then
      .ok [("LOG_LEVEL", some "debug"), ("_TAI_ENV_ROUNDTRIP_PROBE", some "0")]
    else .ok []
  resolve _ document := .ok document
  modelValidate _ := .ok none
  environ := []
  busEnabled := false
  strip := id
  defaultsManifest := none
  lockFault := none
  writeFault := none
  syncFault := none
  unlockFault := none
  reloadConfig := .error (.base "CancelledError")
  publish _ := .ok { op := "reload_config", localOnly := true }
  logFault := none

/-- The override is in the store, the call raises a cancellation, and nothing is broadcast. -/
theorem cancelled_after_write :
    ¬ Contract cancelledReload (.env [("LOG_LEVEL", "debug")]) ⟨none, none⟩ := by
  intro h
  have hlanded : (apply cancelledReload (.env [("LOG_LEVEL", "debug")])
      { disk := ⟨none, none⟩ }).2.landed = true := by decide +kernel
  have hbroadcast := h.2.2 hlanded
  revert hbroadcast
  decide +kernel

end TaiSkeleton.Config.Service
