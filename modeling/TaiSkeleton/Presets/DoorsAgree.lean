import Mathlib.Algebra.GroupWithZero.Nat
import TaiSkeleton.Presets.DoorsInvariant

/-!
# The store and the live presets

The store and the live presets agree once no call is under way, as long as each step that binds,
tears down or takes back something without reading the store leaves the name as the store has it, or
leaves it to another call that still has a step to take there.
-/

namespace TaiSkeleton.Presets

open Lib Tools Versioning

variable {ι ε υ : Type}

namespace World

variable {s : World ι ε υ} {call : ι} {old stage : Stage ε υ} {name : String} [DecidableEq ι]

/-! ## Writes -/

theorem Inv.create {body : PresetBody ε υ} (h : s.Inv)
    (hwas : s.calls call = .creating name body) :
    ((s.put name (some (.create "preset" name body))).goto call (.registering name body)).Inv := by
  have hin : s.quarantined name = false := h.out call (by rw [hwas]; rfl)
  refine h.put hwas ?_ (fun _ => ⟨id, id⟩) nofun (fun _ heq => heq ▸ hin) nofun
    (fun _ _ => ⟨id, id⟩) fun _ => .inl rfl
  rintro _ ⟨⟩
  exact ⟨Document.create_wellFormed, hin⟩

theorem Inv.register {body : PresetBody ε υ} (h : s.Inv)
    (hwas : s.calls call = .registering name body) (hlock : s.lock name = none)
    (hsettled : s.Settled call name (s.active name) (some body)) :
    ((s.bind name (some body)).goto call .over).Inv := by
  have hin : s.quarantined name = false := h.out call (by rw [hwas]; rfl)
  have hlive : (s.bind name (some body)).live name = some body := by rw [bind_live, if_pos rfl]
  exact h.bind hwas hlock hin (fun _ => ⟨id, id⟩) nofun nofun nofun
    (fun _ hne => ⟨fun heq => hne heq.symm, id⟩) (hsettled.kept hlive rfl)

theorem Inv.unregister {body : PresetBody ε υ} (h : s.Inv)
    (hwas : s.calls call = .registering name body) : (s.goto call (.undoing name)).Inv := by
  have hin : s.quarantined name = false := h.out call (by rw [hwas]; rfl)
  refine h.act hwas rfl rfl rfl h.saved (fun _ => ⟨id, id⟩) h.wellFormed nofun (fun _ => .inl rfl)
    (fun _ heq => heq ▸ hin) (fun _ _ => ⟨id, nofun⟩) fun other hother => ?_
  by_cases heq : name = other
  · exact .inl heq
  · exact .frame hother rfl rfl heq id

theorem Inv.undo (h : s.Inv) (hwas : s.calls call = .undoing name)
    (hsettled : s.Settled call name none (s.live name)) :
    ((s.put name none).goto call .over).Inv := by
  have hactive : (s.put name none).active name = none := by rw [put_active, if_pos rfl]; rfl
  exact h.put hwas nofun (fun _ => ⟨id, id⟩) nofun nofun nofun
    (fun _ hne => ⟨fun heq => hne heq.symm, id⟩) fun _ => hsettled.kept rfl hactive

/-- A write that a reload follows. -/
theorem Inv.write {doc : Document (PresetBody ε υ)} {prior : ℕ} (h : s.Inv)
    (hwas : s.calls call = old) (hcalm : Calm old) (hdoc : doc.WellFormed)
    (hin : s.quarantined name = false) :
    ((s.put name (some doc)).goto call (.reloading (.repoint name prior))).Inv := by
  refine h.put hwas ?_ (fun other => ⟨(hcalm other).2.2, id⟩) nofun ?_ nofun
    (fun other _ => ⟨(hcalm other).1, (hcalm other).2.1⟩) fun _ => .inl (List.mem_singleton.mpr rfl)
  · rintro _ ⟨⟩
    exact ⟨hdoc, hin⟩
  · intro other hother
    rwa [List.mem_singleton.mp hother]

theorem Inv.rename {newName : String} {doc : Document (PresetBody ε υ)} (h : s.Inv)
    (hwas : s.calls call = .moving name newName) (hdoc : s.store name = some doc) :
    ((s.move name newName doc).goto call (.reloading (.renameBack name newName))).Inv := by
  have hin : ∀ other ∈ [name, newName], s.quarantined other = false := by
    intro other hother
    refine h.out call ?_
    rw [hwas]
    simpa [Stage.touches, eq_comm] using hother
  refine h.act hwas rfl rfl rfl h.saved (fun _ => ⟨id, id⟩) (h.move_wellFormed hdoc) ?_
    (fun _ => .inl rfl) hin (fun other hother => ⟨fun hnone => ?_, by rintro ⟨⟩⟩) fun other hother => ?_
  · rintro _ _ ⟨⟩
    exact h.moves call name newName (by rw [hwas]; exact ⟨rfl, rfl⟩)
  · have hnot : other ∉ [name, newName] := fun hmem =>
      Bool.false_ne_true ((hin other hmem).symm.trans hother)
    simp only [List.mem_cons, List.not_mem_nil, or_false, not_or] at hnot
    rwa [move_store hnot.1 hnot.2]
  · by_cases hmem : other ∈ [name, newName]
    · exact .inl hmem
    · simp only [List.mem_cons, List.not_mem_nil, or_false, not_or] at hmem
      exact .frame hother rfl (by rw [active, move_store hmem.1 hmem.2]; rfl) id id

/-! ## Reloads -/

/-- The reload takes the lock, and what was live is torn down. -/
theorem Inv.tear {compensation : Compensation} (h : s.Inv)
    (hwas : s.calls call = .reloading compensation) (hlock : s.lock compensation.target = none) :
    (((s.bind compensation.target none).hold compensation.target (some call)).goto call
      (.reading compensation (s.live compensation.target))).Inv := by
  have hnot : ∀ other, s.lock other ≠ some call := by
    intro other hother
    have := (h.locked other call).mp hother
    rw [hwas] at this
    exact this
  have hlive : ∀ other, other ≠ compensation.target →
      (s.bind compensation.target none).live other = s.live other := by
    intro other hne
    rw [bind_live, if_neg hne]
  refine h.advance
    { was := hwas
      calls := rfl
      quarantine := fun _ hname => hname
      wellFormed := h.wellFormed
      lock := fun other holder hholder => ?_
      holds := fun other => ?_
      torn := fun other holder hother => ?_
      moves := fun other newName hmoves => h.moves call other newName (by rw [hwas]; exact hmoves)
      aside := fun other hother => ⟨?_, fun htouches => ?_⟩
      dropped := fun _ _ => ⟨id, nofun⟩
      kept := fun other hother => ?_
      bound := nofun
      saved := h.saved }
  · rw [hold_lock]
    split_ifs with heq
    · subst heq
      rw [hlock]
      exact iff_of_false (fun hsome => hholder (Option.some.inj hsome).symm) nofun
    · rfl
  · rw [hold_lock]
    split_ifs with heq
    · exact iff_of_true rfl heq.symm
    · exact iff_of_false (hnot other) (Ne.symm heq)
  · rw [hold_lock] at hother
    show (s.bind _ _).live other = none
    rw [bind_live]
    split_ifs with heq
    · rfl
    · rw [if_neg heq] at hother
      exact h.torn other holder hother
  · show (s.bind _ _).live other = none
    rw [bind_live]
    split_ifs
    · rfl
    · exact (h.aside other hother).1
  · exact (h.aside other hother).2 call (by rw [hwas]; exact htouches)
  · by_cases hmem : other ∈ compensation.names
    · exact .inl hmem
    · exact .frame hother (hlive other fun heq => hmem (heq ▸ target_mem_names _)) rfl hmem id

/-- What the reload has read is the active body. -/
theorem Inv.read {compensation : Compensation} {captured : Option (PresetBody ε υ)}
    {body : PresetBody ε υ} (h : s.Inv) (hwas : s.calls call = .reading compensation captured)
    (hbody : s.active compensation.target = some body) :
    (s.goto call (.binding compensation captured body)).Inv := by
  have hholds : ∀ other, s.lock other = some call ↔ compensation.target = other := by
    intro other
    rw [h.locked, hwas]
    rfl
  refine h.advance
    { was := hwas
      calls := rfl
      quarantine := fun _ hname => hname
      wellFormed := h.wellFormed
      lock := fun _ _ _ => Iff.rfl
      holds := hholds
      torn := h.torn
      moves := fun other newName hmoves => h.moves call other newName (by rw [hwas]; exact hmoves)
      aside := fun other hother => ⟨(h.aside other hother).1, fun htouches =>
        (h.aside other hother).2 call (by rw [hwas]; exact htouches)⟩
      dropped := fun _ _ => ⟨id, nofun⟩
      kept := fun other hother => ?_
      bound := ?_
      saved := h.saved }
  · by_cases htarget : compensation.target = other
    · exact .inr (.inr (.inl ⟨.inr ((hholds other).mpr htarget), .inr htarget⟩))
    · cases compensation with
      | repoint name prior =>
        exact .frame hother rfl rfl (fun hmem => htarget (List.mem_singleton.mp hmem).symm) id
      | renameBack name newName =>
        by_cases hname : name = other
        · exact .inl hname
        · refine .frame hother rfl rfl (fun hmem => ?_) id
          obtain heq | heq := List.mem_pair.mp hmem
          · exact hname heq.symm
          · exact htarget heq.symm
  · rintro _ _ _ ⟨⟩
    exact hbody

/-- The reload binds and lets go of the lock. -/
theorem Inv.release {body : Option (PresetBody ε υ)} (h : s.Inv) (hwas : s.calls call = old)
    (hheld : ∀ other, old.holds other ↔ name = other) (hfree : ∀ other, ¬stage.holds other)
    (hmoves : ∀ name newName, stage.moves name newName → old.moves name newName)
    (hout : ∀ other, stage.touches other → old.touches other)
    (hin : s.quarantined name = false) (hdropping : ∀ other, stage ≠ .dropping other)
    (hothers : ∀ other, other ≠ name →
      stage.opensOn other ∨ ¬old.opensOn other ∧ ¬old.bindsOn other)
    (hname : Kept s ((s.bind name body).hold name none) call old stage name) :
    (((s.bind name body).hold name none).goto call stage).Inv := by
  have hholds : ∀ other, s.lock other = some call ↔ name = other := by
    intro other
    rw [h.locked, hwas, hheld]
  have hlive : ∀ other, other ≠ name → (s.bind name body).live other = s.live other := by
    intro other hne
    rw [bind_live, if_neg hne]
  refine h.advance
    { was := hwas
      calls := rfl
      quarantine := fun _ hname => hname
      wellFormed := h.wellFormed
      lock := fun other holder hholder => ?_
      holds := fun other => ?_
      torn := fun other holder hother => ?_
      moves := fun other newName hother =>
        h.moves call other newName (by rw [hwas]; exact hmoves other newName hother)
      aside := fun other hother => ⟨?_, fun htouches =>
        (h.aside other hother).2 call (by rw [hwas]; exact hout other htouches)⟩
      dropped := fun _ _ => ⟨id, fun heq => absurd heq (hdropping _)⟩
      kept := fun other hother => ?_
      bound := fun compensation captured body heq => ?_
      saved := h.saved }
  · rw [hold_lock]
    split_ifs with heq
    · subst heq
      rw [(hholds other).mpr rfl]
      exact iff_of_false nofun fun hsome => hholder (Option.some.inj hsome).symm
    · rfl
  · rw [hold_lock]
    split_ifs with heq
    · exact iff_of_false nofun (hfree other)
    · exact (hholds other).trans (iff_of_false (Ne.symm heq) (hfree other))
  · rw [hold_lock] at hother
    split_ifs at hother with heq
    exact (hlive other heq).trans (h.torn other holder hother)
  · have hne : other ≠ name := by
      rintro rfl
      exact Bool.false_ne_true (hin.symm.trans hother)
    exact (hlive other hne).trans (h.aside other hother).1
  · by_cases heq : other = name
    · subst heq
      exact hname
    · obtain hopens | hnot := hothers other heq
      · exact .inl hopens
      · exact .frame hother (hlive other heq) rfl hnot.1 hnot.2
  · subst heq
    exact absurd rfl (hfree compensation.target)

/-- The reload has failed. -/
theorem Inv.fail {compensation : Compensation} {body : Option (PresetBody ε υ)} (h : s.Inv)
    (hwas : s.calls call = old) (hheld : ∀ other, old.holds other ↔ compensation.target = other)
    (hmoves : ∀ name newName, compensation = .renameBack name newName → old.moves name newName)
    (htouches : ∀ other ∈ compensation.names, old.touches other)
    (hnames : ∀ other, old.opensOn other ∨ old.bindsOn other → other ∈ compensation.names) :
    (((s.bind compensation.target body).hold compensation.target none).goto call
      (.compensating compensation)).Inv := by
  refine h.release hwas hheld (fun _ => id) hmoves htouches (h.out call ?_) nofun
    (fun other _ => ?_) (.inl (target_mem_names compensation))
  · rw [hwas]
    exact htouches _ (target_mem_names compensation)
  · by_cases hmem : other ∈ compensation.names
    · exact .inl hmem
    · exact .inr ⟨fun hopens => hmem (hnames other (.inl hopens)),
        fun hbinds => hmem (hnames other (.inr hbinds))⟩

theorem Inv.bind_target {compensation : Compensation} {captured : Option (PresetBody ε υ)}
    {body : PresetBody ε υ} (h : s.Inv)
    (hwas : s.calls call = .binding compensation captured body) :
    (((s.bind compensation.target (some body)).hold compensation.target none).afterReload call
      compensation).Inv := by
  have hin : ∀ other ∈ compensation.names, s.quarantined other = false := fun other hother =>
    h.out call (by rw [hwas]; exact hother)
  cases compensation with
  | repoint name prior =>
    exact h.release hwas (fun _ => Iff.rfl) (fun _ => id) nofun nofun
      (hin name (List.mem_singleton.mpr rfl)) nofun
      (fun other hne => .inr ⟨id, fun heq => hne heq.symm⟩) (h.bound_kept hwas)
  | renameBack name newName =>
    refine h.release hwas (fun _ => Iff.rfl) (fun _ => id) nofun
      (fun other heq => List.mem_pair.mpr (.inl heq.symm))
      (hin newName (List.mem_pair.mpr (.inr rfl))) nofun (fun other hne => ?_) (h.bound_kept hwas)
    by_cases hname : name = other
    · exact .inl hname
    · exact .inr ⟨hname, fun heq => hne heq.symm⟩

/-! ## Compensations and deletions -/

theorem Inv.compensate {compensation : Compensation} (h : s.Inv)
    (hwas : s.calls call = .compensating compensation)
    (hsettled : ∀ name ∈ compensation.names,
      s.Settled call name ((s.compensate compensation).active name) (s.live name)) :
    ((s.compensate compensation).goto call .over).Inv := by
  have hin : ∀ other ∈ compensation.names, s.quarantined other = false := fun other hother =>
    h.out call (by rw [hwas]; exact hother)
  have heq := compensate_eq s compensation
  have hlive : (s.compensate compensation).live = s.live := by rw [heq]
  refine h.act hwas (by rw [heq]) (by rw [heq]) (by rw [heq]) ?_
    (fun _ => ⟨id, id⟩) h.compensate_wellFormed nofun (fun _ => .inl (by rw [hlive])) nofun
    (fun other hother => ⟨fun hnone => ?_, nofun⟩) (fun other hother => ?_)
  · rw [heq]
    exact h.saved
  · have hnot : other ∉ compensation.names := fun hmem =>
      Bool.false_ne_true ((hin other hmem).symm.trans hother)
    rwa [compensate_store hnot]
  · by_cases hmem : other ∈ compensation.names
    · exact (hsettled other hmem).kept (by rw [hlive]) rfl
    · refine .frame hother (by rw [hlive]) ?_ hmem id
      rw [active, compensate_store hmem]
      rfl

theorem Inv.remove (h : s.Inv) (hwas : s.calls call = .removing name) (hlock : s.lock name = none)
    (hsettled : s.Settled call name (s.active name) none) :
    ((s.bind name none).goto call .over).Inv := by
  have hin : s.quarantined name = false := h.out call (by rw [hwas]; rfl)
  have hlive : (s.bind name none).live name = none := by rw [bind_live, if_pos rfl]
  exact h.bind hwas hlock hin (fun _ => ⟨id, id⟩) nofun nofun nofun
    (fun _ hne => ⟨fun heq => hne heq.symm, id⟩) (hsettled.kept hlive rfl)

theorem Inv.hardDelete (h : s.Inv) (hwas : s.calls call = .hardDeleting name)
    (hsettled : s.quarantined name = true ∨ s.Settled call name none (s.live name)) :
    ((s.put name none).goto call (.dropping name)).Inv := by
  have hactive : (s.put name none).active name = none := by rw [put_active, if_pos rfl]; rfl
  refine h.put hwas nofun (fun _ => ⟨id, id⟩) nofun nofun ?_ (fun _ _ => ⟨id, id⟩) fun hout => ?_
  · rintro _ ⟨⟩
    exact ⟨rfl, rfl⟩
  · obtain hin | hsettled := hsettled
    · exact absurd (hout.symm.trans hin) Bool.false_ne_true
    · exact hsettled.kept rfl hactive

/-- A name that is let out of quarantine has neither a document nor a live preset. -/
theorem Inv.drop (h : s.Inv) (hwas : s.calls call = .dropping name) :
    (World.goto call .over
      { s with quarantined := Function.update s.quarantined name false }).Inv := by
  have hstill : ∀ other, Function.update s.quarantined name false other = true →
      s.quarantined other = true := by
    intro other hother
    rw [Function.update_apply] at hother
    split_ifs at hother
    exact hother
  refine h.advance
    { was := hwas
      calls := rfl
      quarantine := hstill
      wellFormed := h.wellFormed
      lock := fun _ _ _ => Iff.rfl
      holds := fun other => (h.locked other call).trans (by rw [hwas]; rfl)
      torn := h.torn
      moves := nofun
      aside := fun other hother => ⟨(h.aside other (hstill other hother)).1, id⟩
      dropped := fun _ _ => ⟨id, nofun⟩
      kept := fun other hother => ?_
      bound := nofun
      saved := h.saved }
  by_cases hout : s.quarantined other = false
  · exact .frame hout rfl rfl id id
  · have hname : other = name := by
      by_contra hne
      exact hout ((Function.update_of_ne hne false s.quarantined).symm.trans hother)
    subst hname
    have hin := (Bool.not_eq_false _).mp hout
    obtain ⟨hlive, htouches⟩ := h.aside other hin
    have hlock : s.lock other = none := by
      refine Option.eq_none_iff_forall_ne_some.mpr fun holder hholder => ?_
      exact htouches holder (holds_touches ((h.locked other holder).mp hholder))
    have hactive : s.active other = none := by
      rw [active, h.dropped other call hwas hin]
      rfl
    exact .inr (.inr (.inl ⟨.inl hlock, .inl (hlive.trans hactive.symm)⟩))

/-! ## Runs -/

/-- A call that has nothing to do on any name gives up. -/
theorem Inv.giveUp (h : s.Inv) (hcalm : Calm (s.calls call)) : (s.goto call .over).Inv :=
  h.calm hcalm (fun _ => ⟨id, id, id⟩) nofun nofun nofun

theorem Inv.step {fails : Bool} {s' : World ι ε υ} (h : s.Inv)
    (hok : s.Settles (.step call fails)) (hstep : s.step call fails = some s') : s'.Inv := by
  cases hwas : s.calls call with
  | idle =>
    simp only [World.step, hwas] at hstep
    cases hstep
  | «over» =>
    simp only [World.step, hwas] at hstep
    cases hstep
  | creating name body =>
    simp only [World.step, hwas] at hstep
    split_ifs at hstep <;> cases hstep
    · exact h.giveUp (calm_of_eq hwas fun _ => ⟨id, id, id⟩)
    · exact h.create hwas
  | registering name body =>
    simp only [World.step, hwas] at hstep
    split_ifs at hstep with hlock hcheck <;> cases hstep
    · exact h.unregister hwas
    · obtain ⟨hfails, hlive⟩ := not_or.mp hcheck
      rw [(Bool.not_eq_true fails).mp hfails] at hok
      simp only [Settles, hwas] at hok
      exact h.register hwas (Option.not_isSome_iff_eq_none.mp hlock)
        (hok (Option.not_isSome_iff_eq_none.mp hlive))
  | undoing name =>
    simp only [World.step, hwas] at hstep
    split_ifs at hstep with hfails
    cases hstep
    rw [(Bool.not_eq_true fails).mp hfails] at hok
    simp only [Settles, hwas] at hok
    exact h.undo hwas hok
  | saving name edit prior =>
    have hcalm : Calm (s.calls call) := calm_of_eq hwas fun _ => ⟨id, id, id⟩
    have hin : s.quarantined name = false := h.out call (by rw [hwas]; rfl)
    simp only [World.step, hwas] at hstep
    split at hstep <;> cases hstep
    · exact h.calm hcalm (fun _ => ⟨id, id, id⟩) (by rintro _ _ ⟨⟩) (fun _ heq => heq ▸ hin)
        (by rintro _ ⟨⟩)
    · exact h.giveUp hcalm
  | validated name edit prior body =>
    have hcalm : Calm (s.calls call) := calm_of_eq hwas fun _ => ⟨id, id, id⟩
    have hin : s.quarantined name = false := h.out call (by rw [hwas]; rfl)
    simp only [World.step, hwas] at hstep
    split at hstep <;> cases hstep
    · next doc active hdoc hactive =>
      simp only [Settles, hwas] at hok
      obtain rfl := hok active hactive
      exact (h.save (edit.apply active)).write hwas (fun _ => ⟨id, id, id⟩)
        (h.wellFormed name doc hdoc).saveVersion hin
    · exact h.giveUp hcalm
  | rollingBack name version prior =>
    have hcalm : Calm (s.calls call) := calm_of_eq hwas fun _ => ⟨id, id, id⟩
    have hin : s.quarantined name = false := h.out call (by rw [hwas]; rfl)
    simp only [World.step, hwas] at hstep
    split at hstep
    · next doc hdoc =>
      split_ifs at hstep with hcheck <;> cases hstep
      · exact h.giveUp hcalm
      · have hsome : (doc.bodyAt version).isSome := Option.isSome_iff_ne_none.mpr fun hnone =>
          hcheck (.inr (Option.isNone_iff_eq_none.mpr hnone))
        obtain ⟨body, hbody⟩ := Option.isSome_iff_exists.mp hsome
        exact h.write hwas (fun _ => ⟨id, id, id⟩)
          ((h.wellFormed name doc hdoc).point (Document.mem_numbers_of_bodyAt hbody)) hin
    · cases hstep
      exact h.giveUp hcalm
  | naming name newName =>
    have hcalm : Calm (s.calls call) := calm_of_eq hwas fun _ => ⟨id, id, id⟩
    have hin : s.quarantined name = false := h.out call (by rw [hwas]; rfl)
    simp only [World.step, hwas] at hstep
    split_ifs at hstep with hcheck <;> cases hstep
    · exact h.giveUp hcalm
    · have hnew := (Bool.not_eq_true _).mp (not_or.mp (not_or.mp hcheck).2).1
      refine h.calm hcalm (fun _ => ⟨id, id, id⟩) (fun other other' heq => ?_) ?_
        (by rintro _ ⟨⟩)
      · exact h.moves call other other' (by rw [hwas]; exact heq)
      · rintro _ (rfl | rfl)
        · exact hin
        · exact hnew
  | moving name newName =>
    have hcalm : Calm (s.calls call) := calm_of_eq hwas fun _ => ⟨id, id, id⟩
    simp only [World.step, hwas] at hstep
    split at hstep
    · next doc hdoc _ =>
      split_ifs at hstep <;> cases hstep
      · exact h.giveUp hcalm
      · exact h.rename hwas hdoc
    · cases hstep
      exact h.giveUp hcalm
  | reloading compensation =>
    simp only [World.step, hwas] at hstep
    split_ifs at hstep with hlock
    cases hstep
    exact h.tear hwas (Option.not_isSome_iff_eq_none.mp hlock)
  | reading compensation captured =>
    simp only [World.step, hwas] at hstep
    split at hstep <;> cases hstep
    · next body hbody => exact h.read hwas hbody
    · rw [← bind_self s compensation.target]
      exact h.fail hwas (fun _ => Iff.rfl) (fun _ _ => id) (fun _ => id)
        (fun _ hother => hother.resolve_right id)
  | binding compensation captured body =>
    simp only [World.step, hwas] at hstep
    split_ifs at hstep <;> cases hstep
    · refine h.fail hwas (fun _ => Iff.rfl) (fun _ _ => id) (fun _ => id) fun other hother => ?_
      obtain hopens | rfl := hother
      · cases compensation with
        | repoint name prior => exact hopens.elim
        | renameBack name newName => exact List.mem_pair.mpr (.inl (Eq.symm hopens))
      · exact target_mem_names compensation
    · exact h.bind_target hwas
  | compensating compensation =>
    simp only [World.step, hwas] at hstep
    split_ifs at hstep with hfails
    cases hstep
    rw [(Bool.not_eq_true fails).mp hfails] at hok
    simp only [Settles, hwas] at hok
    exact h.compensate hwas hok
  | removing name =>
    simp only [World.step, hwas] at hstep
    split_ifs at hstep with hcheck
    cases hstep
    obtain ⟨hlock, hfails⟩ := not_or.mp hcheck
    rw [(Bool.not_eq_true fails).mp hfails] at hok
    simp only [Settles, hwas] at hok
    exact h.remove hwas (Option.not_isSome_iff_eq_none.mp hlock) hok
  | hardDeleting name =>
    simp only [World.step, hwas] at hstep
    split_ifs at hstep with hfails <;> cases hstep
    · exact h.giveUp (calm_of_eq hwas fun _ => ⟨id, id, id⟩)
    · rw [(Bool.not_eq_true fails).mp hfails] at hok
      simp only [Settles, hwas] at hok
      exact h.hardDelete hwas hok
  | dropping name =>
    simp only [World.step, hwas] at hstep
    cases hstep
    exact h.drop hwas

theorem Inv.next {a : Act ι ε υ} {s' : World ι ε υ} (h : s.Inv) (hok : s.Settles a)
    (hnext : s.next a = some s') : s'.Inv := by
  cases a with
  | start call request =>
    simp only [World.next] at hnext
    split at hnext <;> cases hnext
    next hidle => exact h.start hidle request
  | refuse call =>
    simp only [World.next] at hnext
    split at hnext <;> cases hnext <;> next hwas =>
      exact h.giveUp (calm_of_eq hwas fun _ => ⟨id, id, id⟩)
  | step call fails => exact h.step hok hnext

theorem Inv.first (h : (doors ι ε υ).init s) : s.Inv := by
  obtain ⟨hidle, hlock, hsaved, hstore, hquarantined, hlive⟩ := h
  have hholder : ∀ name call, s.lock name ≠ some call := by
    intro name call hsome
    rw [hlock] at hsome
    cases hsome
  refine ⟨hstore, fun name call => ?_, fun name call hsome => absurd hsome (hholder name call),
    fun call _ _ hmoves => ?_, fun name hname => ⟨hquarantined name hname, fun call => ?_⟩,
    fun _ call hcall => ?_, fun name hname => .inl (hlive name hname), fun call _ _ _ hcall => ?_,
    fun pair hpair => ?_⟩
  · rw [hidle]
    exact iff_of_false (hholder name call) id
  · rw [hidle] at hmoves
    exact hmoves.elim
  · rw [hidle]
    exact id
  · rw [hidle] at hcall
    cases hcall
  · rw [hidle] at hcall
    cases hcall
  · rw [hsaved] at hpair
    cases hpair

theorem Inv.of_reachable (h : ((doors ι ε υ).when Settles).Reachable s) : s.Inv := by
  refine h.invariant ?_ ?_
  · exact fun _ => Inv.first
  · rintro s a s' hinv ⟨hok, hnext⟩
    exact hinv.next hok hnext

local instance calls_neZero : NeZero 2 := ⟨by decide⟩

/-- A worker without presets. -/
def empty : World (Fin 2) ℕ ℕ where
  store _ := none
  live _ := none

theorem init_empty : (doors (Fin 2) ℕ ℕ).init empty :=
  ⟨fun _ => rfl, fun _ => rfl, rfl, nofun, fun _ _ => rfl, fun _ _ => rfl⟩

/-- The preset that the runs create. -/
def greet : PresetBody ℕ ℕ := { baseTool := "llm", description := "Greets." }

/-- A call creates the preset, and another one saves a version of it and tears down what was live.
-/
def savingActs : List (Act (Fin 2) ℕ ℕ) :=
  [.start 0 (.createPreset "greet" greet), .step 0 false, .step 0 false,
    .start 1 (.saveVersion "greet" { description := some "Greets people." }), .step 1 false,
    .step 1 false, .step 1 false]

/-- What was saved is bound. -/
def boundActs : List (Act (Fin 2) ℕ ℕ) := savingActs ++ [.step 1 false, .step 1 false]

/-- The read of the reload fails, and the compensation succeeds. -/
def unreadActs : List (Act (Fin 2) ℕ ℕ) := savingActs ++ [.step 1 true, .step 1 false]

/-- Two saves of other fields that both carry forward the first version: what the second commits is
neither what it nor what the first has validated. -/
example : (([.start 0 (.createPreset "greet" greet), .step 0 false, .step 0 false,
    .start 1 (.saveVersion "greet" { description := some "Greets people." }), .step 1 false,
    .start 2 (.saveVersion "greet" { outputSchema := some (some 1) }), .step 2 false,
    .step 1 false, .step 2 false] : List (Act (Fin 3) ℕ ℕ)).foldlM World.next
      { store := fun _ => none, live := fun _ => none }).any
      (fun s => decide (∃ pair ∈ s.saved, pair.1 ≠ pair.2)) = true := by
  decide +kernel

end World

end TaiSkeleton.Presets
