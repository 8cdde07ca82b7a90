import TaiSkeleton.Conversations.TokenBucket

/-!
# Dropping idle buckets

A run of the caps beside the same run with every bucket kept. The cache has the bucket of a key,
up to a cooldown that is over; or it has dropped it, and the kept one has been idle for an hour,
is full again at the rate of the moment and owes no silence.
-/

namespace TaiSkeleton.Conversations

open Lib TokenBucket

variable {κ : Type} [DecidableEq κ] {C : TtlCache κ TokenBucket 3600} {caps : AddressCaps C}
  {kept : KeptCaps κ} {now t : ℚ} {key : κ} {settings : BucketSettings}

/-- The kept buckets are at the rate, and hit by now. -/
def KeptCaps.Sound (kept : KeptCaps κ) (now : ℚ) : Prop :=
  kept.perHour ≠ 0 ∧ ∀ key b, kept.buckets key = some b → b.Sound kept.perHour now

/-- What the cache reads for a key beside what is kept for it. -/
inductive Agrees (t : ℚ) : Option TokenBucket → Option TokenBucket → Prop
  | absent : Agrees t none none
  | alike {b b' : TokenBucket} (h : Alike t b b') : Agrees t (some b) (some b')
  | idle {b : TokenBucket} (h : b.updated + 3600 ≤ t) : Agrees t none (some b)

/-- The caps and the kept ones, from now on. -/
structure Sim (caps : AddressCaps C) (kept : KeptCaps κ) (now : ℚ) : Prop where
  perHour : kept.perHour = caps.settings.perAddressTurnsPerHour
  maxsize : C.maxsize caps.buckets = caps.settings.addressBucketMaxEntries
  sound : kept.Sound now
  agrees : ∀ key t, now ≤ t → Agrees t (C.read caps.buckets t key) (kept.buckets key)

theorem KeptCaps.sound_new (settings : BucketSettings) (now : ℚ) :
    (KeptCaps.new settings : KeptCaps κ).Sound now :=
  ⟨Nat.pos_iff_ne_zero.mp settings.turns_pos, fun _ _ hb => by cases hb⟩

theorem sim_new (settings : BucketSettings) (now : ℚ) :
    Sim (AddressCaps.new C settings) (KeptCaps.new settings) now where
  perHour := rfl
  maxsize := C.maxsize_empty _
  sound := KeptCaps.sound_new settings now
  agrees key t _ := by
    unfold AddressCaps.new
    rw [C.read_empty]
    exact .absent

/-! ## A hit -/

theorem refill_new (perHour : ℕ) : (TokenBucket.new perHour t).refill t = .new perHour t := by
  unfold TokenBucket.refill TokenBucket.new
  simp

/-- After an hour without a hit a bucket is full, whatever its rate was in between. -/
theorem alike_of_idle {b : TokenBucket} {perHour : ℕ} (h : b.Sound perHour t)
    (hidle : b.updated + 3600 ≤ t) : Alike t (.new perHour t) (b.refill t) := by
  have hfull : b.level perHour t = perHour := by
    have hrate : (0 : ℚ) ≤ perHour := Nat.cast_nonneg _
    have hrefilled : (perHour : ℚ) ≤ (t - b.updated) * (perHour / 3600) := by
      have hhour : 3600 * ((perHour : ℚ) / 3600) ≤ (t - b.updated) * (perHour / 3600) :=
        mul_le_mul_of_nonneg_right (by linarith) (by positivity)
      rwa [mul_div_cancel₀ _ (by norm_num)] at hhour
    exact min_eq_left (by linarith [h.tokens_nonneg])
  rw [h.refill_eq, hfull]
  refine ⟨?_, ?_⟩
  · unfold TokenBucket.new
    rw [TokenBucket.mk.injEq]
    exact ⟨h.capacity.symm, rfl, h.refillPerSecond.symm, rfl, rfl⟩
  · show (0 : ℚ) = b.cooldownUntil ∨ (0 : ℚ) ≤ t ∧ b.cooldownUntil ≤ t
    rcases h.cooldown with hzero | ⟨hupdated, hcooldown⟩
    · exact .inl hzero.symm
    · exact .inr ⟨by linarith, by linarith⟩

namespace KeptCaps.Sound

theorem later (h : kept.Sound now) (hle : now ≤ t) : kept.Sound t :=
  ⟨h.1, fun key b hb => (h.2 key b hb).later hle⟩

theorem bucketAt (h : kept.Sound t) (key : κ) :
    (kept.bucketAt t key).Sound kept.perHour t ∧ (kept.bucketAt t key).updated = t := by
  unfold KeptCaps.bucketAt
  cases hkept : kept.buckets key with
  | none => exact ⟨TokenBucket.sound_new.refill, TokenBucket.sound_new.updated_refill⟩
  | some b => exact ⟨(h.2 key b hkept).refill, (h.2 key b hkept).updated_refill⟩

theorem admitAddress (h : kept.Sound t) (key : κ) : (kept.admitAddress t key).2.Sound t := by
  obtain ⟨hsound, hupdated⟩ := h.bucketAt key
  refine ⟨h.1, fun key' b hb => ?_⟩
  show b.Sound kept.perHour t
  replace hb : Function.update kept.buckets key (some ((kept.bucketAt t key).spend t).2) key' =
    some b := hb
  rcases eq_or_ne key' key with rfl | hne
  · rw [Function.update_self] at hb
    obtain rfl := Option.some.inj hb
    exact hsound.spend (Nat.pos_iff_ne_zero.mpr h.1) hupdated
  · rw [Function.update_of_ne hne] at hb
    exact h.2 key' b hb

theorem reconfigure (h : kept.Sound t) (settings : BucketSettings) :
    (kept.reconfigure settings).Sound t := by
  refine ⟨Nat.pos_iff_ne_zero.mp settings.turns_pos, fun key b hb => ?_⟩
  show b.Sound settings.perAddressTurnsPerHour t
  unfold KeptCaps.reconfigure at hb
  split_ifs at hb with hrate
  · obtain ⟨b', hb', rfl⟩ := Option.map_eq_some_iff.mp hb
    exact (h.2 key b' hb').rerate
  · rw [not_not.mp hrate]
    exact h.2 key b hb

end KeptCaps.Sound

/-- The bucket of a hit, as the cache has it and as it is kept. -/
theorem Sim.alike (h : Sim caps kept now) (hle : now ≤ t) (key : κ) :
    Alike t (caps.bucketAt t key) (kept.bucketAt t key) := by
  have hagrees := h.agrees key t hle
  unfold AddressCaps.bucketAt KeptCaps.bucketAt
  rw [← h.perHour]
  cases hkept : kept.buckets key with
  | none =>
    rw [hkept] at hagrees
    generalize C.read caps.buckets t key = read at hagrees
    cases hagrees
    exact .refl _ _
  | some b' =>
    rw [hkept] at hagrees
    have hb' := (h.sound.later hle).2 key b' hkept
    generalize C.read caps.buckets t key = read at hagrees
    cases hagrees with
    | alike halike => exact halike.refill le_rfl
    | idle hidle =>
      show Alike t ((TokenBucket.new _ _).refill t) _
      rw [refill_new]
      exact alike_of_idle hb' hidle

theorem Sim.admitAddress (h : Sim caps kept now) (hle : now ≤ t)
    (hfits : ((C.keys caps.buckets t).insert key).length ≤
      caps.settings.addressBucketMaxEntries) :
    (caps.admitAddress t key).1 = (kept.admitAddress t key).1 ∧
      Sim (caps.admitAddress t key).2 (kept.admitAddress t key).2 t := by
  obtain ⟨hverdict, halike⟩ := (h.alike hle key).spend
  have hupdated := ((h.sound.later hle).bucketAt key).2
  refine ⟨hverdict, h.perHour, ?_, (h.sound.later hle).admitAddress key, ?_⟩
  · exact (C.maxsize_write ..).trans h.maxsize
  · intro key' t' hle'
    show Agrees t' (C.read (C.write caps.buckets t key ((caps.bucketAt t key).spend t).2) t' key')
      (Function.update kept.buckets key (some ((kept.bucketAt t key).spend t).2) key')
    rcases eq_or_ne key' key with rfl | hne
    · rw [Function.update_self, C.read_write_self hle']
      split_ifs with hlive
      · exact .alike (halike.later hle')
      · refine .idle ?_
        rw [updated_spend, hupdated]
        exact not_lt.mp hlive
    · rw [← h.maxsize] at hfits
      rw [Function.update_of_ne hne, C.read_write_of_ne hne hle' hfits]
      exact h.agrees key' t' (hle.trans hle')

/-! ## A reload -/

/-- Moving the live buckets into another cache gives them an hour again. -/
theorem Sim.copy (h : Sim caps kept now) (hle : now ≤ t) {n : ℕ}
    (hroom : (C.keys caps.buckets t).length ≤ n) {t' : ℚ} (hle' : t ≤ t') (key : κ) :
    Agrees t' (C.read (C.copy caps.buckets t n) t' key) (kept.buckets key) := by
  have hagrees := h.agrees key t hle
  rw [C.read_copy hroom hle']
  cases hkept : kept.buckets key with
  | none =>
    rw [hkept] at hagrees
    generalize C.read caps.buckets t key = read at hagrees
    cases hagrees
    rw [ite_self]
    exact .absent
  | some b' =>
    rw [hkept] at hagrees
    have hupdated := ((h.sound.later hle).2 key b' hkept).updated_le
    generalize C.read caps.buckets t key = read at hagrees
    cases hagrees with
    | alike halike =>
      split_ifs with hlive
      · exact .alike (halike.later hle')
      · exact .idle (by linarith)
    | idle hidle =>
      rw [ite_self]
      exact .idle (hidle.trans hle')

theorem Agrees.rerate {b b' : Option TokenBucket} (h : Agrees t b b') (newRate : ℕ) :
    Agrees t (b.map (TokenBucket.rerate newRate)) (b'.map (TokenBucket.rerate newRate)) := by
  cases h with
  | absent => exact .absent
  | alike halike => exact .alike halike.rerate
  | idle hidle => exact .idle hidle

theorem Sim.resized (h : Sim caps kept now) (hle : now ≤ t)
    (hroom : (C.keys caps.buckets t).length ≤ settings.addressBucketMaxEntries) :
    C.maxsize (caps.resized t settings) = settings.addressBucketMaxEntries ∧
      ∀ key t', t ≤ t' →
        Agrees t' (C.read (caps.resized t settings) t' key) (kept.buckets key) := by
  unfold AddressCaps.resized
  split_ifs with hsize
  · exact ⟨C.maxsize_copy _, fun key t' hle' => h.copy hle hroom hle' key⟩
  · exact ⟨h.maxsize.trans (not_not.mp hsize).symm, fun key t' hle' =>
      h.agrees key t' (hle.trans hle')⟩

theorem Sim.reconfigure (h : Sim caps kept now) (hle : now ≤ t)
    (hroom : (C.keys caps.buckets t).length ≤ settings.addressBucketMaxEntries) :
    Sim (caps.reconfigure t settings) (kept.reconfigure settings) t := by
  obtain ⟨hmaxsize, hagrees⟩ := h.resized hle hroom
  have hsound := (h.sound.later hle).reconfigure settings
  unfold AddressCaps.reconfigure
  by_cases hrate : settings.perAddressTurnsPerHour ≠ caps.settings.perAddressTurnsPerHour
  · rw [if_pos hrate]
    refine ⟨rfl, (C.maxsize_assign ..).trans hmaxsize, hsound, fun key t' hle' => ?_⟩
    show Agrees t' (C.read (C.assign _ t _) t' key) (ite _ _ _)
    rw [C.read_assign hle', h.perHour, if_pos hrate]
    exact (hagrees key t' hle').rerate _
  · rw [if_neg hrate]
    refine ⟨rfl, hmaxsize, hsound, fun key t' hle' => ?_⟩
    show Agrees t' (C.read _ t' key) (ite _ _ _)
    rw [h.perHour, if_neg hrate]
    exact hagrees key t' hle'

/-! ## Runs -/

theorem Sim.call (h : Sim caps kept now) (hle : now ≤ t) {c : CapsCall κ}
    {calls : List (ℚ × CapsCall κ)} (hroomy : caps.Roomy ((t, c) :: calls)) :
    (caps.call t c).1 = (kept.call t c).1 ∧ Sim (caps.call t c).2 (kept.call t c).2 t := by
  cases c with
  | admitAddress key =>
    obtain ⟨hverdict, hsim⟩ := h.admitAddress hle hroomy.1
    exact ⟨congrArg (fun verdict => some (key, verdict)) hverdict, hsim⟩
  | reconfigure settings => exact ⟨rfl, h.reconfigure hle hroomy.1⟩

/-- Every verdict of a run is the one with the buckets kept. -/
theorem Sim.hits_eq {calls : List (ℚ × CapsCall κ)} (h : Sim caps kept now)
    (hsorted : (now :: calls.map Prod.fst).Pairwise (· ≤ ·)) (hroomy : caps.Roomy calls) :
    hits AddressCaps.call caps calls = hits KeptCaps.call kept calls := by
  induction calls generalizing caps kept now with
  | nil => rfl
  | cons timed calls ih =>
    obtain ⟨t, c⟩ := timed
    rw [List.map_cons, List.pairwise_cons] at hsorted
    obtain ⟨hanswer, hsim⟩ := h.call (hsorted.1 t List.mem_cons_self) hroomy
    rw [hits_cons, hits_cons, hanswer, ih hsim hsorted.2 hroomy.2]

end TaiSkeleton.Conversations
