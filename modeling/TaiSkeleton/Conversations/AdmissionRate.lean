import TaiSkeleton.Conversations.IdleBuckets

/-!
# The rate of the admissions

At one rate, an admission takes a token of the level of its key and the level rises by the rate, so
a window has as many as the level at its start and what comes in during it. A reply starts a
cooldown of the time of one token.
-/

namespace TaiSkeleton.Conversations

open Lib TokenBucket

variable {κ : Type} [DecidableEq κ] {kept : KeptCaps κ} {now t a e : ℚ} {key key' : κ}
  {c : CapsCall κ} {calls : List (ℚ × CapsCall κ)} {perHour : ℕ}

/-- The calls leave the rate as it is. -/
def AtRate (perHour : ℕ) (calls : List (ℚ × CapsCall κ)) : Prop :=
  ∀ t settings, (t, CapsCall.reconfigure settings) ∈ calls →
    settings.perAddressTurnsPerHour = perHour

/-- The calls come in the order of their times. -/
def InOrder (calls : List (ℚ × CapsCall κ)) : Prop := (calls.map Prod.fst).Pairwise (· ≤ ·)

instance : Decidable (InOrder calls) := inferInstanceAs (Decidable (List.Pairwise _ _))

/-- An admission of the key in the window from one moment to another. -/
def AdmittedIn (key : κ) (a e : ℚ) (hit : Hit κ) : Prop :=
  hit.key = key ∧ hit.verdict = .admitted ∧ a ≤ hit.time ∧ hit.time ≤ e

/-- A slow-down reply to the key. -/
def RepliedTo (key : κ) (hit : Hit κ) : Prop := hit.key = key ∧ hit.verdict = .shedWithReply

instance : DecidablePred (AdmittedIn key a e) := fun _ => inferInstanceAs (Decidable (_ ∧ _))

omit [DecidableEq κ] in
theorem AtRate.tail (h : AtRate perHour ((t, c) :: calls)) : AtRate perHour calls :=
  fun t settings hmem => h t settings (List.mem_cons_of_mem _ hmem)

/-- No verdict is older than the first call. -/
theorem le_time (hsorted : (now :: calls.map Prod.fst).Pairwise (· ≤ ·)) {hit : Hit κ}
    (hmem : hit ∈ hits KeptCaps.call kept calls) : now ≤ hit.time := by
  induction calls generalizing kept with
  | nil => cases hmem
  | cons timed calls ih =>
    obtain ⟨t, c⟩ := timed
    rw [hits_cons, List.mem_append] at hmem
    rw [List.map_cons, List.pairwise_cons] at hsorted
    rcases hmem with hmem | hmem
    · obtain ⟨answer, -, rfl⟩ := List.mem_map.mp hmem
      exact hsorted.1 t List.mem_cons_self
    · refine ih (List.pairwise_cons.mpr ⟨fun t' hmem' => ?_, hsorted.2.tail⟩) hmem
      exact hsorted.1 t' (List.mem_cons_of_mem _ hmem')

omit [DecidableEq κ] in
theorem from_first (hsorted : (t :: calls.map Prod.fst).Pairwise (· ≤ ·)) :
    (t :: ((t, c) :: calls).map Prod.fst).Pairwise (· ≤ ·) := by
  refine List.pairwise_cons.mpr ⟨fun t' hmem => ?_, hsorted⟩
  rcases List.mem_cons.mp hmem with rfl | hmem
  · exact le_rfl
  · exact (List.pairwise_cons.mp hsorted).1 t' hmem

/-! ## The level of a key -/

namespace KeptCaps

/-- The tokens that a hit would find. -/
def level (kept : KeptCaps κ) (key : κ) (t : ℚ) : ℚ := (kept.bucketAt t key).tokens

theorem tokens_new (perHour : ℕ) (t : ℚ) :
    ((TokenBucket.new perHour t).refill t).tokens = perHour := by
  rw [refill_new]
  rfl

variable {kept : KeptCaps κ}

theorem level_le (h : kept.Sound t) : kept.level key t ≤ kept.perHour :=
  (h.bucketAt key).1.tokens_le

theorem level_nonneg (h : kept.Sound t) : 0 ≤ kept.level key t :=
  (h.bucketAt key).1.tokens_nonneg

omit [DecidableEq κ] in
/-- The level rises by the rate at most. -/
theorem level_later (key : κ) (h : kept.Sound now) (hle : now ≤ t) :
    kept.level key t ≤ kept.level key now + (t - now) * (kept.perHour / 3600) := by
  have hrefilled : 0 ≤ (t - now) * ((kept.perHour : ℚ) / 3600) :=
    mul_nonneg (sub_nonneg.mpr hle) (by positivity)
  unfold level bucketAt
  cases hkept : kept.buckets key with
  | none =>
    show ((TokenBucket.new _ t).refill t).tokens ≤ ((TokenBucket.new _ now).refill now).tokens + _
    rw [tokens_new, tokens_new]
    exact le_add_of_nonneg_right hrefilled
  | some b =>
    show (b.refill t).tokens ≤ (b.refill now).tokens + _
    rw [((h.2 key b hkept).later hle).refill_eq, (h.2 key b hkept).refill_eq]
    show b.level _ t ≤ b.level _ now + _
    unfold TokenBucket.level
    rw [← min_add_add_right]
    refine min_le_min (le_add_of_nonneg_right hrefilled) (le_of_eq ?_)
    ring

/-- What a hit leaves of its key's level. -/
theorem level_admitAddress (h : kept.Sound t) :
    (kept.admitAddress t key).2.level key t = ((kept.bucketAt t key).spend t).2.tokens := by
  obtain ⟨hsound, hupdated⟩ := h.bucketAt key
  have hspent := hsound.spend (Nat.pos_iff_ne_zero.mpr h.1) hupdated
  have hbucket : (kept.admitAddress t key).2.bucketAt t key =
      ((kept.bucketAt t key).spend t).2.refill t := by
    have hbuckets : (kept.admitAddress t key).2.buckets key =
        some ((kept.bucketAt t key).spend t).2 := Function.update_self ..
    rw [bucketAt, hbuckets]
  unfold level
  rw [hbucket, hspent.refill_eq]
  show TokenBucket.level _ _ t = _
  unfold TokenBucket.level
  rw [updated_spend, hupdated, sub_self, zero_mul, add_zero]
  exact min_eq_right hspent.tokens_le

theorem level_admitAddress_of_ne (hne : key ≠ key') :
    (kept.admitAddress t key').2.level key t = kept.level key t := by
  have hbuckets : (kept.admitAddress t key').2.buckets key = kept.buckets key :=
    Function.update_of_ne hne ..
  rw [level, bucketAt, hbuckets]
  rfl

omit [DecidableEq κ] in
theorem reconfigure_same {settings : BucketSettings}
    (h : settings.perAddressTurnsPerHour = kept.perHour) : kept.reconfigure settings = kept := by
  unfold reconfigure
  simp only [h, ne_eq, not_true_eq_false, if_false]

theorem tokens_spend {b : TokenBucket} :
    (b.spend t).2.tokens = if (b.spend t).1 = .admitted then b.tokens - 1 else b.tokens := by
  unfold TokenBucket.spend
  split_ifs <;> first | rfl | contradiction

/-- The verdict of a call, at its time. -/
def answered (kept : KeptCaps κ) (t : ℚ) (c : CapsCall κ) : List (Hit κ) :=
  (kept.call t c).1.toList.map fun (key, verdict) => ⟨t, key, verdict⟩

theorem answered_admitAddress : kept.answered t (.admitAddress key) =
    [⟨t, key, ((kept.bucketAt t key).spend t).1⟩] := rfl

/-- A call takes a token where it admits. -/
theorem level_call (key : κ) (h : kept.Sound t) (hrate : AtRate kept.perHour ((t, c) :: calls))
    (a e : ℚ) :
    (((kept.answered t c).countP fun hit => AdmittedIn key a e hit : ℕ) : ℚ) +
      (kept.call t c).2.level key t ≤ kept.level key t := by
  cases c with
  | reconfigure settings =>
    show ((0 : ℕ) : ℚ) + (kept.reconfigure settings).level key t ≤ _
    rw [reconfigure_same (hrate t settings List.mem_cons_self), Nat.cast_zero, zero_add]
  | admitAddress key' =>
    show ((([⟨t, key', (kept.admitAddress t key').1⟩] : List (Hit κ)).countP
      fun hit => AdmittedIn key a e hit : ℕ) : ℚ) + (kept.admitAddress t key').2.level key t ≤ _
    rw [List.countP_singleton]
    rcases eq_or_ne key key' with rfl | hne
    · rw [level_admitAddress h, tokens_spend]
      by_cases hadmitted : ((kept.bucketAt t key).spend t).1 = .admitted
      · rw [if_pos hadmitted]
        show _ ≤ (kept.bucketAt t key).tokens
        split_ifs
        · rw [Nat.cast_one, add_sub_cancel]
        · rw [Nat.cast_zero, zero_add]
          exact sub_le_self _ zero_le_one
      · have hcount : decide (AdmittedIn key a e ⟨t, key, (kept.admitAddress t key).1⟩) = false :=
          decide_eq_false fun hin => hadmitted hin.2.1
        rw [if_neg hadmitted, hcount, if_neg Bool.false_ne_true, Nat.cast_zero, zero_add]
        rfl
    · have hcount : decide (AdmittedIn key a e ⟨t, key', (kept.admitAddress t key').1⟩) = false :=
        decide_eq_false fun hin => hne hin.1.symm
      rw [hcount, if_neg Bool.false_ne_true, Nat.cast_zero, zero_add,
        level_admitAddress_of_ne hne]

theorem call_perHour (hrate : AtRate kept.perHour ((t, c) :: calls)) :
    (kept.call t c).2.perHour = kept.perHour := by
  cases c with
  | reconfigure settings => exact hrate t settings List.mem_cons_self
  | admitAddress key => rfl

theorem Sound.call (h : kept.Sound t) : (kept.call t c).2.Sound t := by
  cases c with
  | reconfigure settings => exact h.reconfigure settings
  | admitAddress key => exact h.admitAddress key

end KeptCaps

/-! ## A window -/

/-- After the window there is no admission in it. -/
theorem countP_after (kept : KeptCaps κ) (key : κ) (a : ℚ)
    (hsorted : (now :: calls.map Prod.fst).Pairwise (· ≤ ·)) (hafter : e < now) :
    (hits KeptCaps.call kept calls).countP (fun hit => AdmittedIn key a e hit) = 0 := by
  rw [List.countP_eq_zero]
  intro hit hmem
  rw [decide_eq_true_eq]
  exact fun hin => absurd (hafter.trans_le (le_time hsorted hmem)) (not_lt.mpr hin.2.2.2)

/-- From a moment on the admissions up to the end of the window are paid by the level then and by
what comes in until the end. -/
theorem countP_le_level (h : kept.Sound now) (hle : now ≤ e)
    (hsorted : (now :: calls.map Prod.fst).Pairwise (· ≤ ·)) (hrate : AtRate kept.perHour calls)
    (key : κ) (a : ℚ) :
    ((hits KeptCaps.call kept calls).countP (fun hit => AdmittedIn key a e hit) : ℚ) ≤
      kept.level key now + (e - now) * (kept.perHour / 3600) := by
  induction calls generalizing kept now with
  | nil =>
    have hin : 0 ≤ (e - now) * ((kept.perHour : ℚ) / 3600) :=
      mul_nonneg (sub_nonneg.mpr hle) (by positivity)
    show ((0 : ℕ) : ℚ) ≤ _
    rw [Nat.cast_zero]
    exact add_nonneg (KeptCaps.level_nonneg h) hin
  | cons timed calls ih =>
    obtain ⟨t, c⟩ := timed
    rw [List.map_cons, List.pairwise_cons] at hsorted
    have hnext : now ≤ t := hsorted.1 t List.mem_cons_self
    have hlater := KeptCaps.level_later key h hnext
    have hsound := h.later hnext
    by_cases hend : t ≤ e
    · have hrest := ih hsound.call hend hsorted.2 (by
        rw [KeptCaps.call_perHour hrate]; exact hrate.tail)
      have hcall := KeptCaps.level_call key hsound hrate a e
      rw [KeptCaps.call_perHour hrate] at hrest
      rw [hits_cons, List.countP_append, Nat.cast_add]
      unfold KeptCaps.answered at hcall
      linarith
    · rw [countP_after kept key a (from_first (c := c) hsorted.2) (not_le.mp hend), Nat.cast_zero]
      exact add_nonneg (KeptCaps.level_nonneg h)
        (mul_nonneg (sub_nonneg.mpr hle) (by positivity))

/-- A window has the full bucket and what comes in during it, at most. -/
theorem countP_le_window (h : kept.Sound now) (hle : a ≤ e)
    (hsorted : (now :: calls.map Prod.fst).Pairwise (· ≤ ·)) (hrate : AtRate kept.perHour calls)
    (key : κ) :
    ((hits KeptCaps.call kept calls).countP (fun hit => AdmittedIn key a e hit) : ℚ) ≤
      kept.perHour + (e - a) * (kept.perHour / 3600) := by
  have hin : 0 ≤ (e - a) * ((kept.perHour : ℚ) / 3600) :=
    mul_nonneg (sub_nonneg.mpr hle) (by positivity)
  have hnonneg : 0 ≤ (kept.perHour : ℚ) + (e - a) * (kept.perHour / 3600) :=
    add_nonneg (Nat.cast_nonneg _) hin
  induction calls generalizing kept now with
  | nil =>
    show ((0 : ℕ) : ℚ) ≤ _
    rwa [Nat.cast_zero]
  | cons timed calls ih =>
    obtain ⟨t, c⟩ := timed
    rw [List.map_cons, List.pairwise_cons] at hsorted
    have hsound := h.later (hsorted.1 t List.mem_cons_self)
    rcases lt_or_ge t a with hbefore | hstart
    · -- the window has not begun
      have hcall : ((kept.answered t c).countP fun hit => AdmittedIn key a e hit) = 0 := by
        rw [List.countP_eq_zero]
        intro hit hmem
        obtain ⟨answer, -, rfl⟩ := List.mem_map.mp hmem
        rw [decide_eq_true_eq]
        exact fun hadmitted => absurd hbefore (not_lt.mpr hadmitted.2.2.1)
      have hperHour := KeptCaps.call_perHour hrate
      have hrest := ih hsound.call hsorted.2 (by rw [hperHour]; exact hrate.tail)
        (by rwa [hperHour]) (by rwa [hperHour])
      rw [hperHour] at hrest
      rw [hits_cons, List.countP_append]
      unfold KeptCaps.answered at hcall
      rwa [hcall, Nat.zero_add]
    · rcases le_or_gt t e with hend | hend
      · have hlevel := countP_le_level hsound hend (from_first (c := c) hsorted.2) hrate key a
        have hshorter : (e - t) * ((kept.perHour : ℚ) / 3600) ≤
            (e - a) * (kept.perHour / 3600) :=
          mul_le_mul_of_nonneg_right (by linarith) (by positivity)
        exact hlevel.trans (add_le_add (KeptCaps.level_le hsound) hshorter)
      · rw [countP_after kept key a (from_first (c := c) hsorted.2) hend, Nat.cast_zero]
        exact hnonneg

/-! ## Replies -/

/-- A reply is paid when the cooldown is over, and starts the next one. -/
theorem spend_replied {b : TokenBucket} (h : (b.spend t).1 = .shedWithReply) :
    b.cooldownUntil ≤ t ∧ (b.spend t).2.cooldownUntil = t + 1 / b.refillPerSecond := by
  unfold TokenBucket.spend at h ⊢
  split_ifs at h ⊢ with htokens hcooldown
  exact ⟨hcooldown, rfl⟩

theorem spend_unreplied {b : TokenBucket} (h : (b.spend t).1 ≠ .shedWithReply) :
    (b.spend t).2.cooldownUntil = b.cooldownUntil := by
  unfold TokenBucket.spend at h ⊢
  split_ifs at h ⊢ with htokens hcooldown
  · rfl
  · exact absurd rfl h
  · rfl

/-- The key has a bucket, whose cooldown is not over before this moment. -/
def CoolsUntil (kept : KeptCaps κ) (key : κ) (cooldown : ℚ) : Prop :=
  ∃ b, kept.buckets key = some b ∧ cooldown ≤ b.cooldownUntil

theorem CoolsUntil.call {cooldown : ℚ} (h : kept.Sound t) (hcools : CoolsUntil kept key cooldown)
    (hrate : AtRate kept.perHour ((t, c) :: calls)) :
    (∀ hit ∈ kept.answered t c, RepliedTo key hit → cooldown ≤ hit.time) ∧
      CoolsUntil (kept.call t c).2 key cooldown := by
  obtain ⟨b, hkept, hcooldown⟩ := hcools
  cases c with
  | reconfigure settings =>
    refine ⟨fun _ hmem => absurd hmem List.not_mem_nil, b, ?_, hcooldown⟩
    show (kept.reconfigure settings).buckets key = some b
    rwa [KeptCaps.reconfigure_same (hrate t settings List.mem_cons_self)]
  | admitAddress key' =>
    rcases eq_or_ne key key' with rfl | hne
    · have hbucket : (kept.bucketAt t key).cooldownUntil = b.cooldownUntil := by
        unfold KeptCaps.bucketAt
        rw [hkept]
        exact cooldownUntil_refill
      have hnext : (kept.admitAddress t key).2.buckets key =
        some ((kept.bucketAt t key).spend t).2 := Function.update_self ..
      by_cases hreply : ((kept.bucketAt t key).spend t).1 = .shedWithReply
      · obtain ⟨hover, hstarts⟩ := spend_replied hreply
        have hle : cooldown ≤ t := by
          rw [hbucket] at hover
          exact hcooldown.trans hover
        refine ⟨fun hit hmem _ => ?_, _, hnext, ?_⟩
        · rw [List.mem_singleton.mp hmem]
          exact hle
        · rw [hstarts, (h.bucketAt key).1.refillPerSecond]
          exact hle.trans (le_add_of_nonneg_right (by positivity))
      · refine ⟨fun hit hmem hreplied => ?_, _, hnext, ?_⟩
        · rw [List.mem_singleton.mp hmem] at hreplied
          exact absurd hreplied.2 hreply
        · rwa [spend_unreplied hreply, hbucket]
    · refine ⟨fun hit hmem hreplied => ?_, b, ?_, hcooldown⟩
      · rw [List.mem_singleton.mp hmem] at hreplied
        exact absurd hreplied.1.symm hne
      · exact (Function.update_of_ne hne ..).trans hkept

/-- No reply is paid before the cooldown is over. -/
theorem CoolsUntil.le_time {cooldown : ℚ} (h : kept.Sound now)
    (hcools : CoolsUntil kept key cooldown)
    (hsorted : (now :: calls.map Prod.fst).Pairwise (· ≤ ·)) (hrate : AtRate kept.perHour calls)
    {hit : Hit κ} (hmem : hit ∈ hits KeptCaps.call kept calls) (hreplied : RepliedTo key hit) :
    cooldown ≤ hit.time := by
  induction calls generalizing kept now with
  | nil => cases hmem
  | cons timed calls ih =>
    obtain ⟨t, c⟩ := timed
    rw [List.map_cons, List.pairwise_cons] at hsorted
    have hsound := h.later (hsorted.1 t List.mem_cons_self)
    obtain ⟨hanswered, hcools'⟩ := hcools.call hsound hrate
    rw [hits_cons, List.mem_append] at hmem
    rcases hmem with hmem | hmem
    · exact hanswered hit hmem hreplied
    · refine ih hsound.call hcools' hsorted.2 ?_ hmem
      rw [KeptCaps.call_perHour hrate]
      exact hrate.tail

/-- After a reply the key cools for the time of a token. -/
theorem coolsUntil_of_replied (h : kept.Sound t) {hit : Hit κ} (hmem : hit ∈ kept.answered t c)
    (hreplied : RepliedTo key hit) :
    CoolsUntil (kept.call t c).2 key (hit.time + 3600 / kept.perHour) := by
  cases c with
  | reconfigure settings => cases hmem
  | admitAddress key' =>
    rw [KeptCaps.answered_admitAddress, List.mem_singleton] at hmem
    subst hmem
    obtain ⟨hkey, hreply⟩ := hreplied
    obtain rfl : key' = key := hkey
    have hnext : (kept.admitAddress t key').2.buckets key' =
      some ((kept.bucketAt t key').spend t).2 := Function.update_self ..
    have hcooldown : ((kept.bucketAt t key').spend t).2.cooldownUntil =
        t + 3600 / kept.perHour := by
      rw [(spend_replied hreply).2, (h.bucketAt key').1.refillPerSecond, one_div_div]
    exact ⟨_, hnext, hcooldown.ge⟩

/-- Replies to a key are the time of a token apart. -/
theorem replies_apart (h : kept.Sound now)
    (hsorted : (now :: calls.map Prod.fst).Pairwise (· ≤ ·)) (hrate : AtRate kept.perHour calls)
    (key : κ) :
    (hits KeptCaps.call kept calls).Pairwise fun hit hit' =>
      RepliedTo key hit → RepliedTo key hit' → hit.time + 3600 / kept.perHour ≤ hit'.time := by
  induction calls generalizing kept now with
  | nil => exact .nil
  | cons timed calls ih =>
    obtain ⟨t, c⟩ := timed
    rw [List.map_cons, List.pairwise_cons] at hsorted
    have hsound := h.later (hsorted.1 t List.mem_cons_self)
    have hperHour := KeptCaps.call_perHour hrate
    have hrate' : AtRate (kept.call t c).2.perHour calls := by
      rw [hperHour]
      exact hrate.tail
    have hrest := ih hsound.call hsorted.2 hrate'
    rw [hperHour] at hrest
    rw [hits_cons, List.pairwise_append]
    refine ⟨?_, hrest, fun hit hmem hit' hmem' hreplied hreplied' => ?_⟩
    · -- one call gives one verdict at most
      cases hanswer : (kept.call t c).1 with
      | none => exact .nil
      | some answer => exact List.pairwise_singleton ..
    · exact (coolsUntil_of_replied hsound hmem hreplied).le_time hsound.call hsorted.2 hrate'
        hmem' hreplied'

/-! ## The caps -/

/-- The admissions of a key keep to the rate in every window, and the replies to it are the time
of a token apart. -/
structure KeepsRate (perHour : ℕ) (l : List (Hit κ)) : Prop where
  window : ∀ key a length, 0 ≤ length →
    (l.countP (fun hit => AdmittedIn key a (a + length) hit) : ℚ) ≤
      perHour + length * perHour / 3600
  replies : ∀ key, l.Pairwise fun hit hit' =>
    RepliedTo key hit → RepliedTo key hit' → hit.time + 3600 / perHour ≤ hit'.time

/-- Dropping the idle buckets is not seen in any verdict, and at one rate the admissions keep
to it. -/
theorem verdicts_kept_and_bounded (C : TtlCache κ TokenBucket 3600) (settings : BucketSettings)
    (calls : List (ℚ × CapsCall κ)) (hsorted : InOrder calls)
    (hroomy : (AddressCaps.new C settings).Roomy calls) :
    hits AddressCaps.call (AddressCaps.new C settings) calls =
        hits KeptCaps.call (KeptCaps.new settings) calls ∧
      (AtRate settings.perAddressTurnsPerHour calls →
        KeepsRate settings.perAddressTurnsPerHour
          (hits AddressCaps.call (AddressCaps.new C settings) calls)) := by
  obtain ⟨now, hnow⟩ : ∃ now, (now :: calls.map Prod.fst).Pairwise (· ≤ ·) := by
    cases calls with
    | nil => exact ⟨0, List.pairwise_singleton ..⟩
    | cons timed calls => exact ⟨timed.1, from_first (c := timed.2) hsorted⟩
  have heq := (sim_new (C := C) settings now).hits_eq hnow hroomy
  refine ⟨heq, fun hrate => ?_⟩
  have hsound : (KeptCaps.new settings : KeptCaps κ).Sound now := KeptCaps.sound_new settings now
  rw [heq]
  constructor
  · intro key a length hlength
    have hle : a ≤ a + length := le_add_of_nonneg_right hlength
    have hwindow := countP_le_window hsound hle hnow hrate key
    rwa [add_sub_cancel_left, ← mul_div_assoc] at hwindow
  · exact fun key => replies_apart hsound hnow hrate key

/-- Two turns an hour, and room for two keys. -/
def twoPerHour : BucketSettings := ⟨2, 2, by decide, by decide⟩

/-- A key that is over its cap, and comes back after its bucket was dropped. -/
def overCap : List (ℚ × CapsCall String) :=
  [(0, .admitAddress "a"), (0, .admitAddress "a"), (1, .admitAddress "a"), (2, .admitAddress "a"),
    (900, .admitAddress "b"), (1000, .reconfigure ⟨2, 3, by decide, by decide⟩),
    (1900, .admitAddress "a"), (5600, .admitAddress "a")]

theorem verdicts_over_cap :
    (hits AddressCaps.call (AddressCaps.new (lruCache String TokenBucket 3600) twoPerHour)
        overCap).map Hit.verdict =
      [.admitted, .admitted, .shedWithReply, .shedSilent, .admitted, .admitted, .admitted] ∧
      hits AddressCaps.call (AddressCaps.new (lruCache String TokenBucket 3600) twoPerHour)
        overCap = hits KeptCaps.call (KeptCaps.new twoPerHour) overCap ∧
      KeepsRate 2 (hits AddressCaps.call
        (AddressCaps.new (lruCache String TokenBucket 3600) twoPerHour) overCap) := by
  have hsorted : InOrder overCap := by decide +kernel
  obtain ⟨hkept, hrate⟩ := verdicts_kept_and_bounded (lruCache String TokenBucket 3600) twoPerHour
    overCap hsorted (by decide +kernel)
  refine ⟨by decide +kernel, hkept, hrate fun t settings hmem => ?_⟩
  simp only [overCap, List.mem_cons, Prod.mk.injEq, reduceCtorEq, and_false, false_or,
    CapsCall.reconfigure.injEq, List.not_mem_nil, or_false] at hmem
  rw [hmem.2]
  rfl

/-! ## Quiet keys -/

variable {s : ℚ}

/-- A hit leaves a token for one that comes late enough behind it. -/
theorem KeptCaps.one_le_level (h : kept.Sound s) (hwait : s + 3600 / kept.perHour ≤ t) :
    1 ≤ (kept.admitAddress s key).2.level key t := by
  obtain ⟨hsound, hupdated⟩ := h.bucketAt key
  have hpos : 0 < kept.perHour := Nat.pos_iff_ne_zero.mpr h.1
  have hrate : (0 : ℚ) < kept.perHour := Nat.cast_pos.mpr hpos
  have hspent := hsound.spend hpos hupdated
  have hle : s ≤ t := (le_add_of_nonneg_right (by positivity)).trans hwait
  have hbuckets : (kept.admitAddress s key).2.buckets key =
      some ((kept.bucketAt s key).spend s).2 := Function.update_self ..
  have htoken : 1 ≤ (t - s) * ((kept.perHour : ℚ) / 3600) := by
    rw [← mul_div_assoc, one_le_div (by norm_num), ← div_le_iff₀ hrate]
    exact le_sub_iff_add_le'.mpr hwait
  rw [level, bucketAt, hbuckets]
  dsimp only
  rw [(hspent.later hle).refill_eq]
  refine le_min (Nat.one_le_cast.mpr hpos) ?_
  rw [updated_spend, hupdated]
  exact htoken.trans (le_add_of_nonneg_left hspent.tokens_nonneg)

/-- A key that has not been hit for the time of one token is admitted. -/
theorem mem_hits_of_quiet (h : kept.Sound now)
    (hsorted : (now :: calls.map Prod.fst).Pairwise (· ≤ ·)) (hrate : AtRate kept.perHour calls)
    (hquiet : ∀ s, (s, .admitAddress key) ∈ calls → s + 3600 / kept.perHour ≤ t)
    (hlevel : 1 ≤ kept.level key t) :
    ⟨t, key, .admitted⟩ ∈ hits KeptCaps.call kept (calls ++ [(t, .admitAddress key)]) := by
  induction calls generalizing kept now with
  | nil =>
    have hadmitted : ((kept.bucketAt t key).spend t).1 = .admitted := by
      rw [TokenBucket.spend, if_pos (show 1 ≤ (kept.bucketAt t key).tokens from hlevel)]
    exact List.mem_append_left _ (List.mem_singleton.mpr (congrArg _ hadmitted.symm))
  | cons timed calls ih =>
    obtain ⟨s, c⟩ := timed
    obtain ⟨hfirst, hsorted⟩ := List.pairwise_cons.mp hsorted
    have hs : kept.Sound s := h.later (hfirst s List.mem_cons_self)
    have hper := KeptCaps.call_perHour hrate
    rw [List.cons_append, hits_cons]
    refine List.mem_append_right _ (ih hs.call hsorted (hper ▸ hrate.tail) ?_ ?_)
    · rw [hper]
      exact fun s hmem => hquiet s (List.mem_cons_of_mem _ hmem)
    · cases c with
      | reconfigure settings =>
        show 1 ≤ (kept.reconfigure settings).level key t
        rwa [KeptCaps.reconfigure_same (hrate s settings List.mem_cons_self)]
      | admitAddress key' =>
        rcases eq_or_ne key key' with rfl | hne
        · exact KeptCaps.one_le_level hs (hquiet s List.mem_cons_self)
        · have hbuckets : (kept.admitAddress s key').2.buckets key = kept.buckets key :=
            Function.update_of_ne hne ..
          show 1 ≤ (kept.admitAddress s key').2.level key t
          rwa [KeptCaps.level, KeptCaps.bucketAt, hbuckets]

/-- However the others hit the door, and whatever buckets have been dropped, a key that has not been
hit for the time of one token is admitted. -/
theorem quiet_key_admitted (C : TtlCache κ TokenBucket 3600) (settings : BucketSettings)
    (calls : List (ℚ × CapsCall κ)) (key : κ) (t : ℚ)
    (hsorted : InOrder (calls ++ [(t, .admitAddress key)]))
    (hroomy : (AddressCaps.new C settings).Roomy (calls ++ [(t, .admitAddress key)]))
    (hrate : AtRate settings.perAddressTurnsPerHour calls)
    (hquiet : ∀ s, (s, .admitAddress key) ∈ calls →
      s + 3600 / settings.perAddressTurnsPerHour ≤ t) :
    ⟨t, key, .admitted⟩ ∈
      hits AddressCaps.call (AddressCaps.new C settings) (calls ++ [(t, .admitAddress key)]) := by
  obtain ⟨now, hnow⟩ : ∃ now, (now :: (calls ++ [(t, CapsCall.admitAddress key)]).map
      Prod.fst).Pairwise (· ≤ ·) := by
    cases calls with
    | nil => exact ⟨t, from_first (c := .admitAddress key) hsorted⟩
    | cons timed calls => exact ⟨timed.1, from_first (c := timed.2) hsorted⟩
  have hsound : (KeptCaps.new settings : KeptCaps κ).Sound now := KeptCaps.sound_new settings now
  rw [(sim_new (C := C) settings now).hits_eq hnow hroomy]
  rw [List.map_append] at hnow
  refine mem_hits_of_quiet hsound (hnow.sublist (List.sublist_append_left (now :: _) _)) hrate
    hquiet ?_
  show 1 ≤ ((TokenBucket.new _ t).refill t).tokens
  rw [KeptCaps.tokens_new]
  exact Nat.one_le_cast.mpr (Nat.pos_iff_ne_zero.mpr hsound.1)

theorem admitted_over_cap : ⟨3601, "a", .admitted⟩ ∈ hits AddressCaps.call
    (AddressCaps.new (lruCache String TokenBucket 3600) twoPerHour)
    ([(0, .admitAddress "a"), (1, .admitAddress "a"), (1801, .admitAddress "a"),
      (1801, .admitAddress "a"), (3600, .admitAddress "b")] ++ [(3601, .admitAddress "a")]) := by
  refine quiet_key_admitted (lruCache String TokenBucket 3600) twoPerHour _ "a" 3601
    (by decide +kernel) (by decide +kernel) ?_ ?_
  · simp [AtRate]
  · norm_num [twoPerHour, show "a" ≠ "b" by decide]

end TaiSkeleton.Conversations
