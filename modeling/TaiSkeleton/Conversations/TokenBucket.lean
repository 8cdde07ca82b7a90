import TaiSkeleton.Lib.TtlCache
import Mathlib.Algebra.Order.Field.Basic
import Mathlib.Tactic.Positivity
import Mathlib.Tactic.Ring

/-!
# The token bucket of a key

`TurnCaps.admit_address` keeps the buckets in a cache whose entries run out after an hour without
a hit, and `reconfigure` moves them into a cache of another size and gives them another rate where
they are. `KeptCaps` is the same with every bucket kept. A bucket refills in an hour at any rate
and its cooldown is over by then, so one that ran out is as good as a fresh one, and no verdict
tells the two apart.
-/

namespace TaiSkeleton.Conversations

open Lib

inductive AddressAdmission where
  | admitted
  | shedWithReply
  | shedSilent
deriving DecidableEq

structure TokenBucket where
  capacity : ℚ
  tokens : ℚ
  refillPerSecond : ℚ
  updated : ℚ
  /-- When a slow-down reply may be paid again. -/
  cooldownUntil : ℚ
deriving DecidableEq

namespace TokenBucket

def new (perHour : ℕ) (now : ℚ) : TokenBucket where
  capacity := perHour
  tokens := perHour
  refillPerSecond := perHour / 3600
  updated := now
  cooldownUntil := 0

def refill (b : TokenBucket) (now : ℚ) : TokenBucket :=
  let elapsed := now - b.updated
  if 0 < elapsed then
    { b with tokens := min b.capacity (b.tokens + elapsed * b.refillPerSecond), updated := now }
  else b

/-- The verdict on a refilled bucket, and what it costs. -/
def spend (b : TokenBucket) (now : ℚ) : AddressAdmission × TokenBucket :=
  if 1 ≤ b.tokens then (.admitted, { b with tokens := b.tokens - 1 })
  else if b.cooldownUntil ≤ now then
    (.shedWithReply, { b with cooldownUntil := now + 1 / b.refillPerSecond })
  else (.shedSilent, b)

/-- A reload of the rate gives no tokens back. -/
def rerate (newRate : ℕ) (b : TokenBucket) : TokenBucket :=
  { b with
    capacity := newRate
    refillPerSecond := newRate / 3600
    tokens := min b.tokens newRate }

end TokenBucket

structure BucketSettings where
  perAddressTurnsPerHour : ℕ
  addressBucketMaxEntries : ℕ
  turns_pos : 0 < perAddressTurnsPerHour
  entries_pos : 0 < addressBucketMaxEntries

inductive CapsCall (κ : Type) where
  | admitAddress (key : κ)
  | reconfigure (settings : BucketSettings)

/-- A verdict of a run. -/
structure Hit (κ : Type) where
  time : ℚ
  key : κ
  verdict : AddressAdmission
deriving DecidableEq

/-- The verdicts on calls at their times. -/
def hits {κ σ : Type} (call : σ → ℚ → CapsCall κ → Option (κ × AddressAdmission) × σ) :
    σ → List (ℚ × CapsCall κ) → List (Hit κ)
  | _, [] => []
  | s, (now, c) :: calls =>
    let (answer, s') := call s now c
    (answer.toList.map fun (key, verdict) => ⟨now, key, verdict⟩) ++ hits call s' calls

theorem hits_cons {κ σ : Type}
    (call : σ → ℚ → CapsCall κ → Option (κ × AddressAdmission) × σ) (s : σ) (now : ℚ)
    (c : CapsCall κ) (calls : List (ℚ × CapsCall κ)) :
    hits call s ((now, c) :: calls) =
      ((call s now c).1.toList.map fun (key, verdict) => ⟨now, key, verdict⟩) ++
        hits call (call s now c).2 calls := rfl

variable {κ : Type} [DecidableEq κ]

/-! ## The caps -/

section

variable (C : TtlCache κ TokenBucket 3600)

/-- The part of `TurnCaps` that admits a key. -/
structure AddressCaps where
  settings : BucketSettings
  buckets : C.State

namespace AddressCaps

def new (settings : BucketSettings) : AddressCaps C where
  settings := settings
  buckets := C.empty settings.addressBucketMaxEntries

variable {C}

/-- The cache of the new size. -/
def resized (caps : AddressCaps C) (now : ℚ) (settings : BucketSettings) : C.State :=
  if settings.addressBucketMaxEntries ≠ caps.settings.addressBucketMaxEntries then
    C.copy caps.buckets now settings.addressBucketMaxEntries
  else caps.buckets

def reconfigure (caps : AddressCaps C) (now : ℚ) (settings : BucketSettings) : AddressCaps C where
  settings := settings
  buckets :=
    if settings.perAddressTurnsPerHour ≠ caps.settings.perAddressTurnsPerHour then
      C.assign (caps.resized now settings) now
        (TokenBucket.rerate settings.perAddressTurnsPerHour)
    else caps.resized now settings

/-- The bucket of a key, or a new one, refilled. -/
def bucketAt (caps : AddressCaps C) (now : ℚ) (bucketKey : κ) : TokenBucket :=
  match C.read caps.buckets now bucketKey with
  | some bucket => bucket.refill now
  | none => (TokenBucket.new caps.settings.perAddressTurnsPerHour now).refill now

def admitAddress (caps : AddressCaps C) (now : ℚ) (bucketKey : κ) :
    AddressAdmission × AddressCaps C :=
  let (verdict, bucket) := (caps.bucketAt now bucketKey).spend now
  -- the cache holds the bucket itself, so what it spends after the write is in the cache
  (verdict, { caps with buckets := C.write caps.buckets now bucketKey bucket })

def call (caps : AddressCaps C) (now : ℚ) :
    CapsCall κ → Option (κ × AddressAdmission) × AddressCaps C
  | .admitAddress key =>
    let (verdict, caps) := caps.admitAddress now key
    (some (key, verdict), caps)
  | .reconfigure settings => (none, caps.reconfigure now settings)

/-- The live keys do not exceed the bound on the entries. -/
def RoomFor (caps : AddressCaps C) (now : ℚ) : CapsCall κ → Prop
  | .admitAddress key =>
    ((C.keys caps.buckets now).insert key).length ≤ caps.settings.addressBucketMaxEntries
  | .reconfigure settings =>
    (C.keys caps.buckets now).length ≤ settings.addressBucketMaxEntries

/-- In a run the live keys never exceed the bound. -/
def Roomy : AddressCaps C → List (ℚ × CapsCall κ) → Prop
  | _, [] => True
  | caps, (now, c) :: calls => caps.RoomFor now c ∧ Roomy (caps.call now c).2 calls

instance (caps : AddressCaps C) (now : ℚ) (c : CapsCall κ) : Decidable (caps.RoomFor now c) :=
  match c with
  | .admitAddress _ => inferInstanceAs (Decidable (_ ≤ _))
  | .reconfigure _ => inferInstanceAs (Decidable (_ ≤ _))

instance decidableRoomy : (caps : AddressCaps C) → (calls : List (ℚ × CapsCall κ)) →
    Decidable (caps.Roomy calls)
  | _, [] => .isTrue trivial
  | caps, (now, c) :: calls =>
    have := decidableRoomy (caps.call now c).2 calls
    inferInstanceAs (Decidable (_ ∧ _))

end AddressCaps

end

/-! ## The caps with every bucket kept -/

structure KeptCaps (κ : Type) where
  perHour : ℕ
  buckets : κ → Option TokenBucket

namespace KeptCaps

def new (settings : BucketSettings) : KeptCaps κ where
  perHour := settings.perAddressTurnsPerHour
  buckets _ := none

def reconfigure (caps : KeptCaps κ) (settings : BucketSettings) : KeptCaps κ where
  perHour := settings.perAddressTurnsPerHour
  buckets key :=
    if settings.perAddressTurnsPerHour ≠ caps.perHour then
      (caps.buckets key).map (TokenBucket.rerate settings.perAddressTurnsPerHour)
    else caps.buckets key

def bucketAt (caps : KeptCaps κ) (now : ℚ) (key : κ) : TokenBucket :=
  match caps.buckets key with
  | some bucket => bucket.refill now
  | none => (TokenBucket.new caps.perHour now).refill now

def admitAddress (caps : KeptCaps κ) (now : ℚ) (key : κ) : AddressAdmission × KeptCaps κ :=
  let (verdict, bucket) := (caps.bucketAt now key).spend now
  (verdict, { caps with buckets := Function.update caps.buckets key (some bucket) })

def call (caps : KeptCaps κ) (now : ℚ) :
    CapsCall κ → Option (κ × AddressAdmission) × KeptCaps κ
  | .admitAddress key =>
    let (verdict, caps) := caps.admitAddress now key
    (some (key, verdict), caps)
  | .reconfigure settings => (none, caps.reconfigure settings)

end KeptCaps

/-! ## A bucket -/

namespace TokenBucket

variable {b b' : TokenBucket} {perHour newRate : ℕ} {now t : ℚ}

/-- A bucket at a rate, hit by now. -/
structure Sound (b : TokenBucket) (perHour : ℕ) (now : ℚ) : Prop where
  capacity : b.capacity = perHour
  refillPerSecond : b.refillPerSecond = perHour / 3600
  tokens_nonneg : 0 ≤ b.tokens
  tokens_le : b.tokens ≤ perHour
  updated_le : b.updated ≤ now
  /-- A reply is paid at a hit, and the cooldown takes an hour at most. -/
  cooldown : b.cooldownUntil = 0 ∨ 0 ≤ b.updated ∧ b.cooldownUntil ≤ b.updated + 3600

/-- The tokens that are there at a time. -/
def level (b : TokenBucket) (perHour : ℕ) (now : ℚ) : ℚ :=
  min perHour (b.tokens + (now - b.updated) * (perHour / 3600))

theorem Sound.later (h : b.Sound perHour now) (hle : now ≤ t) : b.Sound perHour t :=
  { h with updated_le := h.updated_le.trans hle }

theorem sound_new : (new perHour now).Sound perHour now where
  capacity := rfl
  refillPerSecond := rfl
  tokens_nonneg := Nat.cast_nonneg _
  tokens_le := le_rfl
  updated_le := le_rfl
  cooldown := .inl rfl

theorem Sound.refill_eq (h : b.Sound perHour now) :
    b.refill now = { b with tokens := b.level perHour now, updated := now } := by
  unfold refill level
  dsimp only
  split_ifs with helapsed
  · rw [h.capacity, h.refillPerSecond]
  · have hupdated : b.updated = now := le_antisymm h.updated_le (by linarith)
    rw [hupdated, sub_self, zero_mul, add_zero, min_eq_right h.tokens_le, ← hupdated]

theorem Sound.level_nonneg (h : b.Sound perHour now) : 0 ≤ b.level perHour now := by
  have hrate : (0 : ℚ) ≤ perHour / 3600 := by positivity
  have helapsed : 0 ≤ now - b.updated := sub_nonneg.mpr h.updated_le
  exact le_min (Nat.cast_nonneg _) (add_nonneg h.tokens_nonneg (mul_nonneg helapsed hrate))

theorem level_le : b.level perHour now ≤ perHour := min_le_left _ _

theorem Sound.refill (h : b.Sound perHour now) : (b.refill now).Sound perHour now := by
  rw [h.refill_eq]
  exact {
    capacity := h.capacity
    refillPerSecond := h.refillPerSecond
    tokens_nonneg := h.level_nonneg
    tokens_le := level_le
    updated_le := le_rfl
    cooldown := h.cooldown.imp_right fun ⟨hupdated, hcooldown⟩ =>
      ⟨hupdated.trans h.updated_le, hcooldown.trans (by have := h.updated_le; linarith)⟩ }

theorem Sound.updated_refill (h : b.Sound perHour now) : (b.refill now).updated = now := by
  rw [h.refill_eq]

@[simp] theorem cooldownUntil_refill : (b.refill t).cooldownUntil = b.cooldownUntil := by
  unfold TokenBucket.refill
  dsimp only
  split_ifs <;> rfl

/-- The cooldown takes an hour at most, at any rate. -/
theorem cooldown_le (hrate : 0 < perHour) : 1 / ((perHour : ℚ) / 3600) ≤ 3600 := by
  have hone : (1 : ℚ) ≤ perHour := by exact_mod_cast hrate
  rw [one_div_div]
  exact div_le_self (by norm_num) hone

@[simp] theorem updated_spend : (b.spend now).2.updated = b.updated := by
  unfold spend
  split_ifs <;> rfl

theorem Sound.spend (hrate : 0 < perHour) (h : b.Sound perHour now) (hupdated : b.updated = now) :
    (b.spend now).2.Sound perHour now := by
  unfold TokenBucket.spend
  split_ifs with htokens hcooldown
  · exact { h with
      tokens_nonneg := sub_nonneg.mpr htokens
      tokens_le := (sub_le_self _ zero_le_one).trans h.tokens_le }
  · refine { h with cooldown := .inr ⟨?_, ?_⟩ }
    · show 0 ≤ b.updated
      rcases h.cooldown with hzero | ⟨hpos, -⟩
      · rw [hupdated, ← hzero]
        exact hcooldown
      · exact hpos
    · show now + 1 / b.refillPerSecond ≤ b.updated + 3600
      rw [hupdated, h.refillPerSecond]
      exact add_le_add_right (cooldown_le hrate) _
  · exact h

theorem Sound.rerate (h : b.Sound perHour now) : (b.rerate newRate).Sound newRate now :=
  { h with
    capacity := rfl
    refillPerSecond := rfl
    tokens_nonneg := le_min h.tokens_nonneg (Nat.cast_nonneg _)
    tokens_le := min_le_right _ _ }

/-- Two buckets that no verdict from now on tells apart. -/
structure Alike (now : ℚ) (b b' : TokenBucket) : Prop where
  eq : { b with cooldownUntil := 0 } = { b' with cooldownUntil := 0 }
  cooldown : b.cooldownUntil = b'.cooldownUntil ∨ b.cooldownUntil ≤ now ∧ b'.cooldownUntil ≤ now

namespace Alike

theorem refl (now : ℚ) (b : TokenBucket) : Alike now b b := ⟨rfl, .inl rfl⟩

theorem later (h : Alike now b b') (hle : now ≤ t) : Alike t b b' :=
  ⟨h.eq, h.cooldown.imp_right fun ⟨hb, hb'⟩ => ⟨hb.trans hle, hb'.trans hle⟩⟩

theorem refill (h : Alike now b b') (hle : now ≤ t) : Alike t (b.refill t) (b'.refill t) := by
  have hfree : ∀ b : TokenBucket, { b.refill t with cooldownUntil := 0 } =
      ({ b with cooldownUntil := 0 } : TokenBucket).refill t := by
    intro b
    unfold TokenBucket.refill
    dsimp only
    split_ifs <;> rfl
  refine ⟨?_, ?_⟩
  · rw [hfree, hfree, h.eq]
  · rw [cooldownUntil_refill, cooldownUntil_refill]
    exact (h.later hle).cooldown

theorem rerate (h : Alike now b b') : Alike now (b.rerate newRate) (b'.rerate newRate) :=
  ⟨congrArg (TokenBucket.rerate newRate) h.eq, h.cooldown⟩

theorem spend (h : Alike now b b') :
    (b.spend now).1 = (b'.spend now).1 ∧ Alike now (b.spend now).2 (b'.spend now).2 := by
  have hfree := h.eq
  rw [TokenBucket.mk.injEq] at hfree
  obtain ⟨hcapacity, htokens, hrefill, hupdated, -⟩ := hfree
  have hpayable : b.cooldownUntil ≤ now ↔ b'.cooldownUntil ≤ now := by
    rcases h.cooldown with heq | ⟨hb, hb'⟩
    · rw [heq]
    · exact iff_of_true hb hb'
  unfold TokenBucket.spend
  rw [htokens]
  by_cases hone : 1 ≤ b'.tokens
  · rw [if_pos hone, if_pos hone]
    refine ⟨rfl, ?_, h.cooldown⟩
    rw [TokenBucket.mk.injEq]
    exact ⟨hcapacity, rfl, hrefill, hupdated, rfl⟩
  · rw [if_neg hone, if_neg hone]
    by_cases hpay : b'.cooldownUntil ≤ now
    · rw [if_pos hpay, if_pos (hpayable.mpr hpay), hrefill]
      refine ⟨rfl, ?_, .inl rfl⟩
      rw [TokenBucket.mk.injEq]
      exact ⟨hcapacity, rfl, rfl, hupdated, rfl⟩
    · rw [if_neg hpay, if_neg fun hb => hpay (hpayable.mp hb)]
      exact ⟨rfl, h⟩

end Alike

end TokenBucket

end TaiSkeleton.Conversations
