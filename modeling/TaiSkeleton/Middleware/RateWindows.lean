import TaiSkeleton.Lib.Expiring
import TaiSkeleton.Lib.Run
import TaiSkeleton.Middleware.CountedRequests

/-!
# How many requests the limiter admits

Workers share the counters. A request reads the clock of its worker, and later one pipeline counts
it for the minute and the slot it has read. As long as no counter runs out between two of its
increments, no more than the limit are admitted in a minute, and no more than the burst in a slot.
-/

namespace TaiSkeleton.RateLimit

open Lib
open AccessControl (NetlocChecks)

/-! ## Requests, one step after another -/

abbrev Counters := Text → Option (Expiring ℕ)

/-- `INCR` and `EXPIRE`, with what `INCR` returns. -/
def increment (time ttl : ℤ) (key : Text) (counters : Counters) : ℕ × Counters :=
  let count := (Expiring.read time (counters key)).getD 0 + 1
  (count, Function.update counters key (some ⟨count, time + ttl⟩))

/-- The store, and the requests that wait for it or have been dispatched, with what they read of
the clock. -/
structure State where
  /-- The clock of the store, in milliseconds. -/
  time : ℤ
  counters : Counters
  pending : List (HttpScope × ℚ)
  dispatched : List (HttpScope × ℚ)

inductive Action where
  | arrive (scope : HttpScope) (now : ℚ)
  /-- The pipeline of a request. Without an answer the request fails. -/
  | execute (i : ℕ) (answered : Bool)
  | elapse (ms : ℕ)

section System

variable (checks : NetlocChecks) (settings : RateLimitSettings)

/-- `_retry_after` of a request, and what follows. -/
def pipeline (state : State) (family : PublicFamily) (bucket : Text) (now : ℚ) :
    Option ℤ × Counters :=
  let key window := windowKey settings.keyPrefix family window bucket (window.number now)
  let (mCount, counters) :=
    increment state.time Window.minute.ttl (key .minute) state.counters
  let (sCount, counters') := increment state.time Window.slot.ttl (key .slot) counters
  (retryAfter (family.limit settings) (family.burst settings) now mCount sCount, counters')

def next (state : State) : Action → Option State
  | .arrive scope now =>
    match call checks settings scope with
    | .raised => some state
    | .passed => some { state with dispatched := (scope, now) :: state.dispatched }
    | .limited _ _ => some { state with pending := (scope, now) :: state.pending }
  | .execute i answered =>
    match state.pending[i]? with
    | none => none
    | some (scope, now) =>
      match call checks settings scope with
      | .limited family bucket =>
        let (retry, counters) := pipeline settings state family bucket now
        some { state with
          counters
          pending := state.pending.eraseIdx i
          dispatched := if answered ∧ retry = none then (scope, now) :: state.dispatched
            else state.dispatched }
      | _ => none
  | .elapse ms => some { state with time := state.time + ms }

def system : System State Action where
  init state := state.counters = (fun _ => none) ∧ state.pending = [] ∧ state.dispatched = []
  step state action state' := next checks settings state action = some state'

/-- The requests to doors are counted, and no counter has run out when it is incremented. -/
def Timely (state : State) : Action → Prop
  | .arrive scope _ => ∀ family, family.enabled settings = true →
      family.routePrefix <+: scope.target.path → CountedWhen checks settings scope family
  | .execute i _ => ∀ scope now family bucket, state.pending[i]? = some (scope, now) →
      call checks settings scope = .limited family bucket → ∀ window : Window,
        ∀ entry ∈ state.counters
          (windowKey settings.keyPrefix family window bucket (window.number now)),
          state.time ≤ entry.expiresAt
  | .elapse _ => True

/-- The requests of a client to a door that are dispatched in a window. -/
def admitted (state : State) (family : PublicFamily) (client : Client) (window : Window)
    (number : ℤ) : ℕ :=
  state.dispatched.countP fun (scope, now) => family.routePrefix <+: scope.target.path ∧
    scope.client settings.trustedProxies = client ∧ window.number now = number

end System

variable {checks : NetlocChecks} {settings : RateLimitSettings} {state state' : State}
  {counters : Counters} {key key' : Text} {time ttl : ℤ}

/-! ## What a pipeline does to the counters -/

/-- What a counter holds, run out or not. -/
def stored (counters : Counters) (key : Text) : ℕ := (counters key).elim 0 Expiring.value

variable (ttl) in
theorem increment_count (h : ∀ entry ∈ counters key, time ≤ entry.expiresAt) :
    (increment time ttl key counters).1 = stored counters key + 1 := by
  unfold increment stored
  dsimp only
  cases hkey : counters key with
  | none => rfl
  | some entry =>
    unfold Expiring.read
    rw [hkey] at h
    dsimp only
    rw [if_pos (h entry rfl)]
    rfl

theorem stored_increment_self (h : ∀ entry ∈ counters key, time ≤ entry.expiresAt) :
    stored (increment time ttl key counters).2 key = stored counters key + 1 := by
  rw [← increment_count ttl h]
  unfold stored increment
  dsimp only
  rw [Function.update_self]
  rfl

variable (time ttl counters) in
theorem increment_of_ne (h : key' ≠ key) :
    (increment time ttl key counters).2 key' = counters key' :=
  Function.update_of_ne h _ _

theorem retryAfter_eq_none {limit burst : ℕ+} {now : ℚ} {mCount sCount : ℕ}
    (h : retryAfter limit burst now mCount sCount = none) : mCount ≤ limit ∧ sCount ≤ burst := by
  unfold retryAfter at h
  split_ifs at h with hlimit hburst
  exact ⟨Nat.not_lt.mp hlimit, Nat.not_lt.mp hburst⟩

section Pipeline

variable {family : PublicFamily} {bucket : Text} {now : ℚ}
  (hlive : ∀ window : Window, ∀ entry ∈ state.counters
    (windowKey settings.keyPrefix family window bucket (window.number now)),
    state.time ≤ entry.expiresAt)

variable (settings family bucket now) in
theorem slotKey_ne_minuteKey :
    windowKey settings.keyPrefix family .slot bucket (Window.slot.number now) ≠
      windowKey settings.keyPrefix family .minute bucket (Window.minute.number now) :=
  fun h => Window.noConfusion (windowKey_injective h).2.1

include hlive in
/-- Each counter of the request grows by one. -/
theorem stored_pipeline_self (window : Window) :
    stored (pipeline settings state family bucket now).2
        (windowKey settings.keyPrefix family window bucket (window.number now)) =
      stored state.counters
        (windowKey settings.keyPrefix family window bucket (window.number now)) + 1 := by
  have hne := slotKey_ne_minuteKey settings family bucket now
  unfold pipeline
  dsimp only
  cases window with
  | minute =>
    unfold stored
    rw [increment_of_ne _ _ _ hne.symm]
    exact stored_increment_self (hlive .minute)
  | slot =>
    have hslot := increment_of_ne state.counters state.time Window.minute.ttl hne
    rw [stored_increment_self (by rw [hslot]; exact hlive .slot)]
    unfold stored
    rw [hslot]

/-- No other counter changes. -/
theorem stored_pipeline_of_ne (h : ∀ window : Window,
    key ≠ windowKey settings.keyPrefix family window bucket (window.number now)) :
    stored (pipeline settings state family bucket now).2 key = stored state.counters key := by
  unfold pipeline stored
  dsimp only
  rw [increment_of_ne _ _ _ (h .slot), increment_of_ne _ _ _ (h .minute)]

include hlive in
theorem stored_le_pipeline (key : Text) : stored state.counters key ≤
    stored (pipeline settings state family bucket now).2 key := by
  by_cases hkey : ∃ window : Window,
      key = windowKey settings.keyPrefix family window bucket (window.number now)
  · obtain ⟨window, rfl⟩ := hkey
    rw [stored_pipeline_self hlive]
    exact Nat.le_succ _
  · rw [stored_pipeline_of_ne (not_exists.mp hkey)]

include hlive in
/-- A request that may go on is within both bounds. -/
theorem stored_lt_of_pipeline (h : (pipeline settings state family bucket now).1 = none)
    (window : Window) : stored state.counters
        (windowKey settings.keyPrefix family window bucket (window.number now)) + 1 ≤
      window.bound settings family := by
  have hne := slotKey_ne_minuteKey settings family bucket now
  obtain ⟨hminute, hslot⟩ := retryAfter_eq_none h
  cases window with
  | minute => exact (increment_count Window.minute.ttl (hlive .minute)).symm.trans_le hminute
  | slot =>
    have hsame := increment_of_ne state.counters state.time Window.minute.ttl hne
    have hslotLive : ∀ entry ∈ (increment state.time Window.minute.ttl
        (windowKey settings.keyPrefix family .minute bucket (Window.minute.number now))
        state.counters).2
          (windowKey settings.keyPrefix family .slot bucket (Window.slot.number now)),
        state.time ≤ entry.expiresAt := by
      rw [hsame]
      exact hlive .slot
    have hcount := increment_count Window.slot.ttl hslotLive
    unfold stored at hcount ⊢
    rw [hsame] at hcount
    exact hcount.symm.trans_le hslot

end Pipeline

/-! ## The bounds -/

/-- The requests that wait are counted for their own door and client, and no more have been
admitted than their counters hold. -/
structure Sound (checks : NetlocChecks) (settings : RateLimitSettings) (state : State) : Prop where
  counted : ∀ request ∈ state.pending, ∀ family : PublicFamily, family.enabled settings = true →
    family.routePrefix <+: request.1.target.path → Counted checks settings request.1 family
  bounded : ∀ (family : PublicFamily) (client : Client) (window : Window) (number : ℤ),
    family.enabled settings = true →
      admitted settings state family client window number ≤ stored state.counters
          (windowKey settings.keyPrefix family window client.bucket number) ∧
        admitted settings state family client window number ≤ window.bound settings family

section Admitted

variable {family : PublicFamily} {client : Client} {window : Window} {number : ℤ}
  {scope : HttpScope} {now : ℚ}

theorem admitted_of_eq (h : state'.dispatched = state.dispatched) :
    admitted settings state' family client window number =
      admitted settings state family client window number := by
  unfold admitted
  rw [h]

theorem admitted_of_cons (h : state'.dispatched = (scope, now) :: state.dispatched) :
    admitted settings state' family client window number =
      admitted settings state family client window number +
        if family.routePrefix <+: scope.target.path ∧
          scope.client settings.trustedProxies = client ∧ window.number now = number then 1
        else 0 := by
  unfold admitted
  rw [h, List.countP_cons]
  simp only [decide_eq_true_eq]

end Admitted

theorem Sound.of_init (h : (system checks settings).init state) : Sound checks settings state := by
  obtain ⟨-, hpending, hdispatched⟩ := h
  constructor
  · intro request hmem
    rw [hpending] at hmem
    cases hmem
  · intro family client window number _
    unfold admitted
    rw [hdispatched]
    exact ⟨Nat.zero_le _, Nat.zero_le _⟩

/-- Only the counters of a request that is admitted have to grow. -/
theorem Sound.arrive (h : Sound checks settings state) {scope : HttpScope} {now : ℚ}
    (htimely : Timely checks settings state (.arrive scope now))
    (hnext : next checks settings state (.arrive scope now) = some state') :
    Sound checks settings state' := by
  have hcounted : ∀ family : PublicFamily, family.enabled settings = true →
      family.routePrefix <+: scope.target.path → Counted checks settings scope family :=
    fun family henabled hroute => (counted_iff henabled hroute).mpr (htimely family henabled hroute)
  unfold next at hnext
  dsimp only at hnext
  cases hcall : call checks settings scope with
  | raised =>
    rw [hcall] at hnext
    cases hnext
    exact h
  | passed =>
    rw [hcall] at hnext
    cases hnext
    refine ⟨h.counted, fun family client window number henabled => ?_⟩
    -- a request to a door that is turned on does not pass uncounted
    have hnot : ¬ family.routePrefix <+: scope.target.path := by
      intro hroute
      rcases counted_iff_call.mp (hcounted family henabled hroute) with hraised | hlimited
      · rw [hcall] at hraised
        cases hraised
      · rw [hcall] at hlimited
        cases hlimited
    rw [admitted_of_cons rfl, if_neg fun hmatch => hnot hmatch.1]
    exact h.bounded family client window number henabled
  | limited family bucket =>
    rw [hcall] at hnext
    cases hnext
    refine ⟨fun request hmem => ?_, h.bounded⟩
    rcases List.mem_cons.mp hmem with rfl | hmem
    · exact hcounted
    · exact h.counted request hmem

theorem Sound.execute (h : Sound checks settings state) {i : ℕ} {answered : Bool}
    (htimely : Timely checks settings state (.execute i answered))
    (hnext : next checks settings state (.execute i answered) = some state') :
    Sound checks settings state' := by
  unfold next at hnext
  dsimp only at hnext
  cases hi : state.pending[i]? with
  | none =>
    rw [hi] at hnext
    cases hnext
  | some request =>
    obtain ⟨scope, now⟩ := request
    cases hcall : call checks settings scope with
    | raised =>
      simp only [hi, hcall] at hnext
      cases hnext
    | passed =>
      simp only [hi, hcall] at hnext
      cases hnext
    | limited family bucket =>
      simp only [hi, hcall] at hnext
      have hstate := Option.some.inj hnext
      have hpending : state'.pending = state.pending.eraseIdx i := by rw [← hstate]
      have hcounters : state'.counters = (pipeline settings state family bucket now).2 := by
        rw [← hstate]
      have hdispatched : state'.dispatched =
          if answered = true ∧ (pipeline settings state family bucket now).1 = none then
            (scope, now) :: state.dispatched
          else state.dispatched := by
        rw [← hstate]
      have hlive := htimely scope now family bucket hi hcall
      constructor
      · intro request hmem
        rw [hpending] at hmem
        exact h.counted request (List.mem_of_mem_eraseIdx hmem)
      · intro family' client window number henabled
        obtain ⟨hstored, hbound⟩ := h.bounded family' client window number henabled
        have hgrow := stored_le_pipeline hlive
          (windowKey settings.keyPrefix family' window client.bucket number)
        rw [hcounters]
        split_ifs at hdispatched with hadmit
        · rw [admitted_of_cons hdispatched]
          split_ifs with hmatch
          · -- the counter is one of the two that have grown
            obtain ⟨hroute, rfl, rfl⟩ := hmatch
            have hcounted := h.counted (scope, now) (List.mem_of_getElem? hi) family' henabled
              hroute
            rw [counted_iff_call, hcall] at hcounted
            obtain ⟨rfl, rfl⟩ := Call.limited.inj (hcounted.resolve_left Call.noConfusion)
            have hself := stored_pipeline_self hlive window
            have hfits := stored_lt_of_pipeline hlive hadmit.2 window
            exact ⟨hself ▸ Nat.succ_le_succ hstored, (Nat.succ_le_succ hstored).trans hfits⟩
          · exact ⟨hstored.trans hgrow, hbound⟩
        · rw [admitted_of_eq hdispatched]
          exact ⟨hstored.trans hgrow, hbound⟩

/-- In every run whose requests are counted in time, the bounds hold in every state. -/
theorem Sound.of_reachable
    (h : ((system checks settings).when (Timely checks settings)).Reachable state) :
    Sound checks settings state := by
  refine h.invariant ?_ ?_
  · intro s hinit
    exact Sound.of_init hinit
  · intro s action s' hs hstep
    obtain ⟨htimely, hstep⟩ := hstep
    cases action with
    | arrive scope now => exact hs.arrive htimely hstep
    | execute i answered => exact hs.execute htimely hstep
    | elapse ms =>
      cases hstep
      exact ⟨hs.counted, hs.bounded⟩

/-! ## Every request to a door -/

/-- The defaults of the settings. -/
def defaultSettings : RateLimitSettings where
  keyPrefix := "ratelimit:".toList
  webhookEnabled := true
  webhookLimit := 60
  webhookBurst := 10
  interactionsCallbackEnabled := true
  interactionsCallbackLimit := 60
  interactionsCallbackBurst := 10
  triggerEnabled := true
  triggerLimit := 60
  triggerBurst := 10
  trustedProxies := []

/-- A `GET` of `/trigger/tok` from an IPv6 peer. -/
def triggerScope (host : Text) : HttpScope where
  target := ⟨.http, host, "/trigger/tok".toList, []⟩
  peer := some "2001:db8::1".toList
  forwarded := ["198.51.100.7".toList]

def latinChecks : NetlocChecks := ⟨fun _ => false, fun _ => true⟩

local instance burst_neZero : NeZero 1 := ⟨by decide⟩

/-- A burst of one. -/
def singleSettings : RateLimitSettings := { defaultSettings with triggerBurst := 1 }

end TaiSkeleton.RateLimit
