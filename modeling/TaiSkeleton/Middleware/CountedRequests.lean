import TaiSkeleton.Middleware.RateLimit

/-!
# Which requests of a public door are counted

The router matches the path of the scope, the limiter reads the path of `conn.url`, which begins
where the `Host` header ends; a header with a `/`, `?` or `#` moves the beginning. Of several
`X-Forwarded-For` lines the limiter reads the first.
-/

namespace TaiSkeleton.RateLimit

open Lib
open AccessControl (Target NetlocChecks isKeptUrlByte isNetlocChar isUrlPathChar urlPath_eq
  location_eq not_netloc_of_not_urlPath)

variable {settings : RateLimitSettings} {checks : NetlocChecks} {scope : HttpScope}
  {family family' : PublicFamily} {window window' : Window} {path bucket bucket' : Text}
  {number number' : ℤ}

/-! ## Keys -/

theorem intText_injective : Function.Injective intText := by
  have hminus : ∀ n, '-' ∉ Nat.toDigits 10 n := by
    intro n h
    obtain ⟨d, hd, heq⟩ := exists_of_mem_toDigits (by decide) h
    exact absurd heq ((show ∀ d < 10, '-' ≠ Nat.digitChar d by decide) d hd)
  intro n n' h
  cases n with
  | ofNat n =>
    cases n' with
    | ofNat n' => exact congrArg Int.ofNat (toDigits_injective (by decide) (by decide) h)
    | negSucc n' =>
      have heq : Nat.toDigits 10 n = '-' :: Nat.toDigits 10 (n' + 1) := h
      refine absurd ?_ (hminus n)
      rw [heq]
      exact List.mem_cons_self
  | negSucc n =>
    cases n' with
    | ofNat n' =>
      have heq : '-' :: Nat.toDigits 10 (n + 1) = Nat.toDigits 10 n' := h
      refine absurd ?_ (hminus n')
      rw [← heq]
      exact List.mem_cons_self
    | negSucc n' =>
      have hdigits := List.tail_eq_of_cons_eq h
      exact congrArg Int.negSucc (Nat.succ.inj
        (toDigits_injective (by decide) (by decide) hdigits))

theorem colon_not_mem_intText (number : ℤ) : ':' ∉ intText number := by
  have hdigits : ∀ n, ':' ∉ Nat.toDigits 10 n := by
    intro n h
    obtain ⟨d, hd, heq⟩ := exists_of_mem_toDigits (by decide) h
    exact absurd heq ((show ∀ d < 10, ':' ≠ Nat.digitChar d by decide) d hd)
  cases number with
  | ofNat n => exact hdigits n
  | negSucc n =>
    intro h
    rcases List.mem_cons.mp h with h | h
    · exact absurd h (by decide)
    · exact hdigits _ h

/-- The counters of different doors, windows and buckets are different keys. -/
theorem windowKey_injective {keyPrefix : Text}
    (h : windowKey keyPrefix family window bucket number =
      windowKey keyPrefix family' window' bucket' number') :
    family = family' ∧ window = window' ∧ bucket = bucket' ∧ number = number' := by
  have hname : ∀ family : PublicFamily, ':' ∉ family.name := by
    intro family
    cases family <;> decide
  unfold windowKey at h
  simp only [List.append_assoc, List.append_cancel_left_eq, List.cons_append, List.nil_append] at h
  obtain ⟨hfamily, hrest⟩ := append_cons_inj (hname family) (hname family') h
  rw [List.cons.injEq] at hrest
  obtain ⟨hmark, hrest⟩ := hrest
  obtain ⟨hbucket, hnumber⟩ := append_cons_inj_right (colon_not_mem_intText number)
    (colon_not_mem_intText number') (List.tail_eq_of_cons_eq hrest)
  refine ⟨?_, ?_, hbucket, intText_injective hnumber⟩
  · cases family <;> cases family' <;> first | rfl | exact absurd hfamily (by decide)
  · cases window <;> cases window' <;> first | rfl | exact absurd hmark (by decide)

theorem counters_eq_iff {keyPrefix : Text} {c : Call} :
    (∀ now, c.counters keyPrefix now =
      (Call.limited family bucket).counters keyPrefix now) ↔ c = .limited family bucket := by
  constructor
  · intro h
    cases c with
    | raised => cases h 0
    | passed => cases h 0
    | limited family' bucket' =>
      have hkeys := h 0
      unfold Call.counters at hkeys
      rw [List.cons.injEq] at hkeys
      obtain ⟨rfl, -, rfl, -⟩ := windowKey_injective hkeys.1
      rfl
  · rintro rfl now
    rfl

/-! ## Doors -/

/-- A path is of one door at most. -/
theorem eq_of_routePrefix (h : family.routePrefix <+: path) (h' : family'.routePrefix <+: path) :
    family = family' := by
  have hor := List.prefix_or_prefix_of_prefix h h'
  cases family <;> cases family' <;> first | rfl | exact absurd hor (by decide)

theorem familyOf_eq_some : familyOf path settings = some family ↔
    family.routePrefix <+: path ∧ family.enabled settings = true := by
  unfold familyOf
  constructor
  · intro h
    split_ifs at h with hwebhook henabled hcallback henabled htrigger henabled
    · cases h
      exact ⟨hwebhook, henabled⟩
    · cases h
      exact ⟨hcallback, henabled⟩
    · cases h
      exact ⟨htrigger, henabled⟩
  · rintro ⟨hroute, henabled⟩
    have hothers : ∀ other, other ≠ family → ¬ other.routePrefix <+: path :=
      fun other hne h => hne (eq_of_routePrefix h hroute)
    cases family with
    | webhook =>
      rw [if_pos hroute]
      exact if_pos henabled
    | interactionsCallback =>
      rw [if_neg (hothers .webhook (by decide)), if_pos hroute]
      exact if_pos henabled
    | trigger =>
      rw [if_neg (hothers .webhook (by decide)), if_neg (hothers .interactionsCallback (by decide)),
        if_pos hroute]
      exact if_pos henabled

/-! ## The path of the URL -/

/-- What stands behind the network location: what the `Host` header has from its first `/`, `?` or
`#` on, and the path. -/
def afterHost (target : Target) : Text :=
  (target.host.filter isKeptUrlByte).dropWhile isNetlocChar ++ target.path.filter isKeptUrlByte

theorem routePrefix_filter (hroute : family.routePrefix <+: path) :
    family.routePrefix <+: path.filter isKeptUrlByte := by
  have hkept : family.routePrefix.filter isKeptUrlByte = family.routePrefix := by
    cases family <;> decide
  rw [← hkept]
  exact hroute.filter _

theorem isUrlPathChar_of_mem {c : Char} (h : c ∈ family.routePrefix) : isUrlPathChar c = true := by
  have hall : family.routePrefix.all isUrlPathChar = true := by
    cases family <;> rfl
  exact List.all_eq_true.mp hall c h

theorem routePrefix_takeWhile : family.routePrefix <+: path.takeWhile isUrlPathChar ↔
    family.routePrefix <+: path := by
  constructor
  · exact fun h => h.trans (List.takeWhile_prefix _)
  · rintro ⟨rest, rfl⟩
    rw [List.takeWhile_append_of_pos fun c => isUrlPathChar_of_mem]
    exact List.prefix_append _ _

theorem dropWhile_location (hroute : family.routePrefix <+: scope.target.path) :
    ∃ query, scope.target.location.dropWhile isNetlocChar = afterHost scope.target ++ query ∧
      ∀ c ∈ query.head?, isUrlPathChar c = false := by
  obtain ⟨query, hlocation, hquery⟩ := location_eq scope.target
  refine ⟨query, ?_, hquery⟩
  unfold afterHost
  rw [hlocation, List.append_assoc, List.dropWhile_append]
  split_ifs with hempty
  · -- the path begins with a slash, and that ends the network location
    obtain ⟨rest, hrest⟩ := routePrefix_filter hroute
    rw [List.isEmpty_iff.mp hempty, ← hrest]
    cases family <;> rfl
  · rw [List.append_assoc]

/-- The doors whose path the limiter reads on a request to a door. -/
theorem routePrefix_urlPath (hroute : family.routePrefix <+: scope.target.path) :
    family'.routePrefix <+: (scope.target.location.dropWhile isNetlocChar).takeWhile isUrlPathChar ↔
      family'.routePrefix <+: afterHost scope.target := by
  obtain ⟨query, hdrop, hquery⟩ := dropWhile_location hroute
  rw [routePrefix_takeWhile, hdrop]
  constructor
  · rintro ⟨rest, hrest⟩
    rcases List.append_eq_append_iff.mp hrest with ⟨more, hmore, -⟩ | ⟨more, hmore, hcut⟩
    · rw [hmore]
      exact List.prefix_append _ _
    · -- it does not reach into the query
      cases more with
      | nil =>
        rw [hmore, List.append_nil]
      | cons c more =>
        have hmem : c ∈ family'.routePrefix := by
          rw [hmore]
          exact List.mem_append_right _ List.mem_cons_self
        have hhead := hquery c (by rw [hcut]; rfl)
        rw [isUrlPathChar_of_mem hmem] at hhead
        cases hhead
  · exact fun h => h.trans (List.prefix_append _ _)

theorem call_eq_raised_iff : call checks settings scope = .raised ↔
    checks.admits scope.target.netloc = false := by
  unfold call
  rw [urlPath_eq]
  split_ifs with hadmits
  · dsimp only
    rw [hadmits]
    cases familyOf _ settings <;> simp
  · simpa using hadmits

theorem call_eq_limited_iff (hroute : family.routePrefix <+: scope.target.path) :
    call checks settings scope = .limited family' bucket ↔
      checks.admits scope.target.netloc = true ∧
        family'.routePrefix <+: afterHost scope.target ∧ family'.enabled settings = true ∧
        clientBucket scope settings.trustedProxies = bucket := by
  rw [← routePrefix_urlPath hroute, ← and_assoc (a := family'.routePrefix <+: _),
    ← familyOf_eq_some]
  unfold call
  rw [urlPath_eq]
  split_ifs with hadmits
  · dsimp only
    cases familyOf _ settings <;> simp [hadmits]
  · simp [hadmits]

/-! ## The client of a request -/

/-- The hops of all lines, which a list-valued header is read as. -/
def HttpScope.allHops (scope : HttpScope) : List Text := scope.forwarded.flatMap forwardedHops

/-- The client of a request: the peer, or behind a trusted proxy the right-most forwarded hop that
is no trusted proxy, if there is one. -/
inductive HttpScope.IsClient (scope : HttpScope) (trustedProxies : List Text) : Text → Prop where
  | peer (h : scope.peerHost ∉ trustedProxies) : IsClient scope trustedProxies scope.peerHost
  | hop {front back : List Text} {ip : Text} (h : scope.peerHost ∈ trustedProxies)
      (hops : scope.allHops = front ++ ip :: back) (untrusted : ip ∉ trustedProxies)
      (trusted : ∀ hop ∈ back, hop ∈ trustedProxies) : IsClient scope trustedProxies ip
  | noHop (h : scope.peerHost ∈ trustedProxies)
      (trusted : ∀ hop ∈ scope.allHops, hop ∈ trustedProxies) :
      IsClient scope trustedProxies scope.peerHost

def HttpScope.client (scope : HttpScope) (trustedProxies : List Text) : Client :=
  clientOf (clientIp trustedProxies scope.peerHost scope.allHops)

variable {trustedProxies hops : List Text} {ip : Text}

theorem lastUntrusted_eq_some : lastUntrusted trustedProxies hops = some ip ↔
    ip ∉ trustedProxies ∧ ∃ front back, hops = front ++ ip :: back ∧
      ∀ hop ∈ back, hop ∈ trustedProxies := by
  unfold lastUntrusted
  rw [List.find?_eq_some_iff_append, decide_eq_true_eq]
  refine and_congr_right fun _ => ?_
  constructor
  · rintro ⟨back, front, heq, htrusted⟩
    refine ⟨front.reverse, back.reverse, ?_, fun hop hmem => ?_⟩
    · simpa using congrArg List.reverse heq
    · simpa using htrusted hop (List.mem_reverse.mp hmem)
  · rintro ⟨front, back, rfl, htrusted⟩
    refine ⟨back.reverse, front.reverse, by simp, fun hop hmem => ?_⟩
    simpa using htrusted hop (List.mem_reverse.mp hmem)

theorem lastUntrusted_eq_none : lastUntrusted trustedProxies hops = none ↔
    ∀ hop ∈ hops, hop ∈ trustedProxies := by
  unfold lastUntrusted
  rw [List.find?_eq_none]
  simp

theorem isClient_iff : scope.IsClient trustedProxies ip ↔
    ip = clientIp trustedProxies scope.peerHost scope.allHops := by
  unfold clientIp
  split_ifs with hpeer
  · cases hlast : lastUntrusted trustedProxies scope.allHops with
    | none =>
      have htrusted := lastUntrusted_eq_none.mp hlast
      rw [Option.getD_none]
      constructor
      · intro h
        cases h with
        | peer h => rfl
        | hop h hops untrusted trusted =>
          have hmem : ip ∈ scope.allHops := by
            rw [hops]
            exact List.mem_append_right _ List.mem_cons_self
          exact absurd (htrusted ip hmem) untrusted
        | noHop h trusted => rfl
      · rintro rfl
        exact .noHop hpeer htrusted
    | some hop =>
      rw [Option.getD_some]
      constructor
      · intro h
        cases h with
        | peer h => exact absurd hpeer h
        | hop h hops untrusted trusted =>
          rw [lastUntrusted_eq_some.mpr ⟨untrusted, _, _, hops, trusted⟩] at hlast
          exact Option.some.inj hlast
        | noHop h trusted =>
          rw [lastUntrusted_eq_none.mpr trusted] at hlast
          cases hlast
      · rintro rfl
        obtain ⟨huntrusted, front, back, hhops, htrusted⟩ := lastUntrusted_eq_some.mp hlast
        exact .hop hpeer hhops huntrusted htrusted
  · constructor
    · intro h
      cases h with
      | peer h => rfl
      | hop h hops untrusted trusted => exact absurd h hpeer
      | noHop h trusted => exact absurd h hpeer
    · rintro rfl
      exact .peer hpeer

/-! ## Which requests are counted -/

/-- A request to a door increments the two counters of the door for its client, where `urlsplit`
lets it through. -/
def Counted (checks : NetlocChecks) (settings : RateLimitSettings) (scope : HttpScope)
    (family : PublicFamily) : Prop :=
  call checks settings scope = .raised ∨ ∃ ip, scope.IsClient settings.trustedProxies ip ∧
    ∀ now, (call checks settings scope).counters settings.keyPrefix now =
      [windowKey settings.keyPrefix family .minute (bucketIp ip) (Window.minute.number now),
        windowKey settings.keyPrefix family .slot (bucketIp ip) (Window.slot.number now)]

/-- A line behind the first that has an untrusted hop has that of the same client. -/
def SameHop (scope : HttpScope) (trustedProxies : List Text) : Prop :=
  scope.peerHost ∈ trustedProxies →
    ∀ hop ∈ lastUntrusted trustedProxies (scope.forwarded.tail.flatMap forwardedHops),
      clientOf hop =
        clientOf ((lastUntrusted trustedProxies scope.firstHops).getD scope.peerHost)

/-- `urlsplit` refuses the host, or what stands behind it begins with the path of the door, and
the first line of forwarded hops decides. -/
def CountedWhen (checks : NetlocChecks) (settings : RateLimitSettings) (scope : HttpScope)
    (family : PublicFamily) : Prop :=
  checks.admits scope.target.netloc = false ∨
    family.routePrefix <+: afterHost scope.target ∧ SameHop scope settings.trustedProxies

theorem allHops_eq : scope.allHops =
    scope.firstHops ++ scope.forwarded.tail.flatMap forwardedHops := by
  unfold HttpScope.allHops HttpScope.firstHops
  cases scope.forwarded with
  | nil => rfl
  | cons line lines => rfl

theorem sameHop_iff : SameHop scope trustedProxies ↔
    clientOf (clientIp trustedProxies scope.peerHost scope.firstHops) =
      scope.client trustedProxies := by
  unfold SameHop HttpScope.client clientIp
  by_cases hpeer : scope.peerHost ∈ trustedProxies
  · rw [if_pos hpeer, if_pos hpeer, allHops_eq]
    unfold lastUntrusted
    rw [List.reverse_append, List.find?_append]
    cases List.find? (fun hop => decide (hop ∉ trustedProxies))
        (scope.forwarded.tail.flatMap forwardedHops).reverse with
    | none => simp
    | some hop =>
      simp only [hpeer, forall_const, Option.mem_def, Option.some.injEq, forall_eq',
        Option.some_or, Option.getD_some]
      exact eq_comm
  · rw [if_neg hpeer, if_neg hpeer]
    exact iff_of_true (fun h => absurd h hpeer) rfl

theorem counted_iff_call : Counted checks settings scope family ↔
    call checks settings scope = .raised ∨
      call checks settings scope =
        .limited family (scope.client settings.trustedProxies).bucket := by
  unfold Counted
  refine or_congr_right ?_
  have hbucket : bucketIp (clientIp settings.trustedProxies scope.peerHost scope.allHops) =
      (scope.client settings.trustedProxies).bucket := bucketIp_eq _
  rw [← hbucket]
  constructor
  · rintro ⟨ip, hip, hcounters⟩
    rw [isClient_iff] at hip
    rw [← hip]
    exact counters_eq_iff.mp hcounters
  · intro h
    exact ⟨_, isClient_iff.mpr rfl, counters_eq_iff.mpr h⟩

/-- The requests to an enabled door that are counted. -/
theorem counted_iff (henabled : family.enabled settings = true)
    (hroute : family.routePrefix <+: scope.target.path) :
    Counted checks settings scope family ↔ CountedWhen checks settings scope family := by
  have hclient : clientBucket scope settings.trustedProxies =
      (scope.client settings.trustedProxies).bucket ↔ SameHop scope settings.trustedProxies := by
    rw [sameHop_iff]
    unfold HttpScope.client
    rw [← bucketIp_eq, ← bucketIp_eq_iff]
    rfl
  rw [counted_iff_call, call_eq_raised_iff, call_eq_limited_iff hroute, hclient]
  unfold CountedWhen
  cases checks.admits scope.target.netloc <;> simp [henabled]

end TaiSkeleton.RateLimit
