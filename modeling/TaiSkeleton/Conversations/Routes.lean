import Mathlib.Data.List.DropRight
import Mathlib.Data.Char
import Mathlib.Data.List.Lex
import Mathlib.Data.List.Sort
import TaiSkeleton.Conversations.Delivery
import TaiSkeleton.Lib.Run

/-!
# The routing table of the conversations

A channel row claims a channel and an identity, up to the white space around it. Creates and
imports read the whole table to see that no other row claims the pair, and then write their rows
one by one; other calls run between.
-/

namespace TaiSkeleton.Conversations

open Lib

/-- The fields of a stored route that the routing reads. -/
structure Route where
  routeName : Text
  door : Door
  channel : Option Text
  ourIdentity : Option Text
deriving DecidableEq

/-- A channel with the canonical form of an identity on it. -/
abbrev Pair := Text × Text

/-- The address without the white space around it; `none` is the `ValueError` of a blank one. -/
def canonicalAddress (value : Text) : Option Text :=
  let trimmed := (value.dropWhile isWhitespace).rdropWhile isWhitespace
  if trimmed = [] then none else some trimmed

theorem canonicalAddress_idem {value identity : Text}
    (h : canonicalAddress value = some identity) :
    canonicalAddress identity = some identity := by
  unfold canonicalAddress at h
  dsimp only at h
  split_ifs at h with hne
  obtain rfl := Option.some.inj h
  have hdrop : ((value.dropWhile isWhitespace).rdropWhile isWhitespace).dropWhile isWhitespace =
      (value.dropWhile isWhitespace).rdropWhile isWhitespace := by
    obtain ⟨t, ht⟩ := List.rdropWhile_prefix isWhitespace (value.dropWhile isWhitespace)
    cases htrim : (value.dropWhile isWhitespace).rdropWhile isWhitespace with
    | nil => rfl
    | cons c cs =>
      have hidem := List.dropWhile_idempotent isWhitespace value
      rw [← ht, htrim, List.cons_append, List.dropWhile_cons] at hidem
      cases hc : isWhitespace c with
      | false => simp [hc]
      | true =>
        have hlen := congrArg List.length hidem
        have hle := (List.dropWhile_suffix isWhitespace (l := cs ++ t)).length_le
        simp only [hc, if_true, List.length_cons] at hlen
        omega
  simp only [canonicalAddress, hdrop, List.rdropWhile_idempotent, hne, if_false]

namespace Route

/-- The pair that a row claims; the outer `none` is the `ValueError` of a blank identity. -/
def channelIdentity (route : Route) : Option (Option Pair) :=
  match route.door, route.channel, route.ourIdentity with
  | .channel, some channel, some ourIdentity =>
    (canonicalAddress ourIdentity).map fun identity => some (channel, identity)
  | _, _, _ => some none

/-- Whether inbound messages to the pair match the row; `none` is the `ValueError`. -/
def isFor (channel identity : Text) (route : Route) : Option Bool :=
  if route.door = .channel ∧ route.channel = some channel then
    match route.ourIdentity with
    | none => some false
    | some ourIdentity => (canonicalAddress ourIdentity).map (· == identity)
  else some false

/-- The row claims the pair. -/
def Claims (route : Route) (pair : Pair) : Prop := route.channelIdentity = some (some pair)

instance (route : Route) (pair : Pair) : Decidable (route.Claims pair) :=
  inferInstanceAs (Decidable (_ = _))

theorem fields_of_claims {route : Route} {pair : Pair} (h : route.Claims pair) :
    ∃ channel ourIdentity, route.channel = some channel ∧ route.ourIdentity = some ourIdentity := by
  unfold Claims channelIdentity at h
  split at h
  · next hchannel hidentity => exact ⟨_, _, hchannel, hidentity⟩
  · cases h

theorem pair_of_claims {route : Route} {pair : Pair} {channel ourIdentity identity : Text}
    (h : route.Claims pair) (hchannel : route.channel = some channel)
    (hidentity : route.ourIdentity = some ourIdentity)
    (hcanon : canonicalAddress ourIdentity = some identity) : pair = (channel, identity) := by
  unfold Claims channelIdentity at h
  rw [hchannel, hidentity] at h
  cases hdoor : route.door with
  | api => simp [hdoor] at h
  | channel => simpa [hdoor, hcanon, eq_comm] using h

theorem isFor_eq_true_iff {channel identity : Text} {route : Route} :
    route.isFor channel identity = some true ↔ route.Claims (channel, identity) := by
  obtain ⟨routeName, door, channel', ourIdentity⟩ := route
  cases door with
  | api => simp [isFor, Claims, channelIdentity]
  | channel =>
    cases channel' with
    | none => simp [isFor, Claims, channelIdentity]
    | some channel' =>
      cases ourIdentity with
      | none => simp [isFor, Claims, channelIdentity]
      | some ourIdentity =>
        by_cases h : channel' = channel
        · subst h
          simp [isFor, Claims, channelIdentity]
        · simp [isFor, Claims, channelIdentity, h]

end Route

/-! ## The table -/

/-- The stored rows in the order of their names, one for each name. -/
structure RouteTable where
  rows : List Route
  nodup : (rows.map Route.routeName).Nodup

namespace RouteTable

/-- The rows of the other names. -/
def others (rows : List Route) (routeName : Text) : List Route :=
  rows.filter fun row => row.routeName ≠ routeName

theorem mem_others {rows : List Route} {routeName : Text} {row : Route} :
    row ∈ others rows routeName ↔ row ∈ rows ∧ row.routeName ≠ routeName := by
  simp [others]

theorem nodup_others {rows : List Route} (h : (rows.map Route.routeName).Nodup)
    (routeName : Text) : ((others rows routeName).map Route.routeName).Nodup :=
  h.sublist (List.filter_sublist.map _)

/-- The script `_PUT_LUA`: the row replaces the one of its name. -/
def put (table : RouteTable) (route : Route) : RouteTable where
  rows := (others table.rows route.routeName).orderedInsert
    (fun a b => a.routeName ≤ b.routeName) route
  nodup := by
    have hperm := (List.perm_orderedInsert (fun a b : Route => a.routeName ≤ b.routeName) route
      (others table.rows route.routeName)).map Route.routeName
    refine hperm.nodup_iff.mpr (List.nodup_cons.mpr ⟨?_, nodup_others table.nodup _⟩)
    rintro hmem
    obtain ⟨row, hrow, hname⟩ := List.mem_map.mp hmem
    exact (mem_others.mp hrow).2 hname

/-- The script `_DELETE_LUA`. -/
def delete (table : RouteTable) (routeName : Text) : RouteTable where
  rows := others table.rows routeName
  nodup := nodup_others table.nodup routeName

theorem mem_put {table : RouteTable} {route row : Route} :
    row ∈ (table.put route).rows ↔
      row = route ∨ row ∈ table.rows ∧ row.routeName ≠ route.routeName := by
  rw [put, List.mem_orderedInsert, mem_others]

end RouteTable

/-- No two rows claim one pair. -/
def Unambiguous (rows : List Route) : Prop :=
  ∀ row ∈ rows, ∀ row' ∈ rows, ∀ pair, row.Claims pair → row'.Claims pair →
    row.routeName = row'.routeName

/-! ## The route of an inbound message -/

/-- The rows that match the pair; `none` is a `ValueError` on the way. -/
def matching (channel identity : Text) : List Route → Option (List Route)
  | [] => some []
  | row :: rows =>
    match row.isFor channel identity with
    | none => none
    | some true => (matching channel identity rows).map (row :: ·)
    | some false => matching channel identity rows

/-- The errors of `_resolve_channel_route`. -/
inductive ResolutionError where
  | noRoute
  | inconsistent
  | invalidAddress
deriving DecidableEq

def resolveChannelRoute (rows : List Route) (channel identity : Text) :
    Except ResolutionError Route :=
  match matching channel identity rows with
  | none => .error .invalidAddress
  | some [] => .error .noRoute
  | some [row] => .ok row
  | some (_ :: _ :: _) => .error .inconsistent

theorem matching_spec {channel identity : Text} {rows found : List Route}
    (h : matching channel identity rows = some found) :
    found.Sublist rows ∧ ∀ row ∈ found, row.Claims (channel, identity) := by
  induction rows generalizing found with
  | nil =>
    obtain rfl := Option.some.inj h
    exact ⟨List.Sublist.refl _, nofun⟩
  | cons row rows ih =>
    unfold matching at h
    split at h
    · cases h
    · next hfor =>
      obtain ⟨found', hfound', rfl⟩ := Option.map_eq_some_iff.mp h
      obtain ⟨hsub, hclaims⟩ := ih hfound'
      refine ⟨hsub.cons_cons row, fun row' hmem => ?_⟩
      obtain rfl | hmem := List.mem_cons.mp hmem
      · exact Route.isFor_eq_true_iff.mp hfor
      · exact hclaims row' hmem
    · obtain ⟨hsub, hclaims⟩ := ih h
      exact ⟨hsub.cons row, hclaims⟩

/-- In a table without conflicts no message is ambiguous. -/
theorem resolveChannelRoute_ne_inconsistent (table : RouteTable) (h : Unambiguous table.rows)
    (channel identity : Text) :
    resolveChannelRoute table.rows channel identity ≠ .error .inconsistent := by
  unfold resolveChannelRoute
  split
  · nofun
  · nofun
  · nofun
  · next row row' rows hmatching =>
    obtain ⟨hsub, hclaims⟩ := matching_spec hmatching
    have hrow : row ∈ row :: row' :: rows := List.mem_cons_self
    have hrow' : row' ∈ row :: row' :: rows := List.mem_cons_of_mem _ List.mem_cons_self
    have hsame : row.routeName = row'.routeName :=
      h row (hsub.subset hrow) row' (hsub.subset hrow') _ (hclaims row hrow) (hclaims row' hrow')
    have hnodup := table.nodup.sublist (hsub.map Route.routeName)
    simp [hsame] at hnodup

/-! ## A create -/

/-- What a create is refused with before its write. -/
inductive Refusal where
  | invalidIdentity
  | alreadyRouted (holder : Text)
  | invalidAddress
deriving DecidableEq

/-- The loop of `_unclaimed_channel_identity` over the rows. -/
def unclaimed (routeName channel identity : Text) : List Route → Except Refusal Text
  | [] => .ok identity
  | row :: rows =>
    if row.routeName = routeName then unclaimed routeName channel identity rows
    else
      match row.isFor channel identity with
      | none => .error .invalidAddress
      | some true => .error (.alreadyRouted row.routeName)
      | some false => unclaimed routeName channel identity rows

def unclaimedChannelIdentity (rows : List Route) (routeName channel ourIdentity : Text) :
    Except Refusal Text :=
  match canonicalAddress ourIdentity with
  | none => .error .invalidIdentity
  | some identity => unclaimed routeName channel identity rows

/-- The row that `create_conversation_route` stores, from its parameters and the table. -/
def storedRoute (rows : List Route) (create : Route) : Except Refusal Route :=
  match create.channel, create.ourIdentity with
  | some channel, some ourIdentity =>
    (unclaimedChannelIdentity rows create.routeName channel ourIdentity).map fun identity =>
      { create with ourIdentity := some identity }
  | _, _ => .ok create

theorem unclaimed_spec {routeName channel identity identity' : Text} {rows : List Route}
    (h : unclaimed routeName channel identity rows = .ok identity') :
    identity' = identity ∧
      ∀ row ∈ rows, row.routeName ≠ routeName → ¬row.Claims (channel, identity) := by
  induction rows with
  | nil =>
    obtain rfl := Except.ok.inj h
    exact ⟨rfl, nofun⟩
  | cons row rows ih =>
    unfold unclaimed at h
    split_ifs at h with hname
    · obtain ⟨heq, hrows⟩ := ih h
      refine ⟨heq, fun row' hmem hother => ?_⟩
      obtain rfl | hmem := List.mem_cons.mp hmem
      · exact absurd hname hother
      · exact hrows row' hmem hother
    · split at h
      · cases h
      · cases h
      · next hfor =>
        obtain ⟨heq, hrows⟩ := ih h
        refine ⟨heq, fun row' hmem hother hclaims => ?_⟩
        obtain rfl | hmem := List.mem_cons.mp hmem
        · rw [Route.isFor_eq_true_iff.mpr hclaims] at hfor
          cases hfor
        · exact hrows row' hmem hother hclaims

/-- What the loop lets through is refused by no row of another name. -/
theorem storedRoute_spec {rows : List Route} {create route : Route}
    (h : storedRoute rows create = .ok route) :
    ∀ pair, route.Claims pair →
      ∀ row ∈ rows, row.routeName ≠ route.routeName → ¬row.Claims pair := by
  unfold storedRoute at h
  split at h
  · next channel ourIdentity hchannel hidentity =>
    unfold unclaimedChannelIdentity at h
    cases hcanon : canonicalAddress ourIdentity with
    | none =>
      rw [hcanon] at h
      cases h
    | some identity =>
      rw [hcanon] at h
      cases hloop : unclaimed create.routeName channel identity rows with
      | error refusal =>
        simp only [hloop] at h
        cases h
      | ok identity' =>
        simp only [hloop] at h
        obtain rfl := Except.ok.inj h
        obtain ⟨rfl, hrows⟩ := unclaimed_spec hloop
        intro pair hclaims row hrow hother
        have hpair : pair = (channel, identity') :=
          Route.pair_of_claims hclaims hchannel rfl (canonicalAddress_idem hcanon)
        rw [hpair]
        exact hrows row hrow hother
  · next hneither =>
    obtain rfl := Except.ok.inj h
    intro pair hclaims
    obtain ⟨channel, ourIdentity, hchannel, hidentity⟩ := Route.fields_of_claims hclaims
    exact absurd hidentity (hneither channel ourIdentity hchannel)

/-! ## An import -/

/-- The holder of each pair, as the dictionary `claimed` keeps it. -/
abbrev Claimed := Pair → Option Text

namespace Claimed

/-- The comprehension over the rows that were read; `none` is a `ValueError` on the way. -/
def ofRows (rows : List Route) : Option Claimed :=
  rows.foldlM (fun claimed row => row.channelIdentity.map fun
    | none => claimed
    | some pair => Function.update claimed pair (some row.routeName)) fun _ => none

/-- Another route holds the pair. -/
def refuses (claimed : Claimed) (routeName : Text) : Option Pair → Bool
  | none => false
  | some pair =>
    match claimed pair with
    | none => false
    | some holder => holder ≠ routeName

/-- The pairs that the route held are free, and it holds the one of its new row. -/
def move (claimed : Claimed) (routeName : Text) (pair? : Option Pair) : Claimed :=
  let freed : Claimed := fun pair => (claimed pair).filter (· ≠ routeName)
  match pair? with
  | none => freed
  | some pair => Function.update freed pair (some routeName)

end Claimed

namespace Claimed

@[simp]
theorem move_self (claimed : Claimed) (routeName : Text) (pair : Pair) :
    claimed.move routeName (some pair) pair = some routeName := by
  simp [move]

theorem move_of_ne (claimed : Claimed) (routeName : Text) {pair : Pair} {pair? : Option Pair}
    (h : pair? ≠ some pair) :
    claimed.move routeName pair? pair = (claimed pair).filter (· ≠ routeName) := by
  cases pair? with
  | none => rfl
  | some pair' =>
    have hne : pair ≠ pair' := by
      rintro rfl
      exact h rfl
    simp only [move, Function.update_of_ne hne]

end Claimed

/-- What an import does with an item. -/
inductive Verdict where
  | skips
  | raises
  | writes (route : Route)

/-- The checks of an item, `none` where it is no valid route; `usable` is the verdict on its key. -/
def Claimed.judge (claimed : Claimed) (usable : Bool) : Option Route → Verdict
  | none => .skips
  | some route =>
    if usable then
      match route.channelIdentity with
      | none => .raises
      | some pair? => if claimed.refuses route.routeName pair? then .skips else .writes route
    else .skips

namespace Claimed

variable {claimed : Claimed} {usable : Bool} {item : Option Route} {route : Route} {pair : Pair}

/-- A row that is written claims a pair that is free or held by its own name. -/
theorem of_writes (h : claimed.judge usable item = .writes route) :
    item = some route ∧ ∃ pair?, route.channelIdentity = some pair? ∧
      claimed.refuses route.routeName pair? = false := by
  unfold judge at h
  split at h
  · cases h
  · split_ifs at h with husable
    split at h
    · cases h
    · next pair? hpair =>
      split_ifs at h with hrefuses
      injection h with h
      subst h
      exact ⟨rfl, pair?, hpair, by simpa using hrefuses⟩

theorem holder_of_writes (h : claimed.judge usable item = .writes route)
    (hclaims : route.Claims pair) {holder : Text} (hholder : claimed pair = some holder) :
    holder = route.routeName := by
  obtain ⟨-, pair?, hpair, hrefuses⟩ := of_writes h
  rw [hclaims] at hpair
  obtain rfl := Option.some.inj hpair
  simpa [refuses, hholder] using hrefuses

/-- Each row is the holder of the pair that it claims. -/
def Covers (claimed : Claimed) (rows : List Route) : Prop :=
  ∀ row ∈ rows, ∀ pair, row.Claims pair → claimed pair = some row.routeName

theorem foldlM_spec {rows : List Route} {start : Claimed}
    (h : (rows.foldlM (fun claimed row => row.channelIdentity.map fun
      | none => claimed
      | some pair => Function.update claimed pair (some row.routeName)) start) = some claimed) :
    (∀ row ∈ rows, ∀ pair, row.Claims pair →
      ∃ row' ∈ rows, row'.Claims pair ∧ claimed pair = some row'.routeName) ∧
    ∀ pair, (∀ row ∈ rows, ¬row.Claims pair) → claimed pair = start pair := by
  induction rows generalizing start with
  | nil =>
    obtain rfl := Option.some.inj h
    exact ⟨nofun, fun pair _ => rfl⟩
  | cons first rows ih =>
    rw [List.foldlM_cons] at h
    obtain ⟨next, hnext, hrest⟩ := Option.bind_eq_some_iff.mp h
    obtain ⟨pair?, hpair, hnext⟩ := Option.map_eq_some_iff.mp hnext
    obtain ⟨hclaimed, hsame⟩ := ih hrest
    refine ⟨fun row hrow pair hclaims => ?_, fun pair hnone => ?_⟩
    · by_cases hlater : ∃ later ∈ rows, later.Claims pair
      · obtain ⟨later, hlater, hclaims'⟩ := hlater
        obtain ⟨row', hrow', hrest'⟩ := hclaimed later hlater pair hclaims'
        exact ⟨row', List.mem_cons_of_mem _ hrow', hrest'⟩
      · push Not at hlater
        obtain rfl | hrow := List.mem_cons.mp hrow
        · refine ⟨row, List.mem_cons_self, hclaims, ?_⟩
          rw [hsame pair hlater]
          rw [hclaims] at hpair
          obtain rfl := Option.some.inj hpair
          subst hnext
          exact Function.update_self ..
        · exact absurd hclaims (hlater row hrow)
    · rw [hsame pair fun row hrow => hnone row (List.mem_cons_of_mem _ hrow)]
      subst hnext
      cases pair? with
      | none => rfl
      | some pair' =>
        refine Function.update_of_ne ?_ _ _
        rintro rfl
        exact hnone first List.mem_cons_self hpair

/-- Read from a table without conflicts, the claims cover its rows. -/
theorem covers_ofRows {rows : List Route} (hrows : Unambiguous rows)
    (h : ofRows rows = some claimed) : claimed.Covers rows := by
  intro row hrow pair hclaims
  obtain ⟨row', hrow', hclaims', hclaimed⟩ := (foldlM_spec h).1 row hrow pair hclaims
  rw [hclaimed, hrows row hrow row' hrow' pair hclaims hclaims']

/-- The claims keep covering the rows when a row that is not refused is written. -/
theorem Covers.move {known : RouteTable} (h : claimed.Covers known.rows)
    (hwrites : claimed.judge usable item = .writes route) :
    (claimed.move route.routeName (route.channelIdentity.getD none)).Covers
      (known.put route).rows := by
  obtain ⟨-, pair?, hpair, -⟩ := of_writes hwrites
  intro row hrow pair hclaims
  rw [hpair]
  obtain rfl | ⟨hrow, hother⟩ := RouteTable.mem_put.mp hrow
  · rw [hclaims] at hpair
    obtain rfl := Option.some.inj hpair
    exact move_self ..
  · have hholder : claimed pair = some row.routeName := h row hrow pair hclaims
    have hkept : (claimed pair).filter (· ≠ route.routeName) = some row.routeName := by
      rw [hholder]
      simpa using hother
    rw [Option.getD_some, move_of_ne, hkept]
    rintro rfl
    exact hother (holder_of_writes hwrites hpair hholder)

end Claimed

end TaiSkeleton.Conversations
