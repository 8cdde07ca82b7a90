import TaiSkeleton.Middleware.ClientBucket
import Mathlib.Data.PNat.Defs
import Mathlib.Algebra.Order.Floor.Ring
import Mathlib.Data.Rat.Floor

/-!
# The rate limiter of the public doors

A request is counted for the door that the path of `conn.url` leads to, in the bucket of the peer,
or of a forwarded hop where the peer is a trusted proxy. Two counters are kept for each door and
bucket: one for a clock minute and one for a slot of ten seconds.
-/

namespace TaiSkeleton.RateLimit

open Lib
open AccessControl (Target NetlocChecks strip isKeptUrlByte isNetlocChar isUrlPathChar)

/-! ## The doors -/

inductive PublicFamily where
  | webhook | interactionsCallback | trigger
deriving DecidableEq

namespace PublicFamily

/-- `_WEBHOOK_PREFIX`, `_CALLBACK_PREFIX` and `_TRIGGER_PREFIX` -/
def routePrefix : PublicFamily → Text
  | webhook => "/universal_webhook/".toList
  | interactionsCallback => "/api/interactions/callback/".toList
  | trigger => "/trigger/".toList

def name : PublicFamily → Text
  | webhook => "webhook".toList
  | interactionsCallback => "interactions_callback".toList
  | trigger => "trigger".toList

end PublicFamily

structure RateLimitSettings where
  keyPrefix : Text
  webhookEnabled : Bool
  webhookLimit : ℕ+
  webhookBurst : ℕ+
  interactionsCallbackEnabled : Bool
  interactionsCallbackLimit : ℕ+
  interactionsCallbackBurst : ℕ+
  triggerEnabled : Bool
  triggerLimit : ℕ+
  triggerBurst : ℕ+
  trustedProxies : List Text

namespace PublicFamily

variable (settings : RateLimitSettings)

def enabled : PublicFamily → Bool
  | webhook => settings.webhookEnabled
  | interactionsCallback => settings.interactionsCallbackEnabled
  | trigger => settings.triggerEnabled

def limit : PublicFamily → ℕ+
  | webhook => settings.webhookLimit
  | interactionsCallback => settings.interactionsCallbackLimit
  | trigger => settings.triggerLimit

def burst : PublicFamily → ℕ+
  | webhook => settings.webhookBurst
  | interactionsCallback => settings.interactionsCallbackBurst
  | trigger => settings.triggerBurst

end PublicFamily

/-- `_family` -/
def familyOf (path : Text) (settings : RateLimitSettings) : Option PublicFamily :=
  if PublicFamily.webhook.routePrefix <+: path then
    if settings.webhookEnabled then some .webhook else none
  else if PublicFamily.interactionsCallback.routePrefix <+: path then
    if settings.interactionsCallbackEnabled then some .interactionsCallback else none
  else if PublicFamily.trigger.routePrefix <+: path then
    if settings.triggerEnabled then some .trigger else none
  else none

/-! ## The client -/

/-- What the limiter reads of an http scope. -/
structure HttpScope where
  target : Target
  /-- `conn.client.host` -/
  peer : Option Text
  /-- The lines of `X-Forwarded-For`. -/
  forwarded : List Text

def forwardedHops (line : Text) : List Text :=
  ((line.splitOn ',').map strip).filter (· ≠ [])

local instance hop_lawful : LawfulBEq (List Char) := inferInstance

/-- The right-most hop that is not a trusted proxy. -/
def lastUntrusted (trustedProxies hops : List Text) : Option Text :=
  hops.reverse.find? (· ∉ trustedProxies)

def clientIp (trustedProxies : List Text) (peer : Text) (hops : List Text) : Text :=
  if peer ∈ trustedProxies then (lastUntrusted trustedProxies hops).getD peer else peer

def HttpScope.peerHost (scope : HttpScope) : Text := scope.peer.getD "unknown".toList

/-- The hops that `headers.get` gives: those of the first line. -/
def HttpScope.firstHops (scope : HttpScope) : List Text :=
  forwardedHops (scope.forwarded.head?.getD [])

/-- `_client_bucket` -/
def clientBucket (scope : HttpScope) (trustedProxies : List Text) : Text :=
  bucketIp (clientIp trustedProxies scope.peerHost scope.firstHops)

/-! ## The counters -/

inductive Window where
  | minute | slot
deriving DecidableEq

namespace Window

def seconds : Window → ℕ
  | minute => 60
  | slot => 10

def mark : Window → Char
  | minute => 'm'
  | slot => 's'

/-- `int(now // 60)` and `int(now // 10)` -/
def number (window : Window) (now : ℚ) : ℤ := ⌊now / window.seconds⌋

/-- The time to live of its keys, in milliseconds. -/
def ttl : Window → ℤ
  | minute => 120000
  | slot => 20000

def bound (settings : RateLimitSettings) (family : PublicFamily) : Window → ℕ+
  | minute => family.limit settings
  | slot => family.burst settings

end Window

/-- `str(n)` -/
def intText : ℤ → Text
  | .ofNat n => Nat.toDigits 10 n
  | .negSucc n => '-' :: Nat.toDigits 10 (n + 1)

/-- `m_key` and `s_key` -/
def windowKey (keyPrefix : Text) (family : PublicFamily) (window : Window) (bucket : Text)
    (number : ℤ) : Text :=
  keyPrefix ++ "rl:".toList ++ family.name ++ [':', window.mark, ':'] ++ bucket ++ [':'] ++
    intText number

/-- `Retry-After`, where either count is over its limit. -/
def retryAfter (limit burst : ℕ+) (now : ℚ) (mCount sCount : ℕ) : Option ℤ :=
  if limit < mCount then some (max 1 ⌈((Window.minute.number now + 1) * 60 : ℚ) - now⌉)
  else if burst < sCount then some (max 1 ⌈((Window.slot.number now + 1) * 10 : ℚ) - now⌉)
  else none

/-! ## A request -/

inductive Call where
  /-- `urlsplit` raises: the request is not dispatched. -/
  | raised
  /-- No door, or one that is turned off. -/
  | passed
  | limited (family : PublicFamily) (bucket : Text)
deriving DecidableEq

/-- `RateLimitMiddleware.__call__`, up to the counters. -/
def call (checks : NetlocChecks) (settings : RateLimitSettings) (scope : HttpScope) : Call :=
  match scope.target.urlPath checks with
  | .error _ => .raised
  | .ok path =>
    match familyOf path settings with
    | none => .passed
    | some family => .limited family (clientBucket scope settings.trustedProxies)

/-- The counters that a request at a reading of the clock increments. -/
def Call.counters (keyPrefix : Text) (now : ℚ) : Call → List Text
  | limited family bucket =>
    [windowKey keyPrefix family .minute bucket (Window.minute.number now),
      windowKey keyPrefix family .slot bucket (Window.slot.number now)]
  | _ => []

end TaiSkeleton.RateLimit
