import Mathlib.Algebra.GroupWithZero.Nat
import TaiSkeleton.Lib.Numerals
import TaiSkeleton.Lib.Split
import Mathlib.Data.List.DropRight

/-!
# Addresses as texts

What `ipaddress` reads as an IPv4 or an IPv6 address, and the texts it writes for them. An IPv4
address has one text, an IPv6 address has many; the text of a network of 64 bits is one of them.
-/

namespace TaiSkeleton.RateLimit

open Lib

abbrev Text := List Char

/-! ## IPv4 -/

abbrev Octet := Fin 256

structure IPv4Address where
  octets : List Octet
  length_eq : octets.length = 4
deriving DecidableEq

/-- `_parse_octet` -/
def parseOctet (octet : Text) : Option Octet :=
  if octet ≠ [] ∧ octet.all Char.isDigit ∧ octet.length ≤ 3 ∧
      ¬ (octet ≠ ['0'] ∧ octet.head? = some '0') ∧ numeralValue 10 octet ≤ 255 then
    some (Fin.ofNat 256 (numeralValue 10 octet))
  else none

/-- `IPv4Address(text)` -/
def ipv4Address (text : Text) : Option IPv4Address :=
  if '/' ∈ text then none
  else match (text.splitOn '.').mapM parseOctet with
    | some octets => if h : octets.length = 4 then some ⟨octets, h⟩ else none
    | none => none

/-- `str(ip)` -/
def IPv4Address.text (ip : IPv4Address) : Text :=
  ['.'].intercalate (ip.octets.map fun octet => Nat.toDigits 10 octet.val)

/-! ## IPv6 -/

abbrev Hextet := Fin 65536

instance hextet_neZero : NeZero 65536 := ⟨by decide⟩

structure IPv6Address where
  hextets : List Hextet
  length_eq : hextets.length = 8
deriving DecidableEq

def isHexDigit (c : Char) : Bool :=
  c.isDigit || ('a' ≤ c && c ≤ 'f') || ('A' ≤ c && c ≤ 'F')

/-- `_parse_hextet` -/
def parseHextet (hextet : Text) : Option Hextet :=
  if hextet.all isHexDigit ∧ hextet.length ≤ 4 ∧ hextet ≠ [] then
    some (Fin.ofNat 65536 (numeralValue 16 hextet))
  else none

/-- `_split_scope_id`; the scope does not count for the bucket. -/
def splitScopeId (text : Text) : Option Text :=
  let scope := text.dropWhile (· ≠ '%')
  if scope = [] then some text
  else if scope.tail = [] ∨ '%' ∈ scope.tail then none
  else some (text.takeWhile (· ≠ '%'))

def hexText (hextet : Hextet) : Text := Nat.toDigits 16 hextet.val

/-- The parts with the hextets of an IPv4 suffix. -/
def expandSuffix (parts : List Text) : Option (List Text) :=
  if '.' ∈ parts.getLast?.getD [] then
    match ipv4Address (parts.getLast?.getD []) with
    | some ip =>
      match ip.octets with
      | [a, b, c, d] => some (parts.dropLast ++
          [Nat.toDigits 16 (a.val * 256 + b.val), Nat.toDigits 16 (c.val * 256 + d.val)])
      | _ => none
    | none => none
  else some parts

/-- Where a `::` stands, disregarding the ends. -/
def skipIndexes (parts : List Text) : List ℕ :=
  (List.range parts.length).filter fun i =>
    0 < i && i + 1 < parts.length && parts[i]? == some []

/-- The hextets before and behind the zeros that a `::` at an index stands for. -/
def parseSkipped (parts : List Text) (skipIndex : ℕ) : Option (List Hextet) :=
  let partsHi := if parts.head? = some [] then skipIndex - 1 else skipIndex
  let partsLo := parts.length - skipIndex - 1
  let partsLo' := if parts.getLast? = some [] then partsLo - 1 else partsLo
  if parts.head? = some [] ∧ partsHi ≠ 0 then none
  else if parts.getLast? = some [] ∧ partsLo' ≠ 0 then none
  else if 8 ≤ partsHi + partsLo' then none
  else
    match (parts.take partsHi).mapM parseHextet,
      (parts.drop (parts.length - partsLo')).mapM parseHextet with
    | some hi, some lo => some (hi ++ List.replicate (8 - (partsHi + partsLo')) 0 ++ lo)
    | _, _ => none

/-- `_ip_int_from_string` -/
def hextetsOf (text : Text) : Option (List Hextet) :=
  let parts := text.splitOn ':'
  if text = [] ∨ parts.length < 3 then none
  else match expandSuffix parts with
    | none => none
    | some parts =>
      if 9 < parts.length then none
      else match skipIndexes parts with
        | [] =>
          if parts.length ≠ 8 ∨ parts.head? = some [] ∨ parts.getLast? = some [] then none
          else parts.mapM parseHextet
        | [skipIndex] => parseSkipped parts skipIndex
        | _ => none

/-- `IPv6Address(text)` -/
def ipv6Address (text : Text) : Option IPv6Address :=
  if '/' ∈ text then none
  else match (splitScopeId text).bind hextetsOf with
    | some hextets => if h : hextets.length = 8 then some ⟨hextets, h⟩ else none
    | none => none

/-- A run of zeros that `_compress_hextets` has met. -/
structure ZeroRun where
  start : ℕ
  length : ℕ
deriving DecidableEq

/-- The loop of `_compress_hextets`: the run at hand and the best one. -/
def longestZeros : ℕ → List Text → Option ZeroRun → ZeroRun → ZeroRun
  | _, [], _, best => best
  | index, hextet :: hextets, run, best =>
    if hextet = ['0'] then
      let run : ZeroRun := match run with
        | some run => ⟨run.start, run.length + 1⟩
        | none => ⟨index, 1⟩
      longestZeros (index + 1) hextets (some run) (if best.length < run.length then run else best)
    else longestZeros (index + 1) hextets none best

/-- `_compress_hextets` -/
def compressHextets (hextets : List Text) : List Text :=
  let best := longestZeros 0 hextets none ⟨0, 0⟩
  if 1 < best.length then
    let atEnd := if best.start + best.length = hextets.length then hextets ++ [[]] else hextets
    let skipped := atEnd.take best.start ++ [[]] ++ atEnd.drop (best.start + best.length)
    if best.start = 0 then [] :: skipped else skipped
  else hextets

/-- `str(ip)` -/
def IPv6Address.text (ip : IPv6Address) : Text :=
  [':'].intercalate (compressHextets (ip.hextets.map hexText))

/-- `ip.ipv4_mapped` -/
def IPv6Address.ipv4Mapped (ip : IPv6Address) : Option IPv4Address :=
  match ip.hextets with
  | [0, 0, 0, 0, 0, 0xFFFF, hi, lo] =>
    some ⟨[Fin.ofNat 256 (hi.val / 256), Fin.ofNat 256 hi.val, Fin.ofNat 256 (lo.val / 256),
      Fin.ofNat 256 lo.val], rfl⟩
  | _ => none

/-- `ip_network(f"{ip}/64", strict=False).network_address` -/
def IPv6Address.network64 (ip : IPv6Address) : IPv6Address where
  hextets := ip.hextets.take 4 ++ List.replicate 4 0
  length_eq := by
    rw [List.length_append, List.length_take, ip.length_eq]
    rfl

/-! ## Either kind -/

inductive IpAddress where
  | v4 (ip : IPv4Address)
  | v6 (ip : IPv6Address)
deriving DecidableEq

/-- `ip_address` -/
def ipAddress (text : Text) : Option IpAddress :=
  match ipv4Address text with
  | some ip => some (.v4 ip)
  | none => (ipv6Address text).map .v6

end TaiSkeleton.RateLimit
