import TaiSkeleton.AccessControl.Backend
import TaiSkeleton.Middleware.AddressTexts

/-!
# Whose bucket a request is counted in

The bucket of an address is the text of an IPv4 address or of a network of 64 bits. An IPv4 address
and the IPv6 addresses it is mapped to are one client, and so is a network: two texts are in one
bucket if and only if they are of one client (`bucketIp_eq_iff`).
-/

namespace TaiSkeleton.RateLimit

open Lib

/-! ## The bucket of an address -/

/-- `_bucket_ip` -/
def bucketIp (ipStr : Text) : Text :=
  match ipAddress ipStr with
  | none => ipStr
  | some (.v6 ip) =>
    match ip.ipv4Mapped with
    | some mapped => mapped.text
    | none => ip.network64.text
  | some (.v4 _) => ipStr

/-- Who a bucket is for. -/
inductive Client where
  | address (ip : IPv4Address)
  | network (hextets : List Hextet)
  /-- What is not an address. -/
  | unparseable (text : Text)
deriving DecidableEq

def clientOf (ipStr : Text) : Client :=
  match ipAddress ipStr with
  | none => .unparseable ipStr
  | some (.v4 ip) => .address ip
  | some (.v6 ip) =>
    match ip.ipv4Mapped with
    | some mapped => .address mapped
    | none => .network (ip.hextets.take 4)

def Client.bucket : Client → Text
  | address ip => ip.text
  | network hextets => [':'].intercalate
      (compressHextets ((hextets ++ List.replicate 4 0).map hexText))
  | unparseable text => text

theorem bucketIp_eq (ipStr : Text) : bucketIp ipStr = (clientOf ipStr).bucket := by
  unfold bucketIp clientOf
  cases hip : ipAddress ipStr with
  | none => rfl
  | some ip =>
    cases ip with
    | v4 ip =>
      have hfour : ipv4Address ipStr = some ip := by
        unfold ipAddress at hip
        cases hread : ipv4Address ipStr with
        | none =>
          rw [hread] at hip
          obtain ⟨ip', -, heq⟩ := Option.map_eq_some_iff.mp hip
          cases heq
        | some ip' =>
          rw [hread] at hip
          cases hip
          rfl
      exact (text_of_ipv4Address hfour).symm
    | v6 ip =>
      dsimp only
      cases ip.ipv4Mapped with
      | none => rfl
      | some mapped => rfl

theorem ipv4Mapped_network64 (ip : IPv6Address) : ip.network64.ipv4Mapped = none := by
  obtain ⟨hextets, hlength⟩ := ip
  match hextets, hlength with
  | [a, b, c, d, e, f, g, h], _ =>
    unfold IPv6Address.ipv4Mapped IPv6Address.network64
    dsimp only
    split
    · next hi lo heq =>
      have hsixth : (0 : Hextet) = 0xFFFF := by
        have := congrArg (fun l => l[5]?) heq
        simpa using this
      exact absurd hsixth (by decide)
    · rfl

/-- A bucket is itself an address of the client it is for. -/
theorem clientOf_bucketIp (ipStr : Text) : clientOf (bucketIp ipStr) = clientOf ipStr := by
  unfold bucketIp
  cases hip : ipAddress ipStr with
  | none => rfl
  | some ip =>
    cases ip with
    | v4 ip => rfl
    | v6 ip =>
      have hclient : clientOf ipStr = match ip.ipv4Mapped with
          | some mapped => .address mapped
          | none => .network (ip.hextets.take 4) := by
        unfold clientOf
        rw [hip]
      dsimp only
      rw [hclient]
      cases ip.ipv4Mapped with
      | none =>
        unfold clientOf
        rw [ipAddress_network]
        dsimp only
        rw [ipv4Mapped_network64]
        show Client.network ((ip.hextets.take 4 ++ List.replicate 4 0).take 4) = _
        rw [List.take_append_of_le_length (by rw [List.length_take, ip.length_eq]; decide),
          List.take_take]
        rfl
      | some mapped =>
        unfold clientOf ipAddress
        rw [ipv4Address_text]

theorem bucketIp_eq_iff (ipStr ipStr' : Text) :
    bucketIp ipStr = bucketIp ipStr' ↔ clientOf ipStr = clientOf ipStr' := by
  constructor
  · intro h
    rw [← clientOf_bucketIp, h, clientOf_bucketIp]
  · intro h
    rw [bucketIp_eq, h, ← bucketIp_eq]

end TaiSkeleton.RateLimit
