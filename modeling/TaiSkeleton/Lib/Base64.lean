import TaiSkeleton.Lib.PythonText

/-!
# Base64

Bytes are spelled by sextets over the URL-safe alphabet. The decoder takes both alphabets, passes
over every other character, and stops at the padding that fills a group of four.
-/

namespace Lib.Base64

/-! ## Sextets -/

/-- The character of a sextet, `-` and `_` being the last two. -/
def sextetChar (n : ℕ) : CodePoint :=
  if n < 26 then Fin.ofNat _ (65 + n)
  else if n < 52 then Fin.ofNat _ (97 + (n - 26))
  else if n < 62 then Fin.ofNat _ (48 + (n - 52))
  else if n = 62 then codePoint '-'
  else codePoint '_'

/-- The sextet of a character of either alphabet. -/
def charSextet (c : CodePoint) : Option ℕ :=
  if 65 ≤ c.val ∧ c.val < 91 then some (c.val - 65)
  else if 97 ≤ c.val ∧ c.val < 123 then some (c.val - 97 + 26)
  else if 48 ≤ c.val ∧ c.val < 58 then some (c.val - 48 + 52)
  else if c = codePoint '-' ∨ c = codePoint '+' then some 62
  else if c = codePoint '_' ∨ c = codePoint '/' then some 63
  else none

/-- The padding character. -/
def pad : CodePoint := codePoint '='

theorem charSextet_sextetChar {n : ℕ} (h : n < 64) : charSextet (sextetChar n) = some n := by
  have hall : ∀ n < 64, charSextet (sextetChar n) = some n := by decide
  exact hall n h

theorem sextetChar_facts {n : ℕ} (h : n < 64) :
    sextetChar n ≠ pad ∧ sextetChar n ≠ codePoint '.' ∧ (sextetChar n).isAscii = true := by
  have hall : ∀ n < 64, sextetChar n ≠ pad ∧ sextetChar n ≠ codePoint '.' ∧
      (sextetChar n).isAscii = true := by
    decide
  exact hall n h

/-! ## Bytes -/

/-- `base64.urlsafe_b64encode` without its padding. -/
def encode : List UInt8 → PyString
  | [] => []
  | [a] => [sextetChar (a.toNat / 4), sextetChar (a.toNat % 4 * 16)]
  | [a, b] => [sextetChar (a.toNat / 4), sextetChar (a.toNat % 4 * 16 + b.toNat / 16),
      sextetChar (b.toNat % 16 * 4)]
  | a :: b :: c :: bytes =>
    sextetChar (a.toNat / 4) :: sextetChar (a.toNat % 4 * 16 + b.toNat / 16) ::
      sextetChar (b.toNat % 16 * 4 + c.toNat / 64) :: sextetChar (c.toNat % 64) :: encode bytes

/-- The loop of `binascii.a2b_base64`: the place in the group of four, the bits that are left of
the sextet before, and the padding characters since. -/
def decodeFrom : PyString → ℕ → ℕ → ℕ → Option (List UInt8)
  | [], place, _, _ => if place = 0 then some [] else none
  | c :: text, place, left, pads =>
    if c = pad then
      if 2 ≤ place then
        if 4 ≤ place + (pads + 1) then some [] else decodeFrom text place left (pads + 1)
      else decodeFrom text place left pads
    else
      match charSextet c with
      | none => decodeFrom text place left pads
      | some n =>
        match place with
        | 0 => decodeFrom text 1 n 0
        | 1 => (decodeFrom text 2 (n % 16) 0).map (UInt8.ofNat (left * 4 + n / 16) :: ·)
        | 2 => (decodeFrom text 3 (n % 4) 0).map (UInt8.ofNat (left * 16 + n / 4) :: ·)
        | _ => (decodeFrom text 0 0 0).map (UInt8.ofNat (left * 64 + n) :: ·)

/-- `base64.urlsafe_b64decode` of an ASCII text. -/
def decode (text : PyString) : Option (List UInt8) := decodeFrom text 0 0 0

/-- The padding that makes a length a multiple of four. -/
def padding (length : ℕ) : PyString := List.replicate ((4 - length % 4) % 4) pad

theorem ofNat_eq {n : ℕ} {byte : UInt8} (h : n = byte.toNat) : UInt8.ofNat n = byte := by
  rw [h, UInt8.ofNat_toNat]

/-- A group of four sextets is three bytes. -/
theorem decodeFrom_group {i j k l left pads : ℕ} {text : PyString} (hi : i < 64) (hj : j < 64)
    (hk : k < 64) (hl : l < 64) :
    decodeFrom (sextetChar i :: sextetChar j :: sextetChar k :: sextetChar l :: text) 0 left pads =
      (((decodeFrom text 0 0 0).map (UInt8.ofNat (k % 4 * 64 + l) :: ·)).map
        (UInt8.ofNat (j % 16 * 16 + k / 4) :: ·)).map (UInt8.ofNat (i * 4 + j / 16) :: ·) := by
  simp only [decodeFrom, if_neg (sextetChar_facts hi).1, if_neg (sextetChar_facts hj).1,
    if_neg (sextetChar_facts hk).1, if_neg (sextetChar_facts hl).1, charSextet_sextetChar hi,
    charSextet_sextetChar hj, charSextet_sextetChar hk, charSextet_sextetChar hl]

/-- Two sextets and their padding are one byte. -/
theorem decodeFrom_two {i j left pads : ℕ} (hi : i < 64) (hj : j < 64) :
    decodeFrom [sextetChar i, sextetChar j, pad, pad] 0 left pads =
      some [UInt8.ofNat (i * 4 + j / 16)] := by
  simp [decodeFrom, if_neg (sextetChar_facts hi).1, if_neg (sextetChar_facts hj).1,
    charSextet_sextetChar hi, charSextet_sextetChar hj]

/-- Three sextets and their padding are two bytes. -/
theorem decodeFrom_three {i j k left pads : ℕ} (hi : i < 64) (hj : j < 64) (hk : k < 64) :
    decodeFrom [sextetChar i, sextetChar j, sextetChar k, pad] 0 left pads =
      some [UInt8.ofNat (i * 4 + j / 16), UInt8.ofNat (j % 16 * 16 + k / 4)] := by
  simp [decodeFrom, if_neg (sextetChar_facts hi).1, if_neg (sextetChar_facts hj).1,
    if_neg (sextetChar_facts hk).1, charSextet_sextetChar hi, charSextet_sextetChar hj,
    charSextet_sextetChar hk]

/-- Spelled bytes with their padding are read back. -/
theorem decode_encode (bytes : List UInt8) :
    decode (encode bytes ++ padding (encode bytes).length) = some bytes := by
  unfold decode
  induction bytes using encode.induct with
  | case1 => rfl
  | case2 a =>
    have ha := a.toNat_lt
    have hfirst : a.toNat / 4 * 4 + a.toNat % 4 * 16 / 16 = a.toNat := by omega
    show decodeFrom [sextetChar _, sextetChar _, pad, pad] 0 0 0 = _
    rw [decodeFrom_two (by omega) (by omega), ofNat_eq hfirst]
  | case3 a b =>
    have ha := a.toNat_lt
    have hb := b.toNat_lt
    have hfirst : a.toNat / 4 * 4 + (a.toNat % 4 * 16 + b.toNat / 16) / 16 = a.toNat := by omega
    have hsecond : (a.toNat % 4 * 16 + b.toNat / 16) % 16 * 16 + b.toNat % 16 * 4 / 4 =
        b.toNat := by
      omega
    show decodeFrom [sextetChar _, sextetChar _, sextetChar _, pad] 0 0 0 = _
    rw [decodeFrom_three (by omega) (by omega) (by omega), ofNat_eq hfirst, ofNat_eq hsecond]
  | case4 a b c bytes ih =>
    have ha := a.toNat_lt
    have hb := b.toNat_lt
    have hc := c.toNat_lt
    have hfirst : a.toNat / 4 * 4 + (a.toNat % 4 * 16 + b.toNat / 16) / 16 = a.toNat := by omega
    have hsecond : (a.toNat % 4 * 16 + b.toNat / 16) % 16 * 16 +
        (b.toNat % 16 * 4 + c.toNat / 64) / 4 = b.toNat := by
      omega
    have hthird : (b.toNat % 16 * 4 + c.toNat / 64) % 4 * 64 + c.toNat % 64 = c.toNat := by omega
    have hpadding : padding (encode (a :: b :: c :: bytes)).length =
        padding (encode bytes).length := by
      have hlength : (encode (a :: b :: c :: bytes)).length = (encode bytes).length + 4 := rfl
      rw [padding, hlength, Nat.add_mod_right, padding]
    rw [hpadding, encode, List.cons_append, List.cons_append, List.cons_append, List.cons_append,
      decodeFrom_group (by omega) (by omega) (by omega) (by omega), ih, ofNat_eq hfirst,
      ofNat_eq hsecond, ofNat_eq hthird]
    rfl

/-- Spelled bytes are ASCII, without a dot. -/
theorem encode_facts (bytes : List UInt8) :
    ∀ c ∈ encode bytes, c ≠ codePoint '.' ∧ c.isAscii = true := by
  have hsextet : ∀ n < 64, sextetChar n ≠ codePoint '.' ∧ (sextetChar n).isAscii = true :=
    fun n h => (sextetChar_facts h).2
  induction bytes using encode.induct with
  | case1 => exact fun c hc => absurd hc List.not_mem_nil
  | case2 a =>
    have ha := a.toNat_lt
    simp only [encode, List.forall_mem_cons]
    exact ⟨hsextet _ (by omega), hsextet _ (by omega), List.forall_mem_nil _⟩
  | case3 a b =>
    have ha := a.toNat_lt
    have hb := b.toNat_lt
    simp only [encode, List.forall_mem_cons]
    exact ⟨hsextet _ (by omega), hsextet _ (by omega), hsextet _ (by omega),
      List.forall_mem_nil _⟩
  | case4 a b c bytes ih =>
    have ha := a.toNat_lt
    have hb := b.toNat_lt
    have hc := c.toNat_lt
    simp only [encode, List.forall_mem_cons]
    exact ⟨hsextet _ (by omega), hsextet _ (by omega), hsextet _ (by omega),
      hsextet _ (by omega), ih⟩

end Lib.Base64
