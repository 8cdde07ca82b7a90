import Mathlib.Algebra.GroupWithZero.Nat
import Mathlib.Data.List.Basic
import Mathlib.Data.Fin.Basic

/-!
# Python text

A Python string is a sequence of code points, lone surrogates among them. Bytes are decoded by the
Unicode encodings with `surrogatepass`; two surrogates that spell a pair are one character in
UTF-16 and in the escapes of JSON, and stay two in a string.
-/

namespace Lib

/-- A character of a Python string. -/
abbrev CodePoint := Fin 0x110000

instance codePoint_neZero : NeZero 0x110000 := ⟨by decide⟩

/-- A Python string. -/
abbrev PyString := List CodePoint

/-- The code point of a character. -/
def codePoint (c : Char) : CodePoint := Fin.ofNat 0x110000 c.toNat

/-- A text as a Python string. -/
def pyString (text : String) : PyString := text.toList.map codePoint

/-- `str.isascii` of a character. -/
def CodePoint.isAscii (c : CodePoint) : Bool := c.val < 128

/-- `str.encode("ascii")`; there is none for a text with another character. -/
def asciiBytes (text : PyString) : Option (List UInt8) :=
  if text.all CodePoint.isAscii then some (text.map fun c => UInt8.ofNat c.val) else none

/-- A byte as a character. -/
def byteChar (byte : UInt8) : CodePoint := ⟨byte.toNat, lt_trans byte.toNat_lt (by decide)⟩

/-! ## Surrogates -/

/-- The first half of a pair. -/
def CodePoint.isHigh (c : CodePoint) : Bool := 0xD800 ≤ c.val && c.val < 0xDC00

/-- The second half of a pair. -/
def CodePoint.isLow (c : CodePoint) : Bool := 0xDC00 ≤ c.val && c.val < 0xE000

/-- The character that a pair of surrogates spells. -/
def joinSurrogates (high low : CodePoint) : CodePoint :=
  Fin.ofNat 0x110000 (0x10000 + (high.val - 0xD800) * 0x400 + (low.val - 0xDC00))

/-- The pairs of a text joined, from the left. -/
def joinPairs : PyString → PyString
  | high :: low :: text =>
    if high.isHigh && low.isLow then joinSurrogates high low :: joinPairs text
    else high :: joinPairs (low :: text)
  | text => text

/-- A first half is directly followed by a second half. -/
def hasPair : PyString → Bool
  | high :: low :: text => (high.isHigh && low.isLow) || hasPair (low :: text)
  | _ => false

theorem length_joinPairs_le (text : PyString) : (joinPairs text).length ≤ text.length := by
  induction text using joinPairs.induct with
  | case1 high low text hpair ih =>
    rw [joinPairs, if_pos hpair, List.length_cons, List.length_cons, List.length_cons]
    omega
  | case2 high low text hpair ih =>
    rw [joinPairs, if_neg hpair, List.length_cons, List.length_cons]
    exact Nat.succ_le_succ ih
  | case3 text htext =>
    rw [joinPairs]
    exact htext

theorem length_joinPairs_lt {text : PyString} (h : hasPair text = true) :
    (joinPairs text).length < text.length := by
  induction text using joinPairs.induct with
  | case1 high low text hpair ih =>
    have hle := length_joinPairs_le text
    rw [joinPairs, if_pos hpair, List.length_cons, List.length_cons, List.length_cons]
    omega
  | case2 high low text hpair ih =>
    rw [hasPair, Bool.eq_false_iff.mpr hpair, Bool.false_or] at h
    rw [joinPairs, if_neg hpair, List.length_cons, List.length_cons]
    exact Nat.succ_lt_succ (ih h)
  | case3 text htext =>
    rw [hasPair] at h
    · cases h
    · exact htext

/-- Joining the pairs changes a text exactly if it has one. -/
theorem joinPairs_eq_self_iff {text : PyString} :
    joinPairs text = text ↔ hasPair text = false := by
  constructor
  · intro hsame
    rw [Bool.eq_false_iff]
    intro hpair
    have hlt := length_joinPairs_lt hpair
    rw [hsame] at hlt
    exact Nat.lt_irrefl _ hlt
  · intro h
    induction text using joinPairs.induct with
    | case1 high low text hpair ih =>
      rw [hasPair, hpair, Bool.true_or] at h
      cases h
    | case2 high low text hpair ih =>
      rw [hasPair, Bool.eq_false_iff.mpr hpair, Bool.false_or] at h
      rw [joinPairs, if_neg hpair, ih h]
    | case3 text htext =>
      rw [joinPairs]
      exact htext

/-! ## Unicode encodings -/

/-- A continuation byte of UTF-8 within bounds. -/
def isTail (low high : ℕ) (byte : UInt8) : Bool := low ≤ byte.toNat && byte.toNat ≤ high

/-- The first character of UTF-8 bytes, and how many bytes follow its first one. Three bytes that
spell a surrogate pass. -/
def utf8Char : List UInt8 → Option (CodePoint × ℕ)
  | [] => none
  | a :: rest =>
    if a.toNat < 0x80 then some (byteChar a, 0)
    else if 0xC2 ≤ a.toNat ∧ a.toNat < 0xE0 then
      match rest with
      | b :: _ =>
        if isTail 0x80 0xBF b then
          some (Fin.ofNat _ ((a.toNat - 0xC0) * 0x40 + (b.toNat - 0x80)), 1)
        else none
      | _ => none
    else if 0xE0 ≤ a.toNat ∧ a.toNat < 0xF0 then
      match rest with
      | b :: c :: _ =>
        if isTail (if a.toNat = 0xE0 then 0xA0 else 0x80) 0xBF b && isTail 0x80 0xBF c then
          some (Fin.ofNat _ ((a.toNat - 0xE0) * 0x1000 + (b.toNat - 0x80) * 0x40 +
            (c.toNat - 0x80)), 2)
        else none
      | _ => none
    else if 0xF0 ≤ a.toNat ∧ a.toNat < 0xF5 then
      match rest with
      | b :: c :: d :: _ =>
        if isTail (if a.toNat = 0xF0 then 0x90 else 0x80) (if a.toNat = 0xF4 then 0x8F else 0xBF) b
            && isTail 0x80 0xBF c && isTail 0x80 0xBF d then
          some (Fin.ofNat _ ((a.toNat - 0xF0) * 0x40000 + (b.toNat - 0x80) * 0x1000 +
            (c.toNat - 0x80) * 0x40 + (d.toNat - 0x80)), 3)
        else none
      | _ => none
    else none

/-- `bytes.decode("utf-8", "surrogatepass")`; `skip` of the next bytes belong to the character
before. -/
def decodeUtf8 : List UInt8 → ℕ → Option PyString
  | [], 0 => some []
  | [], _ + 1 => none
  | _ :: bytes, skip + 1 => decodeUtf8 bytes skip
  | byte :: bytes, 0 =>
    match utf8Char (byte :: bytes) with
    | some (c, length) => (decodeUtf8 bytes length).map (c :: ·)
    | none => none

/-- The units of UTF-16 bytes, the first byte of each the high one if `big`. -/
def utf16Units (big : Bool) : List UInt8 → Option PyString
  | [] => some []
  | [_] => none
  | a :: b :: bytes =>
    let unit := if big then a.toNat * 0x100 + b.toNat else b.toNat * 0x100 + a.toNat
    (utf16Units big bytes).map (Fin.ofNat _ unit :: ·)

/-- `bytes.decode("utf-16-be", "surrogatepass")`, or `utf-16-le`. -/
def decodeUtf16 (big : Bool) (bytes : List UInt8) : Option PyString :=
  (utf16Units big bytes).map joinPairs

/-- `bytes.decode("utf-32-be", "surrogatepass")`, or `utf-32-le`. -/
def decodeUtf32 (big : Bool) : List UInt8 → Option PyString
  | [] => some []
  | a :: b :: c :: d :: bytes =>
    let code := if big then ((a.toNat * 0x100 + b.toNat) * 0x100 + c.toNat) * 0x100 + d.toNat
      else ((d.toNat * 0x100 + c.toNat) * 0x100 + b.toNat) * 0x100 + a.toNat
    if h : code < 0x110000 then (decodeUtf32 big bytes).map (⟨code, h⟩ :: ·) else none
  | _ => none

/-- An encoding that JSON text may come in. -/
inductive Encoding where
  | utf8 | utf8Sig
  | utf16 (big : Bool) | utf16Bom
  | utf32 (big : Bool) | utf32Bom
deriving DecidableEq

/-- `json.detect_encoding` -/
def detectEncoding (bytes : List UInt8) : Encoding :=
  if [0x00, 0x00, 0xFE, 0xFF].isPrefixOf bytes || [0xFF, 0xFE, 0x00, 0x00].isPrefixOf bytes then
    .utf32Bom
  else if [0xFE, 0xFF].isPrefixOf bytes || [0xFF, 0xFE].isPrefixOf bytes then .utf16Bom
  else if [0xEF, 0xBB, 0xBF].isPrefixOf bytes then .utf8Sig
  else
    match bytes with
    | a :: b :: c :: d :: _ =>
      if a = 0 then if b = 0 then .utf32 true else .utf16 true
      else if b = 0 then if c = 0 ∧ d = 0 then .utf32 false else .utf16 false
      else .utf8
    | [a, b] => if a = 0 then .utf16 true else if b = 0 then .utf16 false else .utf8
    | _ => .utf8

/-- `bytes.decode(encoding, "surrogatepass")` -/
def decodeBytes (bytes : List UInt8) : Encoding → Option PyString
  | .utf8 => decodeUtf8 bytes 0
  | .utf8Sig => decodeUtf8 (bytes.drop 3) 0
  | .utf16 big => decodeUtf16 big bytes
  | .utf16Bom => decodeUtf16 (bytes.head? = some 0xFE) (bytes.drop 2)
  | .utf32 big => decodeUtf32 big bytes
  | .utf32Bom => decodeUtf32 (bytes.head? = some 0x00) (bytes.drop 4)

theorem utf8Char_of_lt {byte : UInt8} {bytes : List UInt8} (h : byte.toNat < 0x80) :
    utf8Char (byte :: bytes) = some (byteChar byte, 0) := by
  unfold utf8Char
  exact if_pos h

/-- ASCII bytes are their own characters. -/
theorem decodeUtf8_ascii {text : PyString} (h : ∀ c ∈ text, c.isAscii = true) :
    decodeUtf8 (text.map fun c => UInt8.ofNat c.val) 0 = some text := by
  induction text with
  | nil => rfl
  | cons c text ih =>
    rw [List.forall_mem_cons] at h
    have hc : c.val < 128 := by simpa [CodePoint.isAscii] using h.1
    have hbyte : (UInt8.ofNat c.val).toNat = c.val := by
      rw [UInt8.toNat_ofNat']
      omega
    have hchar : byteChar (UInt8.ofNat c.val) = c := Fin.ext hbyte
    rw [List.map_cons, decodeUtf8, utf8Char_of_lt (by omega), hchar]
    dsimp only
    rw [ih h.2]
    rfl

end Lib
