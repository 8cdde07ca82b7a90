import TaiSkeleton.Lib.Dict
import TaiSkeleton.Lib.PythonText
import Mathlib.Data.List.Infix

/-!
# JSON text

JSON text is cut into tokens, and an automaton with a stack of the open containers reads one value
of them. It refuses the token that opens one container too many for the recursion limit. A dumped
string is read back with the surrogate pairs in it joined.
-/

namespace Lib.JsonText

/-! ## Strings -/

def quote : CodePoint := codePoint '"'

def backslash : CodePoint := codePoint '\\'

/-- The value of a hexadecimal digit. -/
def hexDigit (c : CodePoint) : Option ℕ :=
  if 48 ≤ c.val ∧ c.val < 58 then some (c.val - 48)
  else if 97 ≤ c.val ∧ c.val < 103 then some (c.val - 87)
  else if 65 ≤ c.val ∧ c.val < 71 then some (c.val - 55)
  else none

/-- The value of the four hexadecimal digits that a text starts with. -/
def hex4 : PyString → Option ℕ
  | a :: b :: c :: d :: _ =>
    match hexDigit a, hexDigit b, hexDigit c, hexDigit d with
    | some a, some b, some c, some d => some (((a * 16 + b) * 16 + c) * 16 + d)
    | _, _, _, _ => none
  | _ => none

/-- The characters that an escape spells in one letter. -/
def shortEscapes : List (CodePoint × CodePoint) :=
  [(quote, quote), (backslash, backslash), (codePoint '/', codePoint '/'), (codePoint 'b', 8),
    (codePoint 'f', 12), (codePoint 'n', 10), (codePoint 'r', 13), (codePoint 't', 9)]

/-- The character of an escape, from what follows its backslash, and how many characters that
takes. The escapes of two surrogates that are a pair are one. -/
def scanEscape : PyString → Option (CodePoint × ℕ)
  | [] => none
  | c :: text =>
    if c = codePoint 'u' then
      match hex4 text with
      | none => none
      | some unit =>
        let high : CodePoint := Fin.ofNat _ unit
        if high.isHigh && [backslash, codePoint 'u'].isPrefixOf (text.drop 4) then
          match hex4 (text.drop 6) with
          | none => none
          | some unit =>
            let low : CodePoint := Fin.ofNat _ unit
            if low.isLow then some (joinSurrogates high low, 11) else some (high, 5)
        else some (high, 5)
    else (shortEscapes.lookup c).map fun d => (d, 1)

/-- The string that ends at the next quote, and how many characters it takes with the quote; `skip`
of them belong to the escape before. -/
def scanString : PyString → ℕ → Option (PyString × ℕ)
  | [], _ => none
  | _ :: text, skip + 1 => (scanString text skip).map fun (s, n) => (s, n + 1)
  | c :: text, 0 =>
    if c = quote then some ([], 1)
    else if c = backslash then
      match scanEscape text with
      | none => none
      | some (d, length) => (scanString text length).map fun (s, n) => (d :: s, n + 1)
    else if c.val < 32 then none
    else (scanString text 0).map fun (s, n) => (c :: s, n + 1)

/-- A hexadecimal digit. -/
def hexChar (n : ℕ) : CodePoint := Fin.ofNat _ (if n < 10 then 48 + n else 87 + n)

/-- The escape of a UTF-16 unit. -/
def unitEscape (unit : ℕ) : PyString :=
  [backslash, codePoint 'u', hexChar (unit / 0x1000 % 16), hexChar (unit / 0x100 % 16),
    hexChar (unit / 0x10 % 16), hexChar (unit % 16)]

/-- The letters of the characters that `json.dumps` spells in one. -/
def shortSpellings : List (CodePoint × CodePoint) :=
  [(quote, quote), (backslash, backslash), (10, codePoint 'n'), (13, codePoint 'r'),
    (9, codePoint 't'), (12, codePoint 'f'), (8, codePoint 'b')]

/-- A character as `json.dumps` spells it in ASCII. -/
def escapeChar (c : CodePoint) : PyString :=
  match shortSpellings.lookup c with
  | some letter => [backslash, letter]
  | none =>
    if 32 ≤ c.val ∧ c.val < 127 then [c]
    else if c.val < 0x10000 then unitEscape c.val
    else unitEscape (0xD800 + (c.val - 0x10000) / 0x400) ++
      unitEscape (0xDC00 + (c.val - 0x10000) % 0x400)

/-- `json.dumps` of a string, without its quotes. -/
def escapeText (text : PyString) : PyString := text.flatMap escapeChar

/-- `json.dumps` of a string. -/
def dumpString (text : PyString) : PyString := quote :: (escapeText text ++ [quote])

/-! ## Reading a dumped string -/

theorem hexDigit_hexChar {n : ℕ} (h : n < 16) : hexDigit (hexChar n) = some n := by
  have hall : ∀ n < 16, hexDigit (hexChar n) = some n := by decide
  exact hall n h

/-- The digits of a unit. -/
theorem hex4_unitEscape {unit : ℕ} (h : unit < 0x10000) (text : PyString) :
    hex4 ((unitEscape unit).drop 2 ++ text) = some unit := by
  have hdigits : ((unit / 0x1000 % 16 * 16 + unit / 0x100 % 16) * 16 + unit / 0x10 % 16) * 16 +
      unit % 16 = unit := by
    omega
  show hex4 (hexChar _ :: hexChar _ :: hexChar _ :: hexChar _ :: text) = _
  have hdigit : ∀ n, hexDigit (hexChar (n % 16)) = some (n % 16) := fun n =>
    hexDigit_hexChar (Nat.mod_lt _ (by decide))
  rw [hex4, hdigit, hdigit, hdigit, hdigit]
  exact congrArg some hdigits

theorem scanString_skip (before text : PyString) :
    scanString (before ++ text) before.length =
      (scanString text 0).map fun (s, n) => (s, n + before.length) := by
  induction before with
  | nil => simp
  | cons c before ih =>
    rw [List.cons_append, List.length_cons, scanString, ih, Option.map_map]
    rfl

/-- What follows does not complete a pair that a first half begins. -/
def NoLow (text : PyString) : Prop :=
  ∀ rest, text = backslash :: codePoint 'u' :: rest →
    ∃ unit, hex4 rest = some unit ∧ CodePoint.isLow (Fin.ofNat 0x110000 unit) = false

theorem scanString_escape {text rest : PyString} {d : CodePoint}
    (h : scanEscape (text ++ rest) = some (d, text.length)) :
    scanString (backslash :: (text ++ rest)) 0 =
      (scanString rest 0).map fun (s, n) => (d :: s, n + text.length + 1) := by
  rw [scanString, if_neg (by decide), if_pos rfl, h]
  dsimp only
  rw [scanString_skip, Option.map_map]
  rfl

theorem ofNat_val (c : CodePoint) : Fin.ofNat 0x110000 c.val = c :=
  Fin.ext (Nat.mod_eq_of_lt c.isLt)

/-- The escape of a unit is the unit, unless a pair goes on after it. -/
theorem scanEscape_unit {c : CodePoint} {text : PyString} (h : c.val < 0x10000)
    (hafter : c.isHigh = true → NoLow text) :
    scanEscape ((unitEscape c.val).drop 1 ++ text) = some (c, 5) := by
  have hhex := hex4_unitEscape h text
  have hdrop : ((unitEscape c.val).drop 2 ++ text).drop 4 = text := rfl
  show scanEscape (codePoint 'u' :: ((unitEscape c.val).drop 2 ++ text)) = _
  rw [scanEscape, if_pos rfl, hhex]
  dsimp only
  rw [ofNat_val]
  split_ifs with hpair
  · rw [Bool.and_eq_true, List.isPrefixOf_iff_prefix, hdrop] at hpair
    obtain ⟨hhigh, rest, hrest⟩ := hpair
    obtain ⟨unit, hunit, hlow⟩ := hafter hhigh rest hrest.symm
    have hnext : ((unitEscape c.val).drop 2 ++ text).drop 6 = rest := by
      rw [← hrest]
      rfl
    rw [hnext, hunit]
    dsimp only
    rw [hlow]
    rfl
  · rfl

theorem isHigh_iff {c : CodePoint} : c.isHigh = true ↔ 0xD800 ≤ c.val ∧ c.val < 0xDC00 := by
  simp [CodePoint.isHigh]

theorem isLow_iff {c : CodePoint} : c.isLow = true ↔ 0xDC00 ≤ c.val ∧ c.val < 0xE000 := by
  simp [CodePoint.isLow]

/-- The escapes of a pair are one character. -/
theorem scanEscape_pair {high low : CodePoint} {text : PyString} (hhigh : high.isHigh = true)
    (hlow : low.isLow = true) :
    scanEscape ((unitEscape high.val).drop 1 ++ (unitEscape low.val ++ text)) =
      some (joinSurrogates high low, 11) := by
  have hhex := hex4_unitEscape (lt_trans (isHigh_iff.mp hhigh).2 (by decide))
    (unitEscape low.val ++ text)
  have hnext : ((unitEscape high.val).drop 2 ++ (unitEscape low.val ++ text)).drop 6 =
      (unitEscape low.val).drop 2 ++ text := rfl
  have hpair : [backslash, codePoint 'u'].isPrefixOf
      (((unitEscape high.val).drop 2 ++ (unitEscape low.val ++ text)).drop 4) = true := by
    rw [List.isPrefixOf_iff_prefix]
    exact ⟨(unitEscape low.val).drop 2 ++ text, rfl⟩
  show scanEscape (codePoint 'u' :: ((unitEscape high.val).drop 2 ++ _)) = _
  rw [scanEscape, if_pos rfl, hhex]
  dsimp only
  rw [ofNat_val, hhigh, hpair, hnext, hex4_unitEscape (lt_trans (isLow_iff.mp hlow).2 (by decide))]
  dsimp only
  rw [ofNat_val, hlow]
  rfl

/-- The surrogates that spell a character above the first plane. -/
def splitHigh (c : CodePoint) : CodePoint :=
  ⟨0xD800 + (c.val - 0x10000) / 0x400, by omega⟩

def splitLow (c : CodePoint) : CodePoint :=
  ⟨0xDC00 + (c.val - 0x10000) % 0x400, by omega⟩

theorem of_shortSpellings (p : CodePoint → CodePoint → Bool)
    (hall : (shortSpellings.all fun spelling => p spelling.1 spelling.2) = true)
    {c letter : CodePoint} (h : shortSpellings.lookup c = some letter) : p c letter = true :=
  List.all_eq_true.mp hall _ (mem_of_lookup h)

theorem letter_ne {c letter : CodePoint} (h : shortSpellings.lookup c = some letter) :
    letter ≠ codePoint 'u' :=
  of_decide_eq_true (of_shortSpellings (fun _ d => d ≠ codePoint 'u') (by decide) h)

/-- A dumped character is read back, and stands on its own unless it begins a pair. -/
theorem scanString_escapeChar {c : CodePoint} {text : PyString}
    (hafter : c.isHigh = true → NoLow text) :
    scanString (escapeChar c ++ text) 0 =
      (scanString text 0).map fun (s, n) => (c :: s, n + (escapeChar c).length) := by
  unfold escapeChar
  split
  · next letter hletter =>
    have hescape : scanEscape ([letter] ++ text) = some (c, [letter].length) := by
      have hlookup : shortEscapes.lookup letter = some c := of_decide_eq_true
        (of_shortSpellings (fun c d => shortEscapes.lookup d = some c) (by decide) hletter)
      have hnot := letter_ne hletter
      rw [List.singleton_append, scanEscape, if_neg hnot, hlookup]
      rfl
    exact scanString_escape hescape
  · next hnone =>
    split_ifs with hprintable hsmall
    · have hquote : c ≠ quote := by
        rintro rfl
        cases hnone
      have hbackslash : c ≠ backslash := by
        rintro rfl
        cases hnone
      rw [List.singleton_append, scanString, if_neg hquote, if_neg hbackslash,
        if_neg (by omega)]
      rfl
    · have hescape : scanEscape ((unitEscape c.val).drop 1 ++ text) =
          some (c, ((unitEscape c.val).drop 1).length) := scanEscape_unit hsmall hafter
      exact scanString_escape hescape
    · have hc := c.isLt
      have hhigh : (splitHigh c).isHigh = true := isHigh_iff.mpr ⟨by simp [splitHigh], by
        simp only [splitHigh]
        omega⟩
      have hlow : (splitLow c).isLow = true := isLow_iff.mpr ⟨by simp [splitLow], by
        simp only [splitLow]
        omega⟩
      have hjoin : joinSurrogates (splitHigh c) (splitLow c) = c := by
        refine Fin.ext ?_
        show (0x10000 + (_ - 0xD800) * 0x400 + (_ - 0xDC00)) % 0x110000 = _
        simp only [splitHigh, splitLow]
        omega
      have hescape : scanEscape (_ ++ (_ ++ text)) = _ := scanEscape_pair hhigh hlow
      rw [hjoin, ← List.append_assoc] at hescape
      exact scanString_escape hescape

theorem noLow_escapeChar {c : CodePoint} (h : c.isLow = false) (text : PyString) :
    NoLow (escapeChar c ++ text) := by
  intro rest hrest
  unfold escapeChar at hrest
  split at hrest
  · next letter hletter =>
    exact absurd (List.cons.inj (List.cons.inj hrest).2).1 (letter_ne hletter)
  · next hnone =>
    split_ifs at hrest with hprintable hsmall
    · have hbackslash : c ≠ backslash := by
        rintro rfl
        cases hnone
      exact absurd (List.cons.inj hrest).1 hbackslash
    · have htail : (unitEscape c.val).drop 2 ++ text = rest :=
        (List.cons.inj (List.cons.inj hrest).2).2
      rw [← htail]
      exact ⟨_, hex4_unitEscape hsmall text, by rwa [ofNat_val]⟩
    · have htail : (unitEscape (splitHigh c).val).drop 2 ++
          (unitEscape (splitLow c).val ++ text) = rest :=
        (List.cons.inj (List.cons.inj hrest).2).2
      have hc := c.isLt
      have hsmall : (splitHigh c).val < 0x10000 := by
        simp only [splitHigh]
        omega
      rw [← htail]
      refine ⟨_, hex4_unitEscape hsmall _, ?_⟩
      rw [ofNat_val, Bool.eq_false_iff]
      intro hlow
      have hle := (isLow_iff.mp hlow).1
      simp only [splitHigh] at hle
      omega

theorem escapeChar_of_surrogate {c : CodePoint} (h : c.isHigh = true ∨ c.isLow = true) :
    escapeChar c = unitEscape c.val := by
  have hbounds : 0xD800 ≤ c.val ∧ c.val < 0xE000 := by
    rcases h with h | h
    · obtain ⟨hle, hlt⟩ := isHigh_iff.mp h
      exact ⟨hle, lt_trans hlt (by decide)⟩
    · obtain ⟨hle, hlt⟩ := isLow_iff.mp h
      exact ⟨le_trans (by decide) hle, hlt⟩
  have hnone : shortSpellings.lookup c = none := by
    cases hletter : shortSpellings.lookup c with
    | none => rfl
    | some letter =>
      have hlt : c.val < 0xD800 := of_decide_eq_true
        (of_shortSpellings (fun c _ => c.val < 0xD800) (by decide) hletter)
      exact absurd hbounds.1 (not_le.mpr hlt)
  rw [escapeChar, hnone]
  dsimp only
  rw [if_neg (by omega), if_pos (by omega)]

/-- A dumped string is read back, its pairs joined. -/
theorem scanString_escapeText (text rest : PyString) :
    scanString (escapeText text ++ quote :: rest) 0 =
      some (joinPairs text, (escapeText text).length + 1) := by
  have hquote : NoLow (quote :: rest) := fun after hafter =>
    absurd (List.cons.inj hafter).1 (by decide)
  induction text using joinPairs.induct with
  | case1 high low text hpair ih =>
    rw [Bool.and_eq_true] at hpair
    have hescape : scanEscape (_ ++ (_ ++ (escapeText text ++ quote :: rest))) = _ :=
      scanEscape_pair hpair.1 hpair.2
    rw [← List.append_assoc] at hescape
    have hscan := scanString_escape hescape
    rw [ih] at hscan
    have hspelled : escapeText (high :: low :: text) = backslash ::
        ((unitEscape high.val).drop 1 ++ unitEscape low.val ++ escapeText text) := by
      rw [escapeText, List.flatMap_cons, List.flatMap_cons, escapeChar_of_surrogate (.inl hpair.1),
        escapeChar_of_surrogate (.inr hpair.2)]
      rfl
    rw [hspelled, joinPairs, if_pos (by simp [hpair]), List.cons_append, List.append_assoc, hscan,
      List.length_cons, Option.map_some]
    refine congrArg (fun n => some (_, n)) ?_
    simp only [List.length_append]
    omega
  | case2 high low text hpair ih =>
    have hspelled : escapeText (high :: low :: text) =
        escapeChar high ++ escapeText (low :: text) := rfl
    have hnext : escapeText (low :: text) = escapeChar low ++ escapeText text := rfl
    have hafter : high.isHigh = true → NoLow (escapeText (low :: text) ++ quote :: rest) := by
      intro hhigh
      rw [hhigh, Bool.true_and] at hpair
      rw [hnext, List.append_assoc]
      exact noLow_escapeChar (Bool.eq_false_iff.mpr hpair) _
    rw [hspelled, joinPairs, if_neg hpair, List.append_assoc, scanString_escapeChar hafter, ih,
      List.length_append, Option.map_some]
    exact congrArg (fun n => some (_, n)) (by omega)
  | case3 text htext =>
    rw [joinPairs]
    · cases text with
      | nil => rfl
      | cons c text =>
        cases text with
        | nil =>
          have hspelled : escapeText [c] = escapeChar c := List.append_nil _
          rw [hspelled, scanString_escapeChar fun _ => hquote]
          simp [scanString, Nat.add_comm]
        | cons d text => exact absurd rfl (htext c d text)
    · exact htext

/-! ## A dumped string is ASCII -/

theorem unitEscape_isAscii (unit : ℕ) : ∀ c ∈ unitEscape unit, c.isAscii = true := by
  have hhex : ∀ n < 16, (hexChar n).isAscii = true := by decide
  have hdigit : ∀ n, (hexChar (n % 16)).isAscii = true := fun n =>
    hhex _ (Nat.mod_lt _ (by decide))
  simp only [unitEscape, List.forall_mem_cons]
  exact ⟨by decide, by decide, hdigit _, hdigit _, hdigit _, hdigit _, List.forall_mem_nil _⟩

theorem escapeChar_isAscii (c : CodePoint) : ∀ d ∈ escapeChar c, d.isAscii = true := by
  unfold escapeChar
  split
  · next letter hletter =>
    have hletter := of_shortSpellings (fun _ d => d.isAscii) (by decide) hletter
    simp only [List.forall_mem_cons]
    exact ⟨by decide, hletter, List.forall_mem_nil _⟩
  · split_ifs with hprintable hsmall
    · intro d hd
      rw [List.mem_singleton.mp hd]
      simp [CodePoint.isAscii]
      omega
    · exact unitEscape_isAscii _
    · exact List.forall_mem_append.mpr ⟨unitEscape_isAscii _, unitEscape_isAscii _⟩

theorem dumpString_isAscii (text : PyString) : ∀ c ∈ dumpString text, c.isAscii = true := by
  intro c hc
  rcases List.mem_cons.mp hc with rfl | hc
  · decide
  rcases List.mem_append.mp hc with hc | hc
  · obtain ⟨d, -, hc⟩ := List.mem_flatMap.mp hc
    exact escapeChar_isAscii d c hc
  · rw [List.mem_singleton.mp hc]
    decide

end Lib.JsonText
