import Mathlib.Data.List.Induction
import Mathlib.Data.Nat.Init

/-!
# Numerals

The numeral of a number in a base up to sixteen, and the number that a numeral stands for.
-/

namespace Lib

/-- The digits of both cases. -/
def digitValue (c : Char) : ℕ :=
  if c.isDigit then c.toNat - 48
  else if 'a' ≤ c && c ≤ 'f' then c.toNat - 87
  else c.toNat - 55

/-- `int(text, base)`, for a text of digits. -/
def numeralValue (base : ℕ) (text : List Char) : ℕ :=
  text.foldl (fun n c => base * n + digitValue c) 0

variable {base n : ℕ} {c : Char}

theorem digitValue_digitChar : ∀ d < 16, digitValue (Nat.digitChar d) = d := by decide

theorem numeralValue_append_singleton (text : List Char) :
    numeralValue base (text ++ [c]) = base * numeralValue base text + digitValue c := by
  unfold numeralValue
  rw [List.foldl_append]
  rfl

theorem numeralValue_toDigits (hbase : 1 < base) (hle : base ≤ 16) (n : ℕ) :
    numeralValue base (Nat.toDigits base n) = n := by
  induction n using Nat.strongRecOn with
  | ind n ih =>
    rcases Nat.lt_or_ge n base with hlt | hge
    · rw [Nat.toDigits_of_lt_base hlt]
      show base * 0 + digitValue (Nat.digitChar n) = n
      rw [digitValue_digitChar n (Nat.lt_of_lt_of_le hlt hle), Nat.mul_zero, Nat.zero_add]
    · have hpos : 0 < n := Nat.lt_of_lt_of_le (Nat.zero_lt_of_lt hbase) hge
      rw [Nat.toDigits_of_base_le hbase hge, numeralValue_append_singleton,
        ih (n / base) (Nat.div_lt_self hpos hbase),
        digitValue_digitChar _ (Nat.lt_of_lt_of_le (Nat.mod_lt n (Nat.zero_lt_of_lt hbase)) hle)]
      exact Nat.div_add_mod n base

theorem exists_of_mem_toDigits (hbase : 1 < base) (h : c ∈ Nat.toDigits base n) :
    ∃ d < base, c = Nat.digitChar d := by
  induction n using Nat.strongRecOn with
  | ind n ih =>
    rcases Nat.lt_or_ge n base with hlt | hge
    · rw [Nat.toDigits_of_lt_base hlt, List.mem_singleton] at h
      exact ⟨n, hlt, h⟩
    · have hpos : 0 < n := Nat.lt_of_lt_of_le (Nat.zero_lt_of_lt hbase) hge
      rw [Nat.toDigits_of_base_le hbase hge, List.mem_append, List.mem_singleton] at h
      rcases h with h | h
      · exact ih (n / base) (Nat.div_lt_self hpos hbase) h
      · exact ⟨n % base, Nat.mod_lt n (Nat.zero_lt_of_lt hbase), h⟩

theorem toDigits_injective (hbase : 1 < base) (hle : base ≤ 16) :
    Function.Injective (Nat.toDigits base) := by
  intro n n' h
  rw [← numeralValue_toDigits hbase hle n, h, numeralValue_toDigits hbase hle]

theorem exists_digitChar (h : c.isDigit = true) : ∃ d < 10, c = Nat.digitChar d := by
  simp only [Char.isDigit, Bool.and_eq_true, decide_eq_true_eq] at h
  have hlow : 48 ≤ c.toNat := UInt32.le_iff_toNat_le.mp h.1
  have hhigh : c.toNat ≤ 57 := UInt32.le_iff_toNat_le.mp h.2
  have hlt : c.toNat - 48 < 10 := by omega
  refine ⟨c.toNat - 48, hlt, Char.toNat_inj.mp ?_⟩
  rw [Nat.toNat_digitChar_of_lt_ten hlt]
  exact (Nat.add_sub_of_le hlow).symm

/-- A decimal text without a zero in front is the numeral of what it stands for. -/
theorem toDigits_numeralValue {text : List Char} (hne : text ≠ [])
    (hdigits : ∀ c ∈ text, c.isDigit = true) (hzero : text = ['0'] ∨ text.head? ≠ some '0') :
    Nat.toDigits 10 (numeralValue 10 text) = text := by
  induction text using List.reverseRecOn with
  | nil => exact absurd rfl hne
  | append_singleton text c ih =>
    obtain ⟨d, hd, rfl⟩ := exists_digitChar (hdigits c (by simp))
    rw [numeralValue_append_singleton, digitValue_digitChar d (by omega)]
    by_cases hnil : text = []
    · subst hnil
      rw [show numeralValue 10 [] = 0 from rfl, Nat.mul_zero, Nat.zero_add,
        Nat.toDigits_of_lt_base hd]
      rfl
    · -- the digits in front stand for a positive number
      have hhead : text.head? ≠ some '0' := by
        rcases hzero with hzero | hzero
        · have hlength := congrArg List.length hzero
          rw [List.length_append] at hlength
          exact absurd (List.eq_nil_of_length_eq_zero (Nat.succ.inj hlength)) hnil
        · cases text with
          | nil => exact absurd rfl hnil
          | cons a text => exact hzero
      have htext := ih hnil (fun c hc => hdigits c (List.mem_append_left _ hc)) (.inr hhead)
      have hpos : 0 < numeralValue 10 text := by
        refine Nat.pos_of_ne_zero fun hvalue => hhead ?_
        rw [← htext, hvalue]
        rfl
      rw [← Nat.toDigits_append_toDigits (by decide) hpos hd, htext,
        Nat.toDigits_of_lt_base hd]

end Lib
