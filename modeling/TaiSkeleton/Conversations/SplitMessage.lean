import Mathlib.Algebra.Order.Ring.Int
import Mathlib.Data.List.Basic

/-!
# The chunks of an answer

`split_message` cuts a text into pieces of a channel's size, at the last newline or space of each
window. The pieces are not empty and together they are the text.
-/

namespace TaiSkeleton.Conversations

abbrev Text := List Char

/-- The characters that `str.strip` takes off. -/
def isWhitespace (c : Char) : Bool :=
  (9 ≤ c.toNat && c.toNat ≤ 13) || (28 ≤ c.toNat && c.toNat ≤ 32) || c.toNat == 0x85 ||
    c.toNat == 0xa0 || c.toNat == 0x1680 || (0x2000 ≤ c.toNat && c.toNat ≤ 0x200a) ||
    c.toNat == 0x2028 || c.toNat == 0x2029 || c.toNat == 0x202f || c.toNat == 0x205f ||
    c.toNat == 0x3000

/-- `not text.strip()` -/
def isBlank (text : Text) : Bool := text.all isWhitespace

/-- `str.rfind` of a character. -/
def rfind (text : Text) (c : Char) : ℤ :=
  match text.reverse.findIdx? (· == c) with
  | none => -1
  | some i => text.length - 1 - i

/-- Where the window of the next piece is cut: at its last break, or at its end where that would
leave nothing before it. -/
def cutAt (maxChars : ℕ) (window : Text) : ℕ :=
  let cut := max (rfind window '\n') (rfind window ' ')
  if cut ≤ 0 then maxChars else cut.toNat

/-- The loop of `split_message`; every round takes a character at least, so the text's length is
fuel enough. -/
def splitLoop (maxChars : ℕ) : ℕ → Text → List Text
  | 0, remaining => if remaining = [] then [] else [remaining]
  | fuel + 1, remaining =>
    if maxChars < remaining.length then
      let cut := cutAt maxChars (remaining.take maxChars)
      remaining.take cut :: splitLoop maxChars fuel (remaining.drop cut)
    else if remaining = [] then []
    else [remaining]

/-- `split_message`; `none` is the `ValueError` of a bound that is not positive. -/
def splitMessage (text : Text) (maxChars : ℕ) : Option (List Text) :=
  if maxChars = 0 then none
  else if text.length ≤ maxChars then some [text]
  else some (splitLoop maxChars text.length text)

theorem cutAt_pos {maxChars : ℕ} {window : Text} (h : 0 < maxChars) :
    0 < cutAt maxChars window := by
  unfold cutAt
  dsimp only
  split_ifs with hcut
  · exact h
  · omega

theorem splitLoop_flatten {maxChars : ℕ} (fuel : ℕ) (remaining : Text) :
    (splitLoop maxChars fuel remaining).flatten = remaining := by
  induction fuel generalizing remaining with
  | zero =>
    unfold splitLoop
    split_ifs with hnil
    · rw [hnil, List.flatten_nil]
    · simp
  | succ fuel ih =>
    unfold splitLoop
    split_ifs with hlong hnil
    · rw [List.flatten_cons, ih, List.take_append_drop]
    · rw [hnil, List.flatten_nil]
    · simp

theorem splitLoop_ne_nil {maxChars fuel : ℕ} {remaining chunk : Text} (hmax : 0 < maxChars)
    (h : chunk ∈ splitLoop maxChars fuel remaining) : chunk ≠ [] := by
  induction fuel generalizing remaining with
  | zero =>
    unfold splitLoop at h
    split_ifs at h with hnil
    · cases h
    · rwa [List.mem_singleton.mp h]
  | succ fuel ih =>
    unfold splitLoop at h
    have hcut : 0 < cutAt maxChars (remaining.take maxChars) := cutAt_pos hmax
    split_ifs at h with hlong hnil
    · rcases List.mem_cons.mp h with rfl | h
      · intro hempty
        rw [List.take_eq_nil_iff] at hempty
        rcases hempty with hzero | rfl
        · omega
        · exact absurd hlong (by simp)
      · exact ih h
    · cases h
    · rwa [List.mem_singleton.mp h]

theorem splitMessage_flatten {text : Text} {maxChars : ℕ} {chunks : List Text}
    (h : splitMessage text maxChars = some chunks) : chunks.flatten = text := by
  unfold splitMessage at h
  split_ifs at h
  · obtain rfl := Option.some.inj h
    simp
  · obtain rfl := Option.some.inj h
    exact splitLoop_flatten _ _

theorem splitMessage_ne_nil {text chunk : Text} {maxChars : ℕ} {chunks : List Text}
    (h : splitMessage text maxChars = some chunks) (htext : text ≠ []) (hchunk : chunk ∈ chunks) :
    chunk ≠ [] := by
  unfold splitMessage at h
  split_ifs at h with hzero hshort
  · obtain rfl := Option.some.inj h
    rw [List.mem_singleton] at hchunk
    rwa [hchunk]
  · obtain rfl := Option.some.inj h
    exact splitLoop_ne_nil (Nat.pos_of_ne_zero hzero) hchunk

end TaiSkeleton.Conversations
