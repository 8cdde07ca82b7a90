import TaiSkeleton.Conversations.SendLedger

/-!
# Splitting again what is left

The loop of `split_message` as a derivation: `Splits` holds of a text and its pieces where the
loop ends with them. What is behind the first pieces is split as the whole was, so a delivery that
resumes under the same cap sends the chunks that are missing and no others.
-/

namespace TaiSkeleton.Conversations

/-! ## The loop as a derivation -/

/-- The loop ends on the text with these pieces: a derivation has a node for each round. -/
inductive Splits (maxChars : ℕ) : Text → List Text → Prop
  | nil : Splits maxChars [] []
  | last {remaining : Text} (hne : remaining ≠ []) (hshort : remaining.length ≤ maxChars) :
      Splits maxChars remaining [remaining]
  | round {remaining : Text} {chunks : List Text} (hlong : maxChars < remaining.length)
      (hrest : Splits maxChars (remaining.drop (cutAt maxChars (remaining.take maxChars))) chunks) :
      Splits maxChars remaining
        (remaining.take (cutAt maxChars (remaining.take maxChars)) :: chunks)

theorem rfind_lt (text : Text) (c : Char) : rfind text c < text.length := by
  unfold rfind
  split
  · omega
  · omega

theorem cutAt_le {maxChars : ℕ} {window : Text} (h : window.length ≤ maxChars) :
    cutAt maxChars window ≤ maxChars := by
  have hline := rfind_lt window '\n'
  have hspace := rfind_lt window ' '
  unfold cutAt
  dsimp only
  split_ifs with hcut
  · exact le_rfl
  · omega

/-- A round takes a character at least, and the window's at most. -/
theorem cut_bounds {maxChars : ℕ} (hmax : 0 < maxChars) (remaining : Text) :
    0 < cutAt maxChars (remaining.take maxChars) ∧
      cutAt maxChars (remaining.take maxChars) ≤ maxChars :=
  ⟨cutAt_pos hmax, cutAt_le (List.length_take_le _ _)⟩

/-- The text's length is fuel enough. -/
theorem splits_splitLoop {maxChars fuel : ℕ} {remaining : Text} (hmax : 0 < maxChars)
    (hfuel : remaining.length ≤ fuel) :
    Splits maxChars remaining (splitLoop maxChars fuel remaining) := by
  induction fuel generalizing remaining with
  | zero =>
    obtain rfl := List.length_eq_zero_iff.mp (Nat.le_zero.mp hfuel)
    exact .nil
  | succ fuel ih =>
    have hcut := cut_bounds hmax remaining
    unfold splitLoop
    split_ifs with hlong hnil
    · refine .round hlong (ih ?_)
      rw [List.length_drop]
      omega
    · rw [hnil]
      exact .nil
    · exact .last hnil (Nat.le_of_not_lt hlong)

namespace Splits

variable {maxChars : ℕ} {text : Text} {chunks chunks' : List Text}

theorem unique (h : Splits maxChars text chunks) (h' : Splits maxChars text chunks') :
    chunks = chunks' := by
  induction h generalizing chunks' with
  | nil =>
    cases h' with
    | nil => rfl
    | last hne _ => exact absurd rfl hne
    | round hlong _ => exact absurd hlong (Nat.not_lt_zero _)
  | last hne hshort =>
    cases h' with
    | nil => exact absurd rfl hne
    | last _ _ => rfl
    | round hlong _ => exact absurd hlong (Nat.not_lt.mpr hshort)
  | round hlong _ ih =>
    cases h' with
    | nil => exact absurd hlong (Nat.not_lt_zero _)
    | last _ hshort => exact absurd hlong (Nat.not_lt.mpr hshort)
    | round _ hrest => rw [ih hrest]

theorem length_le (hmax : 0 < maxChars) (h : Splits maxChars text chunks) :
    ∀ chunk ∈ chunks, chunk.length ≤ maxChars := by
  induction h with
  | nil => exact fun _ hmem => absurd hmem List.not_mem_nil
  | last _ hshort =>
    intro chunk hmem
    rwa [List.mem_singleton.mp hmem]
  | round _ _ ih =>
    intro chunk hmem
    rcases List.mem_cons.mp hmem with rfl | hmem
    · exact (List.length_take_le _ _).trans (cut_bounds hmax _).2
    · exact ih chunk hmem

/-- What is behind the first pieces splits into the other pieces. -/
theorem drop (hmax : 0 < maxChars) (h : Splits maxChars text chunks) (k : ℕ) :
    Splits maxChars (text.drop ((chunks.take k).map List.length).sum) (chunks.drop k) := by
  induction h generalizing k with
  | nil =>
    rw [List.drop_nil, List.drop_nil]
    exact .nil
  | @last remaining hne hshort =>
    cases k with
    | zero => exact .last hne hshort
    | succ k =>
      have hall : remaining.drop (([remaining].take (k + 1)).map List.length).sum = [] := by simp
      rw [hall, List.drop_succ_cons, List.drop_nil]
      exact .nil
  | @round remaining chunks hlong hrest ih =>
    cases k with
    | zero => exact .round hlong hrest
    | succ k =>
      have hcut := cut_bounds hmax remaining
      rw [List.take_succ_cons, List.map_cons, List.sum_cons, List.length_take_of_le (by omega),
        ← List.drop_drop, List.drop_succ_cons]
      exact ih k

end Splits

/-! ## What is left of an answer -/

/-- Of a text that is not empty, the chunks are the pieces of the loop. -/
theorem splitMessage_eq_iff {text : Text} {maxChars : ℕ} {chunks : List Text} (hmax : 0 < maxChars)
    (htext : text ≠ []) :
    splitMessage text maxChars = some chunks ↔ Splits maxChars text chunks := by
  unfold splitMessage
  rw [if_neg (Nat.pos_iff_ne_zero.mp hmax)]
  split_ifs with hshort
  · rw [Option.some_inj]
    have hlast : Splits maxChars text [text] := .last htext hshort
    exact ⟨fun h => h ▸ hlast, hlast.unique⟩
  · rw [Option.some_inj]
    have hloop : Splits maxChars text (splitLoop maxChars text.length text) :=
      splits_splitLoop hmax le_rfl
    exact ⟨fun h => h ▸ hloop, hloop.unique⟩

theorem splitMessage_nil {maxChars : ℕ} (hmax : 0 < maxChars) :
    splitMessage [] maxChars = some [[]] := by
  unfold splitMessage
  rw [if_neg (Nat.pos_iff_ne_zero.mp hmax), if_pos (by simp)]

theorem splitMessage_length_le {text : Text} {maxChars : ℕ} {chunks : List Text}
    (hmax : 0 < maxChars) (h : splitMessage text maxChars = some chunks) :
    ∀ chunk ∈ chunks, chunk.length ≤ maxChars := by
  by_cases htext : text = []
  · subst htext
    rw [splitMessage_nil hmax] at h
    obtain rfl := Option.some.inj h
    intro chunk hchunk
    rw [List.mem_singleton.mp hchunk]
    exact Nat.zero_le _
  · exact ((splitMessage_eq_iff hmax htext).mp h).length_le hmax

/-- What is left of the text behind its first chunks. -/
def leftAfter (text : Text) (chunks : List Text) (k : ℕ) : Text :=
  text.drop ((chunks.take k).map List.length).sum

theorem leftAfter_flatten (chunks : List Text) (k : ℕ) :
    leftAfter chunks.flatten chunks k = (chunks.drop k).flatten := by
  have hsplit : chunks.flatten = (chunks.take k).flatten ++ (chunks.drop k).flatten := by
    rw [← List.flatten_append, List.take_append_drop]
  unfold leftAfter
  rw [← List.length_flatten, hsplit, List.drop_left]

/-- The ledger has an entry for each of the first chunks, with its length. -/
def Ledgers (sent : List SentChunk) (chunks : List Text) (k : ℕ) : Prop :=
  sent.map SentChunk.chars = (chunks.take k).map List.length

/-- The chunks of a text, in every respect a delivery relies on: as the rounds of the loop end
with them, of a size, together the text, and the same again for what is left of it. -/
structure Resumable (text : Text) (maxChars : ℕ) (chunks : List Text) : Prop where
  ends : maxChars < text.length → Splits maxChars text chunks
  exact : chunks.flatten = text
  bounded : ∀ chunk ∈ chunks, chunk.length ≤ maxChars
  nonempty : text ≠ [] → ∀ chunk ∈ chunks, chunk ≠ []
  again : ∀ k < chunks.length,
    splitMessage (leftAfter text chunks k) maxChars = some (chunks.drop k)
  out : ∀ k, chunks.length ≤ k → leftAfter text chunks k = []
  /-- The cap on the fan-out is held against this number of chunks. -/
  admitted : ∀ settings, Task.oversized settings [] text maxChars =
    some (decide (settings.maxOutboundChunks < chunks.length))
  /-- A resume sends the chunks that are missing, and counts as many as were admitted. -/
  resumed : ∀ settings sent k attempts, sent ≠ [] → Ledgers sent chunks k →
    (Task.resuming text maxChars attempts).onEntries settings sent =
        .sending attempts (sent.flatMap SentChunk.outboundIds) (chunks.drop k) ∧
      sent.length + (chunks.drop k).length = chunks.length

theorem leftAfter_eq_nil_iff {text : Text} {maxChars : ℕ} {chunks : List Text}
    (h : splitMessage text maxChars = some chunks) (htext : text ≠ []) (k : ℕ) :
    leftAfter text chunks k = [] ↔ chunks.length ≤ k := by
  have hleft := leftAfter_flatten chunks k
  rw [splitMessage_flatten h] at hleft
  rw [hleft, ← List.drop_eq_nil_iff]
  constructor
  · intro hnil
    rw [List.flatten_eq_nil_iff] at hnil
    by_contra hne
    obtain ⟨chunk, hchunk⟩ := List.exists_mem_of_ne_nil _ hne
    exact splitMessage_ne_nil h htext (List.mem_of_mem_drop hchunk) (hnil chunk hchunk)
  · intro hnil
    rw [hnil, List.flatten_nil]

/-- The chunks after the first ones are those of what is left, while any is left. -/
theorem splitMessage_leftAfter {text : Text} {maxChars : ℕ} {chunks : List Text}
    (hmax : 0 < maxChars) (h : splitMessage text maxChars = some chunks) {k : ℕ}
    (hk : k < chunks.length) :
    splitMessage (leftAfter text chunks k) maxChars = some (chunks.drop k) := by
  by_cases htext : text = []
  · subst htext
    rw [splitMessage_nil hmax] at h
    obtain rfl := Option.some.inj h
    obtain rfl := Nat.lt_one_iff.mp hk
    exact splitMessage_nil hmax
  · have hleft : leftAfter text chunks k ≠ [] := fun hnil =>
      absurd ((leftAfter_eq_nil_iff h htext k).mp hnil) (Nat.not_le.mpr hk)
    rw [splitMessage_eq_iff hmax hleft]
    exact ((splitMessage_eq_iff hmax htext).mp h).drop hmax k

/-- A ledger with entries describes at least one chunk. -/
theorem Ledgers.pos {sent : List SentChunk} {chunks : List Text} {k : ℕ}
    (h : Ledgers sent chunks k) (hsent : sent ≠ []) : 0 < k := by
  rw [Nat.pos_iff_ne_zero]
  rintro rfl
  exact hsent (List.map_eq_nil_iff.mp h)

theorem Ledgers.length {sent : List SentChunk} {chunks : List Text} {k : ℕ}
    (h : Ledgers sent chunks k) : sent.length + (chunks.drop k).length = chunks.length := by
  have hlength := congrArg List.length h
  rw [List.length_map, List.length_map, List.length_take] at hlength
  rw [hlength, List.length_drop]
  omega

/-- The delivery splits what is left, unless nothing is. -/
theorem chunks_leftAfter {text : Text} {maxChars : ℕ} {chunks : List Text} (hmax : 0 < maxChars)
    (h : splitMessage text maxChars = some chunks) {k : ℕ} (hk : 0 < k) :
    (if leftAfter text chunks k = [] then some []
      else splitMessage (leftAfter text chunks k) maxChars) = some (chunks.drop k) := by
  by_cases htext : text = []
  · subst htext
    rw [splitMessage_nil hmax] at h
    obtain rfl := Option.some.inj h
    have hdrop : ([[]] : List Text).drop k = [] := List.drop_eq_nil_iff.mpr hk
    rw [hdrop]
    exact if_pos List.drop_nil
  · by_cases hlast : k < chunks.length
    · rw [if_neg, splitMessage_leftAfter hmax h hlast]
      rw [leftAfter_eq_nil_iff h htext]
      exact Nat.not_le.mpr hlast
    · have hall : chunks.length ≤ k := Nat.le_of_not_lt hlast
      rw [if_pos ((leftAfter_eq_nil_iff h htext k).mpr hall), List.drop_eq_nil_iff.mpr hall]

theorem onEntries_ledgers {text : Text} {maxChars : ℕ} {chunks : List Text}
    (hmax : 0 < maxChars) (h : splitMessage text maxChars = some chunks)
    (settings : DeliverySettings) {sent : List SentChunk} {k : ℕ} (attempts : ℤ)
    (hsent : sent ≠ []) (hledger : Ledgers sent chunks k) :
    (Task.resuming text maxChars attempts).onEntries settings sent =
      .sending attempts (sent.flatMap SentChunk.outboundIds) (chunks.drop k) := by
  have hchunks := chunks_leftAfter hmax h (hledger.pos hsent)
  have hsum : ((chunks.take k).map List.length).sum ≤ text.length := by
    rw [← List.length_flatten, ← splitMessage_flatten h]
    nth_rewrite 2 [← List.take_append_drop k chunks]
    rw [List.flatten_append, List.length_append]
    exact Nat.le_add_right _ _
  unfold leftAfter at hchunks
  rw [← hledger] at hchunks hsum
  have hfits : Task.oversized settings sent text maxChars = some false := if_pos hsent
  unfold Task.onEntries
  dsimp only
  rw [if_neg (Nat.not_lt.mpr hsum), hfits]
  dsimp only
  rw [hchunks]

/-- `split_message` is exact and a resumed send goes on with its chunks: while some are left they
are the chunks of what is left, and when none is, nothing of the text is. -/
theorem splitMessage_resumable (text : Text) (maxChars : ℕ) (hmax : 0 < maxChars) :
    ∃ chunks, splitMessage text maxChars = some chunks ∧ Resumable text maxChars chunks := by
  obtain ⟨chunks, h⟩ : ∃ chunks, splitMessage text maxChars = some chunks := by
    unfold splitMessage
    rw [if_neg (Nat.pos_iff_ne_zero.mp hmax)]
    split_ifs <;> exact ⟨_, rfl⟩
  have hsplits : text ≠ [] → Splits maxChars text chunks := fun htext =>
    (splitMessage_eq_iff hmax htext).mp h
  refine ⟨chunks, h, ?_⟩
  exact {
    ends := fun hlong => hsplits fun htext => absurd hlong (by simp [htext])
    exact := splitMessage_flatten h
    bounded := splitMessage_length_le hmax h
    nonempty := fun htext _ => splitMessage_ne_nil h htext
    again := fun k hk => splitMessage_leftAfter hmax h hk
    out := fun k hk => by
      rw [← splitMessage_flatten h, leftAfter_flatten, List.drop_eq_nil_iff.mpr hk]
      rfl
    admitted := fun settings => by
      unfold Task.oversized
      rw [if_neg (not_not.mpr rfl), h]
      rfl
    resumed := fun settings sent k attempts hsent hledger =>
      ⟨onEntries_ledgers hmax h settings attempts hsent hledger, hledger.length⟩ }

theorem splitMessage_resumable_words :
    0 < 4 ∧ ∃ chunks, splitMessage "one two".toList 4 = some chunks ∧
      Resumable "one two".toList 4 chunks :=
  ⟨by decide, splitMessage_resumable "one two".toList 4 (by decide)⟩

/-- Nothing is left of this text after its two chunks; the chunks of nothing are one, and it is
empty. -/
theorem splitMessage_nothing_left :
    splitMessage "ab".toList 1 = some ["a".toList, "b".toList] ∧
      splitMessage (leftAfter "ab".toList ["a".toList, "b".toList] 2) 1 ≠
        some (["a".toList, "b".toList].drop 2) := by
  decide

end TaiSkeleton.Conversations
