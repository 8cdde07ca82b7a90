import Mathlib.Data.List.Basic
import Mathlib.Data.List.Infix

/-!
# Replacing the runs of a list

From the left, every run equal to a needle is replaced by a mark, as soon as it is met, and the
scan goes on behind it. Where the needle is known to stand at a place, a run that is met before the
place may cover its beginning: the needle overlaps itself then, and all that it holds stands
before the place, too.
-/

namespace Lib

variable {α β : Type} [DecidableEq β]

/-- The runs of the needle replaced; the first `skip` elements are in the run replaced last. -/
def replaceFrom (text : α → β) (needle : List β) (mark : α) : ℕ → List α → List α
  | _, [] => []
  | skip + 1, _ :: l => replaceFrom text needle mark skip l
  | 0, x :: l =>
    if needle <+: (x :: l).map text then
      mark :: replaceFrom text needle mark (needle.length - 1) l
    else x :: replaceFrom text needle mark 0 l

/-- How many elements of a needle that stands behind the list are covered by a run that is met in
it, where the first `skip` elements are in the run before. -/
def coveredFrom (needle : List β) : ℕ → List β → ℕ
  | skip, [] => skip
  | skip + 1, _ :: before => coveredFrom needle skip before
  | 0, x :: before =>
    if needle <+: x :: before ++ needle then coveredFrom needle (needle.length - 1) before
    else coveredFrom needle 0 before

/-- Where the needle stands first, or the length. -/
def firstRun (needle : List β) : List β → ℕ
  | [] => 0
  | x :: l => if needle <+: x :: l then 0 else firstRun needle l + 1

/-- The elements of a needle between two lists that no replaced run covers. -/
def leftOver (needle before after : List β) : List β :=
  let covered := coveredFrom needle 0 before
  if covered = 0 then []
  else (needle.drop covered).take (firstRun needle (needle.drop covered ++ after))

variable {text : α → β} {needle before : List β} {mark x : α} {l : List α} {skip : ℕ}

/-! ## The scan -/

theorem replaceFrom_cons (x : α) (l : List α) : replaceFrom text needle mark 0 (x :: l) =
    if needle <+: (x :: l).map text then
      mark :: replaceFrom text needle mark (needle.length - 1) l
    else x :: replaceFrom text needle mark 0 l := rfl

theorem replaceFrom_drop (skip : ℕ) (l : List α) :
    replaceFrom text needle mark skip l = replaceFrom text needle mark 0 (l.drop skip) := by
  induction l generalizing skip with
  | nil => cases skip <;> rfl
  | cons x l ih =>
    cases skip with
    | zero => rfl
    | succ skip =>
      rw [List.drop_succ_cons, ← ih]
      rfl

theorem map_replaceFrom (skip : ℕ) (l : List α) :
    (replaceFrom text needle mark skip l).map text =
      replaceFrom id needle (text mark) skip (l.map text) := by
  induction l generalizing skip with
  | nil => cases skip <;> rfl
  | cons x l ih =>
    cases skip with
    | zero =>
      rw [replaceFrom_cons, List.map_cons, replaceFrom_cons, List.map_id]
      split_ifs
      · rw [List.map_cons, ih]
      · rw [List.map_cons, ih]
    | succ skip => exact ih skip

theorem mem_replaceFrom (h : x ∈ replaceFrom text needle mark skip l) : x = mark ∨ x ∈ l := by
  induction l generalizing skip with
  | nil => cases skip <;> cases h
  | cons y l ih =>
    cases skip with
    | zero =>
      rw [replaceFrom_cons] at h
      split_ifs at h
      · rcases List.mem_cons.mp h with rfl | h
        · exact .inl rfl
        · exact (ih h).imp_right (List.mem_cons_of_mem _)
      · rcases List.mem_cons.mp h with rfl | h
        · exact .inr List.mem_cons_self
        · exact (ih h).imp_right (List.mem_cons_of_mem _)
    | succ skip => exact (ih h).imp_right (List.mem_cons_of_mem _)

/-- A needle of one element. -/
theorem replaceFrom_singleton (b : β) (l : List α) :
    replaceFrom text [b] mark 0 l = l.map fun x => if text x = b then mark else x := by
  induction l with
  | nil => rfl
  | cons x l ih =>
    have hmet : [b] <+: (x :: l).map text ↔ text x = b := by
      rw [List.map_cons, List.cons_prefix_cons]
      exact ⟨fun h => h.1.symm, fun h => ⟨h.symm, List.nil_prefix⟩⟩
    rw [replaceFrom_cons]
    show _ = (if text x = b then mark else x) :: l.map fun x => if text x = b then mark else x
    rw [← ih]
    by_cases hx : text x = b
    · rw [if_pos (hmet.mpr hx), if_pos hx]
      rfl
    · rw [if_neg fun h => hx (hmet.mp h), if_neg hx]

theorem replaceFrom_ne_nil (h : l ≠ []) : replaceFrom text needle mark 0 l ≠ [] := by
  obtain ⟨x, l, rfl⟩ := List.exists_cons_of_ne_nil h
  rw [replaceFrom_cons]
  split_ifs <;> exact List.cons_ne_nil _ _

/-! ## A needle that overlaps itself -/

omit [DecidableEq β] in
/-- A list that begins again behind a part holds what the part holds. -/
theorem mem_of_eq_append_take {w a : List β} {n : ℕ} (ha : a ≠ []) (h : w = a ++ w.take n) {x : β}
    (hx : x ∈ w) : x ∈ a := by
  have hpos : 0 < a.length := List.length_pos_of_ne_nil ha
  -- an element lies in the part, or in the copy, and there it stands nearer to the front
  have htake : ∀ k, ∀ x ∈ w.take k, x ∈ a := by
    intro k
    induction k using Nat.strongRecOn with
    | ind k ih =>
      intro x hx
      rw [h, List.take_append, List.mem_append, List.take_take] at hx
      rcases hx with hx | hx
      · exact List.mem_of_mem_take hx
      · rcases Nat.lt_or_ge a.length k with hk | hk
        · exact ih (min (k - a.length) n) (by omega) x hx
        · rw [Nat.sub_eq_zero_of_le hk, Nat.zero_min, List.take_zero] at hx
          cases hx
  exact htake w.length x (by rwa [List.take_length])

theorem coveredFrom_cons (x : β) (before : List β) : coveredFrom needle 0 (x :: before) =
    if needle <+: x :: before ++ needle then coveredFrom needle (needle.length - 1) before
    else coveredFrom needle 0 before := rfl

theorem coveredFrom_nil (skip : ℕ) : coveredFrom needle skip [] = skip := by
  cases skip <;> rfl

/-- A needle is met at the end of the list, and reaches beyond it. -/
def Overlaps (needle before : List β) (covered : ℕ) : Prop :=
  ∃ front back, before = front ++ back ∧ back ≠ [] ∧ needle <+: back ++ needle ∧
    back.length < needle.length ∧ covered = needle.length - back.length

omit [DecidableEq β] in
theorem Overlaps.cons {covered : ℕ} (x : β) (h : Overlaps needle before covered) :
    Overlaps needle (x :: before) covered := by
  obtain ⟨front, back, rfl, h⟩ := h
  exact ⟨x :: front, back, rfl, h⟩

/-- A run that covers the beginning of the needle is the one of before, or was met in the list. -/
theorem overlaps_of_coveredFrom_pos (h : 0 < coveredFrom needle skip before) :
    before.length < skip ∧ coveredFrom needle skip before = skip - before.length ∨
      Overlaps needle before (coveredFrom needle skip before) := by
  induction before generalizing skip with
  | nil =>
    rw [coveredFrom_nil] at h ⊢
    exact .inl ⟨h, rfl⟩
  | cons x before ih =>
    cases skip with
    | succ skip =>
      rcases ih h with ⟨hlt, heq⟩ | hoverlaps
      · refine .inl ⟨Nat.succ_lt_succ hlt, ?_⟩
        rw [List.length_cons, Nat.add_sub_add_right]
        exact heq
      · exact .inr (hoverlaps.cons x)
    | zero =>
      rw [coveredFrom_cons] at h ⊢
      split_ifs at h ⊢ with hmet
      · rcases ih h with ⟨hlt, heq⟩ | hoverlaps
        · refine .inr ⟨[], x :: before, rfl, List.cons_ne_nil _ _, hmet, ?_, ?_⟩
          · rw [List.length_cons]
            omega
          · rw [heq, List.length_cons]
            omega
        · exact .inr (hoverlaps.cons x)
      · rcases ih h with ⟨hlt, -⟩ | hoverlaps
        · exact absurd hlt (Nat.not_lt_zero _)
        · exact .inr (hoverlaps.cons x)

/-- Where a run covers the beginning of the needle, all the needle holds stands before it. -/
theorem mem_of_coveredFrom_pos (h : 0 < coveredFrom needle 0 before) {x : β} (hx : x ∈ needle) :
    x ∈ before := by
  obtain ⟨hlt, -⟩ | ⟨front, back, rfl, hback, hmet, hlt, -⟩ := overlaps_of_coveredFrom_pos h
  · exact absurd hlt (Nat.not_lt_zero _)
  · have hbegins : needle = back ++ needle.take (needle.length - back.length) := by
      have htake := List.prefix_iff_eq_take.mp hmet
      rw [List.take_append, List.take_of_length_le hlt.le] at htake
      exact htake
    exact List.mem_append_right _ (mem_of_eq_append_take hback hbegins hx)

theorem coveredFrom_lt (h : 0 < needle.length) : coveredFrom needle 0 before < needle.length := by
  rcases Nat.eq_zero_or_pos (coveredFrom needle 0 before) with hzero | hpos
  · rw [hzero]
    exact h
  · obtain ⟨hlt, -⟩ | ⟨front, back, -, hback, -, hlt, heq⟩ := overlaps_of_coveredFrom_pos hpos
    · exact absurd hlt (Nat.not_lt_zero _)
    · have := List.length_pos_of_ne_nil hback
      omega

/-! ## What is left of the needle -/

/-- What is left of the needle stands before it, too. -/
theorem mem_of_mem_leftOver {after : List β} {b : β} (h : b ∈ leftOver needle before after) :
    b ∈ before := by
  unfold leftOver at h
  dsimp only at h
  split_ifs at h with hcovered
  · cases h
  · exact mem_of_coveredFrom_pos (Nat.pos_of_ne_zero hcovered)
      (List.mem_of_mem_drop (List.mem_of_mem_take h))

variable (mark) in
/-- The scan of what stands before the needle. -/
theorem replaceFrom_append {run : List α} (hrun : run.map text = needle) (after : List α)
    (skip : ℕ) (l : List α) : ∃ done : List α, (∀ x ∈ done, x = mark ∨ x ∈ l) ∧
      replaceFrom text needle mark skip (l ++ run ++ after) = done ++
        replaceFrom text needle mark (coveredFrom needle skip (l.map text)) (run ++ after) := by
  induction l generalizing skip with
  | nil =>
    refine ⟨[], fun x hx => absurd hx List.not_mem_nil, ?_⟩
    rw [List.map_nil, coveredFrom_nil]
    rfl
  | cons x l ih =>
    cases skip with
    | succ skip =>
      obtain ⟨done, hdone, heq⟩ := ih skip
      exact ⟨done, fun y hy => (hdone y hy).imp_right (List.mem_cons_of_mem _), heq⟩
    | zero =>
      have hmet : needle <+: (x :: (l ++ run ++ after)).map text ↔
          needle <+: text x :: l.map text ++ needle := by
        have hsplit : (x :: (l ++ run ++ after)).map text =
            (text x :: l.map text ++ needle) ++ after.map text := by
          rw [← hrun]
          simp
        rw [hsplit]
        constructor
        · intro h
          refine List.prefix_of_prefix_length_le h (List.prefix_append _ _) ?_
          rw [List.length_append]
          exact Nat.le_add_left _ _
        · exact fun h => h.trans (List.prefix_append _ _)
      rw [List.map_cons, coveredFrom_cons]
      show ∃ done : List α, _ ∧ replaceFrom text needle mark 0 (x :: (l ++ run ++ after)) = _
      rw [replaceFrom_cons]
      simp only [← hmet]
      split_ifs
      · obtain ⟨done, hdone, heq⟩ := ih (needle.length - 1)
        refine ⟨mark :: done, fun y hy => ?_, congrArg (mark :: ·) heq⟩
        rcases List.mem_cons.mp hy with rfl | hy
        · exact .inl rfl
        · exact (hdone y hy).imp_right (List.mem_cons_of_mem _)
      · obtain ⟨done, hdone, heq⟩ := ih 0
        refine ⟨x :: done, fun y hy => ?_, congrArg (x :: ·) heq⟩
        rcases List.mem_cons.mp hy with rfl | hy
        · exact .inr List.mem_cons_self
        · exact (hdone y hy).imp_right (List.mem_cons_of_mem _)

variable (text mark) in
/-- Elements that are fewer than the needle are left up to where the needle stands next. -/
theorem replaceFrom_short {rest : List α} (after : List α) (hshort : rest.length < needle.length) :
    ∃ done : List α, (∀ x ∈ done, x = mark ∨ x ∈ after) ∧
      replaceFrom text needle mark 0 (rest ++ after) =
        rest.take (firstRun needle ((rest ++ after).map text)) ++ done := by
  induction rest with
  | nil =>
    refine ⟨replaceFrom text needle mark 0 after, fun x hx => mem_replaceFrom hx, ?_⟩
    rw [List.take_nil]
    rfl
  | cons x rest ih =>
    rw [List.length_cons] at hshort
    rw [List.cons_append, List.map_cons, firstRun, replaceFrom_cons, List.map_cons]
    split_ifs with hmet
    · refine ⟨mark :: replaceFrom text needle mark (needle.length - 1) (rest ++ after),
        fun y hy => ?_, rfl⟩
      rcases List.mem_cons.mp hy with rfl | hy
      · exact .inl rfl
      · rw [replaceFrom_drop, List.drop_append, List.drop_of_length_le (by omega),
          List.nil_append] at hy
        exact (mem_replaceFrom hy).imp_right List.mem_of_mem_drop
    · obtain ⟨done, hdone, heq⟩ := ih (by omega)
      exact ⟨done, hdone, congrArg (x :: ·) heq⟩

variable (mark) in
/-- Of a needle that stands between two lists, the elements that no run covers stay, and nothing
else but what is in the lists. -/
theorem exists_replaceFrom_eq {run : List α} (hrun : run.map text = needle)
    (hneedle : needle ≠ []) (l after : List α) :
    ∃ left done done' : List α, (∀ x ∈ left, x ∈ run) ∧ left.map text =
        leftOver needle (l.map text) (after.map text) ∧
      (∀ x ∈ done, x = mark ∨ x ∈ l) ∧ (∀ x ∈ done', x = mark ∨ x ∈ after) ∧
      replaceFrom text needle mark 0 (l ++ run ++ after) = done ++ left ++ done' := by
  have hpos : 0 < needle.length := List.length_pos_of_ne_nil hneedle
  have hlength : run.length = needle.length := by rw [← hrun, List.length_map]
  have hlt : coveredFrom needle 0 (l.map text) < needle.length := coveredFrom_lt hpos
  obtain ⟨done, hdone, heq⟩ := replaceFrom_append mark hrun after 0 l
  unfold leftOver
  dsimp only
  generalize coveredFrom needle 0 (l.map text) = covered at hlt heq ⊢
  split_ifs with hcovered
  · -- the run is met where it stands
    obtain ⟨x, rest, rfl⟩ := List.exists_cons_of_ne_nil
      (List.length_pos_iff.mp (hlength.symm ▸ hpos))
    refine ⟨[], done, mark :: replaceFrom text needle mark 0 after, by simp, rfl, hdone,
      fun y hy => ?_, ?_⟩
    · rcases List.mem_cons.mp hy with rfl | hy
      · exact .inl rfl
      · exact mem_replaceFrom hy
    · have hmet : needle <+: (x :: (rest ++ after)).map text := by
        rw [← hrun, ← List.cons_append, List.map_append]
        exact List.prefix_append _ _
      subst hcovered
      rw [heq, List.cons_append, replaceFrom_cons, if_pos hmet, replaceFrom_drop,
        List.append_nil]
      rw [List.length_cons] at hlength
      rw [List.drop_append, List.drop_of_length_le (by omega), List.nil_append,
        show needle.length - 1 - rest.length = 0 by omega]
      rfl
  · have hshort : (run.drop covered).length < needle.length := by
      rw [List.length_drop]
      omega
    obtain ⟨done', hdone', heq'⟩ := replaceFrom_short text mark after hshort
    refine ⟨(run.drop covered).take (firstRun needle ((run.drop covered ++ after).map text)), done,
      done', fun x hx => List.mem_of_mem_drop (List.mem_of_mem_take hx), ?_, hdone, hdone', ?_⟩
    · rw [List.map_take, List.map_append, List.map_drop, hrun]
    · rw [heq, replaceFrom_drop, List.drop_append_of_le_length (by omega), heq',
        List.append_assoc]

end Lib
