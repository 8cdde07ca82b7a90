import TaiSkeleton.Lib.Except
import TaiSkeleton.Authz.TokenFree.Lexer
import Mathlib.Data.List.Basic

/-!
# Facts about the lexer

What a successful run says, whatever bounds it ran under: a larger fuel, a smaller depth or a
smaller count of spent tokens gives the same result, a literal ends where the text after it
starts, and a hole ends at a `)`.
-/

namespace TaiSkeleton.Authz.TokenFree

open Lib

variable {conditionText : Text}

theorem descend_eq_ok {position depth depth' : ℕ} :
    descend conditionText position depth = .ok depth' ↔
      depth' = depth + 1 ∧ depth + 1 ≤ maxNestingDepth := by
  constructor
  · exact descend_ok
  · rintro ⟨rfl, hle⟩
    exact if_neg (Nat.not_lt.mpr hle)

theorem spend_eq_ok {position spent spent' : ℕ} :
    spend conditionText position spent = .ok spent' ↔
      spent' = spent + 1 ∧ spent + 1 ≤ maxTokens := by
  constructor
  · exact spend_ok
  · rintro ⟨rfl, hle⟩
    exact if_neg (Nat.not_lt.mpr hle)

@[simp] theorem refuse_ne_ok {α : Type} {position : ℕ} {detail : String} {a : α} :
    refuse conditionText position detail = .ok a ↔ False := by
  simp [refuse]

/-! ## Bounds -/

/-- The string functions with `fuel` succeed alike with more fuel, from a smaller depth. -/
structure StringMono (conditionText : Text) (fuel : ℕ) : Prop where
  string : ∀ {fuel' depth depth' start rest r}, fuel ≤ fuel' → depth' ≤ depth →
    lexString conditionText fuel depth start rest = .ok r →
    lexString conditionText fuel' depth' start rest = .ok r
  body : ∀ {fuel' depth depth' start rest index parts holes r}, fuel ≤ fuel' → depth' ≤ depth →
    stringBody conditionText fuel depth start rest index parts holes = .ok r →
    stringBody conditionText fuel' depth' start rest index parts holes = .ok r
  scan : ∀ {fuel' depth depth' start rest r}, fuel ≤ fuel' → depth' ≤ depth →
    scanInterpolation conditionText fuel depth start rest = .ok r →
    scanInterpolation conditionText fuel' depth' start rest = .ok r
  scanBody : ∀ {fuel' depth depth' start nesting rest index r}, fuel ≤ fuel' → depth' ≤ depth →
    scanBody conditionText fuel depth start nesting rest index = .ok r →
    scanBody conditionText fuel' depth' start nesting rest index = .ok r

theorem stringMono (conditionText : Text) (fuel : ℕ) : StringMono conditionText fuel := by
  induction fuel with
  | zero =>
    constructor
    · intro _ _ _ _ _ _ _ _ h
      simp [lexString] at h
    · intro _ _ _ _ _ _ _ _ _ _ _ h
      simp [stringBody] at h
    · intro _ _ _ _ _ _ _ _ h
      simp [scanInterpolation] at h
    · intro _ _ _ _ _ _ _ _ _ _ h
      simp [TokenFree.scanBody] at h
  | succ n ih =>
    constructor
    · intro fuel' depth depth' start rest r hfuel hdepth h
      obtain ⟨k, rfl⟩ := Nat.exists_eq_add_of_lt hfuel
      rw [show n + k + 1 = (n + k) + 1 from rfl]
      simp only [lexString, bind_eq_ok, descend_eq_ok] at h ⊢
      obtain ⟨_, ⟨rfl, hle⟩, h⟩ := h
      exact ⟨depth' + 1, ⟨rfl, by omega⟩, ih.body (by omega) (by omega) h⟩
    · intro fuel' depth depth' start rest index parts holes r hfuel hdepth h
      obtain ⟨k, rfl⟩ := Nat.exists_eq_add_of_lt hfuel
      have hn : n ≤ n + k := by omega
      cases rest with
      | nil => simp [stringBody] at h
      | cons char rest =>
        unfold stringBody at h ⊢
        simp only at h ⊢
        split_ifs at h ⊢ with hq hb
        · exact h
        · exact ih.body hn hdepth h
        · cases rest with
          | nil => simp at h
          | cons escape rest =>
            simp only at h ⊢
            split_ifs at h ⊢ with hp
            · simp only [bind_eq_ok] at h ⊢
              obtain ⟨a, ha, h⟩ := h
              exact ⟨a, ih.scan hn hdepth ha, ih.body hn hdepth h⟩
            · cases he : stringEscapes.lookup escape with
              | none => simp [he] at h
              | some decoded =>
                simp only [he] at h ⊢
                exact ih.body hn hdepth h
    · intro fuel' depth depth' start rest r hfuel hdepth h
      obtain ⟨k, rfl⟩ := Nat.exists_eq_add_of_lt hfuel
      simp only [scanInterpolation, bind_eq_ok, descend_eq_ok] at h ⊢
      obtain ⟨_, ⟨rfl, hle⟩, h⟩ := h
      exact ⟨depth' + 1, ⟨rfl, by omega⟩, ih.scanBody (by omega) (by omega) h⟩
    · intro fuel' depth depth' start nesting rest index r hfuel hdepth h
      obtain ⟨k, rfl⟩ := Nat.exists_eq_add_of_lt hfuel
      have hn : n ≤ n + k := by omega
      cases rest with
      | nil => simp [TokenFree.scanBody] at h
      | cons char rest =>
        simp only [TokenFree.scanBody] at h ⊢
        split_ifs at h ⊢
        · simp only [bind_eq_ok] at h ⊢
          obtain ⟨a, ha, h⟩ := h
          exact ⟨a, ih.string hn hdepth ha, ih.scanBody hn hdepth h⟩
        · exact ih.scanBody hn hdepth h
        · exact h
        · exact ih.scanBody hn hdepth h
        · exact ih.scanBody hn hdepth h

/-- A literal is read alike under any bounds it can be read under. -/
theorem lexString_unique {fuel fuel' depth depth' start : ℕ} {rest : Text} {r r' : Token × Text}
    (h : lexString conditionText fuel depth start rest = .ok r)
    (h' : lexString conditionText fuel' depth' start rest = .ok r') : r = r' := by
  have h₁ := (stringMono conditionText fuel).string (Nat.le_max_left fuel fuel')
    (Nat.min_le_left depth depth') h
  have h₂ := (stringMono conditionText fuel').string (Nat.le_max_right fuel fuel')
    (Nat.min_le_right depth depth') h'
  exact Except.ok.inj (h₁.symm.trans h₂)

theorem nextToken_mono {fuel fuel' depth depth' stop index : ℕ} {char : Char} {rest : Text}
    {r : Token × Text} (hfuel : fuel ≤ fuel') (hdepth : depth' ≤ depth)
    (h : nextToken conditionText fuel depth stop index char rest = .ok r) :
    nextToken conditionText fuel' depth' stop index char rest = .ok r := by
  have ih := stringMono conditionText fuel
  unfold nextToken at h ⊢
  simp only at h ⊢
  split_ifs at h ⊢
  · exact ih.string hfuel hdepth h
  · exact h
  · exact h
  · exact h
  · exact h
  · exact h
  · exact h
  · simp only [bind_eq_ok] at h ⊢
    obtain ⟨a, ha, h⟩ := h
    exact ⟨a, ih.string hfuel hdepth ha, h⟩
  · exact h

/-- A stretch lexes to the same tokens under larger bounds. -/
theorem lex_mono {fuel fuel' depth depth' stop index spent spent' s : ℕ} {rest : Text}
    {tokens : List Token} (hfuel : fuel ≤ fuel') (hdepth : depth' ≤ depth) (hspent : spent' ≤ spent)
    (h : lex conditionText fuel depth stop rest index spent = .ok (tokens, s)) :
    ∃ s', lex conditionText fuel' depth' stop rest index spent' = .ok (tokens, s') := by
  induction fuel generalizing fuel' rest index spent spent' tokens s with
  | zero => simp [lex] at h
  | succ n ih =>
    obtain ⟨k, rfl⟩ := Nat.exists_eq_add_of_lt hfuel
    have hn : n ≤ n + k := by omega
    simp only [lex] at h ⊢
    have hend : ∀ {s : ℕ}, spend conditionText stop spent = .ok s →
        spend conditionText stop spent' = .ok (spent' + 1) := by
      intro s hs
      have hle := (spend_eq_ok.mp hs).2
      exact spend_eq_ok.mpr ⟨rfl, by omega⟩
    cases rest with
    | nil =>
      simp only [bind_eq_ok, pure_eq_ok, Except.ok.injEq, Prod.mk.injEq] at h ⊢
      obtain ⟨_, hs, rfl, _⟩ := h
      exact ⟨_, _, hend hs, rfl, rfl⟩
    | cons char rest =>
      simp only at h ⊢
      split_ifs at h ⊢
      · simp only [bind_eq_ok, pure_eq_ok, Except.ok.injEq, Prod.mk.injEq] at h ⊢
        obtain ⟨_, hs, rfl, _⟩ := h
        exact ⟨_, _, hend hs, rfl, rfl⟩
      · exact ih hn hspent h
      · simp only [bind_eq_ok, pure_eq_ok, Except.ok.injEq, Prod.mk.injEq] at h ⊢
        obtain ⟨a, ha, b, hb, c, hc, rfl, rfl⟩ := h
        have hle := spend_eq_ok.mp hb
        have hnext : spent' + 1 ≤ b := by omega
        obtain ⟨s', hs'⟩ := ih hn hnext hc
        exact ⟨s', a, nextToken_mono hn hdepth ha, _, spend_eq_ok.mpr ⟨rfl, by omega⟩, _, hs',
          rfl, rfl⟩

/-! ## Where literals and holes end -/

theorem drop_succ_of_cons {index : ℕ} {char : Char} {rest : Text}
    (h : char :: rest = conditionText.drop index) : rest = conditionText.drop (index + 1) := by
  rw [← List.tail_drop, ← h]
  rfl

/-- Where the string functions with `fuel` leave off, started at their place in the text. -/
structure StringEnds (conditionText : Text) (fuel : ℕ) : Prop where
  string : ∀ {depth start rest token rest'}, rest = conditionText.drop (start + 1) →
    lexString conditionText fuel depth start rest = .ok (token, rest') →
    token.kind = .string ∧ token.position = start ∧ start + 1 < token.stop ∧
      rest' = conditionText.drop token.stop
  body : ∀ {depth start rest index parts holes token rest'}, rest = conditionText.drop index →
    stringBody conditionText fuel depth start rest index parts holes = .ok (token, rest') →
    token.kind = .string ∧ token.position = start ∧ index < token.stop ∧
      rest' = conditionText.drop token.stop
  scan : ∀ {depth start rest stop rest'}, rest = conditionText.drop start →
    scanInterpolation conditionText fuel depth start rest = .ok (stop, rest') →
    start ≤ stop ∧ ')' :: rest' = conditionText.drop stop
  scanBody : ∀ {depth start nesting rest index stop rest'}, rest = conditionText.drop index →
    scanBody conditionText fuel depth start nesting rest index = .ok (stop, rest') →
    index ≤ stop ∧ ')' :: rest' = conditionText.drop stop

theorem stringEnds (conditionText : Text) (fuel : ℕ) : StringEnds conditionText fuel := by
  induction fuel with
  | zero =>
    constructor
    · intro _ _ _ _ _ _ h
      simp [lexString] at h
    · intro _ _ _ _ _ _ _ _ _ h
      simp [stringBody] at h
    · intro _ _ _ _ _ _ h
      simp [scanInterpolation] at h
    · intro _ _ _ _ _ _ _ _ h
      simp [TokenFree.scanBody] at h
  | succ n ih =>
    constructor
    · intro depth start rest token rest' hrest h
      simp only [lexString, bind_eq_ok] at h
      obtain ⟨_, _, h⟩ := h
      exact ih.body hrest h
    · intro depth start rest index parts holes token rest' hrest h
      cases rest with
      | nil => simp [stringBody] at h
      | cons char rest =>
        have hnext := drop_succ_of_cons hrest
        unfold stringBody at h
        simp only at h
        split_ifs at h with hq hb
        · obtain ⟨rfl, rfl⟩ := Prod.mk.inj (Except.ok.inj h)
          exact ⟨rfl, rfl, Nat.lt_succ_self index, hnext⟩
        · obtain ⟨hk, hp, hlt, hr⟩ := ih.body hnext h
          exact ⟨hk, hp, by omega, hr⟩
        · cases rest with
          | nil => simp at h
          | cons escape rest =>
            have hnext' := drop_succ_of_cons hnext
            simp only at h
            split_ifs at h with hp
            · simp only [bind_eq_ok] at h
              obtain ⟨⟨bodyEnd, rest₁⟩, hscan, h⟩ := h
              obtain ⟨hle, hclose⟩ := ih.scan hnext' hscan
              obtain ⟨hk, hp, hlt, hr⟩ := ih.body (drop_succ_of_cons hclose) h
              exact ⟨hk, hp, by omega, hr⟩
            · cases he : stringEscapes.lookup escape with
              | none => simp [he] at h
              | some decoded =>
                simp only [he] at h
                obtain ⟨hk, hp, hlt, hr⟩ := ih.body hnext' h
                exact ⟨hk, hp, by omega, hr⟩
    · intro depth start rest stop rest' hrest h
      simp only [scanInterpolation, bind_eq_ok] at h
      obtain ⟨_, _, h⟩ := h
      exact ih.scanBody hrest h
    · intro depth start nesting rest index stop rest' hrest h
      cases rest with
      | nil => simp [TokenFree.scanBody] at h
      | cons char rest =>
        have hnext := drop_succ_of_cons hrest
        simp only [TokenFree.scanBody] at h
        split_ifs at h with hq hopen hclose hlast
        · simp only [bind_eq_ok] at h
          obtain ⟨⟨token, rest₁⟩, hstring, h⟩ := h
          obtain ⟨_, _, hlt, hr⟩ := ih.string hnext hstring
          obtain ⟨hle, hend⟩ := ih.scanBody hr h
          exact ⟨by omega, hend⟩
        · obtain ⟨hle, hend⟩ := ih.scanBody hnext h
          exact ⟨by omega, hend⟩
        · obtain ⟨rfl, rfl⟩ := Prod.mk.inj (Except.ok.inj h)
          exact ⟨Nat.le_refl _, hclose ▸ hrest⟩
        · obtain ⟨hle, hend⟩ := ih.scanBody hnext h
          exact ⟨by omega, hend⟩
        · obtain ⟨hle, hend⟩ := ih.scanBody hnext h
          exact ⟨by omega, hend⟩

/-- A token ends where the text after it starts, past where it begins, and is no end token. -/
theorem nextToken_ends {fuel depth stop index : ℕ} {char : Char} {rest rest' : Text} {token : Token}
    (hrest : char :: rest = conditionText.drop index)
    (h : nextToken conditionText fuel depth stop index char rest = .ok (token, rest')) :
    token.kind ≠ .end ∧ rest' = conditionText.drop token.stop := by
  have hplain : ∀ {kind : Kind} {skip length : ℕ}, kind ≠ .end →
      plainToken kind (char :: rest) index skip length = (token, rest') →
      token.kind ≠ .end ∧ rest' = conditionText.drop token.stop := by
    intro kind skip length hkind heq
    obtain ⟨rfl, rfl⟩ := Prod.mk.inj heq
    refine ⟨hkind, ?_⟩
    show (char :: rest).drop length = conditionText.drop (index + length)
    rw [hrest, List.drop_drop]
  unfold nextToken at h
  simp only at h
  split_ifs at h with hquote hdollar hnameless hat hdigit hident hfield hquoted
  · obtain ⟨hk, _, _, hr⟩ := (stringEnds conditionText fuel).string (drop_succ_of_cons hrest) h
    exact ⟨by simp [hk], hr⟩
  · exact absurd h (by simp)
  · exact hplain (by decide) (Except.ok.inj h)
  · exact hplain (by decide) (Except.ok.inj h)
  · exact hplain (by decide) (Except.ok.inj h)
  · exact hplain (by decide) (Except.ok.inj h)
  · exact hplain (by decide) (Except.ok.inj h)
  · simp only [bind_eq_ok] at h
    obtain ⟨⟨quoted, rest₁⟩, hstring, h⟩ := h
    have hdrop : rest.drop 1 = conditionText.drop (index + 1 + 1) := by
      rw [drop_succ_of_cons hrest, List.drop_drop]
    obtain ⟨_, _, _, hr⟩ := (stringEnds conditionText fuel).string hdrop hstring
    simp only at h
    split_ifs at h
    · exact absurd h (by simp)
    · obtain ⟨rfl, rfl⟩ := Prod.mk.inj (Except.ok.inj h)
      exact ⟨by simp, hr⟩
  · split at h
    · exact absurd h (by simp)
    · exact hplain (by decide) (Except.ok.inj h)

theorem lex_kind_ne_end {fuel depth stop index spent s : ℕ} {rest : Text} {tokens : List Token}
    (hrest : rest = conditionText.drop index)
    (h : lex conditionText fuel depth stop rest index spent = .ok (tokens, s)) :
    ∀ t ∈ tokens, t.kind ≠ .end := by
  induction fuel generalizing rest index spent tokens s with
  | zero => simp [lex] at h
  | succ n ih =>
    cases rest with
    | nil =>
      simp only [lex, bind_eq_ok, pure_eq_ok, Except.ok.injEq, Prod.mk.injEq] at h
      obtain ⟨_, _, rfl, _⟩ := h
      simp
    | cons char rest =>
      simp only [lex] at h
      split_ifs at h
      · simp only [bind_eq_ok, pure_eq_ok, Except.ok.injEq, Prod.mk.injEq] at h
        obtain ⟨_, _, rfl, _⟩ := h
        simp
      · exact ih (drop_succ_of_cons hrest) h
      · simp only [bind_eq_ok, pure_eq_ok, Except.ok.injEq, Prod.mk.injEq] at h
        obtain ⟨⟨token, rest'⟩, htoken, _, _, ⟨tokens', _⟩, htokens, rfl, _⟩ := h
        obtain ⟨hk, hr⟩ := nextToken_ends hrest htoken
        intro t ht
        rcases List.mem_cons.mp ht with rfl | ht
        · exact hk
        · exact ih hr htokens t ht

end TaiSkeleton.Authz.TokenFree
