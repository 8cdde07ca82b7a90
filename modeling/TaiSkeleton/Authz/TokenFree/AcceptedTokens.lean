import TaiSkeleton.Authz.TokenFree.LexerFacts
import TaiSkeleton.Authz.TokenFree.Parser
import Mathlib.Data.List.Chain

/-!
# The token streams the parser accepts

What acceptance says about the tokens alone: none of them is a format string or `..`, every hole
of a string literal lexes to a stream that is itself accepted, and a number and a `.` are never
next to each other, as any two terms have an operator, a bracket or a keyword between them. Each
rule of the parser consumes a stretch of the stream with this property (`Yields`), and so does a
sequence of rules when the next one starts with such a separator (`Led`).
-/

namespace TaiSkeleton.Authz.TokenFree

open Lib

/-! ## Stretches of the token stream -/

/-- A token that is neither a number nor the operator `.`. -/
def Token.Neutral (t : Token) : Prop := t.kind ≠ .number ∧ ¬ (t.kind = .operator ∧ t.text = ".")

/-- Of two tokens in a row one is neutral. -/
def Linked (tokens : List Token) : Prop := tokens.IsChain fun a b => a.Neutral ∨ b.Neutral

/-- A linked stretch of admitted tokens. -/
structure Clean (admitted : Token → Prop) (tokens : List Token) : Prop where
  linked : Linked tokens
  admitted : ∀ t ∈ tokens, admitted t

/-- A clean stretch that starts, if it has a token, with a neutral one. -/
structure Led (admitted : Token → Prop) (tokens : List Token) : Prop extends
    Clean admitted tokens where
  head : ∀ t ∈ tokens.head?, t.Neutral

variable {admitted : Token → Prop} {t : Token} {tokens tokens' : List Token}

theorem Led.nil : Led admitted [] := ⟨⟨List.isChain_nil, by simp⟩, by simp⟩

theorem Clean.singleton (ha : admitted t) : Clean admitted [t] :=
  ⟨List.isChain_singleton t, by simpa using ha⟩

theorem Led.cons (hn : t.Neutral) (ha : admitted t) (h : Clean admitted tokens) :
    Led admitted (t :: tokens) := by
  refine ⟨⟨h.linked.cons fun _ _ => .inl hn, ?_⟩, by simpa using hn⟩
  intro u hu
  rcases List.mem_cons.mp hu with rfl | hu
  · exact ha
  · exact h.admitted u hu

theorem Clean.append (h : Clean admitted tokens) (h' : Led admitted tokens') :
    Clean admitted (tokens ++ tokens') := by
  refine ⟨h.linked.append h'.linked fun _ _ u hu => .inr (h'.head u hu), ?_⟩
  intro u hu
  rcases List.mem_append.mp hu with hu | hu
  · exact h.admitted u hu
  · exact h'.admitted u hu

theorem Led.append (h : Led admitted tokens) (h' : Led admitted tokens') :
    Led admitted (tokens ++ tokens') := by
  refine ⟨h.toClean.append h', ?_⟩
  cases tokens with
  | nil => exact h'.head
  | cons u us => exact h.head

theorem Clean.mono {admitted' : Token → Prop} (hA : ∀ t, admitted t → admitted' t)
    (h : Clean admitted tokens) : Clean admitted' tokens :=
  ⟨h.linked, fun t ht => hA t (h.admitted t ht)⟩

/-! ## What a parser consumes -/

variable {α β : Type}

/-- Every successful run of `p` consumes a stretch of tokens with the property `C`. -/
def Yields (C : List Token → Prop) (p : Parser α) : Prop :=
  ∀ depth cursor a cursor', p depth cursor = .ok (a, cursor') →
    ∃ consumed, cursor.tokens = consumed ++ cursor'.tokens ∧ C consumed

theorem parser_bind_ok {x : Parser α} {f : α → Parser β} {depth : ℕ} {cursor cursor'' : Cursor}
    {b : β} (h : (x >>= f) depth cursor = .ok (b, cursor'')) :
    ∃ a cursor', x depth cursor = .ok (a, cursor') ∧ f a depth cursor' = .ok (b, cursor'') := by
  dsimp only [bind] at h
  cases hx : x depth cursor with
  | error e =>
    rw [hx] at h
    cases h
  | ok result =>
    rw [hx] at h
    exact ⟨result.1, result.2, rfl, h⟩

namespace Yields

variable {C C₁ C₂ : List Token → Prop} {p : Parser α} {f : α → Parser β}

theorem mono (hC : ∀ s, C₁ s → C₂ s) (h : Yields C₁ p) : Yields C₂ p := by
  intro depth cursor a cursor' hrun
  obtain ⟨consumed, heq, hc⟩ := h depth cursor a cursor' hrun
  exact ⟨consumed, heq, hC consumed hc⟩

theorem pure (hC : C []) (a : α) : Yields C (pure a : Parser α) := by
  intro depth cursor b cursor' hrun
  obtain ⟨_, rfl⟩ := Prod.mk.inj (Except.ok.inj hrun)
  exact ⟨[], rfl, hC⟩

theorem bind (hx : Yields C₁ p) (hf : ∀ a, Yields C₂ (f a))
    (hC : ∀ s s', C₁ s → C₂ s' → C (s ++ s')) : Yields C (p >>= f) := by
  intro depth cursor b cursor'' hrun
  obtain ⟨a, cursor', h₁, h₂⟩ := parser_bind_ok hrun
  obtain ⟨s, hs, hc⟩ := hx depth cursor a cursor' h₁
  obtain ⟨s', hs', hc'⟩ := hf a depth cursor' b cursor'' h₂
  exact ⟨s ++ s', by rw [hs, hs', List.append_assoc], hC s s' hc hc'⟩

theorem refuseAt (conditionText : Text) (token : Token) (detail : String) :
    Yields C (TokenFree.refuseAt conditionText token detail : Parser α) := by
  intro depth cursor a cursor' hrun
  simp [TokenFree.refuseAt, refuse] at hrun

theorem outOfFuel : Yields C (TokenFree.outOfFuel : Parser α) := by
  intro depth cursor a cursor' hrun
  simp [TokenFree.outOfFuel] at hrun

theorem deeper (conditionText : Text) (h : Yields C p) : Yields C (deeper conditionText p) := by
  intro depth cursor a cursor' hrun
  obtain ⟨depth', _, hp⟩ := bind_eq_ok.mp hrun
  exact h depth' cursor a cursor' hp

/-- Looking at the next token consumes nothing. -/
theorem peek {f : Token → Parser β} (hf : ∀ a, Yields C (f a)) : Yields C (TokenFree.peek >>= f) := by
  intro depth cursor b cursor'' hrun
  obtain ⟨a, cursor', h₁, h₂⟩ := parser_bind_ok hrun
  obtain ⟨_, rfl⟩ := Prod.mk.inj (Except.ok.inj h₁)
  exact hf a depth cursor b cursor'' h₂

/-- A token that is consumed comes before what the rest consumes. -/
theorem accept {admits : Token → Bool} {f : Option Token → Parser β} (hnone : Yields C (f none))
    (hsome : ∀ t, admits t = true → Yields (fun s => C (t :: s)) (f (some t))) :
    Yields C (accept admits >>= f) := by
  intro depth cursor b cursor'' hrun
  obtain ⟨a, cursor', h₁, h₂⟩ := parser_bind_ok hrun
  obtain ⟨tokens, stop, spent⟩ := cursor
  cases tokens with
  | nil =>
    obtain ⟨rfl, rfl⟩ := Prod.mk.inj (Except.ok.inj h₁)
    exact hnone _ _ b cursor'' h₂
  | cons token tokens =>
    simp only [TokenFree.accept] at h₁
    split_ifs at h₁ with hadm
    · obtain ⟨rfl, rfl⟩ := Prod.mk.inj (Except.ok.inj h₁)
      obtain ⟨s, hs, hc⟩ := hsome token hadm _ _ b cursor'' h₂
      exact ⟨token :: s, congrArg (token :: ·) hs, hc⟩
    · obtain ⟨rfl, rfl⟩ := Prod.mk.inj (Except.ok.inj h₁)
      exact hnone _ _ b cursor'' h₂

/-! Sequences by the kinds of stretches. -/

theorem led (h : Yields (Led admitted) p) : Yields (Clean admitted) p :=
  h.mono fun _ hs => hs.toClean

theorem bind_led (hx : Yields (Clean admitted) p) (hf : ∀ a, Yields (Led admitted) (f a)) :
    Yields (Clean admitted) (p >>= f) :=
  hx.bind hf fun _ _ => Clean.append

theorem led_bind_led (hx : Yields (Led admitted) p) (hf : ∀ a, Yields (Led admitted) (f a)) :
    Yields (Led admitted) (p >>= f) :=
  hx.bind hf fun _ _ => Led.append

/-- After a neutral token the rest may start with anything. -/
theorem accept_led {admits : Token → Bool} {f : Option Token → Parser β}
    (hadm : ∀ t, admits t = true → t.Neutral ∧ admitted t) (hnone : Yields (Led admitted) (f none))
    (hsome : ∀ t, admits t = true → Yields (Clean admitted) (f (some t))) :
    Yields (Led admitted) (TokenFree.accept admits >>= f) :=
  accept hnone fun t ht => (hsome t ht).mono fun _ hs => Led.cons (hadm t ht).1 (hadm t ht).2 hs

theorem accept_clean {admits : Token → Bool} {f : Option Token → Parser β}
    (hadm : ∀ t, admits t = true → t.Neutral ∧ admitted t)
    (hnone : Yields (Clean admitted) (f none))
    (hsome : ∀ t, admits t = true → Yields (Clean admitted) (f (some t))) :
    Yields (Clean admitted) (TokenFree.accept admits >>= f) :=
  accept hnone fun t ht => (hsome t ht).mono fun _ hs =>
    (Led.cons (hadm t ht).1 (hadm t ht).2 hs).toClean

end Yields

/-! ## The rules -/

/-- An admission that the parser's own checks on single tokens imply, and rules that consume
clean stretches for it. -/
structure SoundRules (conditionText : Text) (admitted : Token → Prop) (r : Rules) : Prop where
  plain : ∀ t : Token, t.kind ≠ .format → t.kind ≠ .string → t.isOperator [".."] = false →
    admitted t
  closed : ∀ t : Token, t.kind = .string → t.interpolations = [] → admitted t
  holes : ∀ (t : Token) depth cursor nodes cursor', t.kind = .string →
    interpolationList conditionText r t.interpolations depth cursor = .ok (nodes, cursor') →
    admitted t
  pipe : Yields (Clean admitted) r.pipe
  alternative : Yields (Clean admitted) r.alternative
  unary : Yields (Clean admitted) r.unary

variable {conditionText : Text} {r : Rules}

/-- The operators that a rule consumes between terms. -/
theorem SoundRules.operator (h : SoundRules conditionText admitted r) {texts : List String}
    (htexts : "." ∉ texts ∧ ".." ∉ texts) (t : Token) (ht : t.isOperator texts = true) :
    t.Neutral ∧ admitted t := by
  simp only [Token.isOperator, Bool.and_eq_true, beq_iff_eq, List.contains_iff_mem] at ht
  obtain ⟨hk, hmem⟩ := ht
  refine ⟨⟨by simp [hk], fun hdot => htexts.1 (hdot.2 ▸ hmem)⟩, h.plain t ?_ ?_ ?_⟩
  · simp [hk]
  · simp [hk]
  · have hne : t.text ≠ ".." := fun he => htexts.2 (he ▸ hmem)
    simp [Token.isOperator, hne]

theorem SoundRules.ofKind (h : SoundRules conditionText admitted r) {t : Token} {kind : Kind}
    (ht : t.kind = kind) (hkind : kind = .ident ∨ kind = .variable ∨ kind = .field) :
    t.Neutral ∧ admitted t := by
  refine ⟨⟨?_, ?_⟩, h.plain t ?_ ?_ ?_⟩ <;>
    rcases hkind with rfl | rfl | rfl <;> simp [Token.isOperator, ht]

theorem SoundRules.keyword (h : SoundRules conditionText admitted r) {keyword : String}
    (t : Token) (ht : t.isKeyword keyword = true) : t.Neutral ∧ admitted t := by
  simp only [Token.isKeyword, Bool.and_eq_true, beq_iff_eq] at ht
  exact h.ofKind ht.1 (.inl rfl)

theorem SoundRules.kind (h : SoundRules conditionText admitted r) {kind : Kind}
    (hkind : kind = .ident ∨ kind = .variable ∨ kind = .field) (t : Token)
    (ht : t.hasKind kind = true) : t.Neutral ∧ admitted t := by
  simp only [Token.hasKind, beq_iff_eq] at ht
  exact h.ofKind ht hkind

/-- An expected operator is consumed alone. -/
theorem SoundRules.expected (h : SoundRules conditionText admitted r) {text : String}
    (htext : text ≠ "." ∧ text ≠ "..") :
    Yields (fun s => ∃ t, s = [t] ∧ t.Neutral ∧ admitted t) (expectOperator conditionText text) := by
  refine .accept (.peek fun _ => .refuseAt conditionText _ _) fun t ht => ?_
  have hadm := h.operator (by simp [htext.1.symm, htext.2.symm]) t ht
  exact .pure ⟨t, rfl, hadm⟩ _

theorem SoundRules.expectOperator (h : SoundRules conditionText admitted r) {text : String}
    (htext : text ≠ "." ∧ text ≠ "..") :
    Yields (Led admitted) (expectOperator conditionText text) := by
  refine (h.expected htext).mono fun s hs => ?_
  obtain ⟨t, rfl, hn, ha⟩ := hs
  exact Led.cons hn ha Led.nil.toClean

/-- After an expected operator the rest may start with anything. -/
theorem SoundRules.expect_led (h : SoundRules conditionText admitted r) {text : String}
    (htext : text ≠ "." ∧ text ≠ "..") {f : Token → Parser β}
    (hf : ∀ a, Yields (Clean admitted) (f a)) :
    Yields (Led admitted) (TokenFree.expectOperator conditionText text >>= f) := by
  refine (h.expected htext).bind hf fun s s' hs hs' => ?_
  obtain ⟨t, rfl, hn, ha⟩ := hs
  exact Led.cons hn ha hs'

/-- The holes of a literal are read from the text, not from the tokens ahead. -/
theorem interpolationList_tokens {holes : List Interpolation} {depth : ℕ}
    {cursor cursor' : Cursor} {nodes : List Node}
    (hrun : interpolationList conditionText r holes depth cursor = .ok (nodes, cursor')) :
    cursor'.tokens = cursor.tokens := by
  induction holes generalizing cursor nodes with
  | nil =>
    obtain ⟨_, rfl⟩ := Prod.mk.inj (Except.ok.inj hrun)
    rfl
  | cons hole holes ih =>
    obtain ⟨node, cursor₁, h₁, hrest⟩ := parser_bind_ok hrun
    obtain ⟨rest, cursor₂, h₂, h₃⟩ := parser_bind_ok hrest
    obtain ⟨_, rfl⟩ := Prod.mk.inj (Except.ok.inj h₃)
    rw [ih h₂]
    simp only [interpolation, bind_eq_ok, pure_eq_ok, Except.ok.injEq, Prod.mk.injEq] at h₁
    obtain ⟨_, _, _, _, _, _, _, rfl⟩ := h₁
    rfl

theorem leftRest_yields {admits : Token → Bool} {operand : Parser Node}
    (hadm : ∀ t, admits t = true → t.Neutral ∧ admitted t)
    (hoperand : Yields (Clean admitted) operand) (fuel : ℕ) (left : Node) :
    Yields (Led admitted) (leftRest admits operand fuel left) := by
  induction fuel generalizing left with
  | zero => exact .outOfFuel
  | succ n ih =>
    refine .accept_led hadm (.pure .nil _) fun t _ => ?_
    exact hoperand.bind_led fun right => ih _

theorem leftAssociative_yields {admits : Token → Bool} {operand : Parser Node}
    (hadm : ∀ t, admits t = true → t.Neutral ∧ admitted t)
    (hoperand : Yields (Clean admitted) operand) (fuel : ℕ) :
    Yields (Clean admitted) (leftAssociative fuel admits operand) :=
  hoperand.bind_led fun left => leftRest_yields hadm hoperand fuel left

namespace SoundRules

variable (h : SoundRules conditionText admitted r)

include h

theorem multiplicative : Yields (Clean admitted) (multiplicative r) :=
  leftAssociative_yields (h.operator (by decide)) h.unary _

theorem additive : Yields (Clean admitted) (additive r) :=
  leftAssociative_yields (h.operator (by decide)) h.multiplicative _

theorem comparison : Yields (Clean admitted) (comparison r) := by
  refine h.additive.bind_led fun left => ?_
  refine .accept_led (h.operator (by decide)) (.pure .nil _) fun t _ => ?_
  exact h.additive.bind_led fun _ => .pure .nil _

theorem conjunction : Yields (Clean admitted) (conjunction r) :=
  leftAssociative_yields h.keyword h.comparison _

theorem disjunction : Yields (Clean admitted) (disjunction r) :=
  leftAssociative_yields h.keyword h.conjunction _

theorem alternative_yields :
    Yields (Clean admitted) (TokenFree.alternative conditionText r) := by
  refine .deeper conditionText (h.disjunction.bind_led fun left => ?_)
  refine .accept_led (h.operator (by decide)) (.pure .nil _) fun t _ => ?_
  exact h.alternative.bind_led fun _ => .pure .nil _

theorem comma : Yields (Clean admitted) (comma r) :=
  leftAssociative_yields (h.operator (by decide)) h.alternative _

theorem pipe_yields : Yields (Clean admitted) (TokenFree.pipe conditionText r) := by
  refine .deeper conditionText (h.comma.bind_led fun left => ?_)
  refine .accept_led (h.operator (by decide)) (.pure .nil _) fun t _ => ?_
  exact h.pipe.bind_led fun _ => .pure .nil _

theorem argumentList (fuel : ℕ) : Yields (Clean admitted) (argumentList r fuel) := by
  induction fuel with
  | zero => exact .outOfFuel
  | succ n ih =>
    refine h.pipe.bind_led fun argument => ?_
    refine .accept_led (h.operator (by decide)) (.pure .nil _) fun t _ => ?_
    exact ih.bind_led fun _ => .pure .nil _

theorem callArguments : Yields (Led admitted) (callArguments conditionText r) := by
  refine .accept_led (h.operator (by decide)) (.pure .nil _) fun t _ => ?_
  refine (h.argumentList r.fuel).bind_led fun arguments => ?_
  exact (h.expectOperator (by decide)).led_bind_led fun _ => .pure .nil _

theorem identifier (token : Token) :
    Yields (Led admitted) (identifier conditionText r token) := by
  unfold TokenFree.identifier
  split_ifs with hkeyword
  · exact .pure .nil _
  split
  · exact .refuseAt conditionText _ _
  refine h.callArguments.led_bind_led fun arguments => ?_
  split
  · exact .refuseAt conditionText _ _
  · split_ifs
    · exact .pure .nil _
    · exact .refuseAt conditionText _ _

theorem staticKey (t : Token) (ht : t.isStaticKey = true) : t.Neutral ∧ admitted t := by
  simp only [Token.isStaticKey, Bool.or_eq_true, Bool.and_eq_true, beq_iff_eq,
    List.isEmpty_iff] at ht
  rcases ht with hk | ⟨hk, hholes⟩
  · exact h.ofKind hk (.inl rfl)
  · exact ⟨by simp [Token.Neutral, hk], h.closed t hk hholes⟩

theorem objectPairs (fuel : ℕ) : Yields (Led admitted) (objectPairs conditionText r fuel) := by
  induction fuel with
  | zero => exact .outOfFuel
  | succ n ih =>
    refine .accept_led h.staticKey (.peek fun _ => .refuseAt conditionText _ _) fun t _ => ?_
    refine (h.expect_led (by decide) fun _ => ?_).led
    refine h.alternative.bind_led fun value => ?_
    refine .accept_led (h.operator (by decide)) (.pure .nil _) fun t _ => ?_
    exact (ih.led_bind_led fun _ => .pure .nil _).led

theorem object (token : Token) : Yields (Led admitted) (object conditionText r token) := by
  refine .accept_led (h.operator (by decide)) ?_ fun t _ => (Yields.pure .nil _).led
  refine (h.objectPairs r.fuel).led_bind_led fun values => ?_
  exact (h.expectOperator (by decide)).led_bind_led fun _ => .pure .nil _

/-- The operator terms other than `.` are consumed after their neutral opening token. -/
theorem operatorTerm {token : Token} (htoken : token.isOperator [".", "(", "[", "\x7b"] = true) :
    Yields (fun s => Clean admitted (token :: s)) (operatorTerm conditionText r token) := by
  have hplain : admitted token := by
    simp only [Token.isOperator, Bool.and_eq_true, beq_iff_eq, List.contains_iff_mem] at htoken
    refine h.plain token (by simp [htoken.1]) (by simp [htoken.1]) ?_
    have hne : token.text ≠ ".." := fun he => absurd (he ▸ htoken.2) (by decide)
    simp [Token.isOperator, hne]
  unfold TokenFree.operatorTerm
  split_ifs with hdot hparen hbracket
  · exact .pure (.singleton hplain) _
  all_goals
    have hneutral : token.Neutral := by
      simp only [Token.isOperator, Bool.and_eq_true, beq_iff_eq] at htoken
      exact ⟨by simp [htoken.1], fun hd => hdot hd.2⟩
    refine .mono (fun s hs => (Led.cons hneutral hplain hs).toClean) ?_
  · refine h.pipe.bind_led fun node => ?_
    exact (h.expectOperator (by decide)).led_bind_led fun _ => .pure .nil _
  · refine .accept_clean (h.operator (by decide)) ?_ fun t _ => (Yields.pure .nil _).led
    refine h.pipe.bind_led fun element => ?_
    exact (h.expectOperator (by decide)).led_bind_led fun _ => .pure .nil _
  · exact (h.object token).led

theorem primary : Yields (Clean admitted) (primary conditionText r) := by
  refine .accept ?_ fun t ht => h.operatorTerm ht
  refine .accept ?_ fun t ht => ?string
  refine .accept ?_ fun t ht => .pure ?number _
  refine .accept ?_ fun t ht => ?var
  refine .accept ?_ fun t ht => ?ident
  · refine .peek fun t => ?_
    split
    · exact .pure Led.nil.toClean _
    · exact .refuseAt conditionText _ _
    · split_ifs
      · exact .refuseAt conditionText _ _
      · exact .refuseAt conditionText _ _
    · exact .refuseAt conditionText _ _
  case ident =>
    have hadm := h.kind (.inl rfl) t ht
    exact (h.identifier t).mono fun s hs => (Led.cons hadm.1 hadm.2 hs.toClean).toClean
  case var =>
    have hadm := h.kind (.inr (.inl rfl)) t ht
    dsimp only
    split
    · exact .refuseAt conditionText _ _
    · exact .pure (.singleton hadm.2) _
  case number =>
    simp only [Token.hasKind, beq_iff_eq] at ht
    exact .singleton (h.plain t (by simp [ht]) (by simp [ht]) (by simp [Token.isOperator, ht]))
  case string =>
    simp only [Token.hasKind, beq_iff_eq] at ht
    intro depth cursor a cursor'' hrun
    obtain ⟨nodes, cursor', h₁, h₂⟩ := parser_bind_ok hrun
    obtain ⟨_, rfl⟩ := Prod.mk.inj (Except.ok.inj h₂)
    exact ⟨[], (interpolationList_tokens h₁).symm,
      .singleton (h.holes t depth cursor nodes cursor' ht h₁)⟩

theorem suffixLoop (fuel : ℕ) : Yields (Led admitted) (suffixLoop conditionText r fuel) := by
  induction fuel with
  | zero => exact .outOfFuel
  | succ n ih =>
    have hrest : ∀ g : List Suffix → List Suffix, Yields (Led admitted) (do
        return g (← TokenFree.suffixLoop conditionText r n)) :=
      fun g => ih.led_bind_led fun _ => .pure .nil _
    refine .accept_led (h.kind (.inr (.inr rfl))) ?_ fun t _ => (hrest _).led
    refine .accept_led (h.operator (by decide)) ?_ fun t _ => ?_
    · refine .accept_led (h.operator (by decide)) (.pure .nil _) fun t _ => (hrest _).led
    · refine .accept_clean (h.operator (by decide)) ?_ fun t _ => (hrest _).led
      refine h.pipe.bind_led fun key => ?_
      exact (h.expectOperator (by decide)).led_bind_led fun _ => hrest _

theorem binding (node : Node) : Yields (Led admitted) (binding conditionText r node) := by
  refine .accept_led h.keyword (.pure .nil _) fun t _ => ?_
  refine .led (.accept_led (h.kind (.inr (.inl rfl))) ?_ fun t _ => ?_)
  · exact .peek fun _ => .refuseAt conditionText _ _
  · refine (h.expect_led (by decide) fun _ => ?_).led
    exact h.pipe.bind_led fun _ => .pure .nil _

theorem postfixTerm : Yields (Clean admitted) (postfixTerm conditionText r) := by
  refine .peek fun start => ?_
  refine h.primary.bind_led fun term => ?_
  exact (h.suffixLoop r.fuel).led_bind_led fun suffixes => h.binding _

theorem unary_yields : Yields (Clean admitted) (TokenFree.unary conditionText r) := by
  refine .deeper conditionText (.accept_clean (h.operator (by decide)) ?_ fun t _ => ?_)
  · refine .accept_clean h.keyword h.postfixTerm fun t _ => ?_
    refine h.unary.bind_led fun body => ?_
    refine .accept_led h.keyword (.pure .nil _) fun t _ => ?_
    exact h.unary.bind_led fun _ => .pure .nil _
  · exact h.unary.bind_led fun _ => .pure .nil _

end SoundRules

/-! ## Accepted streams -/

/-- The tokens of a hole's body, lexed on a budget of its own. -/
def lexHole (conditionText : Text) (fuel : ℕ) (hole : Interpolation) :
    Except Failure (List Token × ℕ) :=
  lex conditionText fuel 0 hole.stop (conditionText.drop hole.start) hole.start 0

/-- A token that acceptance allows: no format string, no `..`, and as a string literal one whose
holes hold streams of such tokens, `nesting` holes deep at most. -/
def Admitted (conditionText : Text) (fuel : ℕ) : ℕ → Token → Prop
  | 0, t => t.kind ≠ .format ∧ t.isOperator [".."] = false ∧
      (t.kind = .string → t.interpolations = [])
  | nesting + 1, t => t.kind ≠ .format ∧ t.isOperator [".."] = false ∧
      (t.kind = .string → ∀ hole ∈ t.interpolations, ∃ tokens spent,
        lexHole conditionText fuel hole = .ok (tokens, spent) ∧
          Clean (Admitted conditionText fuel nesting) tokens)

theorem Admitted.mono {conditionText : Text} {fuel nesting : ℕ} {t : Token}
    (h : Admitted conditionText fuel nesting t) : Admitted conditionText fuel (nesting + 1) t := by
  induction nesting generalizing t with
  | zero =>
    refine ⟨h.1, h.2.1, fun hk hole hhole => ?_⟩
    rw [h.2.2 hk] at hhole
    exact absurd hhole List.not_mem_nil
  | succ n ih =>
    refine ⟨h.1, h.2.1, fun hk hole hhole => ?_⟩
    obtain ⟨tokens, spent, hlex, hclean⟩ := h.2.2 hk hole hhole
    exact ⟨tokens, spent, hlex, hclean.mono fun _ => ih⟩

/-- A whole stream that parses is clean. -/
theorem parse_clean {r : Rules} (hpipe : Yields (Clean admitted) r.pipe) {depth : ℕ}
    {cursor cursor' : Cursor} {node : Node} (hend : ∀ t ∈ cursor.tokens, t.kind ≠ .end)
    (h : parse conditionText r depth cursor = .ok (node, cursor')) :
    Clean admitted cursor.tokens := by
  obtain ⟨node', cursor₁, h₁, h₂⟩ := parser_bind_ok h
  obtain ⟨token, cursor₂, h₃, h₄⟩ := parser_bind_ok h₂
  obtain ⟨rfl, rfl⟩ := Prod.mk.inj (Except.ok.inj h₃)
  obtain ⟨consumed, heq, hclean⟩ := hpipe _ _ _ _ h₁
  split_ifs at h₄ with hkind
  · simp [refuseAt] at h₄
  · have hnil : cursor₁.tokens = [] := by
      cases htokens : cursor₁.tokens with
      | nil => rfl
      | cons t ts =>
        have hmem : t ∈ cursor.tokens := by
          rw [heq, htokens]
          exact List.mem_append_right _ List.mem_cons_self
        simp only [Cursor.next, htokens, List.headD_cons, ne_eq, not_not] at hkind
        exact absurd hkind (hend t hmem)
    rw [heq, hnil, List.append_nil]
    exact hclean

/-- The holes of a literal that the parser takes hold accepted streams. -/
theorem interpolationList_holes {r : Rules} {fuel nesting : ℕ} (hfuel : r.fuel ≤ fuel)
    (hpipe : Yields (Clean (Admitted conditionText fuel nesting)) r.pipe)
    {holes : List Interpolation} {depth : ℕ} {cursor cursor' : Cursor} {nodes : List Node}
    (h : interpolationList conditionText r holes depth cursor = .ok (nodes, cursor')) :
    ∀ hole ∈ holes, ∃ tokens spent, lexHole conditionText fuel hole = .ok (tokens, spent) ∧
      Clean (Admitted conditionText fuel nesting) tokens := by
  induction holes generalizing cursor cursor' nodes with
  | nil => exact fun hole hhole => absurd hhole List.not_mem_nil
  | cons hole holes ih =>
    obtain ⟨node, cursor₁, h₁, hrest⟩ := parser_bind_ok h
    obtain ⟨rest, cursor₂, h₂, _⟩ := parser_bind_ok hrest
    intro hole' hmem
    rcases List.mem_cons.mp hmem with rfl | hmem
    · simp only [interpolation, bind_eq_ok] at h₁
      obtain ⟨depth', _, ⟨tokens, spent⟩, hlex, ⟨inner, cursor₃⟩, hparse, _⟩ := h₁
      obtain ⟨spent', hlex'⟩ := lex_mono hfuel (Nat.zero_le depth') (Nat.zero_le _) hlex
      exact ⟨tokens, spent', hlex', parse_clean hpipe (lex_kind_ne_end rfl hlex) hparse⟩
    · exact ih h₂ hole' hmem

/-- Every rule consumes clean stretches, the holes in them as deep as the rule may call. -/
theorem rules_yield (conditionText : Text) {fuel n : ℕ} (hn : n ≤ fuel) :
    (rules conditionText n).fuel ≤ fuel ∧
      Yields (Clean (Admitted conditionText fuel n)) (rules conditionText n).pipe ∧
      Yields (Clean (Admitted conditionText fuel n)) (rules conditionText n).alternative ∧
      Yields (Clean (Admitted conditionText fuel n)) (rules conditionText n).unary := by
  induction n with
  | zero => exact ⟨Nat.zero_le _, .outOfFuel, .outOfFuel, .outOfFuel⟩
  | succ n ih =>
    obtain ⟨hfuel, hpipe, halternative, hunary⟩ := ih (by omega)
    have hsound : SoundRules conditionText (Admitted conditionText fuel (n + 1))
        (rules conditionText n) := by
      refine ⟨fun t hf hs hd => ⟨hf, hd, fun hk => absurd hk hs⟩, ?_, ?_,
        hpipe.mono fun _ hs => hs.mono fun _ => Admitted.mono,
        halternative.mono fun _ hs => hs.mono fun _ => Admitted.mono,
        hunary.mono fun _ hs => hs.mono fun _ => Admitted.mono⟩
      · intro t hk hnil
        refine ⟨by simp [hk], by simp [Token.isOperator, hk], fun _ hole hhole => ?_⟩
        rw [hnil] at hhole
        exact absurd hhole List.not_mem_nil
      · intro t depth cursor nodes cursor' hk hrun
        exact ⟨by simp [hk], by simp [Token.isOperator, hk],
          fun _ => interpolationList_holes hfuel hpipe hrun⟩
    exact ⟨hn, hsound.pipe_yields, hsound.alternative_yields, hsound.unary_yields⟩

/-- The tokens of an accepted condition are clean. -/
theorem parseCondition_clean {fuel : ℕ} {program : Node}
    (h : parseCondition conditionText fuel = .ok program) :
    ∃ tokens spent, lex conditionText fuel 0 conditionText.length conditionText 0 0 =
      .ok (tokens, spent) ∧ Clean (Admitted conditionText fuel fuel) tokens := by
  simp only [parseCondition, bind_eq_ok] at h
  obtain ⟨⟨tokens, spent⟩, hlex, ⟨node, cursor⟩, hparse, _⟩ := h
  obtain ⟨_, hpipe, _, _⟩ := rules_yield conditionText (Nat.le_refl fuel)
  have hend : ∀ t ∈ tokens, t.kind ≠ .end := lex_kind_ne_end (List.drop_zero).symm hlex
  exact ⟨tokens, spent, hlex, parse_clean hpipe hend hparse⟩

end TaiSkeleton.Authz.TokenFree
