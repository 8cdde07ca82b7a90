import TaiSkeleton.Connectors.LoggedData

/-!
# The scanners over rendered data

A string literal is read to its closing quote, whatever it quotes, and the brackets of a rendered
document are balanced. A scanner that finds its end in a text finds it whatever follows the text.
-/

namespace TaiSkeleton.Connectors

variable {quote : Char} {opening closing t t' : Text} {d : Dialect}

/-! ## Strings -/

/-- The reading of a string runs through the text. -/
def RunsThrough (quote : Char) (t : Text) : Prop :=
  ∀ rest, readString quote (t ++ rest) =
    (t ++ (readString quote rest).1, (readString quote rest).2)

theorem RunsThrough.nil : RunsThrough quote [] := fun _ => rfl

theorem RunsThrough.append (h : RunsThrough quote t) (h' : RunsThrough quote t') :
    RunsThrough quote (t ++ t') := by
  intro rest
  rw [List.append_assoc, h, h', List.append_assoc]

theorem RunsThrough.flatMap {f : Char → Text} (h : ∀ c, RunsThrough quote (f c)) (s : Text) :
    RunsThrough quote (s.flatMap f) := by
  induction s with
  | nil => exact .nil
  | cons c s ih => exact (h c).append ih

theorem RunsThrough.char {c : Char} (hescape : c ≠ '\\') (hquote : c ≠ quote) :
    RunsThrough quote [c] := by
  intro rest
  rw [List.singleton_append, readString.eq_def]
  simp only [hescape, hquote, if_false]
  rfl

theorem RunsThrough.escaped (c : Char) : RunsThrough quote ['\\', c] := by
  intro rest
  show readString quote ('\\' :: c :: rest) = _
  rw [readString.eq_def]
  rfl

theorem RunsThrough.chars (h : ∀ c ∈ t, c ≠ '\\' ∧ c ≠ quote) : RunsThrough quote t := by
  induction t with
  | nil => exact .nil
  | cons c t ih =>
    have hc := h c List.mem_cons_self
    exact (RunsThrough.char hc.1 hc.2).append (ih fun c hc => h c (List.mem_cons_of_mem _ hc))

/-- An escape with its digits. -/
theorem RunsThrough.escape (c : Char) (h : ∀ c ∈ t, c ≠ '\\' ∧ c ≠ quote) :
    RunsThrough quote ('\\' :: c :: t) :=
  (RunsThrough.escaped c).append (t := ['\\', c]) (.chars h)

theorem digitChar_plain : ∀ n < 16, isPlain n.digitChar = true := by decide

theorem hex_plain (width n : ℕ) : ∀ c ∈ hex width n, isPlain c = true := by
  induction width generalizing n with
  | zero => exact fun c hc => nomatch hc
  | succ width ih =>
    intro c hc
    obtain hc | hc := List.mem_append.mp hc
    · exact ih (n / 16) c hc
    · obtain rfl := List.mem_singleton.mp hc
      exact digitChar_plain _ (Nat.mod_lt n (by omega))

theorem ne_of_plain {c x : Char} (hx : isPlain x = false) (hc : isPlain c = true) : c ≠ x := by
  rintro rfl
  rw [hx] at hc
  cases hc

theorem not_plain_of_quote (hquote : isQuote quote = true) : isPlain quote = false := by
  obtain h | h := (Bool.or_eq_true _ _).mp hquote
  · rw [beq_iff_eq.mp h]
    rfl
  · rw [beq_iff_eq.mp h]
    rfl

theorem hex_runs (hquote : isQuote quote = true) (width n : ℕ) :
    ∀ c ∈ hex width n, c ≠ '\\' ∧ c ≠ quote := by
  intro c hc
  have hplain := hex_plain width n c hc
  exact ⟨ne_of_plain rfl hplain, ne_of_plain (not_plain_of_quote hquote) hplain⟩

theorem jsonEscape_runs (ensureAscii : Bool) (c : Char) :
    RunsThrough '"' (jsonEscape ensureAscii c) := by
  unfold jsonEscape
  split_ifs with hspecial
  · exact .escaped c
  · exact .escaped 'n'
  · exact .escaped 'r'
  · exact .escaped 't'
  · exact .escaped 'f'
  · exact .escaped 'b'
  · exact .escape 'u' (hex_runs rfl 4 _)
  · exact (RunsThrough.escape 'u' (hex_runs rfl 4 _)).append (.escape 'u' (hex_runs rfl 4 _))
  · obtain ⟨hquote, hescape⟩ := not_or.mp hspecial
    exact .char hescape hquote

theorem reprEscape_runs (printable : Char → Bool) (hquote : isQuote quote = true) (c : Char) :
    RunsThrough quote (reprEscape printable quote c) := by
  unfold reprEscape
  split_ifs with hspecial
  · exact .escaped c
  · exact .escaped 'n'
  · exact .escaped 'r'
  · exact .escaped 't'
  · exact .escape 'x' (hex_runs hquote 2 _)
  · obtain ⟨hquote, hescape⟩ := not_or.mp hspecial
    exact .char hescape hquote
  · exact .escape 'x' (hex_runs hquote 2 _)
  · exact .escape 'u' (hex_runs hquote 4 _)
  · exact .escape 'U' (hex_runs hquote 8 _)

theorem isQuote_quote (d : Dialect) (s : Text) : isQuote (d.quote s) = true := by
  cases d with
  | json => rfl
  | repr =>
    simp only [Dialect.quote]
    split_ifs <;> rfl

theorem escape_runs (d : Dialect) (s : Text) (c : Char) :
    RunsThrough (d.quote s) (d.escape (d.quote s) c) := by
  cases d with
  | json ensureAscii itemSep keySep => exact jsonEscape_runs ensureAscii c
  | repr printable => exact reprEscape_runs printable (isQuote_quote (.repr printable) s) c

/-- A string literal is read to its closing quote. -/
theorem literal_read (d : Dialect) (s : Text) :
    ∃ quote body, isQuote quote = true ∧ d.literal s = quote :: body ∧
      ∀ rest, readString quote (body ++ rest) = (body, rest) := by
  refine ⟨d.quote s, s.flatMap (d.escape (d.quote s)) ++ [d.quote s], isQuote_quote d s, rfl,
    fun rest => ?_⟩
  rw [List.append_assoc, RunsThrough.flatMap (escape_runs d s) s]
  have hclose : readString (d.quote s) (d.quote s :: rest) = ([d.quote s], rest) := by
    have hescape : d.quote s ≠ '\\' := by
      intro h
      have hquote := isQuote_quote d s
      rw [h] at hquote
      exact absurd hquote (by decide)
    rw [readString.eq_def]
    simp only [hescape, if_false, if_true]
  rw [List.singleton_append, hclose]

/-! ## Brackets -/

/-- The kinds of brackets that a scanner counts. -/
structure Brackets (opening closing : Text) : Prop where
  opens : ∀ c ∈ opening, c ∈ ['[', '{', '(']
  closes : ∀ c ∈ closing, c ∈ [']', '}', ')']
  square : '[' ∈ opening ↔ ']' ∈ closing
  curly : '{' ∈ opening ↔ '}' ∈ closing

theorem Brackets.object : Brackets ['{'] ['}'] := ⟨by simp, by simp, by simp, by simp⟩

theorem Brackets.all : Brackets ['[', '{', '('] [']', '}', ')'] :=
  ⟨by simp, by simp, by simp, by simp⟩

/-- Neither a quote nor a bracket. -/
def isInert (c : Char) : Bool :=
  !isQuote c && !(['[', '{', '(', ']', '}', ')'].contains c)

/-- A scan of brackets runs through the text and is as deep after it as before. -/
def Balanced (opening closing t : Text) : Prop :=
  ∀ depth rest, scanBrackets opening closing (depth + 1) (t ++ rest) =
    (t ++ (scanBrackets opening closing (depth + 1) rest).1,
      (scanBrackets opening closing (depth + 1) rest).2)

theorem Balanced.nil : Balanced opening closing [] := fun _ _ => rfl

theorem Balanced.append (h : Balanced opening closing t) (h' : Balanced opening closing t') :
    Balanced opening closing (t ++ t') := by
  intro depth rest
  rw [List.append_assoc, h, h', List.append_assoc]

theorem Balanced.char {c : Char} (hquote : isQuote c = false) (hopening : c ∉ opening)
    (hclosing : c ∉ closing) : Balanced opening closing [c] := by
  intro depth rest
  rw [List.singleton_append, scanBrackets]
  simp only [hquote, hopening, hclosing, Bool.false_eq_true, if_false]
  rfl

theorem Balanced.inert (hb : Brackets opening closing) (h : ∀ c ∈ t, isInert c = true) :
    Balanced opening closing t := by
  induction t with
  | nil => exact .nil
  | cons c t ih =>
    obtain ⟨hquote, hbracket⟩ := (Bool.and_eq_true _ _).mp (h c List.mem_cons_self)
    simp only [Bool.not_eq_true', List.contains_eq_mem, decide_eq_false_iff_not, List.mem_cons,
      List.not_mem_nil, or_false, not_or] at hquote hbracket
    refine (Balanced.char hquote (fun hc => ?_) fun hc => ?_).append (t := [c])
      (ih fun c hc => h c (List.mem_cons_of_mem _ hc))
    · have := hb.opens c hc
      simp [hbracket] at this
    · have := hb.closes c hc
      simp [hbracket] at this

theorem Balanced.literal (d : Dialect) (s : Text) : Balanced opening closing (d.literal s) := by
  obtain ⟨quote, body, hquote, heq, hread⟩ := literal_read d s
  intro depth rest
  rw [heq, List.cons_append, scanBrackets]
  simp only [hquote, if_true, hread]

theorem opening_bracket : ∀ c ∈ ['[', '{', '('], isQuote c = false ∧ c ∉ [']', '}', ')'] := by
  simp [isQuote]

theorem closing_bracket : ∀ c ∈ [']', '}', ')'], isQuote c = false ∧ c ∉ ['[', '{', '('] := by
  simp [isQuote]

theorem scanBrackets_open {c : Char} {depth : ℕ} (hquote : isQuote c = false) (hc : c ∈ opening)
    (text : Text) :
    scanBrackets opening closing depth (c :: text) =
      (c :: (scanBrackets opening closing (depth + 1) text).1,
        (scanBrackets opening closing (depth + 1) text).2) := by
  rw [scanBrackets]
  simp only [hquote, hc, Bool.false_eq_true, if_false, if_true]

theorem scanBrackets_close {c : Char} {depth : ℕ} (hquote : isQuote c = false)
    (hopening : c ∉ opening) (hc : c ∈ closing) (text : Text) :
    scanBrackets opening closing (depth + 2) (c :: text) =
      (c :: (scanBrackets opening closing (depth + 1) text).1,
        (scanBrackets opening closing (depth + 1) text).2) := by
  rw [scanBrackets]
  simp [hquote, hopening, hc]

theorem scanBrackets_end {c : Char} (hquote : isQuote c = false) (hopening : c ∉ opening)
    (hc : c ∈ closing) (text : Text) :
    scanBrackets opening closing 1 (c :: text) = ([], c :: text) := by
  rw [scanBrackets]
  simp [hquote, hopening, hc]

theorem Balanced.wrap {c c' : Char} (hb : Brackets opening closing) (h : Balanced opening closing t)
    (hpair : c ∈ opening ↔ c' ∈ closing) (hc : c ∈ ['[', '{', '('])
    (hc' : c' ∈ [']', '}', ')']) : Balanced opening closing (c :: t ++ [c']) := by
  obtain ⟨hquote, hother⟩ := opening_bracket c hc
  obtain ⟨hquote', hother'⟩ := closing_bracket c' hc'
  have hclosing : c ∉ closing := fun hmem => hother (hb.closes c hmem)
  have hopening : c' ∉ opening := fun hmem => hother' (hb.opens c' hmem)
  by_cases hopen : c ∈ opening
  · have hclose := hpair.mp hopen
    intro depth rest
    show scanBrackets opening closing (depth + 1) (c :: (t ++ [c'] ++ rest)) = _
    rw [scanBrackets_open hquote hopen, List.append_assoc, h, List.singleton_append,
      scanBrackets_close hquote' hopening hclose]
    simp
  · exact ((Balanced.char hquote hopen hclosing).append h).append
      (.char hquote' hopening (mt hpair.mpr hopen))

theorem Balanced.intercalate {sep : Text} {ts : List Text} (hsep : Balanced opening closing sep)
    (h : ∀ t ∈ ts, Balanced opening closing t) :
    Balanced opening closing (sep.intercalate ts) := by
  induction ts with
  | nil => exact .nil
  | cons t ts ih =>
    have hts : ∀ t ∈ ts, Balanced opening closing t := fun t ht => h t (List.mem_cons_of_mem _ ht)
    cases ts with
    | nil =>
      rw [List.intercalate_singleton]
      exact h t List.mem_cons_self
    | cons t' ts =>
      rw [List.intercalate_cons_cons]
      exact ((h t List.mem_cons_self).append hsep).append (ih hts)

theorem inert_of_plain {c : Char} (h : isPlain c = true) : isInert c = true := by
  have hne (x : Char) (hx : isPlain x = false) : c ≠ x := ne_of_plain hx h
  simp [isInert, isQuote, hne '"' rfl, hne '\'' rfl, hne '[' rfl, hne '{' rfl, hne '(' rfl,
    hne ']' rfl, hne '}' rfl, hne ')' rfl]

theorem word_plain (d : Dialect) (s : Scalar) : ∀ c ∈ d.word s, isPlain c = true := by
  cases s with
  | none => cases d <;> exact List.all_eq_true.mp rfl
  | bool b => cases d <;> cases b <;> exact List.all_eq_true.mp rfl
  | number n => cases d <;> exact List.all_eq_true.mp n.property.2

theorem inert_of_blank {c : Char} (h : isBlank c = true) : isInert c = true := by
  obtain h | h := (Bool.or_eq_true _ _).mp h
  · rw [beq_iff_eq.mp h]
    rfl
  · rw [beq_iff_eq.mp h]
    rfl

theorem inert_of_gap : ∀ c ∈ [' ', '\t', '\r', '\n', ','], isInert c = true :=
  List.all_eq_true.mp rfl

theorem Balanced.itemSep (hb : Brackets opening closing) (hd : d.Spaced) :
    Balanced opening closing d.itemSep :=
  .inert hb fun c hc => inert_of_gap c (List.contains_iff_mem.mp (hd.itemSep c hc))

theorem Balanced.keySep (hb : Brackets opening closing) (hd : d.Spaced) :
    Balanced opening closing d.keySep := by
  obtain ⟨before, after, heq, hbefore, hafter⟩ := hd.keySep
  rw [heq]
  refine .inert hb fun c hc => ?_
  obtain hc | hc := List.mem_append.mp hc
  · exact inert_of_blank (hbefore c hc)
  · obtain rfl | hc := List.mem_cons.mp hc
    · rfl
    · exact inert_of_blank (hafter c hc)

theorem Balanced.word (hb : Brackets opening closing) (s : Scalar) :
    Balanced opening closing (d.word s) :=
  .inert hb fun c hc => inert_of_plain (word_plain d s c hc)

theorem Balanced.key (hb : Brackets opening closing) (k : Key) :
    Balanced opening closing (d.key k) := by
  cases k with
  | str s => cases d <;> exact .literal _ s
  | scalar s =>
    cases d with
    | json ensureAscii itemSep keySep => exact .literal _ _
    | repr printable => exact .word hb s

theorem mem_renderItems {items : List Doc} (ht : t ∈ renderItems d items) :
    ∃ item ∈ items, t = item.render d := by
  induction items with
  | nil => cases ht
  | cons item items ih =>
    obtain rfl | ht := List.mem_cons.mp ht
    · exact ⟨item, List.mem_cons_self, rfl⟩
    · obtain ⟨item', hitem, heq⟩ := ih ht
      exact ⟨item', List.mem_cons_of_mem _ hitem, heq⟩

theorem mem_renderMembers {members : List (Key × Doc)} (ht : t ∈ renderMembers d members) :
    ∃ member ∈ members, t = d.key member.1 ++ d.keySep ++ member.2.render d := by
  induction members with
  | nil => cases ht
  | cons member members ih =>
    obtain ⟨k, value⟩ := member
    obtain rfl | ht := List.mem_cons.mp ht
    · exact ⟨(k, value), List.mem_cons_self, rfl⟩
    · obtain ⟨member', hmember, heq⟩ := ih ht
      exact ⟨member', List.mem_cons_of_mem _ hmember, heq⟩

theorem Balanced.body (hb : Brackets opening closing) (hd : d.Spaced)
    {members : List (Key × Doc)}
    (h : ∀ member ∈ members, Balanced opening closing (member.2.render d)) :
    Balanced opening closing (bodyText d members) := by
  refine .intercalate (.itemSep hb hd) fun t ht => ?_
  obtain ⟨member, hmember, rfl⟩ := mem_renderMembers ht
  exact ((Balanced.key hb member.1).append (.keySep hb hd)).append (h member hmember)

/-- The brackets of a rendered document are balanced. -/
theorem Balanced.render (hb : Brackets opening closing) (hd : d.Spaced) (doc : Doc) :
    Balanced opening closing (doc.render d) := by
  induction doc using Doc.induction with
  | scalar s => exact .word hb s
  | str s => exact .literal d s
  | list items ih =>
    refine .wrap hb (.intercalate (.itemSep hb hd) fun t ht => ?_) hb.square (by decide)
      (by decide)
    obtain ⟨item, hitem, rfl⟩ := mem_renderItems ht
    exact ih item hitem
  | dict members ih => exact .wrap hb (.body hb hd ih) hb.curly (by decide) (by decide)

/-! ## What follows a text -/

theorem readString_more {t more : Text} (h : (readString quote t).2 ≠ []) :
    readString quote (t ++ more) = ((readString quote t).1, (readString quote t).2 ++ more) := by
  fun_induction readString quote t with
  | case1 => exact absurd rfl h
  | case2 => exact absurd rfl h
  | case3 escaped t ih =>
    show readString quote ('\\' :: escaped :: (t ++ more)) = _
    rw [readString.eq_def]
    simp only [if_true, ih h]
  | case4 t hescape =>
    rw [List.cons_append, readString.eq_def]
    simp only [hescape, if_false, if_true]
  | case5 c t hescape hquote ih =>
    rw [List.cons_append, readString.eq_def]
    simp only [hescape, hquote, if_false, ih h]

/-- A scan that comes to its bracket comes to it whatever follows. -/
theorem scanBrackets_more {depth : ℕ} {c : Char} {t rest more : Text}
    (h : (scanBrackets opening closing depth t).2 = c :: rest) :
    scanBrackets opening closing depth (t ++ more) =
      ((scanBrackets opening closing depth t).1, c :: rest ++ more) := by
  fun_induction scanBrackets opening closing depth t with
  | case1 => cases h
  | case2 depth x t hquote hread scan ih =>
    have hleft : (readString x t).2 ≠ [] := by
      intro hnil
      have hscan : (scanBrackets opening closing depth (readString x t).2).2 = c :: rest := h
      rw [hnil] at hscan
      simp [scanBrackets] at hscan
    rw [List.cons_append, scanBrackets]
    simp only [hquote, if_true, readString_more hleft, ih h]
    rfl
  | case3 depth x t hquote hopen scan ih =>
    rw [List.cons_append, scanBrackets]
    simp only [hquote, hopen, Bool.false_eq_true, if_false, if_true, ih h]
    rfl
  | case4 depth x t hquote hopen hclose hdepth =>
    cases h
    rw [List.cons_append, scanBrackets]
    simp [hquote, hopen, hclose, hdepth]
  | case5 depth x t hquote hopen hclose hdepth scan ih =>
    rw [List.cons_append, scanBrackets]
    simp only [hquote, hopen, hclose, hdepth, Bool.false_eq_true, if_false, if_true, ih h]
    rfl
  | case6 depth x t hquote hopen hclose scan ih =>
    rw [List.cons_append, scanBrackets]
    simp only [hquote, hopen, hclose, Bool.false_eq_true, if_false, ih h]
    rfl

/-- A text that the start pattern matches as a whole. -/
def IsStart (text : Text) : Prop :=
  ∃ quote name quote' before after,
    text = quote :: (name ++ quote' :: (before ++ ':' :: (after ++ ['{']))) ∧
    isQuote quote = true ∧ isQuote quote' = true ∧
    (name = "headers".toList ∨ name = "env".toList) ∧
    (∀ c ∈ before, isSpace c = true) ∧ ∀ c ∈ after, isSpace c = true

theorem dropWhile_eq_cons {c : Char} {t rest : Text} (hc : isSpace c = false) :
    t.dropWhile isSpace = c :: rest ↔
      ∃ before, (∀ x ∈ before, isSpace x = true) ∧ t = before ++ c :: rest := by
  constructor
  · intro h
    refine ⟨t.takeWhile isSpace, List.all_eq_true.mp List.all_takeWhile, ?_⟩
    rw [← h, List.takeWhile_append_dropWhile]
  · rintro ⟨before, hbefore, rfl⟩
    rw [List.dropWhile_append_of_pos hbefore, List.dropWhile_cons_of_neg (by simp [hc])]

theorem named_eq_some {t rest : Text} :
    (stripPrefix? "headers".toList t).or (stripPrefix? "env".toList t) = some rest ↔
      ∃ name, (name = "headers".toList ∨ name = "env".toList) ∧ t = name ++ rest := by
  constructor
  · intro h
    obtain h | ⟨-, h⟩ := Option.or_eq_some_iff.mp h
    · exact ⟨_, .inl rfl, stripPrefix?_eq_some.mp h⟩
    · exact ⟨_, .inr rfl, stripPrefix?_eq_some.mp h⟩
  · rintro ⟨name, rfl | rfl, rfl⟩
    · rw [stripPrefix?_eq_some.mpr rfl]
      rfl
    · rfl

theorem matchStart_eq_some {text rest : Text} :
    matchStart text = some rest ↔ ∃ start, IsStart start ∧ text = start ++ rest := by
  constructor
  · intro h
    cases text with
    | nil => cases h
    | cons quote text =>
      simp only [matchStart] at h
      split_ifs at h with hquote
      split at h
      · next quote' named hfound =>
        obtain ⟨name, hname, rfl⟩ := named_eq_some.mp hfound
        split_ifs at h with hquote'
        split at h
        · next value hcolon =>
          obtain ⟨before, hbefore, rfl⟩ := (dropWhile_eq_cons rfl).mp hcolon
          split at h
          · next object hbrace =>
            obtain ⟨after, hafter, rfl⟩ := (dropWhile_eq_cons rfl).mp hbrace
            obtain rfl := Option.some.inj h
            exact ⟨_, ⟨quote, name, quote', before, after, rfl, hquote, hquote', hname, hbefore,
              hafter⟩, by simp⟩
          · cases h
        · cases h
      · cases h
  · rintro ⟨_, ⟨quote, name, quote', before, after, rfl, hquote, hquote', hname, hbefore,
      hafter⟩, rfl⟩
    have hbrace : (after ++ '{' :: rest).dropWhile isSpace = '{' :: rest :=
      (dropWhile_eq_cons rfl).mpr ⟨after, hafter, rfl⟩
    have hcolon : (before ++ ':' :: (after ++ '{' :: rest)).dropWhile isSpace =
        ':' :: (after ++ '{' :: rest) := (dropWhile_eq_cons rfl).mpr ⟨before, hbefore, rfl⟩
    have hnamed := named_eq_some.mpr
      ⟨name, hname, (rfl : name ++ quote' :: (before ++ ':' :: (after ++ '{' :: rest)) = _)⟩
    simp only [List.cons_append, List.append_assoc, List.nil_append]
    simp only [matchStart, hquote, if_true, hnamed, hquote', hcolon, hbrace]

theorem space_ne_brace {c : Char} (h : isSpace c = true) : c ≠ '{' := by
  rintro rfl
  exact absurd h (by decide)

/-- The brace of a start is its last character, and its only brace. -/
theorem IsStart.brace {text : Text} (h : IsStart text) :
    ∃ start, text = start ++ ['{'] ∧ '{' ∉ start := by
  obtain ⟨quote, name, quote', before, after, rfl, hquote, hquote', hname, hbefore, hafter⟩ := h
  refine ⟨quote :: (name ++ quote' :: (before ++ ':' :: after)), by simp, fun hmem => ?_⟩
  have hne : ∀ q, isQuote q = true → '{' ≠ q := by
    rintro _ hq rfl
    exact absurd hq (by decide)
  have hspace : ∀ l : Text, (∀ c ∈ l, isSpace c = true) → '{' ∉ l := fun l hl hmem =>
    space_ne_brace (hl _ hmem) rfl
  have hnamed : '{' ∉ name := by
    obtain rfl | rfl := hname <;> decide
  simp [hne _ hquote, hne _ hquote', hspace _ hbefore, hspace _ hafter, hnamed] at hmem

theorem searchStart_brace {t before after : Text} (h : searchStart t = some (before, after)) :
    '{' ∈ t := by
  induction t generalizing before with
  | nil => cases h
  | cons c t ih =>
    simp only [searchStart] at h
    split at h
    · next rest hmatch =>
      obtain ⟨start, hstart, heq⟩ := matchStart_eq_some.mp hmatch
      obtain ⟨start', rfl, -⟩ := hstart.brace
      rw [heq]
      simp
    · obtain ⟨⟨before', after'⟩, hfound, hpair⟩ := Option.map_eq_some_iff.mp h
      cases hpair
      exact List.mem_cons_of_mem _ (ih hfound)

/-- No start begins in a text and ends behind a brace that the text has. -/
theorem matchStart_more {t more : Text} (hbrace : '{' ∈ t) (h : matchStart t = none) :
    matchStart (t ++ more) = none := by
  refine Option.eq_none_iff_forall_ne_some.mpr fun rest hmatch => ?_
  obtain ⟨start, hstart, heq⟩ := matchStart_eq_some.mp hmatch
  obtain ⟨inner, rfl, hinner⟩ := hstart.brace
  rw [List.append_assoc, List.singleton_append] at heq
  obtain ⟨left, rfl, -⟩ | ⟨left, rfl, hleft⟩ := List.append_eq_append_iff.mp heq
  · exact hinner (List.mem_append_left _ hbrace)
  · cases left with
    | nil =>
      rw [List.append_nil] at hbrace
      exact hinner hbrace
    | cons c left =>
      obtain ⟨rfl, -⟩ := List.cons.inj hleft
      have hfound : matchStart (inner ++ '{' :: left) = some left :=
        matchStart_eq_some.mpr ⟨_, hstart, by simp⟩
      rw [h] at hfound
      cases hfound

/-- A search that finds a start finds it whatever follows. -/
theorem searchStart_more {t before after more : Text}
    (h : searchStart t = some (before, after)) :
    searchStart (t ++ more) = some (before, after ++ more) := by
  induction t generalizing before with
  | nil => cases h
  | cons c t ih =>
    have hbrace := searchStart_brace h
    simp only [searchStart] at h
    split at h
    · next rest hmatch =>
      cases h
      obtain ⟨start, hstart, heq⟩ := matchStart_eq_some.mp hmatch
      have hmore : matchStart (c :: (t ++ more)) = some (after ++ more) :=
        matchStart_eq_some.mpr ⟨start, hstart, by rw [← List.cons_append, heq, List.append_assoc]⟩
      rw [List.cons_append, searchStart, hmore]
      simp only [← List.cons_append, heq]
      simp
    · next hmatch =>
      obtain ⟨⟨before', after'⟩, hfound, hpair⟩ := Option.map_eq_some_iff.mp h
      cases hpair
      rw [List.cons_append, searchStart, ← List.cons_append, matchStart_more hbrace hmatch]
      simp only [ih hfound, Option.map_some]

end TaiSkeleton.Connectors
