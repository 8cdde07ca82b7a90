import TaiSkeleton.Middleware.IpAddress

/-!
# The texts that are written for an address

An IPv4 address is read from its own text and from no other. A network of 64 bits is read from its
text: behind the hextets up to the last that is not zero, a `::` stands for the rest.
-/

namespace TaiSkeleton.RateLimit

open Lib

/-! ## One after another -/

section MapM

variable {α β : Type} {f : α → Option β} {g : β → α} {l : List α} {l' : List β}

theorem mapM_map_eq_some (h : ∀ b, f (g b) = some b) (l' : List β) :
    (l'.map g).mapM f = some l' := by
  induction l' with
  | nil => rfl
  | cons b l' ih =>
    rw [List.map_cons, List.mapM_cons, h, ih]
    rfl

theorem map_eq_of_mapM (h : ∀ a b, f a = some b → g b = a) (hl : l.mapM f = some l') :
    l'.map g = l := by
  induction l generalizing l' with
  | nil =>
    cases hl
    rfl
  | cons a l ih =>
    rw [List.mapM_cons] at hl
    obtain ⟨b, hb, htail⟩ := Option.bind_eq_some_iff.mp hl
    obtain ⟨rest, hrest, hcons⟩ := Option.bind_eq_some_iff.mp htail
    cases hcons
    rw [List.map_cons, h a b hb, ih hrest]

end MapM

/-! ## IPv4 -/

theorem parseOctet_toDigits : ∀ octet : Octet,
    parseOctet (Nat.toDigits 10 octet.val) = some octet := by
  decide +kernel

theorem toDigits_of_parseOctet {text : Text} {octet : Octet} (h : parseOctet text = some octet) :
    Nat.toDigits 10 octet.val = text := by
  unfold parseOctet at h
  split_ifs at h with hcond
  obtain ⟨hne, hdigits, -, hzero, hvalue⟩ := hcond
  cases h
  show Nat.toDigits 10 (numeralValue 10 text % 256) = text
  rw [Nat.mod_eq_of_lt (by omega)]
  refine toDigits_numeralValue hne (List.all_eq_true.mp hdigits) ?_
  rw [not_and_or, not_not] at hzero
  exact hzero

theorem mem_decimal {octet : Octet} {c : Char} (h : c ∈ Nat.toDigits 10 octet.val) :
    c.isDigit = true := by
  obtain ⟨d, hd, rfl⟩ := exists_of_mem_toDigits (by decide) h
  exact (show ∀ d < 10, (Nat.digitChar d).isDigit = true by decide) d hd

theorem mem_ipv4_text {ip : IPv4Address} {c : Char} (h : c ∈ ip.text) :
    c = '.' ∨ c.isDigit = true := by
  refine (mem_intercalate h).imp_right ?_
  rintro ⟨part, hpart, hc⟩
  obtain ⟨octet, -, rfl⟩ := List.mem_map.mp hpart
  exact mem_decimal hc

/-- An IPv4 address is read from its text. -/
theorem ipv4Address_text (ip : IPv4Address) : ipv4Address ip.text = some ip := by
  have hslash : '/' ∉ ip.text := fun h => by
    rcases mem_ipv4_text h with h | h
    · exact absurd h (by decide)
    · exact absurd h (by decide)
  have hsplit : ip.text.splitOn '.' = ip.octets.map fun octet => Nat.toDigits 10 octet.val := by
    refine List.splitOn_intercalate _ (fun part hpart hdot => ?_) ?_
    · obtain ⟨octet, -, rfl⟩ := List.mem_map.mp hpart
      exact absurd (mem_decimal hdot) (by decide)
    · intro hnil
      have hlength := ip.length_eq
      rw [List.map_eq_nil_iff.mp hnil] at hlength
      cases hlength
  unfold ipv4Address
  rw [if_neg hslash, hsplit, mapM_map_eq_some parseOctet_toDigits]
  exact dif_pos ip.length_eq

/-- It is read from no other text. -/
theorem text_of_ipv4Address {text : Text} {ip : IPv4Address} (h : ipv4Address text = some ip) :
    ip.text = text := by
  unfold ipv4Address at h
  split_ifs at h
  split at h
  · next octets hoctets =>
    split_ifs at h
    cases h
    show ['.'].intercalate (octets.map fun octet => Nat.toDigits 10 octet.val) = text
    rw [map_eq_of_mapM (fun _ _ => toDigits_of_parseOctet) hoctets, List.intercalate_splitOn]
  · cases h

/-! ## IPv6 -/

theorem mem_hexText {hextet : Hextet} {c : Char} (h : c ∈ hexText hextet) :
    isHexDigit c = true := by
  obtain ⟨d, hd, rfl⟩ := exists_of_mem_toDigits (by decide) h
  exact (show ∀ d < 16, isHexDigit (Nat.digitChar d) = true by decide) d hd

theorem hexText_ne_nil (hextet : Hextet) : hexText hextet ≠ [] := Nat.toDigits_ne_nil

theorem parseHextet_hexText (hextet : Hextet) : parseHextet (hexText hextet) = some hextet := by
  have hhex : (hexText hextet).all isHexDigit = true :=
    List.all_eq_true.mpr fun c hc => mem_hexText hc
  have hlength : (hexText hextet).length ≤ 4 :=
    (Nat.length_toDigits_le_iff (by decide) (by decide)).mpr hextet.isLt
  unfold parseHextet
  rw [if_pos ⟨hhex, hlength, hexText_ne_nil hextet⟩]
  unfold hexText
  rw [numeralValue_toDigits (by decide) (by decide), Fin.ofNat_val_eq_self]

theorem hexText_eq_zero_iff {hextet : Hextet} : hexText hextet = ['0'] ↔ hextet = 0 := by
  constructor
  · intro h
    exact Fin.ext (toDigits_injective (by decide) (by decide) h)
  · rintro rfl
    rfl

theorem compressHextets_network (a b c d : Text) :
    compressHextets [a, b, c, d, ['0'], ['0'], ['0'], ['0']] =
      if d ≠ ['0'] then [a, b, c, d, [], []]
      else if c ≠ ['0'] then [a, b, c, [], []]
      else if b ≠ ['0'] then [a, b, [], []]
      else if a ≠ ['0'] then [a, [], []]
      else [[], [], []] := by
  by_cases hd : d = ['0'] <;> by_cases hc : c = ['0'] <;> by_cases hb : b = ['0'] <;>
    by_cases ha : a = ['0'] <;> simp [compressHextets, longestZeros, ha, hb, hc, hd]

theorem colon_not_mem_hexText (hextet : Hextet) : ':' ∉ hexText hextet :=
  fun h => absurd (mem_hexText h) (by decide)

/-- The one index where a `::` at the end is met. -/
theorem skipIndexes_network {kept : List Hextet} (hne : kept ≠ []) (hlength : kept.length ≤ 4) :
    skipIndexes (kept.map hexText ++ [[], []]) = [kept.length] := by
  match kept, hne, hlength with
  | [a], _, _ => simp [skipIndexes, List.range_succ]
  | [a, b], _, _ => simp [skipIndexes, List.range_succ, hexText_ne_nil]
  | [a, b, c], _, _ => simp [skipIndexes, List.range_succ, hexText_ne_nil]
  | [a, b, c, d], _, _ => simp [skipIndexes, List.range_succ, hexText_ne_nil]
  | _ :: _ :: _ :: _ :: _ :: _, _, hlength => exact absurd hlength (by simp)

theorem parseSkipped_network {kept : List Hextet} (hne : kept ≠ []) (hlength : kept.length ≤ 4) :
    parseSkipped (kept.map hexText ++ [[], []]) kept.length =
      some (kept ++ List.replicate (8 - kept.length) 0) := by
  obtain ⟨first, rest, rfl⟩ := List.exists_cons_of_ne_nil hne
  have hhead : ((first :: rest).map hexText ++ [[], []]).head? ≠ some [] := by
    simpa using hexText_ne_nil first
  have hlast : ((first :: rest).map hexText ++ [[], []]).getLast? = some [] := by
    rw [List.getLast?_append_of_ne_nil _ (by simp)]
    rfl
  have hlo : ((first :: rest).map hexText ++ [[], []]).length - (first :: rest).length - 1 - 1 =
      0 := by
    rw [List.length_append, List.length_map]
    simp
  have htake : ((first :: rest).map hexText ++ [[], []]).take (first :: rest).length =
      (first :: rest).map hexText := by
    rw [List.take_append_of_le_length (by rw [List.length_map]),
      List.take_of_length_le (by rw [List.length_map])]
  unfold parseSkipped
  dsimp only
  simp only [if_neg hhead, if_pos hlast, hlo]
  rw [if_neg fun h => hhead h.1, if_neg fun h => h.2 rfl, if_neg (by omega), htake,
    Nat.sub_zero, List.drop_length, mapM_map_eq_some parseHextet_hexText]
  show some _ = _
  rw [List.reverse_nil, List.append_nil, Nat.add_zero]

theorem hextetsOf_intercalate {kept : List Hextet} (hne : kept ≠ []) (h : kept.length ≤ 4) :
    hextetsOf ([':'].intercalate (kept.map hexText ++ [[], []])) =
      some (kept ++ List.replicate (8 - kept.length) 0) := by
  have hsplit : ([':'].intercalate (kept.map hexText ++ [[], []])).splitOn ':' =
      kept.map hexText ++ [[], []] := by
    refine List.splitOn_intercalate _ (fun part hpart => ?_) (by simp)
    rcases List.mem_append.mp hpart with hpart | hpart
    · obtain ⟨hextet, -, rfl⟩ := List.mem_map.mp hpart
      exact colon_not_mem_hexText hextet
    · have hnil : part = [] := by simpa using hpart
      rw [hnil]
      exact List.not_mem_nil
  have hpos := List.length_pos_iff.mpr hne
  have hlength : (kept.map hexText ++ [[], []]).length = kept.length + 2 := by
    rw [List.length_append, List.length_map]
    rfl
  have htext : [':'].intercalate (kept.map hexText ++ [[], []]) ≠ [] := by
    intro hnil
    rw [hnil] at hsplit
    have := congrArg List.length hsplit
    rw [hlength] at this
    simp at this
  have hexpand : expandSuffix (kept.map hexText ++ [[], []]) =
      some (kept.map hexText ++ [[], []]) := by
    unfold expandSuffix
    rw [List.getLast?_append_of_ne_nil _ (by simp)]
    exact if_neg List.not_mem_nil
  unfold hextetsOf
  dsimp only
  rw [hsplit, if_neg (by rw [hlength]; simp only [htext, false_or]; omega), hexpand]
  dsimp only
  rw [if_neg (by rw [hlength]; omega), skipIndexes_network hne h]
  exact parseSkipped_network hne h

/-- The hextets of a network up to the last that is not zero. -/
theorem exists_kept (a b c d : Hextet) : ∃ kept : List Hextet, kept.length ≤ 4 ∧
    [a, b, c, d, 0, 0, 0, 0] = kept ++ List.replicate (8 - kept.length) 0 ∧
    compressHextets ([a, b, c, d, 0, 0, 0, 0].map hexText) =
      (if kept = [] then [[]] else kept.map hexText) ++ [[], []] := by
  have hcompress : compressHextets ([a, b, c, d, 0, 0, 0, 0].map hexText) = _ :=
    compressHextets_network (hexText a) (hexText b) (hexText c) (hexText d)
  simp only [ne_eq, hexText_eq_zero_iff] at hcompress
  rw [hcompress]
  by_cases hd : d = 0
  · rw [if_neg (not_not.mpr hd)]
    by_cases hc : c = 0
    · rw [if_neg (not_not.mpr hc)]
      by_cases hb : b = 0
      · rw [if_neg (not_not.mpr hb)]
        by_cases ha : a = 0
        · rw [if_neg (not_not.mpr ha)]
          exact ⟨[], by simp, by simp [ha, hb, hc, hd], by simp⟩
        · rw [if_pos ha]
          exact ⟨[a], by simp, by simp [hb, hc, hd], by simp⟩
      · rw [if_pos hb]
        exact ⟨[a, b], by simp, by simp [hc, hd], by simp⟩
    · rw [if_pos hc]
      exact ⟨[a, b, c], by simp, by simp [hd], by simp⟩
  · rw [if_pos hd]
    exact ⟨[a, b, c, d], by simp, by simp, by simp⟩

theorem colon_mem_of_hextetsOf {text : Text} {hextets : List Hextet}
    (h : hextetsOf text = some hextets) : ':' ∈ text := by
  by_contra hcolon
  unfold hextetsOf at h
  dsimp only at h
  rw [List.splitOn_eq_singleton hcolon, if_pos (.inr (by simp))] at h
  cases h

theorem hextetsOf_network (ip : IPv6Address) :
    hextetsOf ip.network64.text = some ip.network64.hextets := by
  obtain ⟨hextets, hlength⟩ := ip
  match hextets, hlength with
  | [a, b, c, d, e, f, g, h], _ =>
    obtain ⟨kept, hle, hkept, hcompress⟩ := exists_kept a b c d
    show hextetsOf ([':'].intercalate (compressHextets ([a, b, c, d, 0, 0, 0, 0].map hexText))) =
      some [a, b, c, d, 0, 0, 0, 0]
    rw [hcompress, hkept]
    by_cases hne : kept = []
    · rw [hne]
      decide +kernel
    · rw [if_neg hne]
      exact hextetsOf_intercalate hne hle

theorem mem_compressHextets_network {ip : IPv6Address} {c : Char} (h : c ∈ ip.network64.text) :
    c = ':' ∨ isHexDigit c = true := by
  obtain ⟨hextets, hlength⟩ := ip
  match hextets, hlength, h with
  | [a, b, c', d, e, f, g, h'], _, h =>
    obtain ⟨kept, -, -, hcompress⟩ := exists_kept a b c' d
    refine (mem_intercalate h).imp_right ?_
    rintro ⟨part, hpart, hc⟩
    have hpart' : part ∈ compressHextets ([a, b, c', d, 0, 0, 0, 0].map hexText) := hpart
    rw [hcompress] at hpart'
    by_cases hne : kept = []
    · rw [hne] at hpart'
      have hnil : part = [] := by simpa using hpart'
      rw [hnil] at hc
      cases hc
    · rw [if_neg hne] at hpart'
      rcases List.mem_append.mp hpart' with hpart' | hpart'
      · obtain ⟨hextet, -, rfl⟩ := List.mem_map.mp hpart'
        exact mem_hexText hc
      · have hnil : part = [] := by simpa using hpart'
        rw [hnil] at hc
        cases hc

/-- A network is read from its text. -/
theorem ipAddress_network (ip : IPv6Address) :
    ipAddress ip.network64.text = some (.v6 ip.network64) := by
  have hslash : '/' ∉ ip.network64.text := fun h =>
    (mem_compressHextets_network h).elim (by decide) (by decide)
  have hscope : splitScopeId ip.network64.text = some ip.network64.text := by
    have hdrop : ip.network64.text.dropWhile (fun c => decide (c ≠ '%')) = [] := by
      refine List.dropWhile_eq_nil_iff.mpr fun c hc => decide_eq_true ?_
      rintro rfl
      exact (mem_compressHextets_network hc).elim (by decide) (by decide)
    exact if_pos hdrop
  have hnone : ipv4Address ip.network64.text = none := by
    by_contra hsome
    obtain ⟨ip', hip'⟩ := Option.ne_none_iff_exists'.mp hsome
    have hcolon := colon_mem_of_hextetsOf (hextetsOf_network ip)
    rw [← text_of_ipv4Address hip'] at hcolon
    exact (mem_ipv4_text hcolon).elim (by decide) (by decide)
  have hsix : ipv6Address ip.network64.text = some ip.network64 := by
    unfold ipv6Address
    rw [if_neg hslash, hscope, Option.bind_some, hextetsOf_network]
    exact dif_pos ip.network64.length_eq
  unfold ipAddress
  rw [hnone, hsix]
  rfl

end TaiSkeleton.RateLimit
