import TaiSkeleton.Connectors.MetaLogRedactor

/-!
# Logged data

The documents that a log record shows, and their renderings: `json.dumps` and `repr`. A rendered
document is cut at its `headers` and `env` mappings, whose values the redactor is to hide.
-/

namespace TaiSkeleton.Connectors

/-! ## Documents -/

/-- The characters of a number. -/
def isPlain (c : Char) : Bool := c.isAlphanum || c == '-' || c == '+' || c == '.'

/-- The text of a number. -/
abbrev Numeral := { text : Text // text ≠ [] ∧ text.all isPlain = true }

/-- What is neither a string nor a collection. -/
inductive Scalar where
  | none
  | bool (b : Bool)
  | number (n : Numeral)
deriving DecidableEq

inductive Key where
  | str (s : Text)
  | scalar (s : Scalar)
deriving DecidableEq

inductive Doc where
  | scalar (s : Scalar)
  | str (s : Text)
  | list (items : List Doc)
  | dict (members : List (Key × Doc))

namespace Doc

/-- Induction over documents, from the items of a list and the values of a mapping. -/
@[elab_as_elim]
theorem induction {motive : Doc → Prop} (scalar : ∀ s, motive (.scalar s))
    (str : ∀ s, motive (.str s))
    (list : ∀ items, (∀ item ∈ items, motive item) → motive (.list items))
    (dict : ∀ members, (∀ member ∈ members, motive member.2) → motive (.dict members))
    (doc : Doc) : motive doc :=
  match doc with
  | .scalar s => scalar s
  | .str s => str s
  | .list items => list items fun item _ => induction scalar str list dict item
  | .dict members => dict members fun member hmember =>
    have := List.sizeOf_lt_of_mem hmember
    induction scalar str list dict member.2
termination_by sizeOf doc
decreasing_by
  · have := List.sizeOf_lt_of_mem ‹item ∈ items›
    simp
    omega
  · cases member
    simp at *
    omega

end Doc

/-! ## Renderings -/

/-- `json.dumps` with its separators, or `repr` with the characters that it shows as they are. -/
inductive Dialect where
  | json (ensureAscii : Bool) (itemSep keySep : Text)
  | repr (printable : Char → Bool)

/-- The last digits of a number to the base of sixteen. -/
def hex : ℕ → ℕ → Text
  | 0, _ => []
  | width + 1, n => hex width (n / 16) ++ [(n % 16).digitChar]

/-- A character in a string of `json.dumps`. -/
def jsonEscape (ensureAscii : Bool) (c : Char) : Text :=
  if c = '"' ∨ c = '\\' then ['\\', c]
  else if c = '\n' then ['\\', 'n']
  else if c = '\r' then ['\\', 'r']
  else if c = '\t' then ['\\', 't']
  else if c.toNat = 12 then ['\\', 'f']
  else if c.toNat = 8 then ['\\', 'b']
  else if c.toNat < 32 ∨ (ensureAscii ∧ 126 < c.toNat ∧ c.toNat < 0x10000) then
    '\\' :: 'u' :: hex 4 c.toNat
  else if ensureAscii ∧ 126 < c.toNat then
    ('\\' :: 'u' :: hex 4 (0xd800 + (c.toNat - 0x10000) / 0x400)) ++
      '\\' :: 'u' :: hex 4 (0xdc00 + (c.toNat - 0x10000) % 0x400)
  else [c]

/-- A character in a string of `repr`. -/
def reprEscape (printable : Char → Bool) (quote c : Char) : Text :=
  if c = quote ∨ c = '\\' then ['\\', c]
  else if c = '\n' then ['\\', 'n']
  else if c = '\r' then ['\\', 'r']
  else if c = '\t' then ['\\', 't']
  else if c.toNat < 32 ∨ c.toNat = 127 then '\\' :: 'x' :: hex 2 c.toNat
  else if c.toNat < 127 ∨ printable c then [c]
  else if c.toNat < 0x100 then '\\' :: 'x' :: hex 2 c.toNat
  else if c.toNat < 0x10000 then '\\' :: 'u' :: hex 4 c.toNat
  else '\\' :: 'U' :: hex 8 c.toNat

namespace Dialect

def itemSep : Dialect → Text
  | json _ itemSep _ => itemSep
  | repr _ => [',', ' ']

def keySep : Dialect → Text
  | json _ _ keySep => keySep
  | repr _ => [':', ' ']

/-- `repr` takes double quotes only for a string with single quotes and without double ones. -/
def quote : Dialect → Text → Char
  | json .., _ => '"'
  | repr _, s => if '\'' ∈ s ∧ '"' ∉ s then '"' else '\''

def escape : Dialect → Char → Char → Text
  | json ensureAscii .., _, c => jsonEscape ensureAscii c
  | repr printable, quote, c => reprEscape printable quote c

/-- A string in its quotes. -/
def literal (d : Dialect) (s : Text) : Text :=
  d.quote s :: s.flatMap (d.escape (d.quote s)) ++ [d.quote s]

def word : Dialect → Scalar → Text
  | json .., .none => "null".toList
  | json .., .bool b => if b then "true".toList else "false".toList
  | repr _, .none => "None".toList
  | repr _, .bool b => if b then "True".toList else "False".toList
  | _, .number n => n.val

/-- A key: `json.dumps` makes every key a string. -/
def key : Dialect → Key → Text
  | d, .str s => d.literal s
  | d@(json ..), .scalar s => d.literal (d.word s)
  | d@(repr _), .scalar s => d.word s

/-- The white space and the commas between the members of a mapping. -/
def isGap (c : Char) : Bool := [' ', '\t', '\r', '\n', ','].contains c

/-- The separators keep a key, its colon and its value on one line, and have nothing but commas and
white space between the members. -/
structure Spaced (d : Dialect) : Prop where
  keySep : ∃ before after, d.keySep = before ++ ':' :: after ∧
    (∀ c ∈ before, isBlank c = true) ∧ ∀ c ∈ after, isBlank c = true
  itemSep : ∀ c ∈ d.itemSep, isGap c = true

end Dialect

mutual

def Doc.render (d : Dialect) : Doc → Text
  | .scalar s => d.word s
  | .str s => d.literal s
  | .list items => '[' :: d.itemSep.intercalate (renderItems d items) ++ [']']
  | .dict members => '{' :: d.itemSep.intercalate (renderMembers d members) ++ ['}']
termination_by structural doc => doc

def renderItems (d : Dialect) : List Doc → List Text
  | [] => []
  | item :: items => item.render d :: renderItems d items
termination_by structural items => items

def renderMembers (d : Dialect) : List (Key × Doc) → List Text
  | [] => []
  | (k, value) :: members => (d.key k ++ d.keySep ++ value.render d) :: renderMembers d members
termination_by structural members => members

end

/-- The text between the braces of a mapping. -/
def bodyText (d : Dialect) (members : List (Key × Doc)) : Text :=
  d.itemSep.intercalate (renderMembers d members)

/-! ## Secrets -/

/-- The keys of the mappings whose values are secrets. -/
def Key.isHeadersEnv (k : Key) : Bool :=
  k == .str "headers".toList || k == .str "env".toList

/-- The keys of a mapping, without the values. -/
def blankValues (members : List (Key × Doc)) : List (Key × Doc) :=
  members.map fun member => (member.1, .scalar .none)

/-- What is left of a member's value, from what is left of it elsewhere. -/
def blankUnder (k : Key) (value blanked : Doc) : Doc :=
  match value with
  | .dict secrets => if k.isHeadersEnv then .dict (blankValues secrets) else blanked
  | _ => blanked

mutual

/-- A document without the values of its `headers` and `env` mappings. -/
def Doc.blank : Doc → Doc
  | .scalar s => .scalar s
  | .str s => .str s
  | .list items => .list (blankItems items)
  | .dict members => .dict (blankMembers members)
termination_by structural doc => doc

def blankItems : List Doc → List Doc
  | [] => []
  | item :: items => item.blank :: blankItems items
termination_by structural items => items

def blankMembers : List (Key × Doc) → List (Key × Doc)
  | [] => []
  | (k, value) :: members => (k, blankUnder k value value.blank) :: blankMembers members
termination_by structural members => members

end

/-! ## Parts -/

/-- A part of a rendered document: a text, or a `headers` or `env` mapping after its key, its
separator and its brace. -/
inductive Part where
  | outer (text : Text)
  | mapping (start : Text) (members : List (Key × Doc))

def Part.text (d : Dialect) : Part → Text
  | .outer text => text
  | .mapping start members => start ++ bodyText d members ++ ['}']

def Part.blank : Part → Part
  | .outer text => .outer text
  | .mapping start members => .mapping start (blankValues members)

def textOf (d : Dialect) (parts : List Part) : Text := parts.flatMap (Part.text d)

/-- The parts of a member, from the parts of its value elsewhere. -/
def partsUnder (d : Dialect) (k : Key) (value : Doc) (parts : List Part) : List Part :=
  match value with
  | .dict secrets =>
    if k.isHeadersEnv then [.mapping (d.key k ++ d.keySep ++ ['{']) secrets]
    else .outer (d.key k ++ d.keySep) :: parts
  | _ => .outer (d.key k ++ d.keySep) :: parts

mutual

def Doc.parts (d : Dialect) : Doc → List Part
  | .scalar s => [.outer (d.word s)]
  | .str s => [.outer (d.literal s)]
  | .list items =>
    .outer ['['] :: [.outer d.itemSep].intercalate (itemParts d items) ++ [.outer [']']]
  | .dict members =>
    .outer ['{'] :: [.outer d.itemSep].intercalate (memberParts d members) ++ [.outer ['}']]
termination_by structural doc => doc

def itemParts (d : Dialect) : List Doc → List (List Part)
  | [] => []
  | item :: items => item.parts d :: itemParts d items
termination_by structural items => items

def memberParts (d : Dialect) : List (Key × Doc) → List (List Part)
  | [] => []
  | (k, value) :: members => partsUnder d k value (value.parts d) :: memberParts d members
termination_by structural members => members

end

section

variable {d : Dialect}

theorem intercalate_hom {α β : Type} {f : List α → List β} (hnil : f [] = [])
    (happend : ∀ l l', f (l ++ l') = f l ++ f l') (sep : List α) (ls : List (List α)) :
    f (sep.intercalate ls) = (f sep).intercalate (ls.map f) := by
  induction ls with
  | nil => exact hnil
  | cons l ls ih =>
    cases ls with
    | nil => simp
    | cons l' ls =>
      rw [List.intercalate_cons_cons, happend, happend, ih]
      simp

theorem textOf_append (l l' : List Part) : textOf d (l ++ l') = textOf d l ++ textOf d l' :=
  List.flatMap_append

theorem textOf_outer (text : Text) (parts : List Part) :
    textOf d (.outer text :: parts) = text ++ textOf d parts := rfl

theorem textOf_mapping (start : Text) (members : List (Key × Doc)) (parts : List Part) :
    textOf d (.mapping start members :: parts) =
      start ++ (bodyText d members ++ '}' :: textOf d parts) := by
  show start ++ bodyText d members ++ ['}'] ++ textOf d parts = _
  simp

theorem textOf_itemParts {items : List Doc}
    (h : ∀ item ∈ items, textOf d (item.parts d) = item.render d) :
    (itemParts d items).map (textOf d) = renderItems d items := by
  induction items with
  | nil => rfl
  | cons item items ih =>
    rw [itemParts, renderItems, List.map_cons, h item List.mem_cons_self,
      ih fun item hitem => h item (List.mem_cons_of_mem _ hitem)]

theorem textOf_memberParts {members : List (Key × Doc)}
    (h : ∀ member ∈ members, textOf d (member.2.parts d) = member.2.render d) :
    (memberParts d members).map (textOf d) = renderMembers d members := by
  induction members with
  | nil => rfl
  | cons member members ih =>
    obtain ⟨k, value⟩ := member
    have hvalue : textOf d (value.parts d) = value.render d := h (k, value) List.mem_cons_self
    rw [memberParts, renderMembers, List.map_cons,
      ih fun member hmember => h member (List.mem_cons_of_mem _ hmember)]
    congr 1
    unfold partsUnder
    split
    · next secrets =>
      split_ifs
      · rw [textOf_mapping, Doc.render]
        simp [textOf, bodyText]
      · rw [textOf_outer, hvalue]
    · rw [textOf_outer, hvalue]

/-- The parts of a document make up its rendering. -/
theorem textOf_parts (doc : Doc) : textOf d (doc.parts d) = doc.render d := by
  induction doc using Doc.induction with
  | scalar s => simp [Doc.parts, Doc.render, textOf, Part.text]
  | str s => simp [Doc.parts, Doc.render, textOf, Part.text]
  | list items ih =>
    rw [Doc.parts, Doc.render, ← textOf_itemParts ih, textOf_append, textOf_outer,
      intercalate_hom rfl textOf_append]
    simp [textOf, Part.text]
  | dict members ih =>
    rw [Doc.parts, Doc.render, ← textOf_memberParts ih, textOf_append, textOf_outer,
      intercalate_hom rfl textOf_append]
    simp [textOf, Part.text]

theorem itemParts_blank {items : List Doc}
    (h : ∀ item ∈ items, item.blank.parts d = (item.parts d).map Part.blank) :
    itemParts d (blankItems items) = (itemParts d items).map (List.map Part.blank) := by
  induction items with
  | nil => rfl
  | cons item items ih =>
    rw [blankItems, itemParts, itemParts, List.map_cons, h item List.mem_cons_self,
      ih fun item hitem => h item (List.mem_cons_of_mem _ hitem)]

theorem memberParts_blank {members : List (Key × Doc)}
    (h : ∀ member ∈ members, member.2.blank.parts d = (member.2.parts d).map Part.blank) :
    memberParts d (blankMembers members) =
      (memberParts d members).map (List.map Part.blank) := by
  induction members with
  | nil => rfl
  | cons member members ih =>
    obtain ⟨k, value⟩ := member
    have hvalue : value.blank.parts d = (value.parts d).map Part.blank :=
      h (k, value) List.mem_cons_self
    rw [blankMembers, memberParts, memberParts, List.map_cons,
      ih fun member hmember => h member (List.mem_cons_of_mem _ hmember)]
    congr 1
    unfold partsUnder blankUnder
    cases value with
    | scalar s => rfl
    | str s => rfl
    | list items => exact congrArg _ hvalue
    | dict secrets =>
      by_cases hkey : k.isHeadersEnv
      · simp [hkey, Part.blank]
      · simp only [hkey, Bool.false_eq_true, if_false]
        exact congrArg _ hvalue

/-- The parts of a document without its secrets are its parts without theirs. -/
theorem parts_blank (doc : Doc) : doc.blank.parts d = (doc.parts d).map Part.blank := by
  induction doc using Doc.induction with
  | scalar s => rfl
  | str s => rfl
  | list items ih =>
    rw [Doc.blank, Doc.parts, Doc.parts, itemParts_blank ih, List.map_append, List.map_cons,
      intercalate_hom rfl fun _ _ => List.map_append]
    rfl
  | dict members ih =>
    rw [Doc.blank, Doc.parts, Doc.parts, memberParts_blank ih, List.map_append, List.map_cons,
      intercalate_hom rfl fun _ _ => List.map_append]
    rfl

end

end TaiSkeleton.Connectors
