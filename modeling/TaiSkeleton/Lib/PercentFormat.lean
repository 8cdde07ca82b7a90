import Mathlib.Data.List.Basic
import Mathlib.Data.Int.Basic

/-!
# Percent formatting

The `%` operator of Python on texts: a template is read as literal runs and directives, and each
directive renders one argument. Objects are what the operator asks of them: their `str`, `repr` and
`ascii`, what they are as a width, and how the numeric conversions render them.
-/

namespace Lib.PercentFormat

/-- The flags, width and precision of a directive, its `*` filled in. -/
structure Spec where
  flags : List Char
  width : Option ℕ
  precision : Option ℕ
  conversion : Char

/-- An object, as the operator sees it. -/
structure Arg where
  str : List Char
  repr : List Char
  ascii : List Char
  int? : Option ℤ := none
  number : Spec → Option (List Char) := fun _ => none

/-- What is on the right of the operator: a tuple, or a mapping. -/
inductive Args where
  | tuple (args : List Arg)
  | mapping (self : Arg) (members : List Char → Option Arg)

/-- A width or a precision in a template. -/
inductive Size where
  | star
  | digits (n : ℕ)

/-- A directive, after its percent sign. -/
structure Directive where
  key : Option (List Char)
  flags : List Char
  width : Option Size
  precision : Option Size
  conversion : Char

/-- What a template is made of. -/
inductive Piece where
  | literal (run : List Char)
  | percent
  | rendering (text : List Char)

def Piece.text : Piece → List Char
  | .literal run => run
  | .percent => ['%']
  | .rendering text => text

/-! ## Directives -/

/-- The name in parentheses, which may be nested, after the first of them. -/
def parseKey : ℕ → List Char → Option (List Char × List Char)
  | _, [] => none
  | depth, c :: text =>
    if c = ')' ∧ depth = 0 then some ([], text)
    else
      let depth := if c = '(' then depth + 1 else if c = ')' then depth - 1 else depth
      (parseKey depth text).map fun found => (c :: found.1, found.2)

def digitValue (digits : List Char) : ℕ :=
  digits.foldl (fun n c => 10 * n + (c.toNat - '0'.toNat)) 0

def parseSize : List Char → Option Size × List Char
  | '*' :: text => (some .star, text)
  | text =>
    let digits := text.takeWhile Char.isDigit
    (if digits = [] then none else some (.digits (digitValue digits)), text.drop digits.length)

def parseName : List Char → Option (Option (List Char) × List Char)
  | '(' :: text => (parseKey 0 text).map fun found => (some found.1, found.2)
  | text => some (none, text)

def isFlag (c : Char) : Bool := decide (c ∈ ['-', '+', ' ', '#', '0'])

def parsePrecision : List Char → Option Size × List Char
  | '.' :: text => ((parseSize text).1.or (some (.digits 0)), (parseSize text).2)
  | text => (none, text)

/-- A length modifier says nothing. -/
def skipLength : List Char → List Char
  | 'h' :: text => text
  | 'l' :: text => text
  | 'L' :: text => text
  | text => text

/-- A directive, and what is left of the template after it. -/
def parseDirective (text : List Char) : Option (Directive × List Char) :=
  (parseName text).bind fun name =>
    let width := parseSize (name.2.dropWhile isFlag)
    let precision := parsePrecision width.2
    match skipLength precision.2 with
    | [] => none
    | conversion :: rest =>
      some ({ key := name.1, flags := name.2.takeWhile isFlag, width := width.1,
              precision := precision.1, conversion }, rest)

/-! ## Rendering -/

/-- The arguments that are left, and the mapping that names are looked up in. -/
structure Supply where
  args : List Arg
  members : Option (List Char → Option Arg)

def Args.supply : Args → Supply
  | .tuple args => { args, members := none }
  | .mapping self members => { args := [self], members := some members }

def Supply.next (supply : Supply) : Option (Arg × Supply) :=
  match supply.args with
  | arg :: args => some (arg, { supply with args })
  | [] => none

/-- A width or a precision, of the next argument for a `*`. -/
def Supply.size (supply : Supply) : Option Size → Option (Option ℤ × Supply)
  | none => some (none, supply)
  | some (.digits n) => some (some n, supply)
  | some .star => supply.next.bind fun found => found.1.int?.map fun n => (some n, found.2)

/-- A text cut to its precision and filled up to its width. -/
def pad (spec : Spec) (text : List Char) : List Char :=
  let text := match spec.precision with
    | some precision => text.take precision
    | none => text
  let fill := List.replicate (spec.width.getD 0 - text.length) ' '
  if '-' ∈ spec.flags then text ++ fill else fill ++ text

def Arg.render (spec : Spec) (arg : Arg) : Option (List Char) :=
  match spec.conversion with
  | 's' => some (pad spec arg.str)
  | 'r' => some (pad spec arg.repr)
  | 'a' => some (pad spec arg.ascii)
  | _ => arg.number spec

/-- A name leaves its value as the only argument. -/
def Supply.named (supply : Supply) : Option (List Char) → Option Supply
  | none => some supply
  | some key => (supply.members.bind (· key)).map fun arg => { supply with args := [arg] }

def Directive.spec (directive : Directive) (width precision : Option ℤ) : Spec where
  flags := if width.any (· < 0) then '-' :: directive.flags else directive.flags
  width := width.map Int.natAbs
  precision := precision.map Int.toNat
  conversion := directive.conversion

/-- The rendering of a directive. -/
def Directive.render (directive : Directive) (supply : Supply) : Option (Piece × Supply) :=
  (supply.named directive.key).bind fun supply =>
  (supply.size directive.width).bind fun width =>
  (width.2.size directive.precision).bind fun precision =>
    if directive.conversion = '%' then some (.percent, precision.2)
    else precision.2.next.bind fun found =>
      (found.1.render (directive.spec width.1 precision.1)).map fun text =>
        (.rendering text, found.2)

/-- The pieces of a template. Every round takes a character at least, so that the length of the
template is fuel enough. Arguments that are left over are an error in a tuple. -/
def pieces : ℕ → List Char → Supply → Option (List Piece)
  | 0, _, _ => none
  | fuel + 1, template, supply =>
    match template with
    | [] => if supply.args.isEmpty || supply.members.isSome then some [] else none
    | '%' :: text => do
      let (directive, text) ← parseDirective text
      let (piece, supply) ← directive.render supply
      let rest ← pieces fuel text supply
      some (piece :: rest)
    | template =>
      let run := template.takeWhile (· ≠ '%')
      (pieces fuel (template.dropWhile (· ≠ '%')) supply).map (.literal run :: ·)

/-- `template % args` -/
def format (template : List Char) (args : Args) : Option (List Char) :=
  (pieces (template.length + 1) template args.supply).map fun pieces => pieces.flatMap Piece.text

/-! ## Literal runs -/

theorem parseKey_suffix {depth : ℕ} {text : List Char} {found : List Char × List Char}
    (h : parseKey depth text = some found) : found.2 <:+ text := by
  induction text generalizing depth found with
  | nil => cases h
  | cons c text ih =>
    refine List.IsSuffix.trans ?_ (List.suffix_cons c text)
    rw [parseKey] at h
    split at h
    · cases h
      exact List.suffix_refl text
    · obtain ⟨found', hfound, rfl⟩ := Option.map_eq_some_iff.mp h
      have hsuffix := ih hfound
      exact hsuffix

theorem parseName_suffix {text : List Char} {found : Option (List Char) × List Char}
    (h : parseName text = some found) : found.2 <:+ text := by
  unfold parseName at h
  split at h
  · obtain ⟨found', hfound, rfl⟩ := Option.map_eq_some_iff.mp h
    exact (parseKey_suffix hfound).trans (List.suffix_cons _ _)
  · cases h
    exact List.suffix_refl _

theorem parseSize_suffix (text : List Char) : (parseSize text).2 <:+ text := by
  unfold parseSize
  split
  · exact List.suffix_cons _ _
  · exact List.drop_suffix _ _

theorem parsePrecision_suffix (text : List Char) : (parsePrecision text).2 <:+ text := by
  unfold parsePrecision
  split
  · exact (parseSize_suffix _).trans (List.suffix_cons _ _)
  · exact List.suffix_refl _

theorem skipLength_suffix (text : List Char) : skipLength text <:+ text := by
  unfold skipLength
  split
  · exact List.suffix_cons _ _
  · exact List.suffix_cons _ _
  · exact List.suffix_cons _ _
  · exact List.suffix_refl _

theorem parseDirective_suffix {text : List Char} {found : Directive × List Char}
    (h : parseDirective text = some found) : found.2 <:+ text := by
  obtain ⟨name, hname, h⟩ := Option.bind_eq_some_iff.mp h
  have hlength := skipLength_suffix
    (parsePrecision (parseSize (name.2.dropWhile isFlag)).2).2
  dsimp only at h
  split at h
  · cases h
  · next conversion rest heq =>
    rw [heq] at hlength
    cases h
    have hwidth := (parseSize_suffix (name.2.dropWhile isFlag)).trans
      ((List.dropWhile_suffix isFlag).trans (parseName_suffix hname))
    exact (List.suffix_cons conversion rest).trans
      (hlength.trans ((parsePrecision_suffix _).trans hwidth))

/-- A directive renders no literal run. -/
theorem render_ne_literal {directive : Directive} {supply : Supply} {piece : Piece}
    {supply' : Supply} (h : directive.render supply = some (piece, supply')) (run : List Char) :
    piece ≠ .literal run := by
  obtain ⟨_, -, h⟩ := Option.bind_eq_some_iff.mp h
  obtain ⟨_, -, h⟩ := Option.bind_eq_some_iff.mp h
  obtain ⟨_, -, h⟩ := Option.bind_eq_some_iff.mp h
  split_ifs at h
  · cases h
    exact nofun
  · obtain ⟨_, -, h⟩ := Option.bind_eq_some_iff.mp h
    obtain ⟨_, -, h⟩ := Option.map_eq_some_iff.mp h
    cases h
    exact nofun

/-- A literal run is a part of the template. -/
theorem literal_part {fuel : ℕ} {template run : List Char} {supply : Supply}
    {found : List Piece} (h : pieces fuel template supply = some found)
    (hrun : .literal run ∈ found) : run <:+: template := by
  induction fuel generalizing template supply found with
  | zero => cases h
  | succ fuel ih =>
    unfold pieces at h
    split at h
    · split_ifs at h
      cases h
      cases hrun
    · next text =>
      obtain ⟨⟨directive, rest⟩, hdirective, h⟩ := Option.bind_eq_some_iff.mp h
      obtain ⟨⟨piece, supply'⟩, hpiece, h⟩ := Option.bind_eq_some_iff.mp h
      obtain ⟨found', hfound, h⟩ := Option.bind_eq_some_iff.mp h
      cases h
      obtain hrun | hrun := List.mem_cons.mp hrun
      · exact absurd hrun.symm (render_ne_literal hpiece run)
      · have hrest : rest <:+ '%' :: text :=
          (parseDirective_suffix hdirective).trans (List.suffix_cons _ _)
        exact (ih hfound hrun).trans hrest.isInfix
    · obtain ⟨found', hfound, rfl⟩ := Option.map_eq_some_iff.mp h
      obtain hrun | hrun := List.mem_cons.mp hrun
      · cases hrun
        exact (List.takeWhile_prefix _).isInfix
      · exact (ih hfound hrun).trans (List.dropWhile_suffix _).isInfix

end Lib.PercentFormat
