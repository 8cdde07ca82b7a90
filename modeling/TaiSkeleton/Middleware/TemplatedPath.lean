import TaiSkeleton.Lib.RunReplace
import TaiSkeleton.Lib.Split
import Mathlib.Data.List.Sort

/-!
# The path of an audit line

`_templated_path` writes a request's path with the names of its path parameters for their values,
wherever a value is a run of segments, the longest value first. What the router matched is kept
beside the segments here, to see what of it is left.
-/

namespace TaiSkeleton.AuditLog

open Lib

abbrev Text := List Char

/-! ## The code -/

def placeholder (name : Text) : Text := '{' :: name ++ ['}']

/-- The values that are not empty, the longest first. -/
def sortedNamed (pathParams : List (Text × Text)) : List (Text × Text) :=
  (pathParams.filter fun (_, value) => value ≠ []).insertionSort fun a b =>
    b.2.length ≤ a.2.length

/-- The loops of `_templated_path`. The segments that its index has passed do not come back into
a slice, so a scan is one pass from the left. -/
def rewriteAll {α : Type} (text : α → Text) (mark : Text → α) (named : List (Text × Text))
    (segments : List α) : List α :=
  named.foldl (fun segments (name, value) =>
    replaceFrom text (value.splitOn '/') (mark name) 0 segments) segments

def templatedPath (path : Text) (pathParams : List (Text × Text)) : Text :=
  ['/'].intercalate (rewriteAll id placeholder (sortedNamed pathParams) (path.splitOn '/'))

/-! ## Templates and what the router extracts -/

inductive PathSegment where
  | literal (text : Text)
  /-- A parameter with the string converter. -/
  | param (name : Text)
deriving DecidableEq

def PathSegment.text : PathSegment → Text
  | literal text => text
  | param name => name

def PathSegment.name? : PathSegment → Option Text
  | literal _ => none
  | param name => some name

/-- A template whose parameters fill whole segments, split at its `:path` parameter. -/
structure RouteTemplate where
  front : List PathSegment
  /-- The `:path` parameter, and what is behind it. -/
  tail : Option (Text × List PathSegment)
  /-- It begins with a slash. -/
  rooted : .literal [] ∈ front
  slashFree : ∀ segment ∈ front ++ tail.elim [] Prod.snd, '/' ∉ segment.text
  tail_slashFree : ∀ path ∈ tail, '/' ∉ path.1
  /-- A template that repeats a name is refused. -/
  distinct : (front.filterMap PathSegment.name? ++
    tail.elim [] fun (name, back) => name :: back.filterMap PathSegment.name?).Nodup

inductive Origin where
  | literal
  /-- The router matched it to a parameter. -/
  | matched
  | placeholder
deriving DecidableEq

/-- A segment with where it comes from. -/
structure Marked where
  text : Text
  origin : Origin
deriving DecidableEq

def markName (name : Text) : Marked := ⟨placeholder name, .placeholder⟩

def PathSegment.marked (values : Text → Text) : PathSegment → Marked
  | literal text => ⟨text, .literal⟩
  | param name => ⟨values name, .matched⟩

namespace RouteTemplate

variable (template : RouteTemplate) (values : Text → Text)

/-- The segments but for the `:path` parameter. -/
def singles : List PathSegment := template.front ++ template.tail.elim [] Prod.snd

def names : List Text :=
  template.front.filterMap PathSegment.name? ++
    template.tail.elim [] fun (name, back) => name :: back.filterMap PathSegment.name?

/-- The router extracts the values: a string converter takes one character at least, and no
slash. -/
def Extracts : Prop :=
  ∀ name, .param name ∈ template.singles → values name ≠ [] ∧ '/' ∉ values name

/-- The segments of the path, with what the router matched. -/
def marked : List Marked :=
  template.front.map (PathSegment.marked values) ++
    template.tail.elim [] fun (name, back) =>
      ((values name).splitOn '/').map (⟨·, .matched⟩) ++ back.map (PathSegment.marked values)

/-- The path that the values result in. -/
def path : Text := ['/'].intercalate ((template.marked values).map Marked.text)

/-- `scope["path_params"]` -/
def pathParams : List (Text × Text) := template.names.map fun name => (name, values name)

/-- What `_templated_path` writes. -/
def output : Text := templatedPath (template.path values) (template.pathParams values)

/-- The segments of the output, with where they come from. -/
def rewritten : List Marked :=
  rewriteAll Marked.text markName (sortedNamed (template.pathParams values))
    (template.marked values)

/-- No text of a path parameter is in the output. -/
structure Templated : Prop where
  named : ∀ segment ∈ (template.output values).splitOn '/',
    (∃ name ∈ template.names, segment = placeholder name) ∨ .literal segment ∈ template.singles
  removed : ∀ segment ∈ template.rewritten values, segment.origin = .matched → segment.text = []

end RouteTemplate

/-- The values taken before a parameter's: the longer ones, and those as long before it. -/
def ahead (name : Text) (pathParams : List (Text × Text)) : List (Text × Text) :=
  (sortedNamed pathParams).takeWhile fun (name', _) => name' ≠ name

/-- The values taken after a parameter's. -/
def behind (name : Text) (pathParams : List (Text × Text)) : List (Text × Text) :=
  ((sortedNamed pathParams).dropWhile fun (name', _) => name' ≠ name).tail

/-- The segments with the names of values that fill one segment each. -/
def renameText (named : List (Text × Text)) (segment : Text) : Text :=
  named.foldl (fun segment (name, value) => if segment = value then placeholder name else segment)
    segment

namespace RouteTemplate

variable (template : RouteTemplate) (values : Text → Text)

/-- The segments of the router's run that are left, where a run equal to the `:path` value begins
before it and ends inside it. -/
def leftOf (name : Text) (back : List PathSegment) : List Text :=
  let rename := renameText (ahead name (template.pathParams values))
  leftOver ((values name).splitOn '/')
    (template.front.map fun segment => rename (segment.marked values).text)
    (back.map fun segment => rename (segment.marked values).text)

/-- Where such segments are left, they are empty or values that are taken later. -/
def Intact : Prop :=
  ∀ name back, template.tail = some (name, back) → ∀ segment ∈ template.leftOf values name back,
    segment = [] ∨ segment ∈ (behind name (template.pathParams values)).map Prod.snd

end RouteTemplate

end TaiSkeleton.AuditLog
