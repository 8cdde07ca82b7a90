import Mathlib.Algebra.Order.Ring.Int
import TaiSkeleton.Lib.Json

/-!
# The secret seal of the manifest

The seal puts the markers of the current manifest back into an outgoing document, wherever a value
still equals the resolved one, and refuses the document when a resolved secret is left in a part
that it could not pair with the manifest. Documents are JSON trees; a marker is a string that starts
with `!ENV`.
-/

namespace TaiSkeleton.Config

open Lib

variable {ν : Type}

/-- How Python compares numbers, and the number that a Boolean counts as. -/
class PyNumber (ν : Type) where
  eq : ν → ν → Bool
  ofBool : Bool → ν

instance : PyNumber ℤ where
  eq m n := m == n
  ofBool b := b.toNat

/-! ## Equality of documents -/

section

variable [PyNumber ν]

mutual

/-- `==` on JSON trees. The order of the members of an object does not count. -/
def pyEq : Json ν → Json ν → Bool
  | .null, .null => true
  | .str s, .str t => s == t
  | .bool b, .bool c => PyNumber.eq (PyNumber.ofBool b : ν) (PyNumber.ofBool c)
  | .bool b, .num n => PyNumber.eq (PyNumber.ofBool b) n
  | .num n, .bool b => PyNumber.eq n (PyNumber.ofBool b)
  | .num m, .num n => PyNumber.eq m n
  | .arr elements, .arr elements' => pyEqElements elements elements'
  | .obj members, .obj members' =>
    members.length == members'.length && pyEqMembers members members'
  | _, _ => false

def pyEqElements : List (Json ν) → List (Json ν) → Bool
  | [], [] => true
  | element :: elements, element' :: elements' =>
    pyEq element element' && pyEqElements elements elements'
  | _, _ => false

/-- Each of the members is one of the others. -/
def pyEqMembers : List (String × Json ν) → List (String × Json ν) → Bool
  | [], _ => true
  | (key, value) :: members, members' =>
    (match members'.lookup key with
      | some value' => pyEq value value'
      | none => false) && pyEqMembers members members'

end

end

/-! ## Markers and secrets -/

/-- `_ENV_MARKER_PREFIX` -/
def envMarkerPrefix : String := "!ENV "

/-- Whether a value of the preserved view is a marker. -/
def isMarker : Json ν → Bool
  | .str s => envMarkerPrefix.toList.isPrefixOf s.toList
  | _ => false

mutual

/-- `_resolved_secrets` -/
def resolvedSecrets : Json ν → Json ν → List String
  | .str s, expanded =>
    if isMarker (.str s : Json ν) then
      match expanded with
      | .str secret => if secret = "" then [] else [secret]
      | _ => []
    else []
  | .obj preserved, .obj expanded => resolvedSecretsMembers preserved expanded
  | .arr preserved, .arr expanded => resolvedSecretsElements preserved expanded
  | _, _ => []

def resolvedSecretsMembers : List (String × Json ν) → List (String × Json ν) → List String
  | [], _ => []
  | (key, value) :: preserved, expanded =>
    (match expanded.lookup key with
      | some resolved => resolvedSecrets value resolved
      | none => []) ++ resolvedSecretsMembers preserved expanded

def resolvedSecretsElements : List (Json ν) → List (Json ν) → List String
  | value :: preserved, resolved :: expanded =>
    resolvedSecrets value resolved ++ resolvedSecretsElements preserved expanded
  | _, _ => []

end

mutual

/-- `_contains_secret` -/
def containsSecret (secrets : List String) : Json ν → Bool
  | .str s => decide (s ∈ secrets)
  | .obj members => containsSecretMembers secrets members
  | .arr elements => containsSecretElements secrets elements
  | _ => false

def containsSecretMembers (secrets : List String) : List (String × Json ν) → Bool
  | [] => false
  | (_, value) :: members => containsSecret secrets value || containsSecretMembers secrets members

def containsSecretElements (secrets : List String) : List (Json ν) → Bool
  | [] => false
  | element :: elements =>
    containsSecret secrets element || containsSecretElements secrets elements

end

/-! ## Lists -/

section

variable [PyNumber ν]

/-- The keys of `_identity_key`. -/
def identityKeys : List String := ["title", "name", "module", "id"]

/-- `_identity_key` -/
def identityKey (incoming candidate : List (String × Json ν)) : Option String :=
  identityKeys.find? fun key => (candidate.lookup key).isSome && (incoming.lookup key).isSome

/-- Whether a candidate shares the identity of an element. -/
def sharesIdentity : Json ν → Json ν → Bool
  | .obj element, .obj candidate =>
    match identityKey element candidate with
    | some key => pyEq (Json.member element key) (Json.member candidate key)
    | none => false
  | _, _ => false

/-- `_match_list_element` -/
def matchListElement (element : Json ν) (expanded : List (Json ν)) (used : List ℕ) : Option ℕ :=
  let unused := (List.range expanded.length).filter fun j => decide (j ∉ used)
  let candidate j := expanded.getD j .null
  match unused.filter fun j => sharesIdentity element (candidate j) with
  | [j] => some j
  | _ => unused.find? fun j => pyEq (candidate j) element

/-! ## The walk -/

mutual

/-- `_retag_env_markers`: the document with its markers put back, and the subtrees that the walk did
not pair with the manifest, each with its key path. -/
def retagEnvMarkers (path : String) (incoming preserved expanded : Json ν) :
    Json ν × List (String × Json ν) :=
  if isMarker preserved then
    if pyEq expanded incoming then (preserved, []) else (incoming, [(path, incoming)])
  else
    match incoming, preserved, expanded with
    | .obj members, .obj preserved, .obj expanded =>
      let retagged := retagMembers path members preserved expanded
      (.obj retagged.1, retagged.2)
    | .arr elements, .arr preserved, .arr expanded =>
      let retagged := retagElements path 0 [] elements preserved expanded
      (.arr retagged.1, retagged.2)
    | incoming, _, expanded =>
      (incoming, if pyEq incoming expanded then [] else [(path, incoming)])
termination_by structural incoming

def retagMembers (path : String) (incoming preserved expanded : List (String × Json ν)) :
    List (String × Json ν) × List (String × Json ν) :=
  match incoming with
  | [] => ([], [])
  | (key, value) :: incoming =>
    let child := if path = "" then key else path ++ "." ++ key
    let retagged := retagMembers path incoming preserved expanded
    match preserved.lookup key, expanded.lookup key with
    | some marked, some resolved =>
      let retaggedValue := retagEnvMarkers child value marked resolved
      ((key, retaggedValue.1) :: retagged.1, retaggedValue.2 ++ retagged.2)
    | _, _ => ((key, value) :: retagged.1, (child, value) :: retagged.2)
termination_by structural incoming

def retagElements (path : String) (i : ℕ) (used : List ℕ)
    (incoming preserved expanded : List (Json ν)) : List (Json ν) × List (String × Json ν) :=
  match incoming with
  | [] => ([], [])
  | element :: incoming =>
    let child := path ++ "[" ++ toString i ++ "]"
    match matchListElement element expanded used with
    | none =>
      let retagged := retagElements path (i + 1) used incoming preserved expanded
      (element :: retagged.1, (child, element) :: retagged.2)
    | some j =>
      let retaggedElement :=
        retagEnvMarkers child element (preserved.getD j .null) (expanded.getD j .null)
      let retagged := retagElements path (i + 1) (j :: used) incoming preserved expanded
      (retaggedElement.1 :: retagged.1, retaggedElement.2 ++ retagged.2)
termination_by structural incoming

end

/-- `ResolvedSecretError` -/
structure ResolvedSecretError where
  path : String
deriving DecidableEq

/-- `seal_resolved_secrets` -/
def sealResolvedSecrets (document preserved expanded : List (String × Json ν)) :
    Except ResolvedSecretError (List (String × Json ν)) :=
  let retagged := retagMembers "" document preserved expanded
  let secrets := resolvedSecrets (.obj preserved) (.obj expanded)
  match retagged.2.find? fun unmatched => containsSecret secrets unmatched.2 with
  | some (path, _) => .error { path := if path = "" then "<root>" else path }
  | none => .ok retagged.1

end

end TaiSkeleton.Config
