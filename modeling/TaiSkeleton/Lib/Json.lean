import Mathlib.Data.List.Basic

/-!
# JSON values

JSON values over a type `ν` of numbers. An object is its list of members; a name is looked up
at its first member, so a list that repeats a name denotes the object of the first ones.
-/

namespace Lib

/-- A JSON value whose numbers are drawn from `ν`. -/
inductive Json (ν : Type) where
  | null
  | bool (b : Bool)
  | num (n : ν)
  | str (s : String)
  | arr (elements : List (Json ν))
  | obj (members : List (String × Json ν))

namespace Json

variable {ν : Type}

/-- The member of a member list under `name`, or `null` when there is none. -/
def member (members : List (String × Json ν)) (name : String) : Json ν :=
  (members.lookup name).getD .null

/-- Everything but `null` and `false` counts as true. -/
def truthy : Json ν → Bool
  | .null => false
  | .bool b => b
  | _ => true

theorem member_cons_self (name : String) (v : Json ν) (members : List (String × Json ν)) :
    member ((name, v) :: members) name = v := by
  simp [member]

theorem member_cons_of_ne {key name : String} (h : name ≠ key) (v : Json ν)
    (members : List (String × Json ν)) :
    member ((key, v) :: members) name = member members name := by
  have hb : (name == key) = false := beq_eq_false_iff_ne.mpr h
  simp only [member, List.lookup_cons, hb]

/-- Induction over JSON values, from the elements of an array and the members of an object. -/
@[elab_as_elim]
theorem induction {motive : Json ν → Prop} (null : motive .null) (bool : ∀ b, motive (.bool b))
    (num : ∀ n, motive (.num n)) (str : ∀ s, motive (.str s))
    (arr : ∀ elements, (∀ element ∈ elements, motive element) → motive (.arr elements))
    (obj : ∀ members, (∀ member ∈ members, motive member.2) → motive (.obj members))
    (v : Json ν) : motive v :=
  match v with
  | .null => null
  | .bool b => bool b
  | .num n => num n
  | .str s => str s
  | .arr elements => arr elements fun element _ =>
    induction null bool num str arr obj element
  | .obj members => obj members fun member hmember =>
    have := List.sizeOf_lt_of_mem hmember
    induction null bool num str arr obj member.2
termination_by sizeOf v
decreasing_by
  · have := List.sizeOf_lt_of_mem ‹element ∈ elements›
    simp
    omega
  · cases member
    simp at *
    omega

/-! ## Equality -/

section

variable [DecidableEq ν]

mutual

/-- Whether two values are the same, the order of members included. -/
def same : Json ν → Json ν → Bool
  | .null, .null => true
  | .bool b, .bool c => b == c
  | .num m, .num n => decide (m = n)
  | .str s, .str t => s == t
  | .arr elements, .arr elements' => sameElements elements elements'
  | .obj members, .obj members' => sameMembers members members'
  | _, _ => false

def sameElements : List (Json ν) → List (Json ν) → Bool
  | [], [] => true
  | element :: elements, element' :: elements' =>
    same element element' && sameElements elements elements'
  | _, _ => false

def sameMembers : List (String × Json ν) → List (String × Json ν) → Bool
  | [], [] => true
  | (key, value) :: members, (key', value') :: members' =>
    key == key' && same value value' && sameMembers members members'
  | _, _ => false

end

theorem sameElements_iff {elements elements' : List (Json ν)}
    (h : ∀ element ∈ elements, ∀ w, element.same w = true ↔ element = w) :
    sameElements elements elements' = true ↔ elements = elements' := by
  induction elements generalizing elements' with
  | nil => cases elements' <;> simp [sameElements]
  | cons element elements ih =>
    cases elements' with
    | nil => simp [sameElements]
    | cons element' elements' =>
      rw [sameElements, Bool.and_eq_true, h element List.mem_cons_self,
        ih fun element hmem => h element (List.mem_cons_of_mem _ hmem), List.cons.injEq]

theorem sameMembers_iff {members members' : List (String × Json ν)}
    (h : ∀ member ∈ members, ∀ w, member.2.same w = true ↔ member.2 = w) :
    sameMembers members members' = true ↔ members = members' := by
  induction members generalizing members' with
  | nil => cases members' <;> simp [sameMembers]
  | cons member members ih =>
    obtain ⟨key, value⟩ := member
    cases members' with
    | nil => simp [sameMembers]
    | cons member' members' =>
      obtain ⟨key', value'⟩ := member'
      rw [sameMembers, Bool.and_eq_true, Bool.and_eq_true, beq_iff_eq,
        h (key, value) List.mem_cons_self,
        ih fun member hmem => h member (List.mem_cons_of_mem _ hmem), List.cons.injEq,
        Prod.mk.injEq]

theorem same_iff {v w : Json ν} : v.same w = true ↔ v = w := by
  induction v using induction generalizing w with
  | null => cases w <;> simp [same]
  | bool b => cases w <;> simp [same]
  | num n => cases w <;> simp [same]
  | str s => cases w <;> simp [same]
  | arr elements ih =>
    cases w with
    | arr elements' => rw [same, sameElements_iff fun element hmem w => ih element hmem, arr.injEq]
    | _ => simp [same]
  | obj members ih =>
    cases w with
    | obj members' => rw [same, sameMembers_iff fun member hmem w => ih member hmem, obj.injEq]
    | _ => simp [same]

instance : DecidableEq (Json ν) := fun _ _ => decidable_of_iff _ same_iff

end

end Json

end Lib
