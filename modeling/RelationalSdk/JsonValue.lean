import RelationalSdk.Text

/-!
# JSON values and how deep they nest

A JSON document is a tree of arrays and objects over scalars. Its nesting depth is the greatest
number of arrays and objects around a point of it, so that a scalar has depth 0 and the empty
array depth 1. A parser that recurses at every array and object bounds it.
-/

namespace JsonValue

open Text

/-- A JSON value. A number is its text. -/
inductive Json where
  | null
  | bool (b : Bool)
  | number (text : Str)
  | string (s : Str)
  | array (items : List Json)
  | object (fields : List (Str × Json))

namespace Json

mutual

/-- How deep a value nests. -/
def depth : Json → Nat
  | array items => 1 + depthItems items
  | object fields => 1 + depthFields fields
  | _ => 0

/-- How deep the items of an array nest. -/
def depthItems : List Json → Nat
  | [] => 0
  | v :: vs => max v.depth (depthItems vs)

/-- How deep the fields of an object nest. -/
def depthFields : List (Str × Json) → Nat
  | [] => 0
  | (_, v) :: fields => max v.depth (depthFields fields)

end

@[simp] theorem depth_null : null.depth = 0 :=
  rfl

@[simp] theorem depth_bool (b : Bool) : (bool b).depth = 0 :=
  rfl

@[simp] theorem depth_number (text : Str) : (number text).depth = 0 :=
  rfl

@[simp] theorem depth_string (s : Str) : (string s).depth = 0 :=
  rfl

@[simp] theorem depth_array (items : List Json) : (array items).depth = 1 + depthItems items :=
  rfl

@[simp] theorem depth_object (fields : List (Str × Json)) :
    (object fields).depth = 1 + depthFields fields :=
  rfl

@[simp] theorem depthItems_nil : depthItems [] = 0 :=
  rfl

@[simp] theorem depthItems_cons (v : Json) (vs : List Json) :
    depthItems (v :: vs) = max v.depth (depthItems vs) :=
  rfl

@[simp] theorem depthFields_nil : depthFields [] = 0 :=
  rfl

@[simp] theorem depthFields_cons (f : Str × Json) (fields : List (Str × Json)) :
    depthFields (f :: fields) = max f.2.depth (depthFields fields) :=
  rfl

@[simp] theorem depthFields_append (fs gs : List (Str × Json)) :
    depthFields (fs ++ gs) = max (depthFields fs) (depthFields gs) := by
  induction fs with
  | nil => simp
  | cons f fs ih => rw [List.cons_append, depthFields_cons, depthFields_cons, ih, max_assoc]

/-- A field nests no deeper than the fields. -/
theorem depth_le_depthFields {f : Str × Json} :
    ∀ {fields : List (Str × Json)}, f ∈ fields → f.2.depth ≤ depthFields fields
  | g :: fields, h => by
    rw [depthFields_cons]
    rcases List.mem_cons.mp h with rfl | h
    · exact le_max_left _ _
    · exact (depth_le_depthFields h).trans (le_max_right _ _)

/-- `n` arrays around `null`. -/
def nest : Nat → Json
  | 0 => null
  | n + 1 => array [nest n]

theorem depth_nest (n : Nat) : (nest n).depth = n := by
  induction n with
  | zero => rfl
  | succ n ih =>
    rw [nest, depth_array, depthItems_cons, ih, depthItems_nil]
    omega

end Json

end JsonValue
