import Credal.Text.CodePoint

/-!
# JSON values

The values of a JSON document. Integers and doubles are kept apart, because a reader may tell
`1` from `1.0`; an object keeps its keys in the order in which they first came.

* `Json`, `Json.ofPoints`: the values, and the string of code points;
* `put`: a field set in an object, the last value of a repeated key in the place of its first;
* `Json.field?`: the value under a key, if the value is an object that has it;
* `Json.same`: equality, where doubles are equal if they are the same double.
-/

namespace Credal

/-- A JSON value. -/
inductive Json where
  | null
  | bool (b : Bool)
  | int (i : Int)
  | float (x : Float)
  | string (s : String)
  /-- A string that is no text, because half of a surrogate pair stands alone in it. It is held
      by its code points. -/
  | unpaired (points : List Nat)
  | array (items : List Json)
  | object (fields : List (String × Json))
  deriving Inhabited

namespace Json

/-- The string of code points. -/
def ofPoints (ps : List Nat) : Json :=
  match Text.characters? ps with
  | some cs => .string (String.ofList cs)
  | none => .unpaired ps

/-- The fields with `key` set to `value`: in place if the key is there, else at the end. -/
def put {α : Type} (key : String) (value : α) : List (String × α) → List (String × α)
  | [] => [(key, value)]
  | (k, v) :: rest => if k = key then (k, value) :: rest else (k, v) :: put key value rest

/-- The value under a key of an object. -/
def field? (key : String) : Json → Option Json
  | .object fields => fields.lookup key
  | _ => none

mutual

/-- Whether two values are the same. -/
def same : Json → Json → Bool
  | .null, .null => true
  | .bool a, .bool b => a = b
  | .int i, .int j => i = j
  | .float x, .float y => x = y
  | .string s, .string t => s = t
  | .unpaired ps, .unpaired qs => ps = qs
  | .array xs, .array ys => sameItems xs ys
  | .object fs, .object gs => sameFields fs gs
  | _, _ => false

/-- Whether two arrays are the same. -/
def sameItems : List Json → List Json → Bool
  | [], [] => true
  | x :: xs, y :: ys => same x y && sameItems xs ys
  | _, _ => false

/-- Whether two objects are the same, in the order of their keys too. -/
def sameFields : List (String × Json) → List (String × Json) → Bool
  | [], [] => true
  | (k, x) :: fs, (l, y) :: gs => k = l && same x y && sameFields fs gs
  | _, _ => false

end

mutual

theorem same_iff (j k : Json) : same j k = true ↔ j = k := by
  cases j <;> cases k <;> simp [same, sameItems_iff, sameFields_iff]

theorem sameItems_iff (xs ys : List Json) : sameItems xs ys = true ↔ xs = ys := by
  cases xs with
  | nil => cases ys <;> simp [sameItems]
  | cons x xs =>
    cases ys with
    | nil => simp [sameItems]
    | cons y ys => simp [sameItems, same_iff x y, sameItems_iff xs ys]

theorem sameFields_iff (fs gs : List (String × Json)) : sameFields fs gs = true ↔ fs = gs := by
  cases fs with
  | nil => cases gs <;> simp [sameFields]
  | cons f fs =>
    cases gs with
    | nil => simp [sameFields]
    | cons g gs =>
      obtain ⟨k, x⟩ := f
      obtain ⟨l, y⟩ := g
      simp [sameFields, same_iff x y, sameFields_iff fs gs, and_assoc]

end

instance : DecidableEq Json := fun j k => decidable_of_iff _ (same_iff j k)
end Json

end Credal
