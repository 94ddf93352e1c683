import TypedFlags.Binary64.Basic
/-!
# JSON values

A value keeps what the rest of the library can see of a JSON document: the order of an object's
members, and whether a number was written as an integer. Integers are those that fit 64 bits,
signed or unsigned; every other number is a `Binary64`.

`Json` keeps members **as written**, repeated names included, because a stored record with a
repeated field is refused. `Json.settle` is the value such a document stands for otherwise: each name
once, at the place where it first came, with the value that came last. `Json.Settled` says that
there is nothing left to settle.
-/

set_option autoImplicit false

namespace TypedFlags

/-- The integers that are kept as integers: those of 64 bits with a sign, from `-2 ^ 63` on, and those
    without, below `2 ^ 64`. -/
def Json.Fits (n : Int) : Prop := -0x8000000000000000 ≤ n ∧ n < 0x10000000000000000

instance (n : Int) : Decidable (Json.Fits n) := inferInstanceAs (Decidable (_ ∧ _))

/-- A JSON number: an integer of 64 bits, or a floating-point number. -/
inductive Json.Number where
  | integer (n : Int) (fits : Json.Fits n)
  | float (x : Binary64)
  deriving DecidableEq

/-- A JSON document. -/
inductive Json where
  | null
  | bool (b : Bool)
  | number (n : Json.Number)
  | string (s : String)
  | array (items : List Json)
  | object (members : List (String × Json))

namespace Json

/-- Whether a number is a mathematical integer, however it is written. -/
def Number.isIntegral : Number → Bool
  | .integer _ _ => true
  | .float x => x.isIntegral

/-- The members of an object with one more: a name that is there already keeps its place and takes
    the new value. -/
def put {α : Type} (name : String) (value : α) : List (String × α) → List (String × α)
  | [] => [(name, value)]
  | (n, v) :: rest => if n = name then (name, value) :: rest else (n, v) :: put name value rest

mutual

/-- The value of a document: of members with one name, the last value at the first place. -/
def settle : Json → Json
  | .null => .null
  | .bool b => .bool b
  | .number n => .number n
  | .string s => .string s
  | .array items => .array (settleItems items)
  | .object members => .object (settleMembers [] members)

/-- The items of an array, settled. -/
def settleItems : List Json → List Json
  | [] => []
  | item :: items => settle item :: settleItems items

/-- The members of an object, settled and put behind those of `done`. -/
def settleMembers (done : List (String × Json)) : List (String × Json) → List (String × Json)
  | [] => done
  | (name, value) :: members => settleMembers (put name (settle value) done) members

end

/-- No object in a document repeats a name, so the document is the value it stands for. -/
def Settled (v : Json) : Prop := v.settle = v

mutual

/-- How deep arrays and objects are nested in a document; a scalar has depth 0. -/
def depth : Json → Nat
  | .null | .bool _ | .number _ | .string _ => 0
  | .array items => depthItems items + 1
  | .object members => depthMembers members + 1

/-- The greatest depth of the items of an array. -/
def depthItems : List Json → Nat
  | [] => 0
  | item :: items => max (depth item) (depthItems items)

/-- The greatest depth of the members of an object. -/
def depthMembers : List (String × Json) → Nat
  | [] => 0
  | (_, value) :: members => max (depth value) (depthMembers members)

end

/-- What an object type looks at: the members of an object, or the items of an array under their
    indices. -/
def entries? : Json → Option (List (String × Json))
  | .object members => some members
  | .array items => some (items.zipIdx.map fun (item, i) => (toString i, item))
  | _ => none

/-- An item of an array is smaller than the array. -/
theorem sizeOf_item_lt {item : Json} {items : List Json} (h : item ∈ items) :
    sizeOf item < sizeOf (Json.array items) := by
  have := List.sizeOf_lt_of_mem h
  simp; omega

/-- The value of a member is smaller than the object. -/
theorem sizeOf_member_lt {name : String} {value : Json} {members : List (String × Json)}
    (h : (name, value) ∈ members) : sizeOf value < sizeOf (Json.object members) := by
  have := List.sizeOf_lt_of_mem h
  simp at this ⊢; omega

/-- What stands in an entry of a value is smaller than the value. -/
theorem sizeOf_entry_lt {v value : Json} {name : String} {es : List (String × Json)}
    (h : v.entries? = some es) (hm : (name, value) ∈ es) : sizeOf value < sizeOf v := by
  unfold entries? at h
  split at h
  · cases h; exact sizeOf_member_lt hm
  · cases h
    obtain ⟨⟨item, i⟩, hi, he⟩ := List.mem_map.1 hm
    cases he
    exact sizeOf_item_lt (List.fst_mem_of_mem_zipIdx hi)
  · cases h

end Json

end TypedFlags
