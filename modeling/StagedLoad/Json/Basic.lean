import StagedLoad.Table

/-!
# JSON values

The values of JSON over any kind of numbers.  Objects keep their members as they are
written; what counts is the last member of each name, and not the order.

## Main definitions

* `Json` — the values.
* `Json.member?`, `Json.element?` — one step into an object or an array.
* `Json.canonical` — the same value with each name once and the names in ascending order.
* `Json.same` — whether two values are equal, up to the order of members.
-/

namespace StagedLoad

/-- A JSON value with numbers of type `ν`. -/
inductive Json (ν : Type)
  /-- The absent value. -/
  | null
  /-- A truth value. -/
  | bool (b : Bool)
  /-- A number. -/
  | number (n : ν)
  /-- A text. -/
  | string (s : String)
  /-- An array. -/
  | array (elements : List (Json ν))
  /-- An object. -/
  | object (members : List (String × Json ν))
  deriving Inhabited

namespace Json

variable {ν : Type}

/-- The last value in a list under a name. -/
def lastNamed? (name : String) : List (String × Json ν) → Option (Json ν)
  | [] => none
  | (k, v) :: rest => (lastNamed? name rest).or (if k = name then some v else none)

/-- The member of an object under a name. -/
def member? (name : String) : Json ν → Option (Json ν)
  | object members => lastNamed? name members
  | _ => none

/-- The element of an array at an index. -/
def element? (i : Nat) : Json ν → Option (Json ν)
  | array elements => elements[i]?
  | _ => none

mutual

/-- The same value with each name once and the names of objects in ascending order. -/
def canonical : Json ν → Json ν
  | null => null
  | bool b => bool b
  | number n => number n
  | string s => string s
  | array elements => array (canonicalElements elements)
  | object members => object (Table.ofList (canonicalMembers members)).entries

/-- The canonical forms of some elements. -/
def canonicalElements : List (Json ν) → List (Json ν)
  | [] => []
  | v :: rest => v.canonical :: canonicalElements rest

/-- The canonical forms of some members. -/
def canonicalMembers : List (String × Json ν) → List (String × Json ν)
  | [] => []
  | (k, v) :: rest => (k, v.canonical) :: canonicalMembers rest

end

mutual

/-- Whether two values are written alike, numbers being compared by `eq`. -/
def alike (eq : ν → ν → Bool) : Json ν → Json ν → Bool
  | null, null => true
  | bool a, bool b => a == b
  | number a, number b => eq a b
  | string a, string b => a == b
  | array a, array b => alikeElements eq a b
  | object a, object b => alikeMembers eq a b
  | _, _ => false

/-- Whether two lists of elements are written alike. -/
def alikeElements (eq : ν → ν → Bool) : List (Json ν) → List (Json ν) → Bool
  | [], [] => true
  | a :: as, b :: bs => a.alike eq b && alikeElements eq as bs
  | _, _ => false

/-- Whether two lists of members are written alike. -/
def alikeMembers (eq : ν → ν → Bool) : List (String × Json ν) → List (String × Json ν) → Bool
  | [], [] => true
  | (j, a) :: as, (k, b) :: bs => j == k && a.alike eq b && alikeMembers eq as bs
  | _, _ => false

end

/-- Whether two values are equal, numbers being compared by `eq`. -/
def same (eq : ν → ν → Bool) (a b : Json ν) : Bool := a.canonical.alike eq b.canonical

end Json

end StagedLoad
