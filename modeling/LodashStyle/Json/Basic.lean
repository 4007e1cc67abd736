import LodashStyle.Decimal.Binary64
import LodashStyle.Text.Basic

/-! # JSON values

Objects keep the order in which their keys were first put; putting a key again replaces
its value in place.  Numbers written with a point or an exponent are kept apart from
integers.

`Members.merge` lays one object over another: where both hold an object under a key the two
are merged in turn, and otherwise the upper value wins.

* `get?_put`  the value under `k` after a put is the one put, and no other value changes -/

namespace LodashStyle

/-- A floating point number. -/
inductive Real64 where
  | nan
  | infinite (negative : Bool)
  | finite (negative : Bool) (magnitude : Binary64)
  deriving DecidableEq, Repr

/-- A JSON value. -/
inductive Json where
  | null
  | bool (b : Bool)
  | int (n : Int)
  | real (x : Real64)
  | string (t : Text)
  | array (items : List Json)
  | object (members : List (Text × Json))
  deriving Repr, Inhabited

namespace Json

/-- The members of an object, in order, each key once. -/
abbrev Members := List (Text × Json)

namespace Members

/-- The value under a key. -/
def get? (key : Text) : Members → Option Json
  | [] => none
  | (k, v) :: rest => if k = key then some v else get? key rest

/-- Puts a value under a key, in place if the key is there already. -/
def put (key : Text) (value : Json) : Members → Members
  | [] => [(key, value)]
  | (k, v) :: rest => if k = key then (k, value) :: rest else (k, v) :: put key value rest

/-- The keys, in order. -/
def keys (m : Members) : List Text := m.map (·.1)

theorem get?_put (m : Members) (key other : Text) (value : Json) :
    get? other (put key value m) = if key = other then some value else get? other m := by
  induction m with
  | nil => rfl
  | cons entry rest ih =>
    obtain ⟨k, v⟩ := entry
    by_cases hk : k = key <;> grind [put, get?]

end Members

mutual

/-- The value that results from laying `upper` over a value that may be absent. -/
def overlay (base : Option Json) : Json → Json
  | .object upper =>
    match base with
    | some (.object lower) => .object (mergeMembers lower upper)
    | _ => .object upper
  | value => value
termination_by structural upper => upper

/-- Lays the members `upper` one after the other over those of `base`. -/
def mergeMembers (base : Members) : List (Text × Json) → Members
  | [] => base
  | (key, value) :: rest =>
    mergeMembers (Members.put key (overlay (Members.get? key base) value) base) rest
termination_by structural upper => upper

end

/-- The members of `upper` laid over those of `base`. -/
def Members.merge (base upper : Members) : Members := mergeMembers base upper

end Json

end LodashStyle
