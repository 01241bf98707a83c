import DataBinding.Table
import DataBinding.Text.Quoted
import DataBinding.Number.Numeral
import DataBinding.Number.Layout

set_option autoImplicit false

/-! # Values

A value is what a field of a record holds. Arrays are immutable and have an identity: two
arrays made separately are different even when their items agree. A record value is the
identity of a record, so it can be shared and can lie on a cycle.

Three things are read off a value: whether it is the *same* as another (`Value.same`), the text
that shows it (`Value.display`) and the number it stands for (`Value.toNumber`).
-/

namespace DataBinding

/-- A value that a field can hold. -/
inductive Value where
  | undefined
  | null
  | bool (b : Bool)
  | number (n : Number)
  | text (s : String)
  | array (identity : Nat) (items : List Value)
  | record (r : RecordId)
  deriving Inhabited, Repr

namespace Value

/-! ## Equality

Lean's equality of values compares numbers bit by bit. It is decidable. -/

mutual

/-- Decides the equality of two values. -/
def decEq : (a b : Value) → Decidable (a = b)
  | .undefined, b => match b with
    | .undefined => isTrue rfl
    | .null | .bool _ | .number _ | .text _ | .array _ _ | .record _ => isFalse nofun
  | .null, b => match b with
    | .null => isTrue rfl
    | .undefined | .bool _ | .number _ | .text _ | .array _ _ | .record _ => isFalse nofun
  | .bool x, b => match b with
    | .bool y => decidable_of_iff (x = y) ⟨congrArg _, fun h => Value.bool.inj h⟩
    | .undefined | .null | .number _ | .text _ | .array _ _ | .record _ => isFalse nofun
  | .number x, b => match b with
    | .number y => decidable_of_iff (x = y) ⟨congrArg _, fun h => Value.number.inj h⟩
    | .undefined | .null | .bool _ | .text _ | .array _ _ | .record _ => isFalse nofun
  | .text x, b => match b with
    | .text y => decidable_of_iff (x = y) ⟨congrArg _, fun h => Value.text.inj h⟩
    | .undefined | .null | .bool _ | .number _ | .array _ _ | .record _ => isFalse nofun
  | .array i xs, b => match b with
    | .array j ys =>
      if h : i = j then
        match decEqItems xs ys with
        | isTrue hx => isTrue (by rw [h, hx])
        | isFalse hx => isFalse fun e => hx (Value.array.inj e).2
      else isFalse fun e => h (Value.array.inj e).1
    | .undefined | .null | .bool _ | .number _ | .text _ | .record _ => isFalse nofun
  | .record x, b => match b with
    | .record y => decidable_of_iff (x = y) ⟨congrArg _, fun h => Value.record.inj h⟩
    | .undefined | .null | .bool _ | .number _ | .text _ | .array _ _ => isFalse nofun

/-- Decides the equality of two lists of values. -/
def decEqItems : (xs ys : List Value) → Decidable (xs = ys)
  | [], [] => isTrue rfl
  | [], _ :: _ => isFalse nofun
  | _ :: _, [] => isFalse nofun
  | x :: xs, y :: ys =>
    match decEq x y, decEqItems xs ys with
    | isTrue h, isTrue hs => isTrue (by rw [h, hs])
    | isFalse h, _ => isFalse fun e => h (List.cons.inj e).1
    | _, isFalse hs => isFalse fun e => hs (List.cons.inj e).2

end

/-- Equality of values is decidable. A value that is shared equals itself without a look at its
items. -/
instance : DecidableEq Value := fun a b => withPtrEqDecEq a b fun _ => decEq a b

/-- Whether two values are the same: numbers as `Number.same` says, arrays by identity (which
fixes their items), records by identity, everything else by content. A write of the value that
is already there counts as no write. -/
def same (a b : Value) : Bool :=
  match a, b with
  | .number x, .number y => x.same y
  | a, b => a = b

/-! ## Text and number -/

/-- Whether the value shows as nothing inside an array. -/
def isBare : Value → Bool
  | .undefined | .null => true
  | _ => false

mutual

/-- The text that shows a value. -/
def display : Value → String
  | .undefined => "undefined"
  | .null => "null"
  | .bool b => if b then "true" else "false"
  | .number n => n.display
  | .text s => s
  | .array _ items => ",".intercalate (displayItems items)
  | .record _ => "[object Object]"

/-- The texts of the items of an array; `undefined` and `null` show as nothing. -/
def displayItems : List Value → List String
  | [] => []
  | v :: vs => (if v.isBare then "" else display v) :: displayItems vs

end

/-- The number a value stands for. An array of one item stands for what the item stands for,
the empty array for zero. -/
def toNumber : Value → Number
  | .undefined => .nan
  | .null => .zero
  | .bool b => if b then .one else .zero
  | .number n => n
  | .text s => .ofText s
  | .array _ [] => .zero
  | .array _ [v] => toNumber v
  | .array _ (_ :: _ :: _) => .nan
  | .record _ => .nan

/-- The record that the value is, if it is one. -/
def record? : Value → Option RecordId
  | .record r => some r
  | _ => none

/-- The text that the value is, if it is one. -/
def text? : Value → Option String
  | .text s => some s
  | _ => none

theorem same_self (v : Value) : v.same v = true := by
  cases v <;> simp [same, Number.same]

end Value

end DataBinding
