import Procedoc.Binary
import Procedoc.Json
import Procedoc.Slots

/-! # Values

A `Value` is what a field may have as its default, or what a type may be restricted to: plain data,
and the kinds of values that data has no form of its own for.  Which data stands for a value depends
on the declarations (`Catalog.data`); `Value.equal` compares values without them.

* `Value.dedupe` lists values without repetition.
* `Value.setOf` is a set of values: of equal ones the first, numbers in the order of their slots.
-/

namespace Procedoc
set_option autoImplicit false

/-- The collections that data writes as lists. -/
inductive Collection where
  | list
  | tuple
  | set
  deriving DecidableEq, Inhabited

inductive Value where
  /-- Null, a truth value, a number or a text. -/
  | plain (j : Json)
  | many (collection : Collection) (items : List Value)
  | dict (entries : List (String × Value))
  /-- A member of a declared enumeration. -/
  | member (enumeration name : String)
  | octets (bytes : List UInt8)
  /-- A day, by its number. -/
  | date (day : Int)
  /-- An instance of a declared model, with the fields it was given. -/
  | record (model : String) (given : List (String × Value))
  /-- A value of which nothing is known. -/
  | sealed
  deriving Inhabited

namespace Value

/-- The value that stands for the absence of a value. -/
def null : Value := plain .null

def isNull : Value → Bool
  | plain .null => true
  | _ => false

mutual
/-- Whether two values are equal, numbers by their size. -/
def equal : Value → Value → Bool
  | plain (.unbounded .undefined), _ => false
  | plain a, b => match b with
    | plain b => a.equal b
    | _ => false
  | many c xs, b => match b with
    | many d ys => c == d && equalList xs ys
    | _ => false
  | dict xs, b => match b with
    | dict ys => xs.length == ys.length && equalEntries xs ys
    | _ => false
  | member e m, b => match b with
    | member f n => e == f && m == n
    | _ => false
  | octets xs, b => match b with
    | octets ys => xs == ys
    | _ => false
  | date s, b => match b with
    | date t => s == t
    | _ => false
  | record m xs, b => match b with
    | record n ys => m == n && xs.length == ys.length && equalEntries xs ys
    | _ => false
  | sealed, _ => false

def equalList : List Value → List Value → Bool
  | [], [] => true
  | x :: xs, y :: ys => equal x y && equalList xs ys
  | _, _ => false

/-- Whether the second list has every entry of the first. -/
def equalEntries : List (String × Value) → List (String × Value) → Bool
  | [], _ => true
  | (k, v) :: rest, ys =>
    (match Entries.get? ys k with
      | some w => equal v w
      | none => false) && equalEntries rest ys
end

/-- Whether two values are equal and of one sort, so that no truth value is an integer. -/
def alike (x y : Value) : Bool :=
  match x, y with
  | plain a, plain b => a.sortName == b.sortName && equal x y
  | _, _ => equal x y

/-! ## Values without repetition -/

mutual
/-- Whether the value may change in time, as lists, sets, objects and instances may. -/
def isChangeable : Value → Bool
  | many .tuple items => anyChangeable items
  | many _ _ | dict _ | record _ _ => true
  | plain _ | member _ _ | octets _ | date _ | sealed => false

def anyChangeable : List Value → Bool
  | [] => false
  | v :: rest => isChangeable v || anyChangeable rest
end

/-- The values in order, each kept at the first place where one like it stands. -/
def distinct (values : List Value) : List Value :=
  values.foldl (fun kept v => if kept.any (alike v) then kept else kept ++ [v]) []

/-- The values without repetition.  Where one of them may change, none is compared, and all stay. -/
def dedupe (values : List Value) : List Value :=
  if anyChangeable values then values else distinct values

/-! ## Sets -/

/-- The modulus of the numbers of slots. -/
def slotModulus : Nat := 2305843009213693951

/-- The number by which one of the given size asks for its slot. -/
def slotOf (negative : Bool) (size : Nat) : Nat :=
  let r := size % slotModulus
  if negative ∧ r ≠ 0 then 18446744073709551616 - (if r = 1 then 2 else r) else r

/-- The size of a fraction for its slot: the modulus is one less than the 61st power of two, so that
only the rest of an exponent by 61 counts. -/
def slotSize (x : Binary) : Nat := x.mantissa * twoTo (x.exponent % 61).toNat

/-- The number by which a value asks for its slot, if it is a number or counts as one. -/
def slot? : Value → Option Nat
  | plain (.bool b) => some (slotOf false (if b then 1 else 0))
  | plain (.int n) => some (slotOf (n < 0) n.natAbs)
  | plain (.decimal x) => some (slotOf x.negative (slotSize (.nearest x)))
  | plain (.unbounded .positive) => some (slotOf false 314159)
  | plain (.unbounded .negative) => some (slotOf true 314159)
  | _ => none

/-- The items of the set of some values.  Where all are numbers or count as some, they stand in the
order of their slots, else in the order given. -/
def setItems (values : List Value) : List Value :=
  let kept := values.foldl (fun kept v => if kept.any (equal v) then kept else kept ++ [v]) []
  match kept.mapM fun v => (slot? v).map fun n => (n, v) with
  | some numbered => Slots.arrange numbered
  | none => kept

def setOf (values : List Value) : Value := many .set (setItems values)

end Value

instance : BEq Value := ⟨Value.equal⟩

end Procedoc
