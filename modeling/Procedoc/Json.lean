import Procedoc.Decimal
import Procedoc.Entries

/-! # JSON values

`Json` is the data that schemas and documents are made of.  An object keeps the order in which its
keys were written.  A number is an integer of any size, or a decimal fraction, or one of the three
values that no fraction names; an integer and a fraction of the same value are two values.

* `Json.same` compares two values as data: the order of an object's keys does not count.
* `Json.equal` compares them as numbers where they are numbers, true and false being 1 and 0.
* `Json.override` writes the entries of one object over those of another.
* `Json.sorted` brings the keys of objects into order, but for names of properties and defaults.
-/

namespace Procedoc
set_option autoImplicit false

/-- The numbers that no decimal names. -/
inductive Unbounded where
  | positive
  | negative
  | undefined
  deriving DecidableEq, Inhabited

inductive Json where
  | null
  | bool (b : Bool)
  | int (n : Int)
  /-- A fraction, which it is even where its value is an integer. -/
  | decimal (x : Decimal)
  | unbounded (u : Unbounded)
  | str (s : String)
  | arr (items : List Json)
  | obj (entries : List (String × Json))
  deriving Inhabited

namespace Json

/-- The entries of an object; any other value has none. -/
def entries : Json → Entries Json
  | obj e => e
  | _ => []

def get? (j : Json) (key : String) : Option Json := Entries.get? j.entries key

def text? : Json → Option String
  | str s => some s
  | _ => none

def isObject : Json → Bool
  | obj _ => true
  | _ => false

/-- The object `base` with the entries of `top` written into it. -/
def override (base top : Json) : Json := obj (Entries.override base.entries top.entries)

/-- The word for the sort of a value. -/
def sortName : Json → String
  | null => "NoneType"
  | bool _ => "bool"
  | int _ => "int"
  | decimal _ | unbounded _ => "float"
  | str _ => "str"
  | arr _ => "list"
  | obj _ => "dict"

/-- Whether a value says anything: empty texts, lists and objects, zero, false and null do not. -/
def saysSomething : Json → Bool
  | null => false
  | bool b => b
  | int n => n != 0
  | decimal x => !x.isZero
  | unbounded _ => true
  | str s => !s.isEmpty
  | arr items => !items.isEmpty
  | obj e => !e.isEmpty

def strings (texts : List String) : Json := arr (texts.map str)

@[simp] theorem entries_obj (e : List (String × Json)) : (obj e).entries = e := rfl

/-! ## Equality -/

mutual
/-- Decides whether two values are the same, key order included. -/
def decEq : (a b : Json) → Decidable (a = b)
  | null, b => match b with
    | null => isTrue rfl
    | bool _ | int _ | decimal _ | unbounded _ | str _ | arr _ | obj _ => isFalse nofun
  | bool x, b => match b with
    | bool y => if h : x = y then isTrue (h ▸ rfl) else isFalse fun e => h (Json.bool.inj e)
    | null | int _ | decimal _ | unbounded _ | str _ | arr _ | obj _ => isFalse nofun
  | int x, b => match b with
    | int y => if h : x = y then isTrue (h ▸ rfl) else isFalse fun e => h (Json.int.inj e)
    | null | bool _ | decimal _ | unbounded _ | str _ | arr _ | obj _ => isFalse nofun
  | decimal x, b => match b with
    | decimal y => if h : x = y then isTrue (h ▸ rfl) else isFalse fun e => h (Json.decimal.inj e)
    | null | bool _ | int _ | unbounded _ | str _ | arr _ | obj _ => isFalse nofun
  | unbounded x, b => match b with
    | unbounded y =>
      if h : x = y then isTrue (h ▸ rfl) else isFalse fun e => h (Json.unbounded.inj e)
    | null | bool _ | int _ | decimal _ | str _ | arr _ | obj _ => isFalse nofun
  | str x, b => match b with
    | str y => if h : x = y then isTrue (h ▸ rfl) else isFalse fun e => h (Json.str.inj e)
    | null | bool _ | int _ | decimal _ | unbounded _ | arr _ | obj _ => isFalse nofun
  | arr xs, b => match b with
    | arr ys => match decEqList xs ys with
      | isTrue h => isTrue (h ▸ rfl)
      | isFalse h => isFalse fun e => h (Json.arr.inj e)
    | null | bool _ | int _ | decimal _ | unbounded _ | str _ | obj _ => isFalse nofun
  | obj xs, b => match b with
    | obj ys => match decEqEntries xs ys with
      | isTrue h => isTrue (h ▸ rfl)
      | isFalse h => isFalse fun e => h (Json.obj.inj e)
    | null | bool _ | int _ | decimal _ | unbounded _ | str _ | arr _ => isFalse nofun

def decEqList : (xs ys : List Json) → Decidable (xs = ys)
  | [], [] => isTrue rfl
  | [], _ :: _ => isFalse nofun
  | _ :: _, [] => isFalse nofun
  | x :: xs, y :: ys => match decEq x y with
    | isFalse h => isFalse fun e => h (List.cons.inj e).1
    | isTrue h => match decEqList xs ys with
      | isTrue h' => isTrue (h ▸ h' ▸ rfl)
      | isFalse h' => isFalse fun e => h' (List.cons.inj e).2

def decEqEntries : (xs ys : List (String × Json)) → Decidable (xs = ys)
  | [], [] => isTrue rfl
  | [], _ :: _ => isFalse nofun
  | _ :: _, [] => isFalse nofun
  | (k, x) :: xs, (l, y) :: ys =>
    if hk : k = l then
      match decEq x y with
      | isFalse h => isFalse fun e => h (Prod.mk.inj (List.cons.inj e).1).2
      | isTrue h => match decEqEntries xs ys with
        | isTrue h' => isTrue (hk ▸ h ▸ h' ▸ rfl)
        | isFalse h' => isFalse fun e => h' (List.cons.inj e).2
    else isFalse fun e => hk (Prod.mk.inj (List.cons.inj e).1).1
end

instance : DecidableEq Json := decEq

mutual
/-- Whether two values are equal up to the order of keys, given when two that are neither lists nor
objects are. -/
def sameBy (leaf : Json → Json → Bool) : Json → Json → Bool
  | arr xs, b => match b with
    | arr ys => sameListBy leaf xs ys
    | _ => false
  | obj xs, b => match b with
    | obj ys => xs.length == ys.length && sameEntriesBy leaf xs ys
    | _ => false
  | a, b => leaf a b

def sameListBy (leaf : Json → Json → Bool) : List Json → List Json → Bool
  | [], [] => true
  | x :: xs, y :: ys => sameBy leaf x y && sameListBy leaf xs ys
  | _, _ => false

/-- Whether the second list has every entry of the first. -/
def sameEntriesBy (leaf : Json → Json → Bool) :
    List (String × Json) → List (String × Json) → Bool
  | [], _ => true
  | (k, v) :: rest, ys =>
    (match Entries.get? ys k with
      | some w => sameBy leaf v w
      | none => false) && sameEntriesBy leaf rest ys
end

/-- Whether two values are equal as data, so that the order of an object's keys does not count. -/
def same (a b : Json) : Bool := sameBy (fun x y => x == y) a b

/-- The number that a value counts as: itself, or 1 and 0 for true and false. -/
def quantity? : Json → Option Decimal
  | bool b => some (.ofInt (if b then 1 else 0))
  | int n => some (.ofInt n)
  | decimal x => some x
  | _ => none

/-- Whether two values that are neither lists nor objects are equal, numbers by their size. -/
def equalLeaf (a b : Json) : Bool :=
  match a.quantity?, b.quantity? with
  | some x, some y => x.same y
  | _, _ => a == b

/-- Whether two values are equal, numbers by their size. -/
def equal (a b : Json) : Bool := sameBy equalLeaf a b

/-- Writes a value over the first one equal to it, or after all others. -/
def settleIn : List Json → Json → List Json
  | [], j => [j]
  | k :: rest, j => if equal k j then j :: rest else k :: settleIn rest j

/-- The values in order, of equal ones the last in the place of the first. -/
def distinct (items : List Json) : List Json := items.foldl settleIn []

/-! ## Order of keys -/

/-- Puts an entry before the first whose key is greater. -/
def insertByKey {α : Type} (p : String × α) : List (String × α) → List (String × α)
  | [] => [p]
  | q :: rest => if p.1 < q.1 then p :: q :: rest else q :: insertByKey p rest

/-- Entries in the order of their keys. -/
def sortByKey {α : Type} (e : List (String × α)) : List (String × α) := e.foldr insertByKey []

/-- Whether the object under a key keeps its own order: properties and defaults do. -/
def keepsOrder (key : String) : Bool := key == "properties" || key == "default"

mutual
/-- The value with the keys of its objects in order; `kept` says whether it stands itself under a
key that leaves the order as it is. -/
def sortedWithin (kept : Bool) : Json → Json
  | obj e =>
    let inside := sortedEntries e
    obj (if kept then inside else sortByKey inside)
  | arr items => arr (sortedList kept items)
  | j => j

def sortedList (kept : Bool) : List Json → List Json
  | [] => []
  | j :: rest => sortedWithin kept j :: sortedList kept rest

def sortedEntries : List (String × Json) → List (String × Json)
  | [] => []
  | (key, j) :: rest => (key, sortedWithin (keepsOrder key) j) :: sortedEntries rest
end

/-- The value with the keys of its objects in order. -/
def sorted (j : Json) : Json := sortedWithin false j

end Json
end Procedoc
