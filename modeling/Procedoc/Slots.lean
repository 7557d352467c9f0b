/-! # Items in slots

The order of a collection that keeps each item in a slot of its own.  An item with a number asks for
the slot that is the rest of its number by the number of slots; where that is taken, it goes on to
others.  With too few slots free, all items move to more slots in the order in which they stand.

* `Slots.insert` puts an item into its slot.
* `Slots.arrange` puts in items one after another and lists them by their slots.
-/

namespace Procedoc
set_option autoImplicit false

/-- Slots, each empty or with a numbered item. -/
abbrev Slots (α : Type) := List (Option (Nat × α))

namespace Slots
variable {α : Type}

def empty (size : Nat) : Slots α := List.replicate size none

def isFree (s : Slots α) (i : Nat) : Bool :=
  match s[i]? with
  | some none => true
  | _ => false

/-- The number of slots after its own that an item looks at in a row. -/
def stride : Nat := 9

/-- The slots in a row from one on that an item looks at. -/
def window (size i : Nat) : List Nat :=
  if i + stride < size then (List.range (stride + 1)).map (i + ·) else [i]

/-- The first free slot on the way from slot `i`; `rest` is what of the number is not yet used. -/
def search (s : Slots α) : (fuel i rest : Nat) → Option Nat
  | 0, _, _ => none
  | fuel + 1, i, rest =>
    match (window s.length i).find? s.isFree with
    | some j => some j
    | none => search s fuel ((i * 5 + 1 + rest / 32) % s.length) (rest / 32)

def insert (s : Slots α) (number : Nat) (a : α) : Slots α :=
  match search s (20 + s.length) (number % s.length) number with
  | some j => s.set j (some (number, a))
  | none => s

def items (s : Slots α) : List (Nat × α) := s.filterMap id

/-- The number of slots for so many items that are to have room: a power of two, at least eight. -/
def sizeAbove : (fuel size wanted : Nat) → Nat
  | 0, size, _ => size
  | fuel + 1, size, wanted => if size ≤ wanted then sizeAbove fuel (2 * size) wanted else size

/-- Puts in an item and makes room for more where three fifths of the slots are taken. -/
def push (s : Slots α) (p : Nat × α) : Slots α :=
  let filled := s.insert p.1 p.2
  let count := filled.items.length
  if count * 5 < (s.length - 1) * 3 then filled
  else
    let size := sizeAbove (count * 4) 8 (if 50000 < count then count * 2 else count * 4)
    filled.items.foldl (fun s p => s.insert p.1 p.2) (empty size)

/-- The items in the order of the slots that they get one after another. -/
def arrange (ps : List (Nat × α)) : List α := ((ps.foldl push (empty 8)).items).map Prod.snd

example : arrange [(3, "c"), (1, "a"), (2, "b")] = ["a", "b", "c"]
    ∧ arrange [(8, "x"), (0, "y"), (1, "z")] = ["x", "y", "z"] := by decide +kernel

end Slots
end Procedoc
