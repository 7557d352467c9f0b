import Procedoc.Shape

/-! # Layouts

A `Layout` is a shape with the definitions that its references lead to, directly or through others.

* `Shape.mentions` lists the references in a shape, from left to right.
* `gather` follows references: it finds every definition that is needed, in the order in which they
  are come upon, and tells which of them only one bare reference leads to.
* `Layout.tidy` puts each of the latter into the place of that reference and keeps the others.
-/

namespace Procedoc
set_option autoImplicit false

/-! ## References -/

/-- A reference in a shape, and whether it is bare: nothing is said at it. -/
structure Mention where
  key : Key
  isBare : Bool
  deriving DecidableEq

namespace Shape

mutual
/-- The references in a shape, from left to right; `isSaid` tells where something was said at a
shared reference. -/
def mentions (isSaid : Anchor → Bool) : Shape → List Mention
  | reference key => [⟨key, true⟩]
  | shared anchor => [⟨.model anchor.model, !isSaid anchor⟩]
  | noted (reference key) _ => [⟨key, false⟩]
  | container _ inner _ | nullable inner | guarded inner | chained inner _ | defaulted inner _
  | noted inner _ => mentions isSaid inner
  | tuple items _ => mentionsOfList isSaid items
  | dict k v _ => mentions isSaid k ++ mentions isSaid v
  | union members => mentionsOfList isSaid members
  | replaced inner bare => mentions isSaid inner ++ mentions isSaid bare
  | record _ ⟨_, _, _, fields⟩ => mentionsOfFields isSaid fields
  | plain _ _ | literal _ | concealed | enumeration _ _ => []

def mentionsOfList (isSaid : Anchor → Bool) : List Shape → List Mention
  | [] => []
  | s :: rest => mentions isSaid s ++ mentionsOfList isSaid rest

def mentionsOfFields (isSaid : Anchor → Bool) : List (Field Shape) → List Mention
  | [] => []
  | ⟨_, s, _, _, _⟩ :: rest => mentions isSaid s ++ mentionsOfFields isSaid rest
end

mutual
/-- The shape with other shapes in the place of some references. -/
def fill (f : Key → Option Shape) : Shape → Shape
  | reference key => (f key).getD (reference key)
  | shared anchor => (f (.model anchor.model)).getD (shared anchor)
  | container c item bounds => container c (fill f item) bounds
  | tuple items bounds => tuple (fillList f items) bounds
  | dict k v bounds => dict (fill f k) (fill f v) bounds
  | union members => union (fillList f members)
  | nullable inner => nullable (fill f inner)
  | guarded inner => guarded (fill f inner)
  | replaced inner bare => replaced (fill f inner) (fill f bare)
  | chained inner pattern => chained (fill f inner) pattern
  | defaulted inner fallback => defaulted (fill f inner) fallback
  | noted inner notes => noted (fill f inner) notes
  | record key ⟨name, doc, config, fields⟩ => record key ⟨name, doc, config, fillFields f fields⟩
  | s => s

def fillList (f : Key → Option Shape) : List Shape → List Shape
  | [] => []
  | s :: rest => fill f s :: fillList f rest

def fillFields (f : Key → Option Shape) : List (Field Shape) → List (Field Shape)
  | [] => []
  | ⟨name, s, marks, facts, ruled⟩ :: rest =>
    ⟨name, fill f s, marks, facts, ruled⟩ :: fillFields f rest
end

end Shape

/-! ## Definitions -/

abbrev Definitions := List (Key × Shape)

def Definitions.find? (ds : Definitions) (key : Key) : Option Shape := ds.lookup key

/-- Writes a definition over the one of its key, or after all others. -/
def Definitions.put (key : Key) (d : Shape) : Definitions → Definitions
  | [] => [(key, d)]
  | p :: rest => if p.1 = key then (key, d) :: rest else p :: put key d rest

/-- A definition that was come upon, and whether only one bare reference leads to it. -/
structure Found where
  key : Key
  isSingle : Bool
  deriving DecidableEq

/-- Follows the references that are pending, after some definitions were found. -/
def gather (isSaid : Anchor → Bool) (definitions : Definitions) :
    (steps : Nat) → (pending : List Mention) → (found : List Found) → List Found
  | 0, _, found => found
  | _, [], found => found
  | steps + 1, m :: pending, found =>
    if found.any fun f => f.key = m.key then
      gather isSaid definitions steps pending
        (found.map fun f => if f.key = m.key then { f with isSingle := false } else f)
    else
      match definitions.find? m.key with
      | some d =>
        gather isSaid definitions steps (d.mentions isSaid ++ pending)
          (found ++ [⟨m.key, m.isBare⟩])
      | none => gather isSaid definitions steps pending found

/-- A shape with the definitions that references in it lead to. -/
structure Layout where
  top : Shape
  definitions : Definitions
  deriving Inhabited

namespace Layout

/-- The number of references in a shape and in definitions: none of them is followed twice. -/
def stepsFor (isSaid : Anchor → Bool) (definitions : Definitions) (top : Shape) : Nat :=
  (definitions.map fun p => (p.2.mentions isSaid).length).foldl (· + ·)
    (top.mentions isSaid).length

def needed (isSaid : Anchor → Bool) (definitions : Definitions) (top : Shape) : List Found :=
  gather isSaid definitions (stepsFor isSaid definitions top) (top.mentions isSaid) []

/-- The definitions that were found, each with those inside it in place that only one reference
leads to.  A definition that stands inside another was found after it. -/
def settle (definitions : Definitions) : List Found → List (Found × Shape)
  | [] => []
  | f :: rest =>
    let done := settle definitions rest
    match definitions.find? f.key with
    | some d => (f, d.fill (single? done)) :: done
    | none => done
where
  /-- The definition of a key that only one reference leads to. -/
  single? (done : List (Found × Shape)) (key : Key) : Option Shape :=
    (done.find? fun p => p.1.key = key && p.1.isSingle).map Prod.snd

def tidy (isSaid : Anchor → Bool) (definitions : Definitions) (top : Shape) : Layout :=
  let done := settle definitions (needed isSaid definitions top)
  { top := top.fill (settle.single? done)
    definitions := (done.filter fun p => !p.1.isSingle).map fun p => (p.1.key, p.2) }

/-- A record that is found first, by one bare reference, comes to stand on top. -/
theorem tidy_of_first {isSaid : Anchor → Bool} {definitions : Definitions} {key : Key}
    {r : Record Shape} {rest : List Found}
    (hfound : needed isSaid definitions (.reference key) = ⟨key, true⟩ :: rest)
    (hkey : definitions.find? key = some (.record key r)) :
    tidy isSaid definitions (.reference key) =
      { top := .record key { r with
          fields := Shape.fillFields (settle.single? (settle definitions rest)) r.fields }
        definitions := ((settle definitions rest).filter fun p => !p.1.isSingle).map
          fun p => (p.1.key, p.2) } := by
  rw [tidy, hfound, settle, hkey]
  simp [Shape.fill, settle.single?]

end Layout
end Procedoc
