import Procedoc.Shaping
import Procedoc.Writing

/-! # Fragments

The JSON Schema of a type, with the definitions that it refers to.

* `references` lists the references in data, `leads` follows them to definitions.
* `unfold` puts a definition into the place of a schema that is but the only reference to it.
* `Renaming.simplest` gives the definitions the simplest names under which no two differ.
* `Catalog.fragment` is a schema with its definitions under `$defs`.
-/

namespace Procedoc
set_option autoImplicit false

/-! ## References in data -/

mutual
/-- The number of values in data. -/
def Json.count : Json → Nat
  | .arr items => 1 + countList items
  | .obj e => 1 + countEntries e
  | _ => 1

def Json.countList : List Json → Nat
  | [] => 0
  | j :: rest => Json.count j + countList rest

def Json.countEntries : List (String × Json) → Nat
  | [] => 0
  | (_, j) :: rest => Json.count j + countEntries rest
end

/-- The values of an object in which references are looked for: examples are not. -/
def searched (e : Entries Json) : List Json :=
  e.filterMap fun (key, j) =>
    match j with
    | .arr items => if key = "examples" then none else some (.arr items)
    | j => some j

/-- How often each reference was met. -/
abbrev Tally := Entries Nat

def Tally.of (t : Tally) (ref : String) : Nat := (Entries.get? t ref).getD 0

/-- Counts the references in data that is still to be searched.  A definition is searched where the
first reference to it is met; nothing is looked for beside a reference that was met before. -/
def tally (s : Sheet) : (steps : Nat) → List Json → Tally → Except Obstacle Tally
  | 0, _, t => .ok t
  | _, [], t => .ok t
  | steps + 1, .arr items :: rest, t => tally s steps (items ++ rest) t
  | steps + 1, .obj e :: rest, t =>
    match Entries.get? e "$ref" with
    | none => tally s steps (searched e ++ rest) t
    | some (.str ref) =>
      let met := Entries.put t ref (t.of ref + 1)
      if 0 < t.of ref then tally s steps rest met
      else do
        match ← s.target? (.str ref) with
        | some target => tally s steps (target :: searched e ++ rest) met
        | none =>
          if isWebAddress ref then tally s steps (searched e ++ rest) met
          else .error .looseReference
    | some _ => tally s steps rest t
  | steps + 1, _ :: rest, t => tally s steps rest t

/-- The number of values in a schema and all definitions: none of them is searched twice. -/
def Sheet.stepsFor (s : Sheet) (schema : Entries Json) : Nat :=
  (s.definitions.map fun d => d.2.count).foldl (· + ·) (Json.obj schema).count

/-- A schema that is nothing but the only reference to a definition becomes that definition. -/
def unfold (s : Sheet) : (steps : Nat) → Tally → Entries Json → Except Obstacle (Entries Json)
  | 0, _, e => .ok e
  | steps + 1, t, e =>
    match Entries.get? e "$ref" with
    | none | some .null => .ok e
    | some ref => do
      match ref, ← s.target? ref with
      | .str name, some target =>
        if t.of name = 1 && e.length = 1 then
          unfold s steps (Entries.put t name 0) target.entries
        else return e
      | _, _ => return e

/-! ## Definitions in use -/

mutual
/-- All references in data, examples apart. -/
def references : Json → List String
  | .obj e => referencesOfEntries e
  | .arr items => referencesOfList items
  | _ => []

def referencesOfList : List Json → List String
  | [] => []
  | j :: rest => references j ++ referencesOfList rest

def referencesOfEntries : List (String × Json) → List String
  | [] => []
  | (key, value) :: rest =>
    (match value with
      | .str ref => if key = "$ref" then [ref] else []
      | .arr items => if key = "examples" then [] else referencesOfList items
      | value => references value) ++ referencesOfEntries rest
end

/-- The labels of the definitions that pending references lead to, directly or through others. -/
def leads (s : Sheet) : (steps : Nat) → List String → List String → Except Obstacle (List String)
  | 0, _, found => .ok found
  | _, [], found => .ok found
  | steps + 1, ref :: rest, found =>
    match (definitionName? ref).bind fun label =>
        (Entries.get? s.definitions label).map fun d => (label, d) with
    | some (label, d) =>
      if found.contains label then leads s steps rest found
      else leads s steps (references d ++ rest) (found ++ [label])
    | none => if isWebAddress ref then leads s steps rest found else .error .looseReference

/-- The definitions that a schema needs. -/
def Sheet.inUse (s : Sheet) (schema : Entries Json) : Except Obstacle (Entries Json) := do
  let found ← leads s (s.stepsFor schema) (references (.obj schema)) []
  return s.definitions.filter fun d => found.contains d.1

/-! ## Names -/

/-- Names for labels. -/
abbrev Renaming := Entries String

namespace Renaming

/-- The name for a label; any other text stays as it is. -/
def apply (n : Renaming) (label : String) : String := (Entries.get? n label).getD label

/-- A text, in which a reference to a label becomes one to its name. -/
def text (n : Renaming) (s : String) : String :=
  match (definitionName? s).bind (Entries.get? n) with
  | some name => definitionRef name
  | none => s

mutual
/-- Data with names for labels. -/
def data (n : Renaming) : Json → Json
  | .str s => .str (n.text s)
  | .arr items => .arr (dataOfList n items)
  | .obj e => .obj (dataOfEntries n e)
  | j => j

def dataOfList (n : Renaming) : List Json → List Json
  | [] => []
  | j :: rest => data n j :: dataOfList n rest

def dataOfEntries (n : Renaming) : List (String × Json) → List (String × Json)
  | [] => []
  | (key, j) :: rest => (key, data n j) :: dataOfEntries n rest
end

def definitions (n : Renaming) (ds : Entries Json) : Entries Json :=
  Entries.ofList (ds.map fun (label, d) => (n.apply label, n.data d))

/-- The definitions that may go by a name. -/
def claims (names : Entries (List String)) (ds : Entries Json) (name : String) : List Json :=
  Json.distinct ((ds.filter fun d =>
    ((Entries.get? names d.1).getD []).contains name).map Prod.snd)

/-- For each definition the first of its names that only one definition may go by. -/
def choose (names : Entries (List String)) (ds : Entries Json) : Renaming :=
  ds.map fun (label, _) =>
    (label, (((Entries.get? names label).getD []).find? fun name =>
      (claims names ds name).length = 1).getD label)

/-- Chooses names again and again, because definitions that refer to others may become equal once
these have names; `before` are the definitions under the names chosen last. -/
def refine (names : Entries (List String)) :
    (steps : Nat) → (ds before : Entries Json) → Renaming
  | 0, ds, _ => choose names ds
  | steps + 1, ds, before =>
    let n := choose names ds
    let after := n.definitions ds
    if (Json.obj after).equal (.obj before) then n
    else refine names steps (Entries.mapValues n.data ds) after

/-- The simplest names for definitions. -/
def simplest (names : Entries (List String)) (ds : Entries Json) : Renaming :=
  refine names 100 ds ds

end Renaming

/-! ## Hand-written references -/

mutual
/-- Whether some reference in data is a list or an object. -/
def hasUnhashable : Json → Bool
  | .obj e => hasUnhashableEntry e
  | .arr items => hasUnhashableItem items
  | _ => false

def hasUnhashableItem : List Json → Bool
  | [] => false
  | j :: rest => hasUnhashable j || hasUnhashableItem rest

def hasUnhashableEntry : List (String × Json) → Bool
  | [] => false
  | (key, j) :: rest =>
    (match j with
      | .arr items => key = "$ref" || hasUnhashableItem items
      | .obj e => key = "$ref" || hasUnhashableEntry e
      | _ => false) || hasUnhashableEntry rest
end

/-! ## Whole schemas -/

/-- The schema that was written on a sheet, with the definitions that it needs under their names. -/
def Sheet.finish (s : Sheet) (schema : Entries Json) : Except Obstacle (Entries Json) := do
  let t ← tally s (s.stepsFor schema) [.obj schema] []
  let body ← unfold s (s.definitions.length + 1) t schema
  let inUse ← s.inUse body
  if hasUnhashable (.obj body) || inUse.any fun d => hasUnhashable d.2 then .error .unhashable
  let n := Renaming.simplest s.names inUse
  let named := n.dataOfEntries body
  let whole := if inUse.isEmpty then named
    else Entries.put named "$defs" (.obj (n.definitions inUse))
  return (Json.obj whole).sorted.entries

def Layout.schema (c : Catalog) (side : Side) (l : Layout) : Except Obstacle (Entries Json) :=
  let (outcome, s) := (l.write c side).run {}
  outcome.bind s.finish

/-- Why a type has no fragment. -/
inductive Hindrance where
  | stop (s : Stop)
  | obstacle (o : Obstacle)
  deriving DecidableEq

/-- The schema of a type with its definitions. -/
def Catalog.fragment (c : Catalog) (side : Side) (type : TypeExpr) :
    Except Hindrance (Entries Json) := do
  let l ← (c.layOut type).mapError .stop
  ((l.schema (c.heed type) side)).mapError .obstacle

end Procedoc
