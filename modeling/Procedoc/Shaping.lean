import Procedoc.Catalog
import Procedoc.Soundness

/-! # From types to shapes

`shapeOf` puts the marks of a type into place and gathers the definitions of the models and
enumerations in it on a `Workbench`.  A model whose layout is known brings its definitions along;
any other is worked out on the spot, and inside itself it is a reference.

A model that contains itself has one reference that all its users share.  Facts that are put right
around it stay with it, and so they are kept as remarks, beyond the type that is worked on.

`Catalog.layOut` is the layout of a type, and `Catalog.heed` the catalog with the remarks that
working out the type leaves behind.
-/

namespace Procedoc
set_option autoImplicit false

/-! ## The workbench -/

/-- Why a type has no shape. -/
inductive Stop where
  /-- It names a model that is not declared yet. -/
  | unresolved
  /-- Nothing is known of a type in it. -/
  | unsupported
  /-- Nothing is known of the type of a field of a record that was put together on the spot. -/
  | unsupportedField
  /-- A bound in it has a limit of the wrong sort. -/
  | unfit
  /-- It is made of values, and there is none. -/
  | noValues
  /-- The fields of a record in it have no name under which a value is given. -/
  | nameless
  deriving DecidableEq

def Stop.fault : Stop → Fault
  | unresolved | unsupported | unsupportedField => .unsupportedType
  | unfit => .unfitBound
  | noValues => .noValues
  | nameless => .namelessFields

/-- What is at hand while types are worked on. -/
structure Workbench where
  definitions : Definitions := []
  /-- What was said about models that contain themselves. -/
  remarks : Remarks := []
  /-- How many records were put together. -/
  made : Nat := 0

/-- Work on a type.  What it leaves on the workbench stays there even where it stops. -/
abbrev Shaping (α : Type) := ExceptT Stop (StateM Workbench) α

namespace Shaping

/-- Puts a definition on the workbench; what remains is a reference to it. -/
def define (key : Key) (d : Shape) : Shaping Shape := do
  modify fun w => { w with definitions := w.definitions.put key d }
  return .reference key

/-- The shape with the definitions of its layout put on the workbench. -/
def unpack (l : Layout) : Shaping Shape := do
  modify fun w => { w with
    definitions := l.definitions.foldl (fun ds p => ds.put p.1 p.2) w.definitions }
  match l.top with
  | .record key r => define key (.record key r)
  | s => return s

/-- The shape that comes out, unless nothing is known of a type in it. -/
def attempt (x : Shaping Shape) : Shaping (Option Shape) :=
  tryCatch (do return some (← x)) fun
    | .unsupported => pure none
    | stop => throw stop

/-- Puts notes over a shape; those over a shared reference stay with the model. -/
def annotate (notes : Notes) : Shape → Shaping Shape
  | .shared anchor => do
    modify fun w => { w with remarks := w.remarks.add anchor notes }
    return .shared anchor
  | s => return s.note notes

/-! ## Marks -/

/-- Puts a mark around a shape; there is none where nothing is known of the type so far.  `bare` is
the type without any mark. -/
def mark (bare : Shaping Shape) (s : Option Shape) (m : Mark) : Shaping (Option Shape) := do
  match m, s with
  | .check .instead, none => return some .concealed
  | .check .instead, some s =>
    match ← attempt bare with
    | some b => return some (.replaced s b)
    | none => return some .concealed
  | _, none => return none
  | .check _, some s => return some (.guarded s)
  | .bound b, some s => return some (s.bound (← get).definitions.find? b)
  | .field facts bounds, some s =>
    return some (← annotate facts.notes (s.boundAll (← get).definitions.find? bounds))

def markAll (bare : Shaping Shape) (marks : List Mark) : Shaping Shape := do
  match ← marks.foldlM (mark bare) (← attempt bare) with
  | some s => return s
  | none => throw .unsupported

/-- The shape with the defaults that facts among its marks give. -/
def withDefaults (marks : List Mark) (s : Shape) : Shape :=
  (Field.fallbacksOf marks).foldl (fun s f => if f.isRequired then s else .defaulted s f) s

/-! ## Types -/

def enumeration (c : Catalog) (name : String) : Shaping Shape := do
  let key := Key.enumeration name
  if ((← get).definitions.find? key).isSome then return .reference key
  match c.enumeration? name with
  | some e => define key (.enumeration key e)
  | none => throw .unresolved

/-- The shape of a union, given the shapes of its members: null comes last. -/
def unionOf (members : List (TypeExpr × Shape)) : Shape :=
  let base : Shape := match (members.filter fun m => !m.1.isNone).map Prod.snd with
    | [s] => s
    | shapes => .union shapes
  if members.any fun m => m.1.isNone then .nullable base else base

/-- Works on a record that is put together on the spot, with a workbench of its own. -/
def assemble (name : String) (doc : Option String) (config : Config)
    (fields : Shaping (List (Field Shape))) : Shaping Shape := do
  unless Config.readsNames config do throw .nameless
  let outer ← get
  let key : Key := { owner := .made name outer.made }
  set { outer with definitions := [], made := outer.made + 1 }
  let made ← tryCatch fields fun
    | .unsupported => throw .unsupportedField
    | stop => throw stop
  let top ← define key (.record key { name, doc, config, fields := made })
  let inner ← get
  set { inner with definitions := outer.definitions }
  let layout := Layout.tidy inner.remarks.has inner.definitions top
  if layout.isSound then unpack layout else throw .unfit

mutual
/-- The shape of a type.  `openModel` is the shape of a model, and `sealedAllowed` tells whether
there may be types of which nothing is known. -/
def shapeOf (c : Catalog) (openModel : String → Shaping Shape) (sealedAllowed : Bool) :
    TypeExpr → Shaping Shape
  | .plain p => if p = .sealed && !sealedAllowed then throw .unsupported else return .plain p []
  | .model name => openModel name
  | .enumeration name => enumeration c name
  | .literal values => if values.isEmpty then throw .noValues else return .literal values
  | .container k item => do return .container k (← shapeOf c openModel sealedAllowed item) []
  | .tuple items => do return .tuple (← shapesOf c openModel sealedAllowed items) []
  | .dict k v => do
    let key ← shapeOf c openModel sealedAllowed k
    return .dict key (← shapeOf c openModel sealedAllowed v) []
  | .union _ members => do
    return unionOf (members.zip (← shapesOf c openModel sealedAllowed members))
  | .marked base marks => do
    return withDefaults marks (← markAll (shapeOf c openModel sealedAllowed base) marks)
  | .record ⟨name, doc, config, fields⟩ =>
    assemble name doc config (shapeFields c openModel (Config.allowsSealed config) fields)

def shapesOf (c : Catalog) (openModel : String → Shaping Shape) (sealedAllowed : Bool) :
    List TypeExpr → Shaping (List Shape)
  | [] => return []
  | a :: rest => do
    let s ← shapeOf c openModel sealedAllowed a
    return s :: (← shapesOf c openModel sealedAllowed rest)

def shapeFields (c : Catalog) (openModel : String → Shaping Shape) (sealedAllowed : Bool) :
    List (Field TypeExpr) → Shaping (List (Field Shape))
  | [] => return []
  | ⟨name, type, marks, facts, ruled⟩ :: rest => do
    let s ← markAll (shapeOf c openModel sealedAllowed type) marks
    return ⟨name, s, [], facts, ruled⟩ :: (← shapeFields c openModel sealedAllowed rest)
end

/-- The shape of a model, `seen` being those it is inside of.  No model is opened inside itself, so
that the number of models limits the depth. -/
def modelWithin (c : Catalog) : (depth : Nat) → (seen : List String) → String → Shaping Shape
  | 0, _, name => return .reference (.model name)
  | depth + 1, seen, name => do
    let key := Key.model name
    if seen.contains name || ((← get).definitions.find? key).isSome then return .reference key
    match Entries.get? c.layouts name, c.model? name with
    | some l, _ => unpack l
    | none, some r =>
      unless Config.readsNames r.config do throw .nameless
      let fields ← shapeFields c (modelWithin c depth (name :: seen))
        (Config.allowsSealed r.config) r.fields
      define key (.record key { name := r.name, doc := r.doc, config := r.config, fields })
    | none, none => throw .unresolved

end Shaping

namespace Catalog

/-- The shape of a type, with the definitions for it put on the workbench. -/
def shape (c : Catalog) (type : TypeExpr) : Shaping Shape :=
  Shaping.shapeOf c (Shaping.modelWithin c (c.models.length + 1) []) false type

/-- What working on a type gives, and the workbench after it. -/
def work (c : Catalog) (type : TypeExpr) : Except Stop Layout × Workbench :=
  let (outcome, w) := (c.shape type).run { remarks := c.remarks }
  match outcome with
  | .error stop => (.error stop, w)
  | .ok s =>
    let layout := Layout.tidy w.remarks.has w.definitions s
    (if layout.isSound then .ok layout else .error .unfit, w)

/-- The layout of a type.  That of a model is known beforehand. -/
def layOut (c : Catalog) (type : TypeExpr) : Except Stop Layout :=
  match type with
  | .model name =>
    match Entries.get? c.layouts name with
    | some l => .ok l
    | none => (c.work type).1
  | type => (c.work type).1

/-- The catalog with the remarks that working out a type leaves behind. -/
def heed (c : Catalog) (type : TypeExpr) : Catalog :=
  match type with
  | .model _ => c
  | type => { c with remarks := (c.work type).2.remarks }

end Catalog
end Procedoc
