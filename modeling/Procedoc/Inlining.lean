import Procedoc.Pairs
import Procedoc.Sheet
import Procedoc.Trace

/-! # Inlining

A schema may bring definitions along and refer to them.  Inlining puts each definition in the place
of the references to it, with the entries that stand beside a reference over those of the
definition, so that the schema stands on its own.

* `expand` carries the definitions that are open around the place it works at.  A reference to one
  of them, or to a name without definition, is cut: what stands beside it is all that remains.
* `Mishap` lists what can go wrong on the way, and `settle` tells what becomes of it: a cut is
  reported, a definition that is no object ends the work.
* `inlined` is the whole schema without its definitions.
-/

namespace Procedoc
set_option autoImplicit false

/-- What can go wrong at a reference. -/
inductive Mishap where
  /-- The reference cannot be followed. -/
  | cut (ref : String)
  /-- Its definition is no object, so that nothing can be written over it. -/
  | unmergeable
  deriving DecidableEq

/-- What a value becomes, and what went wrong in it, in order. -/
structure Expansion (α : Type) where
  value : α
  mishaps : List Mishap

/-- The definitions that are not open. -/
def closed (definitions : Entries Json) (stack : List String) : Entries Json :=
  definitions.filter fun d => !stack.contains d.1

theorem length_closed_lt {definitions : Entries Json} {stack : List String} {name : String}
    {target : Json} (hs : stack.contains name = false)
    (hd : Entries.get? definitions name = some target) :
    (closed definitions (name :: stack)).length < (closed definitions stack).length := by
  have heq : closed definitions (name :: stack) =
      (closed definitions stack).filter fun d => d.1 != name := by
    simp only [closed, List.filter_filter]
    congr 1
    funext d
    by_cases h : d.1 = name <;> simp [h]
  rw [heq]
  apply Nat.lt_of_le_of_ne (List.length_filter_le _ _)
  intro e
  have hall := List.length_filter_eq_length_iff.mp e
  have hm : (name, target) ∈ closed definitions stack := by
    simp only [closed, List.mem_filter]
    exact ⟨Entries.mem_of_get? hd, by simpa using hs⟩
  simpa using hall _ hm

/-- The reference that an object is, with the name of the definition it asks for. -/
def referenceOf? (e : Entries Json) : Option (String × String) :=
  match Entries.get? e "$ref" with
  | some (.str ref) => (definitionName? ref).map fun name => (ref, name)
  | _ => none

mutual
/-- The value with definitions in the place of references, `stack` being open around it. -/
def expand (definitions : Entries Json) (stack : List String) (j : Json) : Expansion Json :=
  match j with
  | .obj e =>
    let inside := expandEntries definitions stack e
    match referenceOf? e with
    | none => ⟨.obj inside.value, inside.mishaps⟩
    | some (ref, name) =>
      let siblings := Json.obj (Entries.without inside.value "$ref")
      if hs : stack.contains name then ⟨siblings, inside.mishaps ++ [.cut ref]⟩
      else
        match hd : Entries.get? definitions name with
        | none => ⟨siblings, inside.mishaps ++ [.cut ref]⟩
        | some target =>
          have := length_closed_lt (Bool.eq_false_iff.mpr hs) hd
          let x := expand definitions (name :: stack) target
          ⟨x.value.override siblings,
            inside.mishaps ++ x.mishaps ++ if x.value.isObject then [] else [.unmergeable]⟩
  | .arr items =>
    let inside := expandList definitions stack items
    ⟨.arr inside.value, inside.mishaps⟩
  | j => ⟨j, []⟩
termination_by ((closed definitions stack).length, sizeOf j)

def expandList (definitions : Entries Json) (stack : List String) (items : List Json) :
    Expansion (List Json) :=
  match items with
  | [] => ⟨[], []⟩
  | j :: rest =>
    let x := expand definitions stack j
    let xs := expandList definitions stack rest
    ⟨x.value :: xs.value, x.mishaps ++ xs.mishaps⟩
termination_by ((closed definitions stack).length, sizeOf items)

def expandEntries (definitions : Entries Json) (stack : List String)
    (entries : List (String × Json)) : Expansion (List (String × Json)) :=
  match entries with
  | [] => ⟨[], []⟩
  | (key, j) :: rest =>
    let x := expand definitions stack j
    let xs := expandEntries definitions stack rest
    ⟨(key, x.value) :: xs.value, x.mishaps ++ xs.mishaps⟩
termination_by ((closed definitions stack).length, sizeOf entries)
end

@[simp] theorem expand_arr (definitions : Entries Json) (stack : List String)
    (items : List Json) : expand definitions stack (.arr items) =
      ⟨.arr (expandList definitions stack items).value,
        (expandList definitions stack items).mishaps⟩ := by rw [expand]

theorem expand_scalar (definitions : Entries Json) (stack : List String) {j : Json}
    (ha : ∀ items, j ≠ .arr items) (ho : ∀ e, j ≠ .obj e) :
    expand definitions stack j = ⟨j, []⟩ := by
  rw [expand]
  · exact ho
  · exact ha

theorem value_expandList (definitions : Entries Json) (stack : List String) (items : List Json) :
    (expandList definitions stack items).value =
      items.map fun j => (expand definitions stack j).value := by
  induction items with
  | nil => rw [expandList, List.map_nil]
  | cons j rest ih => rw [expandList, List.map_cons, ← ih]

theorem mishaps_expandList (definitions : Entries Json) (stack : List String)
    (items : List Json) : (expandList definitions stack items).mishaps =
      items.flatMap fun j => (expand definitions stack j).mishaps := by
  induction items with
  | nil => rw [expandList, List.flatMap_nil]
  | cons j rest ih => rw [expandList, List.flatMap_cons, ← ih]

theorem value_expandEntries (definitions : Entries Json) (stack : List String)
    (e : List (String × Json)) : (expandEntries definitions stack e).value =
      Entries.mapValues (fun j => (expand definitions stack j).value) e := by
  induction e with
  | nil => rw [expandEntries]; rfl
  | cons p rest ih => rw [expandEntries, ih]; rfl

theorem mishaps_expandEntries (definitions : Entries Json) (stack : List String)
    (e : List (String × Json)) : (expandEntries definitions stack e).mishaps =
      e.flatMap fun p => (expand definitions stack p.2).mishaps := by
  induction e with
  | nil => rw [expandEntries, List.flatMap_nil]
  | cons p rest ih => rw [expandEntries, List.flatMap_cons, ← ih]

/-! An object is expanded in one of three ways. -/

section Objects
variable {definitions : Entries Json} {stack : List String} {e : List (String × Json)}
  {ref name : String}

theorem expand_plain (hr : referenceOf? e = none) : expand definitions stack (.obj e) =
    ⟨.obj (expandEntries definitions stack e).value,
      (expandEntries definitions stack e).mishaps⟩ := by
  rw [expand]
  simp only [hr]

/-- A reference to a name that is open or has no definition. -/
theorem expand_cut (hr : referenceOf? e = some (ref, name))
    (h : name ∈ stack ∨ Entries.get? definitions name = none) :
    expand definitions stack (.obj e) =
      ⟨.obj (Entries.without (expandEntries definitions stack e).value "$ref"),
        (expandEntries definitions stack e).mishaps ++ [.cut ref]⟩ := by
  rw [expand]
  simp only [hr]
  split
  · rfl
  · rename_i hs
    split
    · rfl
    · rename_i target hd
      simp [hd] at h hs
      exact absurd h hs

/-- A reference that is followed. -/
theorem expand_followed (hr : referenceOf? e = some (ref, name)) (hs : name ∉ stack)
    {target : Json} (hd : Entries.get? definitions name = some target) :
    expand definitions stack (.obj e) =
      ⟨(expand definitions (name :: stack) target).value.override
          (.obj (Entries.without (expandEntries definitions stack e).value "$ref")),
        (expandEntries definitions stack e).mishaps
          ++ (expand definitions (name :: stack) target).mishaps
          ++ if (expand definitions (name :: stack) target).value.isObject then []
            else [.unmergeable]⟩ := by
  rw [expand]
  simp only [hr]
  split
  · rename_i h
    exact absurd (List.contains_iff_mem.mp h) hs
  · split
    · rename_i hn
      rw [hd] at hn
      cases hn
    · rename_i target' hd'
      rw [hd] at hd'
      cases hd'
      rfl

end Objects

/-- To prove something of all values and all stacks it is enough to go the way that the expansion
goes: into parts, and into the definitions of references that are followed. -/
theorem expand_induction (definitions : Entries Json) {motive : List String → Json → Prop}
    (scalar : ∀ stack j, (∀ items, j ≠ .arr items) → (∀ e, j ≠ .obj e) → motive stack j)
    (arr : ∀ stack items, (∀ x ∈ items, motive stack x) → motive stack (.arr items))
    (plain : ∀ stack e, referenceOf? e = none → (∀ p ∈ e, motive stack p.2) →
      motive stack (.obj e))
    (cut : ∀ stack e ref name, referenceOf? e = some (ref, name) →
      (name ∈ stack ∨ Entries.get? definitions name = none) → (∀ p ∈ e, motive stack p.2) →
      motive stack (.obj e))
    (followed : ∀ stack e ref name target, referenceOf? e = some (ref, name) → name ∉ stack →
      Entries.get? definitions name = some target → (∀ p ∈ e, motive stack p.2) →
      motive (name :: stack) target → motive stack (.obj e))
    (stack : List String) (j : Json) : motive stack j := by
  match j with
  | .arr items =>
    refine arr stack items fun x hx => ?_
    have := List.sizeOf_lt_of_mem hx
    exact expand_induction definitions scalar arr plain cut followed stack x
  | .obj e =>
    have inside : ∀ p ∈ e, motive stack p.2 := fun p hp => by
      have h₁ := List.sizeOf_lt_of_mem hp
      have h₂ : sizeOf p.2 < sizeOf p := by
        cases p
        simp only [Prod.mk.sizeOf_spec]
        omega
      exact expand_induction definitions scalar arr plain cut followed stack p.2
    cases hr : referenceOf? e with
    | none => exact plain stack e hr inside
    | some p =>
      obtain ⟨ref, name⟩ := p
      by_cases hs : name ∈ stack
      · exact cut stack e ref name hr (.inl hs) inside
      · cases hd : Entries.get? definitions name with
        | none => exact cut stack e ref name hr (.inr hd) inside
        | some target =>
          have hf : stack.contains name = false :=
            Bool.eq_false_iff.mpr fun h => hs (List.contains_iff_mem.mp h)
          have := length_closed_lt hf hd
          exact followed stack e ref name target hr hs hd inside
            (expand_induction definitions scalar arr plain cut followed (name :: stack) target)
  | .null | .bool _ | .int _ | .decimal _ | .unbounded _ | .str _ =>
    exact scalar stack _ nofun nofun
termination_by ((closed definitions stack).length, sizeOf j)
decreasing_by
  · exact .right _ (by simp; omega)
  · exact .right _ (by simp; omega)
  · exact .left _ _ this

/-! ## Definitions -/

/-- The fault that definitions are which are no collection of pairs. -/
def PairRefusal.fault : PairRefusal → Fault
  | uneven => .unevenDefinitions
  | unreadable => .unreadableDefinitions

/-- The definitions that a schema brings along: an object, or pairs in a list. -/
def readDefinitions : Option Json → Except Fault (Entries Json)
  | none => .ok []
  | some j => j.pairedEntries.mapError PairRefusal.fault

@[simp] theorem readDefinitions_none : readDefinitions none = .ok [] := rfl

@[simp] theorem readDefinitions_obj (e : List (String × Json)) :
    readDefinitions (some (.obj e)) = .ok e := rfl

/-! ## The whole schema -/

/-- What becomes of mishaps: cuts are reported up to the first definition that is no object. -/
def settle : List Mishap → Traced Unit
  | [] => pure ()
  | .cut ref :: rest => do
    Traced.report (.referenceCut ref)
    settle rest
  | .unmergeable :: _ => Traced.fail .unmergeableDefinition

/-- The schema with its definitions in the place of references to them. -/
def inlined (schema : Entries Json) : Traced Json := do
  let definitions ← readDefinitions (Entries.get? schema "$defs")
  let x := expand definitions [] (.obj (Entries.without schema "$defs"))
  settle x.mishaps
  return x.value

end Procedoc
