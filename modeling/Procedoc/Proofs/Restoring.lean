import Mathlib.Data.List.Perm.Basic
import Procedoc.Schema.Introspection
import Procedoc.Schema.Restoring

/-! # From types to schemas and back

The schema that is read from a type stands for that type, its checks after all other marks
(`TypeExpr.checksLast`): the checks are kept by a wrapper, the other marks by the leaf in it.  The
object of a declared model has no place for marks, so that it stands for the bare model.
`restoring_keeps_marks` says that marks of declared models other than checks are all that is lost.
-/

namespace Procedoc
set_option autoImplicit false

/-! ## Marks -/

/-- The marks in order, the checks after all others. -/
def Mark.checksLast (marks : List Mark) : List Mark :=
  marks.filter (!·.isCheck) ++ marks.filter isCheck

theorem Mark.perm_checksLast (marks : List Mark) : (checksLast marks).Perm marks :=
  List.perm_append_comm.trans (List.filter_append_perm isCheck marks)

theorem Mark.split_eq (marks : List Mark) :
    split marks = (marks.filter isCheck, marks.filter (!·.isCheck)) :=
  List.partition_eq_filter_filter ..

theorem Mark.filter_isCheck_eq_checksLast_iff (marks : List Mark) :
    marks.filter isCheck = checksLast marks ↔ ∀ m ∈ marks, m.isCheck := by
  rw [checksLast, List.self_eq_append_left, List.filter_eq_nil_iff]
  simp

namespace TypeExpr

theorem withMarks_nil (a : TypeExpr) : a.withMarks [] = a := by
  cases a with
  | marked base marks => rw [withMarks, List.append_nil]
  | _ => rfl

theorem unmarked_withMarks (a : TypeExpr) (marks : List Mark) :
    (a.withMarks marks).unmarked = (a.unmarked.1, a.unmarked.2 ++ marks) := by
  cases a with
  | marked base before => rfl
  | _ => cases marks <;> rfl

theorem withMarks_withMarks (a : TypeExpr) (marks more : List Mark) :
    (a.withMarks marks).withMarks more = a.withMarks (marks ++ more) := by
  cases a with
  | marked base before => simp only [withMarks, List.append_assoc]
  | _ => cases marks <;> rfl

theorem withMarks_inj {a : TypeExpr} {marks more : List Mark} :
    a.withMarks marks = a.withMarks more ↔ marks = more := by
  refine ⟨fun h => ?_, fun h => by rw [h]⟩
  have hmarks := congrArg (fun b => b.unmarked.2) h
  simpa only [unmarked_withMarks, List.append_cancel_left_eq] using hmarks

/-- The type with its checks after all other marks. -/
def checksLast (a : TypeExpr) : TypeExpr := a.unmarked.1.withMarks (Mark.checksLast a.unmarked.2)

/-- The type without any marks but checks. -/
def onlyChecked (a : TypeExpr) : TypeExpr :=
  a.unmarked.1.withMarks (a.unmarked.2.filter Mark.isCheck)

theorem onlyChecked_eq_checksLast_iff (a : TypeExpr) :
    a.onlyChecked = a.checksLast ↔ ∀ m ∈ a.unmarked.2, m.isCheck :=
  withMarks_inj.trans (Mark.filter_isCheck_eq_checksLast_iff _)

def IsDeclared (c : Catalog) (a : TypeExpr) : Prop :=
  ∃ name r, a = .model name ∧ c.model? name = some r

end TypeExpr

namespace Schema

/-! ## Schemas that are read from types -/

theorem type_checked (s : Schema) (checks : List Mark) :
    (s.checked checks).type = s.type.map (·.withMarks checks) := by
  rw [checked, wrap, type]
  rfl

theorem exists_object_of_objectOf {c : Catalog} {name : String} {s : Schema}
    (h : objectOf c [] name = some s) :
    ∃ head fields, s = object head fields none ∧ s.type = .ok (.model name) := by
  cases hopen : c.open? [] name with
  | none => rw [objectOf_of_seen hopen] at h; cases h
  | some r =>
    have hmodel : c.model? name = some r := hopen
    have hname : r.name = name := by simpa using List.find?_some hmodel
    rw [objectOf_of_open? hopen, Option.some.injEq] at h
    subst h
    exact ⟨_, _, rfl, by rw [ofRecord, ofFields, type, hname]⟩

theorem type_ofBase {c : Catalog} {a : TypeExpr} (h : ¬ a.IsDeclared c) (marks : List Mark) :
    (ofBase (objectOf c []) a marks none).type = .ok (a.withMarks marks) := by
  cases a with
  | model name =>
    have hmodel : c.model? name = none :=
      Option.eq_none_iff_forall_ne_some.mpr fun r hr => h ⟨name, r, rfl, hr⟩
    have hobject : objectOf c [] name = none := objectOf_of_seen hmodel
    simp only [ofBase, hobject, type, leafType, Option.getD_some, TypeExpr.described]
  | plain p => cases p <;> rfl
  | _ => rfl

/-- A declared model is read without the marks around it. -/
theorem type_ofBase_of_isDeclared {c : Catalog} {a : TypeExpr} (h : a.IsDeclared c)
    (marks : List Mark) : (ofBase (objectOf c []) a marks none).type = .ok a := by
  obtain ⟨name, r, rfl, hr⟩ := h
  have hopen : c.open? [] name = some r := hr
  obtain ⟨head, fields, hs, htype⟩ := exists_object_of_objectOf (objectOf_of_open? hopen)
  simp only [ofBase, objectOf_of_open? hopen, hs]
  rw [← hs, htype]

/-- The type of what is read from a type: that of its base, with the checks put back. -/
theorem type_ofType (c : Catalog) (a : TypeExpr) :
    (ofType c a).type =
      (ofBase (objectOf c []) a.unmarked.1 (a.unmarked.2.filter (!·.isCheck)) none).type.map
        (·.withMarks (a.unmarked.2.filter Mark.isCheck)) := by
  simp only [ofType, ofMarked, Mark.split_eq, List.nil_append]
  split
  -- without checks there is no wrapper, and nothing to put back
  · rename_i hnone
    rw [List.isEmpty_iff.mp hnone]
    simp only [TypeExpr.withMarks_nil]
    exact (congrFun Except.map_id _).symm
  · exact type_checked ..

theorem type_ofType_of_not_isDeclared {c : Catalog} {a : TypeExpr}
    (h : ¬ a.unmarked.1.IsDeclared c) : (ofType c a).type = .ok a.checksLast := by
  rw [type_ofType, type_ofBase h]
  exact congrArg Except.ok (TypeExpr.withMarks_withMarks ..)

theorem type_ofType_of_isDeclared {c : Catalog} {a : TypeExpr}
    (h : a.unmarked.1.IsDeclared c) : (ofType c a).type = .ok a.onlyChecked := by
  rw [type_ofType, type_ofBase_of_isDeclared h]
  rfl

theorem ofModel_eq_ofType (c : Catalog) (name : String) :
    ofModel c name = ofType c (.model name) := by
  have hbase : ofType c (.model name) = ofBase (objectOf c []) (.model name) [] none := rfl
  rw [hbase, ofModel, ofBase]
  cases hobject : objectOf c [] name with
  | none => rfl
  | some s =>
    obtain ⟨head, fields, rfl, -⟩ := exists_object_of_objectOf hobject
    rfl

theorem ofSource_of_work {c : Catalog} {role : String} {a : TypeExpr}
    (hmodel : ∀ name, a ≠ .model name) (h : (c.work a).1.toOption.isSome) :
    ofSource c role (.type a) = .ok (ofType c a) := by
  obtain ⟨layout, hlayout⟩ : ∃ layout, (c.work a).1 = .ok layout := by
    cases hwork : (c.work a).1 with
    | ok layout => exact ⟨layout, rfl⟩
    | error stop => rw [hwork] at h; cases h
  cases a with
  | model name => exact absurd rfl (hmodel name)
  | _ => rw [ofSource, hlayout]; nofun

theorem eq_ofType_of_ofSource {c : Catalog} {role : String} {a : TypeExpr} {s : Schema}
    (h : ofSource c role (.type a) = .ok s) : s = ofType c a := by
  unfold ofSource at h
  split at h
  · rename_i heq; cases heq
  · rename_i name heq
    cases heq
    rw [← ofModel_eq_ofType]
    exact (Except.ok.inj h).symm
  · rename_i b _ heq
    cases heq
    split at h
    · exact (Except.ok.inj h).symm
    all_goals cases h
  · rename_i heq; cases heq

end Schema

/-- What a schema stands for that was read from a type.  It is the type with the very marks around
it, first the bounds and facts in order and then the checks in order, be it a text, a container, a
union or anything else, but for declared models: these keep checks only, so that nothing is lost
there exactly if all of the marks are checks. -/
theorem restoring_keeps_marks {c : Catalog} {role : String} {a : TypeExpr} {s : Schema}
    (h : Schema.ofSource c role (.type a) = .ok s) :
    (Mark.checksLast a.unmarked.2).Perm a.unmarked.2 ∧
      (¬ a.unmarked.1.IsDeclared c → s.type = .ok a.checksLast) ∧
      (a.unmarked.1.IsDeclared c → s.type = .ok a.onlyChecked) ∧
      (s.type = .ok a.checksLast ↔
        (a.unmarked.1.IsDeclared c → ∀ m ∈ a.unmarked.2, m.isCheck)) := by
  have hs : s = Schema.ofType c a := Schema.eq_ofType_of_ofSource h
  subst hs
  refine ⟨Mark.perm_checksLast _, Schema.type_ofType_of_not_isDeclared,
    Schema.type_ofType_of_isDeclared, ?_⟩
  by_cases hd : a.unmarked.1.IsDeclared c
  · rw [Schema.type_ofType_of_isDeclared hd, Except.ok.injEq,
      TypeExpr.onlyChecked_eq_checksLast_iff]
    exact ⟨fun hall _ => hall, fun hall => hall hd⟩
  · exact ⟨fun _ hdeclared => absurd hdeclared hd,
      fun _ => Schema.type_ofType_of_not_isDeclared hd⟩

/-- A list of texts with a check between a bound and a description. -/
def checkedNames : TypeExpr :=
  .marked (.container .list .str) [.bound ⟨.minLength, .int 1⟩, .check .after,
    .field { description := some "names" } []]

/-- The check of a list of texts goes to the end. -/
theorem restoring_keeps_marks_checkedNames :
    ∃ s, Schema.ofSource {} "output" (.type checkedNames) = .ok s ∧
      (Mark.checksLast checkedNames.unmarked.2).Perm checkedNames.unmarked.2 ∧
      (¬ checkedNames.unmarked.1.IsDeclared {} → s.type = .ok checkedNames.checksLast) ∧
      (checkedNames.unmarked.1.IsDeclared {} → s.type = .ok checkedNames.onlyChecked) ∧
      (s.type = .ok checkedNames.checksLast ↔
        (checkedNames.unmarked.1.IsDeclared {} → ∀ m ∈ checkedNames.unmarked.2, m.isCheck)) := by
  have h : Schema.ofSource {} "output" (.type checkedNames) = .ok (Schema.ofType {} checkedNames) :=
    Schema.ofSource_of_work nofun (by decide +kernel)
  exact ⟨_, h, restoring_keeps_marks h⟩

def soleCatalog : Catalog :=
  (Catalog.declare [{ name := "M", fields := [{ name := "a", type := .str }] }] []).toOption.getD {}

/-- A declared model with a description around it. -/
def describedModel : TypeExpr := .marked (.model "M") [.field { description := some "d" } []]

theorem isDeclared_describedModel : describedModel.unmarked.1.IsDeclared soleCatalog := by
  have hsome : (soleCatalog.model? "M").isSome := by decide +kernel
  obtain ⟨r, hr⟩ := Option.isSome_iff_exists.mp hsome
  exact ⟨"M", r, rfl, hr⟩

/-- A description around a declared model is lost. -/
theorem restoring_loses_description :
    ∃ s, Schema.ofSource soleCatalog "output" (.type describedModel) = .ok s ∧
      s.type = .ok (.model "M") ∧ s.type ≠ .ok describedModel.checksLast := by
  have htype := Schema.type_ofType_of_isDeclared isDeclared_describedModel
  refine ⟨_, Schema.ofSource_of_work nofun (by decide +kernel), htype, ?_⟩
  rw [htype]
  intro h
  have hall := (TypeExpr.onlyChecked_eq_checksLast_iff _).mp (Except.ok.inj h)
  cases hall _ (List.mem_singleton_self _)

end Procedoc
