import Procedoc.Proofs.Rendering.Alone
import Procedoc.Proofs.Shaping.Declaring

/-! # Types that refer to nothing

A type without models and enumerations has a layout that is its outline
(`Catalog.layOut_eq_outline`), and its schema is the sketch of this outline, its keys in order
(`Catalog.fragment_flat`). -/
namespace Procedoc
set_option autoImplicit false
open ExceptT (result_bind result_pure result_throw result_tryCatch)

/-! ## Writing that gives the same on every sheet -/

namespace Writing
variable {α β : Type}

/-- Whether a computation gives a result and leaves the sheet alone, whatever is on the sheet. -/
def Draws (x : Writing α) (o : Except Obstacle α) : Prop := ∀ s : Sheet, x.result s = (o, s)

theorem draws_pure (a : α) : Draws (pure a) (.ok a) := fun _ => rfl

theorem Still.draws {x : Writing α} (h : Still x) : Draws x x.outcome := h

theorem Draws.bind {x : Writing α} {o : Except Obstacle α} {f : α → Writing β}
    {g : α → Except Obstacle β} (hx : Draws x o) (hf : ∀ a, Draws (f a) (g a)) :
    Draws (x >>= f) (o >>= g) := by
  intro s
  rw [result_bind, hx s]
  cases o with
  | error e => rfl
  | ok a => exact hf a s

theorem Draws.attempt {x : Writing (Entries Json)} {o : Except Obstacle (Entries Json)}
    (hx : Draws x o) {f : List (Entries Json) → Writing β} {g : List (Entries Json) → Except Obstacle β}
    (hf : ∀ es, Draws (f es) (g es)) :
    Draws (attempt x >>= fun e => f e.toList) (drawn o >>= g) := by
  intro s
  rw [result_bind, result_attempt, hx s]
  cases o with
  | ok e => exact hf [e] s
  | error o => cases o <;> first | rfl | exact hf [] s

end Writing

open Writing (Draws draws_pure Still)

namespace Shape
variable {c : Catalog} {config : Config} {label : Key → String}

mutual
theorem draws_write (hside : sideIn config .input = .input) : (s : Shape) → s.Agrees .nothing →
    Draws (s.write c .input config) (s.sketch c label config)
  | plain p bounds, _ => by
    rw [write, sketch]
    exact (still_plainEntries config p bounds).draws
  | literal values, _ => by
    rw [write, sketch]
    exact (Writing.still_mapM (still_writtenData c []) values).draws.bind fun js => draws_pure _
  | container _ inner _, h => by
    rw [Agrees] at h
    rw [write, sketch]
    exact (draws_write hside inner h).bind fun e => draws_pure _
  | tuple items _, h => by
    rw [Agrees] at h
    rw [write, sketch]
    exact (draws_writeAll hside items h).bind fun es => draws_pure _
  | dict k v _, h => by
    rw [Agrees] at h
    rw [write, sketch]
    exact (draws_write hside k h.1).bind fun e => (draws_write hside v h.2).bind fun e' =>
      draws_pure _
  | union members, h => by
    rw [Agrees] at h
    rw [write, sketch]
    exact (draws_writeSome hside members h).bind fun es => draws_pure _
  | nullable inner, h | noted inner _, h => by
    rw [Agrees] at h
    rw [write, sketch]
    exact (draws_write hside inner h).bind fun e => draws_pure _
  | guarded inner, h => by
    rw [Agrees] at h
    rw [write, sketch]
    exact draws_write hside inner h
  | replaced inner bare, _ => by
    rw [write, sketch, hside]
    exact draws_pure _
  | concealed, _ => by
    rw [write, sketch, hside]
    exact draws_pure _
  | chained inner pattern, h => by
    rw [Agrees] at h
    rw [write, sketch, hside]
    exact draws_write hside inner h
  | defaulted inner fallback, h => by
    rw [Agrees] at h
    rw [write, sketch]
    exact (draws_write hside inner h).bind fun e => (still_withDefault c config fallback e).draws
  | reference _, h => absurd h (by rw [Agrees]; exact Bool.false_ne_true)
  | shared _, h => absurd h (by rw [Agrees]; exact id)
  | record _ _, h | enumeration _ _, h => absurd h (not_agrees_nothing rfl)

theorem draws_writeAll (hside : sideIn config .input = .input) : (shapes : List Shape) →
    AgreeAll .nothing shapes → Draws (writeAll c .input config shapes) (sketchAll c label config shapes)
  | [], _ => by
    rw [writeAll, sketchAll]
    exact draws_pure _
  | s :: rest, h => by
    rw [writeAll, sketchAll]
    exact (draws_write hside s h.1).bind fun e => (draws_writeAll hside rest h.2).bind fun es =>
      draws_pure _

theorem draws_writeSome (hside : sideIn config .input = .input) : (shapes : List Shape) →
    AgreeAll .nothing shapes →
      Draws (writeSome c .input config shapes) (sketchSome c label config shapes)
  | [], _ => by
    rw [writeSome, sketchSome]
    exact draws_pure _
  | s :: rest, h => by
    rw [writeSome, sketchSome]
    exact Draws.attempt (f := fun es => do return es ++ (← writeSome c .input config rest))
      (g := fun es => do return es ++ (← sketchSome c label config rest))
      (draws_write hside s h.1) fun es => (draws_writeSome hside rest h.2).bind fun es' => draws_pure _
end

/-! ## Layouts without definitions -/

theorem refs_eq_nil {s : Shape} (h : s.Agrees .nothing) : s.refs = [] :=
  List.eq_nil_iff_forall_not_mem.mpr fun _ hk =>
    absurd (isSome_of_mem_refs s h hk) Bool.false_ne_true

theorem mentions_eq_nil (isSaid : Anchor → Bool) {s : Shape} (h : s.Agrees .nothing) :
    s.mentions isSaid = [] :=
  List.map_eq_nil_iff.mp ((keys_mentions isSaid s).trans (refs_eq_nil h))

theorem fill_eq_self {s : Shape} (h : s.Agrees .nothing) {f : Key → Option Shape}
    (hf : ∀ key, f key = none) : s.fill f = s := by
  have hfills : Fills .nothing f := by
    intro key d hd
    rw [hf] at hd
    cases hd
  calc s.fill f = (s.fill f).folded := (folded_eq_self _ (agrees_fill hfills s h)).symm
    _ = s.folded := folded_fill hfills s h
    _ = s := folded_eq_self s h

theorem tidy_eq {s : Shape} (h : s.Agrees .nothing) (isSaid : Anchor → Bool) (ds : Definitions) :
    Layout.tidy isSaid ds s = ⟨s, []⟩ := by
  have hneeded : Layout.needed isSaid ds s = [] := by
    rw [Layout.needed, mentions_eq_nil isSaid h]
    cases Layout.stepsFor isSaid ds s <;> rfl
  rw [Layout.tidy, hneeded]
  exact congrArg (Layout.mk · []) (fill_eq_self h fun _ => rfl)

end Shape

namespace Catalog
variable {c : Catalog} {a : TypeExpr}

/-- The layout of a type that names nothing depends on the type alone: it is its outline, and working
it out leaves nothing behind. -/
theorem layOut_eq_outline (ha : a.Within (fun _ => False) fun _ => False) (c : Catalog) :
    c.layOut a = (Shaping.outline false a >>= fun o =>
        if (Layout.mk o []).isSound then .ok ⟨o, []⟩ else .error .unfit) ∧
      c.heed a = c ∧ ∀ o, Shaping.outline false a = .ok o → o.Agrees .nothing := by
  have hworks : Shaping.Works .nothing (fun _ => False) { remarks := c.remarks } (c.shape a)
      (Shaping.outline false a) (Shaping.Laid .nothing) :=
    Shaping.works_shapeOf id (fun _ h => h.elim) (fun _ h => h.elim) false a ha _
      (Shaping.good_empty c.remarks 0)
  have hmodel : ∀ name, a ≠ .model name := by
    rintro name rfl
    rw [TypeExpr.Within] at ha
    exact ha
  have hlayOut : c.layOut a = (c.work a).1 := by
    rw [layOut]
    exact hmodel
  have hheed : c.heed a = { c with remarks := (c.work a).2.remarks } := by
    rw [heed]
    exact hmodel
  rw [hlayOut, hheed, work_eq]
  obtain ⟨-, hgrows, hok, herror⟩ := hworks
  rcases hr : (c.shape a).result { remarks := c.remarks } with ⟨e | s, w⟩
  · rw [hr] at hgrows herror
    obtain ⟨ho, -⟩ := (herror e rfl).resolve_left id
    rw [ho, show w.remarks = c.remarks from hgrows.remarks]
    exact ⟨rfl, rfl, fun o ho => by cases ho⟩
  · rw [hr] at hgrows hok
    obtain ⟨o, ho, hlaid⟩ := hok s rfl
    obtain rfl : s = o := (Shape.folded_eq_self s hlaid.agrees).symm.trans hlaid.folded
    rw [ho, show w.remarks = c.remarks from hgrows.remarks]
    dsimp only
    rw [Shape.tidy_eq hlaid.agrees]
    exact ⟨rfl, rfl, fun o h => Except.ok.inj h ▸ hlaid.agrees⟩

theorem layOut_flat (ha : a.Within (fun _ => False) fun _ => False) {l : Layout}
    (hl : c.layOut a = .ok l) : ∃ o, Shaping.outline false a = .ok o ∧ o.Agrees .nothing ∧
      l = ⟨o, []⟩ ∧ c.heed a = c := by
  obtain ⟨hlayOut, hheed, hagrees⟩ := layOut_eq_outline ha c
  rw [hlayOut] at hl
  obtain ⟨o, ho, hl⟩ := exists_of_bind_eq_ok hl
  split at hl
  · exact ⟨o, ho, hagrees o ho, (Except.ok.inj hl).symm, hheed⟩
  · cases hl

end Catalog

/-! ## Schemas without definitions -/

theorem Renaming.simplest_nil : Renaming.simplest [] [] = [] := by decide +kernel

theorem Sheet.target?_empty {ref : Json} {target : Option Json}
    (h : Sheet.target? {} ref = .ok target) : target = none := by
  cases ref with
  | str ref =>
    have hnone : (definitionName? ref).filter (Entries.has ({} : Sheet).names) = none :=
      Option.filter_eq_none_iff.mpr fun _ _ => Bool.false_ne_true
    rw [Sheet.target?, hnone] at h
    dsimp only at h
    split at h
    · exact (Except.ok.inj h).symm
    · cases h
  | _ => cases h

theorem unfold_empty {steps : Nat} {t : Tally} {body unfolded : Entries Json}
    (h : unfold {} steps t body = .ok unfolded) : unfolded = body := by
  cases steps with
  | zero => exact (Except.ok.inj h).symm
  | succ steps =>
    rw [unfold] at h
    cases href : Entries.get? body "$ref" with
    | none =>
      rw [href] at h
      exact (Except.ok.inj h).symm
    | some ref =>
      rw [href] at h
      cases ref with
      | null => exact (Except.ok.inj h).symm
      | str name =>
        obtain ⟨target, htarget, h⟩ := exists_of_bind_eq_ok h
        obtain rfl := Sheet.target?_empty htarget
        exact (Except.ok.inj h).symm
      | _ => cases h

/-- A schema that was finished on an empty sheet is what it was, its keys in order. -/
theorem finish_empty {body e : Entries Json} (h : Sheet.finish {} body = .ok e) :
    e = (Json.obj body).sorted.entries := by
  obtain ⟨t, unfolded, inUse, -, hunfolded, hinUse, -, -, rfl⟩ := Sheet.exists_of_finish h
  obtain rfl := unfold_empty hunfolded
  obtain rfl : inUse = [] := by
    obtain ⟨found, -, hfound⟩ := exists_of_bind_eq_ok hinUse
    exact (Except.ok.inj hfound).symm
  have hdata := Renaming.data_nil (.obj unfolded)
  rw [Renaming.data] at hdata
  rw [finished, wholeOf, List.isEmpty_nil, if_pos rfl, Renaming.simplest_nil, hdata]

namespace Catalog
variable {c : Catalog} {a : TypeExpr}

/-- The schema of a type that names nothing is the sketch of its outline, its keys in order. -/
theorem fragment_flat (ha : a.Within (fun _ => False) fun _ => False) {e : Entries Json}
    (he : c.fragment .input a = .ok e) (label : Key → String) :
    ∃ o body, Shaping.outline false a = .ok o ∧ o.Agrees .nothing ∧
      o.sketch c label [] = .ok body ∧ e = (Json.obj body).sorted.entries := by
  rw [fragment] at he
  obtain ⟨l, hl, he⟩ := exists_of_bind_eq_ok he
  have hlayOut : c.layOut a = .ok l := by
    cases hlay : c.layOut a with
    | ok l' =>
      rw [hlay] at hl
      cases hl
      rfl
    | error stop =>
      rw [hlay] at hl
      cases hl
  obtain ⟨o, ho, hagrees, rfl, hheed⟩ := layOut_flat ha hlayOut
  rw [hheed] at he
  have hdraws : Draws (Layout.write c .input ⟨o, []⟩) (o.sketch c label []) :=
    Shape.draws_write rfl o hagrees
  have hschema : Layout.schema c .input ⟨o, []⟩ = .ok e := by
    cases hs : Layout.schema c .input ⟨o, []⟩ with
    | ok e' =>
      rw [hs] at he
      cases he
      rfl
    | error obstacle =>
      rw [hs] at he
      cases he
  have hrun : (Layout.write c .input ⟨o, []⟩).run {} = (o.sketch c label [], {}) := hdraws {}
  rw [Layout.schema, hrun] at hschema
  obtain ⟨body, hbody, hfinish⟩ := exists_of_bind_eq_ok hschema
  exact ⟨o, body, ho, hagrees, hbody, finish_empty hfinish⟩

end Catalog
end Procedoc
