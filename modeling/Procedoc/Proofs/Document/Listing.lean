import Mathlib.Data.List.Perm.Basic
import Procedoc.Declaration
import Procedoc.Proofs.Document.Gathering
import Procedoc.Proofs.Operation.Placement
import Procedoc.Proofs.Shaping.Quiet

/-! # What a document lists

A document lists one operation for each procedure, under its path and its method: paths in the order
in which they come first, the methods of a path in the order of the procedures.

* `Document.item` is what a document has at a path.  `Document.operationsAt` are the operations of a
  path as the procedures give them, and `Document.item_listing` finds just these in the document.
* `Document.Lists` says which paths and methods a document lists.
* `document_lists_operations` says when there is a document and which operations stand in it.

An operation is documented in the catalog that the procedures before it leave behind.  Where they
leave nothing behind, it is the operation of its procedure alone, and the order of the procedures
is but the order of the document.
-/

namespace Procedoc
set_option autoImplicit false

theorem Method.key_injective {m n : Method} (h : m.key = n.key) : m = n := by
  revert h
  cases m <;> cases n <;> decide

namespace Document

def item (d : Document) (path : String) : PathItem := (Entries.get? d.paths path).getD []

/-- The operation of a document under a path and the key of a method. -/
def operation? (d : Document) (path key : String) : Option Operation :=
  Entries.get? (d.item path) key

/-- The operations of procedures with a path, under the keys of their methods. -/
def operationsAt (done : List (Procedure × Operation)) (path : String) : PathItem :=
  (done.filter fun d => d.1.path = path).map fun d => (d.1.method.key, d.2)

/-! ## Paths and their items -/

theorem listing_append (done : List (Procedure × Operation)) (p : Procedure) (o : Operation) :
    listing (done ++ [(p, o)]) = putOperation (listing done) p o := by
  simp [listing, putAll]

theorem keys_listing (done : List (Procedure × Operation)) :
    Entries.keys (listing done) = (done.map fun d => d.1.path).eraseDups := by
  have hmarks : Entries.keys (listing done) =
      Entries.keys (Entries.ofList (done.map fun d => (d.1.path, ()))) := by
    induction done using List.reverseRecOn with
    | nil => rfl
    | append_singleton done d ih =>
      have hput : Entries.ofList ((done ++ [d]).map fun d => (d.1.path, ())) =
          Entries.put (Entries.ofList (done.map fun d => (d.1.path, ()))) d.1.path () := by
        rw [List.map_append, Entries.ofList, Entries.override_append]
        rfl
      rw [listing_append, putOperation, hput, Entries.keys_put, Entries.keys_put, ih]
  rw [hmarks, Entries.keys_ofList]
  simp [Entries.keys, Function.comp_def]

theorem keys_operationsAt (done : List (Procedure × Operation)) (path : String) :
    Entries.keys (operationsAt done path) =
      ((done.map Prod.fst).filter fun p => p.path = path).map fun p => p.method.key := by
  simp [Entries.keys, operationsAt, List.filter_map, Function.comp_def]

theorem mem_keys_operationsAt {done : List (Procedure × Operation)} {p : Procedure} :
    p.method.key ∈ Entries.keys (operationsAt done p.path) ↔
      p.route ∈ (done.map Prod.fst).map Procedure.route := by
  rw [keys_operationsAt]
  constructor
  · intro h
    obtain ⟨q, hq, hkey⟩ := List.mem_map.mp h
    obtain ⟨hq, hpath⟩ := List.mem_filter.mp hq
    have hroute : q.route = p.route :=
      Prod.ext (Method.key_injective hkey) (of_decide_eq_true hpath)
    exact List.mem_map.mpr ⟨q, hq, hroute⟩
  · intro h
    obtain ⟨q, hq, hroute⟩ := List.mem_map.mp h
    obtain ⟨hmethod, hpath⟩ := Prod.mk.inj hroute
    exact List.mem_map.mpr ⟨q, List.mem_filter.mpr ⟨hq, by simpa using hpath⟩, by rw [hmethod]⟩

/-- A further procedure is on no earlier route where no two procedures share one. -/
theorem route_new {done : List (Procedure × Operation)} {p : Procedure} {o : Operation}
    (h : (((done ++ [(p, o)]).map Prod.fst).map Procedure.route).Nodup) :
    ((done.map Prod.fst).map Procedure.route).Nodup ∧
      p.method.key ∉ Entries.keys (operationsAt done p.path) := by
  simp only [List.map_append, List.map_cons, List.map_nil, List.nodup_append] at h
  refine ⟨h.1, fun hk => h.2.2 _ (mem_keys_operationsAt.mp hk) _ (List.mem_singleton_self _) rfl⟩

theorem get?_listing {done : List (Procedure × Operation)}
    (h : ((done.map Prod.fst).map Procedure.route).Nodup) (path : String) :
    (Entries.get? (listing done) path).getD [] = operationsAt done path := by
  induction done using List.reverseRecOn with
  | nil => rfl
  | append_singleton done d ih =>
    obtain ⟨p, o⟩ := d
    obtain ⟨hdone, hnew⟩ := route_new h
    rw [listing_append, putOperation, Entries.get?_put]
    by_cases hp : p.path = path
    · subst hp
      rw [if_pos rfl, Option.getD_some, ih hdone, Entries.put_of_notMem hnew]
      simp [operationsAt]
    · rw [if_neg hp, ih hdone]
      simp [operationsAt, hp]

theorem item_listing {done : List (Procedure × Operation)}
    (h : ((done.map Prod.fst).map Procedure.route).Nodup) (about : About) (path : String) :
    item ⟨about, listing done⟩ path = operationsAt done path :=
  get?_listing h path

theorem nodup_keys_operationsAt {done : List (Procedure × Operation)}
    (h : ((done.map Prod.fst).map Procedure.route).Nodup) (path : String) :
    (Entries.keys (operationsAt done path)).Nodup := by
  induction done using List.reverseRecOn with
  | nil => exact .nil
  | append_singleton done d ih =>
    obtain ⟨p, o⟩ := d
    obtain ⟨hdone, hnew⟩ := route_new h
    by_cases hp : p.path = path
    · subst hp
      have hput := Entries.nodup_keys_put (ih hdone) p.method.key o
      rw [Entries.put_of_notMem hnew] at hput
      simpa [operationsAt] using hput
    · simpa [operationsAt, hp] using ih hdone

theorem operation?_listing {done : List (Procedure × Operation)}
    (h : ((done.map Prod.fst).map Procedure.route).Nodup) (about : About) {p : Procedure}
    {o : Operation} (hm : (p, o) ∈ done) :
    operation? ⟨about, listing done⟩ p.path p.method.key = some o := by
  rw [operation?, item_listing h]
  refine Entries.get?_of_mem (nodup_keys_operationsAt h p.path) ?_
  exact List.mem_map.mpr ⟨(p, o), List.mem_filter.mpr ⟨hm, by simp⟩, rfl⟩

/-! ## All operations -/

def operationsOf (paths : Entries PathItem) : List Operation :=
  paths.flatMap fun e => e.2.map Prod.snd

def operations (d : Document) : List Operation := operationsOf d.paths

theorem operationsOf_put_append (paths : Entries PathItem) (path key : String) (o : Operation) :
    (operationsOf (Entries.put paths path
      ((Entries.get? paths path).getD [] ++ [(key, o)]))).Perm (o :: operationsOf paths) := by
  induction paths with
  | nil => simp [operationsOf, Entries.put]
  | cons e rest ih =>
    by_cases he : e.1 = path
    · simp only [operationsOf, Entries.put, Entries.get?, he, if_pos, Option.getD_some,
        List.flatMap_cons, List.map_append, List.map_cons, List.map_nil, List.append_assoc,
        List.singleton_append]
      exact List.perm_middle
    · simp only [operationsOf, Entries.put, Entries.get?, he, if_false, List.flatMap_cons] at ih ⊢
      exact (ih.append_left _).trans List.perm_middle

theorem operationsOf_listing {done : List (Procedure × Operation)}
    (h : ((done.map Prod.fst).map Procedure.route).Nodup) :
    (operationsOf (listing done)).Perm (done.map Prod.snd) := by
  induction done using List.reverseRecOn with
  | nil => exact .nil
  | append_singleton done d ih =>
    obtain ⟨p, o⟩ := d
    obtain ⟨hdone, hnew⟩ := route_new h
    have hput := operationsOf_put_append (listing done) p.path p.method.key o
    rw [get?_listing hdone] at hput
    rw [listing_append, putOperation, get?_listing hdone, Entries.put_of_notMem hnew,
      List.map_append]
    exact (hput.trans ((ih hdone).cons o)).trans (List.perm_append_singleton o _).symm

/-! ## Documents and procedures -/

/-- Which paths and methods a document of procedures lists: the paths in the order in which they
come first, at each path the methods of its procedures in order, and nothing else. -/
structure Lists (ps : List Procedure) (d : Document) : Prop where
  paths : Entries.keys d.paths = (ps.map Procedure.path).eraseDups
  methods : ∀ path, Entries.keys (d.item path) =
    (ps.filter fun p => p.path = path).map fun p => p.method.key
  count : d.operations.length = ps.length

/-- Whether two documents differ in the order of their paths and methods only. -/
structure SameButForOrder (d d' : Document) : Prop where
  about : d'.about = d.about
  paths : (Entries.keys d'.paths).Perm (Entries.keys d.paths)
  items : ∀ path, (d'.item path).Perm (d.item path)

variable {c : Catalog} {about : About} {ps : List Procedure} {d : Document}

theorem lists_of_build (h : (build c about ps).outcome = .ok d) : Lists ps d := by
  obtain ⟨done, hd, rfl, rfl⟩ := build_eq_ok h
  refine ⟨?_, fun path => ?_, ?_⟩
  · simpa [Function.comp_def] using keys_listing done
  · rw [item_listing hd.nodup_routes, keys_operationsAt]
  · simpa [operations] using (operationsOf_listing hd.nodup_routes).length_eq

theorem operation?_of_build (h : (build c about ps).outcome = .ok d) {before rest : List Procedure}
    {p : Procedure} (hps : ps = before ++ p :: rest) :
    ∃ o, (p.operation (c.heedAll before)).outcome = .ok o ∧
      d.operation? p.path p.method.key = some o := by
  obtain ⟨done, hd, rfl, rfl⟩ := build_eq_ok h
  obtain ⟨-, o, hm, ho⟩ := hd.split hps
  exact ⟨o, ho, operation?_listing hd.nodup_routes about hm⟩

theorem ids_of_build (h : (build c about ps).outcome = .ok d) :
    (d.operations.map Operation.id).Perm (ps.map Procedure.name) := by
  obtain ⟨done, hd, rfl, rfl⟩ := build_eq_ok h
  have hids : (done.map Prod.snd).map Operation.id = (done.map Prod.fst).map Procedure.name := by
    rw [List.map_map, List.map_map]
    refine List.map_congr_left fun e he => ?_
    obtain ⟨xs, ys, rfl⟩ := List.append_of_mem he
    obtain ⟨-, _ | ⟨-, ho, -⟩⟩ := passes_append.mp hd
    exact (Procedure.operation_eq_ok ho).1
  rw [← hids]
  exact (operationsOf_listing hd.nodup_routes).map _

/-- The last event, and no other, tells that the document is complete. -/
theorem events_of_build (h : (build c about ps).outcome = .ok d) :
    ∃ steps, (∀ e ∈ steps, e.isOnTheWay = true) ∧ (build c about ps).events =
      steps ++ [.documentComplete ps.length (ps.map Procedure.path).eraseDups.length] := by
  have hpaths := congrArg List.length (lists_of_build h).paths
  obtain ⟨done, hd, rfl, rfl⟩ := build_eq_ok h
  refine ⟨steps c (done.map Prod.fst), hd.isOnTheWay_steps, ?_⟩
  rw [Entries.keys, List.length_map] at hpaths
  rw [build_of_passes about hd, List.length_map, hpaths]

/-! ## Procedures that leave nothing behind -/

/-- A procedure with the operation that it has alone, if it has one. -/
def alone (c : Catalog) (p : Procedure) : Option (Procedure × Operation) :=
  (p.operation c).outcome.toOption.map fun o => (p, o)

theorem Passes.eq_filterMap_alone {before : List Procedure} {done : List (Procedure × Operation)}
    (h : Passes c before done) (hquiet : ∀ p ∈ done.map Prod.fst, p.heed c = c) :
    done = (done.map Prod.fst).filterMap (alone c) := by
  induction h with
  | nil => rfl
  | @cons c before p o rest _ ho _ ih =>
    have hp := hquiet p (List.mem_cons_self ..)
    have hrest : ∀ q ∈ rest.map Prod.fst, q.heed c = c := fun q hq =>
      hquiet q (List.mem_cons_of_mem _ hq)
    rw [hp] at ih
    have halone : alone c p = some (p, o) := by simp [alone, ho, Except.toOption]
    rw [List.map_cons, List.filterMap_cons, halone]
    exact congrArg (List.cons _) (ih hrest)

/-- Another order of the procedures gives another order of the document. -/
theorem build_perm (hquiet : ∀ p ∈ ps, p.heed c = c) (h : (build c about ps).outcome = .ok d)
    {qs : List Procedure} (hperm : ps.Perm qs) :
    ∃ d', (build c about qs).outcome = .ok d' ∧ SameButForOrder d d' := by
  have hquiet' : ∀ q ∈ qs, q.heed c = c := fun q hq => hquiet q (hperm.mem_iff.mpr hq)
  have hroutes := (build_isOk_iff.mp ⟨d, h⟩).1
  have hroutes' : (qs.map Procedure.route).Nodup := (hperm.map _).nodup_iff.mp hroutes
  have hqs : ∃ d', (build c about qs).outcome = .ok d' := by
    refine build_isOk_iff.mpr ⟨hroutes', fun before q rest hq => ?_⟩
    have hmem : q ∈ ps := hperm.mem_iff.mpr (by simp [hq])
    obtain ⟨xs, ys, hps⟩ := List.append_of_mem hmem
    obtain ⟨o, ho, -⟩ := operation?_of_build h hps
    rw [Catalog.heedAll_eq_self fun p hp => hquiet p (by simp [hps, hp])] at ho
    rw [Catalog.heedAll_eq_self fun p hp => hquiet' p (by simp [hq, hp])]
    exact ⟨o, ho⟩
  obtain ⟨d', h'⟩ := hqs
  refine ⟨d', h', ?_⟩
  obtain ⟨done, hd, rfl, rfl⟩ := build_eq_ok h
  obtain ⟨done', hd', rfl, rfl⟩ := build_eq_ok h'
  have hdone : done'.Perm done := by
    rw [hd.eq_filterMap_alone hquiet, hd'.eq_filterMap_alone hquiet']
    exact hperm.symm.filterMap _
  refine ⟨rfl, ?_, fun path => ?_⟩
  · rw [keys_listing, keys_listing]
    refine (List.perm_ext_iff_of_nodup (Entries.nodup_eraseDups _)
      (Entries.nodup_eraseDups _)).mpr fun path => ?_
    rw [List.mem_eraseDups, List.mem_eraseDups]
    exact (hdone.map _).mem_iff
  · rw [item_listing hd.nodup_routes, item_listing hd'.nodup_routes]
    exact (hdone.filter _).map _

end Document

/-- There is a document where the routes of the procedures are distinct and each of them has an
operation after those before it.  The document lists just these operations, once, and tells in the
end how many they are.  Procedures that leave nothing behind are documented as each is alone, and
another order of them gives but another order of the document. -/
theorem document_lists_operations (c : Catalog) (about : About) (ps : List Procedure) :
    ((∃ d, (Document.build c about ps).outcome = .ok d) ↔
      (ps.map Procedure.route).Nodup ∧ ∀ before p rest, ps = before ++ p :: rest →
        ∃ o, (p.operation (c.heedAll before)).outcome = .ok o) ∧
    (∀ d, (Document.build c about ps).outcome = .ok d →
      d.about = about ∧ d.Lists ps ∧
      (∀ before p rest, ps = before ++ p :: rest →
        ∃ o, (p.operation (c.heedAll before)).outcome = .ok o ∧
          d.operation? p.path p.method.key = some o) ∧
      ∃ steps, (∀ e ∈ steps, e.isOnTheWay = true) ∧ (Document.build c about ps).events =
        steps ++ [.documentComplete ps.length (ps.map Procedure.path).eraseDups.length]) ∧
    ((∀ p ∈ ps, p.heed c = c) →
      ((∃ d, (Document.build c about ps).outcome = .ok d) ↔ (ps.map Procedure.route).Nodup ∧
        ∀ p ∈ ps, ∃ o, (p.operation c).outcome = .ok o) ∧
      ∀ d, (Document.build c about ps).outcome = .ok d →
        (∀ p ∈ ps, ∃ o, (p.operation c).outcome = .ok o ∧
          d.operation? p.path p.method.key = some o) ∧
        ∀ qs, ps.Perm qs → ∃ d', (Document.build c about qs).outcome = .ok d' ∧
          d.SameButForOrder d') := by
  refine ⟨Document.build_isOk_iff, fun d h => ?_, fun hquiet => ?_⟩
  · refine ⟨?_, Document.lists_of_build h, fun _ _ _ => Document.operation?_of_build h,
      Document.events_of_build h⟩
    obtain ⟨done, -, -, rfl⟩ := Document.build_eq_ok h
    rfl
  · have hcatalog : ∀ before p rest, ps = before ++ p :: rest → c.heedAll before = c :=
      fun before p rest hps => Catalog.heedAll_eq_self fun q hq => hquiet q (by simp [hps, hq])
    refine ⟨?_, fun d h => ⟨fun p hp => ?_, fun qs hperm => Document.build_perm hquiet h hperm⟩⟩
    · rw [Document.build_isOk_iff]
      refine and_congr_right fun _ => ⟨fun hall p hp => ?_, fun hall before p rest hps => ?_⟩
      · obtain ⟨before, rest, hps⟩ := List.append_of_mem hp
        obtain ⟨o, ho⟩ := hall before p rest hps
        exact ⟨o, hcatalog _ _ _ hps ▸ ho⟩
      · rw [hcatalog _ _ _ hps]
        exact hall p (by simp [hps])
    · obtain ⟨before, rest, hps⟩ := List.append_of_mem hp
      obtain ⟨o, ho, hd⟩ := Document.operation?_of_build h hps
      exact ⟨o, hcatalog _ _ _ hps ▸ ho, hd⟩

def readNote : Procedure where
  name := "read"
  method := .get
  path := "/note"
  output := .schema (.text {} none)

/-- A procedure on the same path that gives nothing. -/
def dropNote : Procedure where
  name := "drop"
  method := .delete
  path := "/note"

/-- What a document about notes says of itself. -/
def aboutNotes : About where
  title := "Notes"
  version := "1"
  baseUrl := "/"

theorem readNote_isOk : ∃ o, (readNote.operation {}).outcome = .ok o := by
  obtain ⟨r, hr⟩ : ∃ r, (readNote.output.responses {}).outcome = .ok r :=
    Source.responses_isOk (by decide +kernel)
  exact ⟨_, Procedure.operation_of_inputless rfl (by decide +kernel) hr⟩

theorem dropNote_isOk : ∃ o, (dropNote.operation {}).outcome = .ok o := by
  obtain ⟨r, hr⟩ : ∃ r, (dropNote.output.responses {}).outcome = .ok r :=
    Source.responses_isOk (by decide +kernel)
  exact ⟨_, Procedure.operation_of_inputless rfl (by decide +kernel) hr⟩

theorem notes_isOk : ∃ d, (Document.build {} aboutNotes [readNote, dropNote]).outcome = .ok d := by
  obtain ⟨o, ho⟩ := readNote_isOk
  obtain ⟨o', ho'⟩ := dropNote_isOk
  rw [← readNote.heed_of_isQuiet (c := {}) (by decide)] at ho'
  have hd : Document.Passes {} [] [(readNote, o), (dropNote, o')] :=
    .cons (by simp) ho (.cons (by decide) ho' (.nil _ _))
  exact ⟨_, congrArg Traced.outcome (Document.build_of_passes aboutNotes hd)⟩

theorem document_lists_operations_notes :
    ∃ d, (Document.build {} aboutNotes [readNote, dropNote]).outcome = .ok d ∧
      d.about = aboutNotes ∧ d.Lists [readNote, dropNote] ∧
      (∃ o, (dropNote.operation {}).outcome = .ok o ∧
        d.operation? dropNote.path dropNote.method.key = some o) ∧
      ∃ d', (Document.build {} aboutNotes [dropNote, readNote]).outcome = .ok d' ∧
        d.SameButForOrder d' := by
  have hquiet : ∀ p ∈ [readNote, dropNote], p.heed {} = {} := fun p _ =>
    p.heed_of_isQuiet (by decide)
  obtain ⟨d, hd⟩ := notes_isOk
  obtain ⟨-, hlists, halone⟩ := document_lists_operations {} aboutNotes [readNote, dropNote]
  obtain ⟨habout, hl, -, -⟩ := hlists d hd
  obtain ⟨hfound, hperm⟩ := (halone hquiet).2 d hd
  exact ⟨d, hd, habout, hl, hfound dropNote (by simp), hperm _ (.swap ..)⟩

/-! ## Where something stays behind -/

/-- A model that goes on with itself or ends. -/
def chainModel : Declaration where
  name := "Chain"
  fields := [{
    name := "next"
    type := .optional (.model "Chain")
    facts := { fallback := .value .null } }]

def chainCatalog : Catalog := (Catalog.declare [chainModel] []).toOption.getD {}

/-- A procedure that gives the model and says something right at it. -/
def titledChain : Procedure where
  name := "titled"
  method := .get
  path := "/titled"
  output := .type (.marked (.model "Chain") [.field { title := some "T" } []])

/-- A procedure that gives the model and says nothing. -/
def plainChain : Procedure where
  name := "plain"
  method := .get
  path := "/plain"
  output := .type (.model "Chain")

/-- The schema of a success, given that of its data. -/
def chainSuccess (data : Entries Json) : Entries Json :=
  [("properties", .obj [
      ("ok", .obj [("const", .bool true), ("description", .str "是否成功"), ("title", .str "Ok"),
        ("type", .str "boolean")]),
      ("data", .obj data)]),
    ("required", .strings ["ok", "data"]),
    ("title", .str envelopeName),
    ("type", .str "object")]

/-- The schema of the model, given its title and what stands for the model inside of itself. -/
def chainSchema (title : String) (inside : Entries Json) : Entries Json :=
  [("properties", .obj [("next", .obj [
      ("anyOf", .arr [.obj inside, .obj [("type", .str "null")]]), ("default", .null)])]),
    ("title", .str title),
    ("type", .str "object")]

/-- The schema of a success with a reference to the model, beside which some entries stand. -/
def chainFragment (beside : Entries Json) : Entries Json :=
  let ref : Entries Json := [("$ref", .str "#/$defs/Chain")]
  ("$defs", .obj [("Chain", .obj (chainSchema "Chain" ref))]) :: chainSuccess (ref ++ beside)

theorem inlined_chainFragment :
    (inlined (chainFragment [])).outcome = .ok (.obj (chainSuccess (chainSchema "Chain" []))) ∧
    (inlined (chainFragment [("title", .str "T")])).outcome =
      .ok (.obj (chainSuccess (chainSchema "T" []))) := by
  constructor
  · cbv
  · cbv

/-- The title that the first procedure puts at the model stays there for the second. -/
theorem successFragment_chain :
    plainChain.output.successFragment chainCatalog = .ok (chainFragment []) ∧
    titledChain.output.successFragment chainCatalog =
      .ok (chainFragment [("title", .str "T")]) ∧
    plainChain.output.successFragment (titledChain.heed chainCatalog) =
      .ok (chainFragment [("title", .str "T")]) ∧
    titledChain.output.successFragment (plainChain.heed chainCatalog) =
      .ok (chainFragment [("title", .str "T")]) := by
  decide +kernel

theorem declare_chainModel : Catalog.declare [chainModel] [] = .ok chainCatalog := by
  have hok : (Catalog.declare [chainModel] []).toOption.isSome = true := by decide +kernel
  unfold chainCatalog
  cases hc : Catalog.declare [chainModel] [] with
  | ok c => rfl
  | error f =>
    rw [hc] at hok
    cases hok

/-- After one that says something at a model which contains itself, a procedure is not documented as
it is alone, and neither as in another order. -/
theorem document_operation_altered :
    ∃ c d d' o alone, Catalog.declare [chainModel] [] = .ok c ∧
      (Document.build c aboutNotes [titledChain, plainChain]).outcome = .ok d ∧
      d.operation? plainChain.path plainChain.method.key = some o ∧
      (Document.build c aboutNotes [plainChain, titledChain]).outcome = .ok d' ∧
      d'.operation? plainChain.path plainChain.method.key = some alone ∧
      (plainChain.operation c).outcome = .ok alone ∧
      o.responses.success ≠ alone.responses.success := by
  obtain ⟨hplain, htitled⟩ := inlined_chainFragment
  obtain ⟨hfirst, hbefore, hafter, hlast⟩ := successFragment_chain
  have hpath : Template.placeholders "/plain" = [] := by decide +kernel
  have hpath' : Template.placeholders "/titled" = [] := by decide +kernel
  have halone := Procedure.operation_of_inputless (p := plainChain) (r := ⟨_⟩) rfl hpath
    (Source.responses_eq_ok hfirst hplain)
  have haltered := Procedure.operation_of_inputless (p := plainChain) (r := ⟨_⟩) rfl hpath
    (Source.responses_eq_ok hafter htitled)
  have htitledFirst := Procedure.operation_of_inputless (p := titledChain) (r := ⟨_⟩) rfl hpath'
    (Source.responses_eq_ok hbefore htitled)
  have htitledLast := Procedure.operation_of_inputless (p := titledChain) (r := ⟨_⟩) rfl hpath'
    (Source.responses_eq_ok hlast htitled)
  have hd : Document.Passes chainCatalog [] [(titledChain, _), (plainChain, _)] :=
    .cons (by simp) htitledFirst (.cons (by decide) haltered (.nil _ _))
  have hd' : Document.Passes chainCatalog [] [(plainChain, _), (titledChain, _)] :=
    .cons (by simp) halone (.cons (by decide) htitledLast (.nil _ _))
  refine ⟨_, _, _, _, _, declare_chainModel,
    congrArg Traced.outcome (Document.build_of_passes aboutNotes hd),
    Document.operation?_listing hd.nodup_routes _ (List.mem_cons_of_mem _ (List.mem_cons_self ..)),
    congrArg Traced.outcome (Document.build_of_passes aboutNotes hd'),
    Document.operation?_listing hd'.nodup_routes _ (List.mem_cons_self ..), halone, ?_⟩
  simp [chainSuccess, chainSchema]

end Procedoc
