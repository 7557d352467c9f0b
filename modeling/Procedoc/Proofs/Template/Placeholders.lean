import Procedoc.Proofs.Registry
import Procedoc.Proofs.Splitting
import Procedoc.Proofs.Template.Normalizing

/-! # The placeholders of a template

`Template.placeholders` looks for a name in braces behind every opening brace.  It finds all of them
and nothing else: `placeholders_exact`.

* A placeholder has no opening brace in it, so that a search which goes on behind each name that it
  has found misses none (`Template.searchFrom_eq`).
* Nothing without an opening brace in front, and nothing without braces behind, adds or removes a
  placeholder (`Template.placeholdersOf_append`, `Template.append_placeholdersOf`); so the spelling
  of a path has the placeholders of the path (`Template.placeholders_normalize`).
-/

namespace Procedoc
set_option autoImplicit false

namespace Template

open Text

/-! ## One name -/

section Name

variable {cs w : List Char}

/-- Characters of which a name may be made. -/
def IsName (w : List Char) : Prop := w ≠ [] ∧ ∀ c ∈ w, isWord c = true

instance (w : List Char) : Decidable (IsName w) :=
  decidable_of_iff (w ≠ [] ∧ w.all isWord = true) (by rw [IsName, List.all_eq_true])

theorem IsName.not_mem_open (h : IsName w) : '{' ∉ w := fun hm => by
  have hword := h.2 _ hm
  rw [not_isWord_delimiter.1] at hword
  cases hword

theorem nameAfterBrace?_append (h : IsName w) (after : List Char) :
    nameAfterBrace? (w ++ '}' :: after) = some w := by
  have hclose : ¬ isWord '}' = true := by simp [not_isWord_delimiter.2.1]
  have htake : (w ++ '}' :: after).takeWhile isWord = w := by
    rw [List.takeWhile_append_of_pos h.2, List.takeWhile_cons_of_neg hclose, List.append_nil]
  have hdrop : (w ++ '}' :: after).dropWhile isWord = '}' :: after := by
    rw [List.dropWhile_append_of_pos h.2, List.dropWhile_cons_of_neg hclose]
  rw [nameAfterBrace?, htake, hdrop, if_neg (by simpa using h.1)]
  rfl

theorem nameAfterBrace?_eq_some :
    nameAfterBrace? cs = some w ↔ IsName w ∧ ∃ after, cs = w ++ '}' :: after := by
  constructor
  · intro h
    unfold nameAfterBrace? at h
    dsimp only at h
    split at h
    · cases h
    · next hne =>
      split at h
      · next rest hrest =>
        cases h
        refine ⟨⟨by simpa using hne, fun c hc => List.mem_takeWhile_imp hc⟩, rest, ?_⟩
        rw [← hrest, List.takeWhile_append_dropWhile]
      · cases h
  · rintro ⟨hw, after, rfl⟩
    exact nameAfterBrace?_append hw after

theorem append_nameAfterBrace? {v : List Char} (hv : '}' ∉ v) :
    nameAfterBrace? (cs ++ v) = nameAfterBrace? cs := by
  ext w
  rw [nameAfterBrace?_eq_some, nameAfterBrace?_eq_some]
  refine and_congr_right fun _ => ⟨?_, ?_⟩
  · rintro ⟨after, h⟩
    -- the closing brace is not in the text behind, so this is the end of what follows the brace
    rcases List.append_eq_append_iff.mp h with ⟨u, rfl, hu⟩ | ⟨u, rfl, hu⟩
    · have hmem : '}' ∈ v := by simp [hu]
      exact absurd hmem hv
    · cases u with
      | nil =>
        have hmem : '}' ∈ v := by
          rw [List.nil_append] at hu
          simp [← hu]
        exact absurd hmem hv
      | cons d rest =>
        rw [List.cons_append, List.cons.injEq] at hu
        exact ⟨rest, by rw [hu.1]⟩
  · rintro ⟨after, rfl⟩
    exact ⟨after ++ v, by simp⟩

end Name

/-! ## The places of names -/

section Places

variable {cs w : List Char}

theorem placeholdersOf_cons_brace (rest : List Char) :
    placeholdersOf ('{' :: rest) = (nameAfterBrace? rest).toList ++ placeholdersOf rest := rfl

/-- So many characters from the front stands that name in braces. -/
def OccursAt (cs : List Char) (place : Nat) (w : List Char) : Prop :=
  IsName w ∧ ∃ before after, cs = before ++ '{' :: (w ++ '}' :: after) ∧ before.length = place

theorem occursAt_cons_zero {c : Char} : OccursAt (c :: cs) 0 w ↔
    c = '{' ∧ nameAfterBrace? cs = some w := by
  rw [nameAfterBrace?_eq_some]
  constructor
  · rintro ⟨hw, before, after, h, hlen⟩
    cases List.length_eq_zero_iff.mp hlen
    cases h
    exact ⟨rfl, hw, after, rfl⟩
  · rintro ⟨rfl, hw, after, rfl⟩
    exact ⟨hw, [], after, rfl, rfl⟩

theorem occursAt_cons_succ {c : Char} {place : Nat} :
    OccursAt (c :: cs) (place + 1) w ↔ OccursAt cs place w := by
  refine and_congr_right fun _ => ⟨?_, ?_⟩
  · rintro ⟨before, after, h, hlen⟩
    cases before with
    | nil => cases hlen
    | cons d before =>
      rw [List.cons_append, List.cons.injEq] at h
      exact ⟨before, after, h.2, Nat.succ.inj hlen⟩
  · rintro ⟨before, after, rfl, rfl⟩
    exact ⟨c :: before, after, rfl, rfl⟩

/-- The placeholders with their places. -/
def placesOf : List Char → List (Nat × List Char)
  | [] => []
  | c :: rest =>
    (if c = '{' then (nameAfterBrace? rest).toList.map (0, ·) else []) ++
      (placesOf rest).map fun d => (d.1 + 1, d.2)

theorem map_snd_placesOf (cs : List Char) : (placesOf cs).map Prod.snd = placeholdersOf cs := by
  induction cs with
  | nil => rfl
  | cons c rest ih =>
    simp only [placesOf, placeholdersOf, List.map_append, List.map_map, ← ih]
    congr 1
    split
    · cases nameAfterBrace? rest <;> rfl
    · rfl

theorem pairwise_placesOf (cs : List Char) :
    ((placesOf cs).map Prod.fst).Pairwise (· < ·) := by
  induction cs with
  | nil => exact .nil
  | cons c rest ih =>
    rw [placesOf, List.map_append, List.pairwise_append]
    refine ⟨?_, ?_, ?_⟩
    · split
      · cases nameAfterBrace? rest <;> simp
      · exact .nil
    · rw [List.map_map, List.pairwise_map]
      exact (List.pairwise_map.mp ih).imp fun h => Nat.succ_lt_succ h
    · intro i hi j hj
      have hzero : i = 0 := by
        split at hi
        · obtain ⟨d, hd, rfl⟩ := List.mem_map.mp hi
          obtain ⟨w, -, rfl⟩ := List.mem_map.mp hd
          rfl
        · cases hi
      have hpos : 0 < j := by
        rw [List.map_map] at hj
        obtain ⟨d, -, rfl⟩ := List.mem_map.mp hj
        exact Nat.succ_pos _
      omega

theorem mem_placesOf {place : Nat} : (place, w) ∈ placesOf cs ↔ OccursAt cs place w := by
  induction cs generalizing place with
  | nil =>
    refine ⟨nofun, ?_⟩
    rintro ⟨-, before, after, h, -⟩
    simp at h
  | cons c rest ih =>
    rw [placesOf, List.mem_append]
    cases place with
    | zero =>
      rw [occursAt_cons_zero]
      constructor
      · rintro (h | h)
        · split at h
          · next hc => exact ⟨hc, by simpa using h⟩
          · cases h
        · obtain ⟨d, -, hd⟩ := List.mem_map.mp h
          cases hd
      · rintro ⟨rfl, hw⟩
        exact .inl (by simp [hw])
    | succ place =>
      rw [occursAt_cons_succ, ← ih]
      constructor
      · rintro (h | h)
        · split at h
          · obtain ⟨w', -, hw'⟩ := List.mem_map.mp h
            cases hw'
          · cases h
        · obtain ⟨⟨i, w'⟩, hd, heq⟩ := List.mem_map.mp h
          cases heq
          exact hd
      · intro h
        exact .inr (List.mem_map.mpr ⟨_, h, rfl⟩)

end Places

/-! ## Text around placeholders -/

section Around

variable {cs u v w : List Char}

theorem placeholdersOf_append (hu : '{' ∉ u) : placeholdersOf (u ++ cs) = placeholdersOf cs := by
  induction u with
  | nil => rfl
  | cons c rest ih =>
    obtain ⟨hc, hrest⟩ := not_or.mp (fun h => hu (List.mem_cons.mpr h))
    rw [List.cons_append, placeholdersOf_cons_of_ne _ (Ne.symm hc), ih hrest]

theorem placeholdersOf_eq_nil (hu : '{' ∉ u) : placeholdersOf u = [] := by
  have h : placeholdersOf (u ++ []) = placeholdersOf [] := placeholdersOf_append hu
  rwa [List.append_nil] at h

theorem append_placeholdersOf (ho : '{' ∉ v) (hc : '}' ∉ v) :
    placeholdersOf (cs ++ v) = placeholdersOf cs := by
  induction cs with
  | nil => exact placeholdersOf_eq_nil ho
  | cons c rest ih =>
    rw [List.cons_append, placeholdersOf, placeholdersOf, append_nameAfterBrace? hc, ih]

theorem placeholdersOf_brace (hw : IsName w) (rest : List Char) :
    placeholdersOf ('{' :: (w ++ '}' :: rest)) = w :: placeholdersOf rest := by
  have hnone : '{' ∉ w ++ ['}'] := by simpa using hw.not_mem_open
  have hrest : w ++ '}' :: rest = (w ++ ['}']) ++ rest := by simp
  rw [placeholdersOf_cons_brace, nameAfterBrace?_append hw, hrest, placeholdersOf_append hnone]
  rfl

/-- The names that a search finds which goes on behind each name in braces that it has found; so
many characters are left of the last one. -/
def searchFrom : Nat → List Char → List (List Char)
  | _, [] => []
  | left + 1, _ :: rest => searchFrom left rest
  | 0, c :: rest =>
    if c = '{' then
      match nameAfterBrace? rest with
      | some w => w :: searchFrom (w.length + 1) rest
      | none => searchFrom 0 rest
    else searchFrom 0 rest

/-- Such a search misses none, as no placeholder begins inside of another. -/
theorem searchFrom_eq (left : Nat) (cs : List Char) :
    searchFrom left cs = placeholdersOf (cs.drop left) := by
  induction cs generalizing left with
  | nil => simp [searchFrom]
  | cons c rest ih =>
    cases left with
    | succ left => rw [searchFrom, ih, List.drop_succ_cons]
    | zero =>
      rw [searchFrom, List.drop_zero]
      by_cases hc : c = '{'
      · subst hc
        rw [if_pos rfl]
        cases hw : nameAfterBrace? rest with
        | none =>
          rw [placeholdersOf_cons_brace, hw]
          exact ih 0
        | some w =>
          obtain ⟨hname, after, rfl⟩ := nameAfterBrace?_eq_some.mp hw
          have hdrop : (w ++ '}' :: after).drop (w.length + 1) = after := by
            rw [List.drop_append]
            simp
          simp only [ih, hdrop, placeholdersOf_brace hname]
      · rw [if_neg hc, placeholdersOf_cons_of_ne _ hc]
        exact ih 0

end Around

/-! ## Templates -/

variable {template : String}

/-- So many characters from the front of a template stands that name in braces. -/
def NamesAt (template : String) (place : Nat) (name : String) : Prop :=
  IsName name.toList ∧
    ∃ before after, template = before ++ "\x7b" ++ name ++ "\x7d" ++ after ∧ before.length = place

theorem namesAt_iff {place : Nat} {name : String} :
    NamesAt template place name ↔ OccursAt template.toList place name.toList := by
  refine and_congr_right fun _ => ⟨?_, ?_⟩
  · rintro ⟨before, after, rfl, rfl⟩
    exact ⟨before.toList, after.toList, by simp, String.length_toList ..⟩
  · rintro ⟨before, after, h, rfl⟩
    refine ⟨.ofList before, .ofList after, ?_, by simp⟩
    rw [String.ext_iff, h]
    simp

/-- The template with literal text in front and the names in braces, each with such text behind. -/
def written (front : String) : List (String × String) → String
  | [] => front
  | (name, literal) :: rest => front ++ "\x7b" ++ name ++ "\x7d" ++ written literal rest

theorem placeholders_written {front : String} {parts : List (String × String)}
    (hfront : '{' ∉ front.toList)
    (hparts : ∀ d ∈ parts, IsName d.1.toList ∧ '{' ∉ d.2.toList) :
    placeholders (written front parts) = parts.map Prod.fst := by
  induction parts generalizing front with
  | nil =>
    rw [written, placeholders, placeholdersOf_eq_nil hfront]
    rfl
  | cons d rest ih =>
    obtain ⟨name, literal⟩ := d
    obtain ⟨hd, hrest⟩ := List.forall_mem_cons.mp hparts
    have htext : (written front ((name, literal) :: rest)).toList =
        front.toList ++ '{' :: (name.toList ++ '}' :: (written literal rest).toList) := by
      simp [written]
    have hih := ih hd.2 hrest
    rw [placeholders, htext, placeholdersOf_append hfront, placeholdersOf_brace hd.1, List.map_cons,
      String.ofList_toList, List.map_cons]
    exact congrArg (name :: ·) hih

theorem placeholdersIn_eq_error_iff {fields : List String} {v : Violation} :
    placeholdersIn fields template = .error v ↔ ∃ before name after,
      placeholders template = before ++ name :: after ∧ (∀ n ∈ before, n ∈ fields) ∧
        name ∉ fields ∧ v = .unknownPathField name template := by
  unfold placeholdersIn
  constructor
  · intro h
    split at h
    · next name hfind =>
      obtain ⟨hnot, before, after, hnames, hbefore⟩ := List.find?_eq_some_iff_append.mp hfind
      cases h
      exact ⟨before, name, after, hnames, by simpa using hbefore, by simpa using hnot, rfl⟩
    · cases h
  · rintro ⟨before, name, after, hnames, hbefore, hnot, rfl⟩
    have hfind : (placeholders template).find? (fun n => !fields.contains n) = some name :=
      List.find?_eq_some_iff_append.mpr
        ⟨by simpa using hnot, before, after, hnames, by simpa using hbefore⟩
    rw [hfind]

/-- The spelling of a path has the placeholders of the path: what is dropped around it is none of
the characters that placeholders begin or end with. -/
theorem placeholders_normalize (path : String) :
    placeholders (normalize path) = placeholders path := by
  obtain ⟨b₁, s₁, s₂, b₂, hb, hs, -, hpath⟩ := exists_core path.toList
  obtain ⟨hb₁, hb₂⟩ := List.forall_mem_append.mp hb
  obtain ⟨hs₁, hs₂⟩ := List.forall_mem_append.mp hs
  have hnone (c : Char) (hc : isBlank c = false) (hne : c ≠ '/') (b s : List Char)
      (hb : ∀ d ∈ b, isBlank d = true) (hs : ∀ d ∈ s, d = '/') : c ∉ b ++ s := by
    intro hmem
    rcases List.mem_append.mp hmem with hmem | hmem
    · rw [hb c hmem] at hc
      cases hc
    · exact hne (hs c hmem)
  have hfront := hnone '{' (by decide +kernel) (by decide) b₁ s₁ hb₁ hs₁
  have hopen := hnone '{' (by decide +kernel) (by decide) b₂ s₂ hb₂ hs₂
  have hclose := hnone '}' (by decide +kernel) (by decide) b₂ s₂ hb₂ hs₂
  have hshape : path.toList = (b₁ ++ s₁) ++ (core path.toList ++ (s₂ ++ b₂)) := by
    conv_lhs => rw [hpath]
    simp only [List.append_assoc]
  have hcore : placeholdersOf path.toList = placeholdersOf (core path.toList) := by
    conv_lhs => rw [hshape]
    rw [placeholdersOf_append hfront, append_placeholdersOf]
    · simpa [and_comm] using hopen
    · simpa [and_comm] using hclose
  rw [placeholders, placeholders, toList_normalize, placeholdersOf_cons_of_ne _ (by decide),
    ← hcore]

end Template

/-! ## All placeholders and nothing else -/

open Template

/-- The placeholders of a template are the names in braces in it, one for each place where one
stands, in order; a search that goes on behind each of them finds the same.  Where all have to be
among some fields, they are what is given, or the first that is no field is refused.  A template
that is written as names in braces between texts without opening braces has just these names. -/
theorem placeholders_exact :
    (∀ template : String,
      (∃ places : List (Nat × String), placeholders template = places.map Prod.snd ∧
        (places.map Prod.fst).Pairwise (· < ·) ∧
        ∀ place name, (place, name) ∈ places ↔ NamesAt template place name) ∧
      placeholders template = (searchFrom 0 template.toList).map String.ofList ∧
      ∀ fields : List String,
        (∀ names, placeholdersIn fields template = .ok names ↔
          names = placeholders template ∧ ∀ n ∈ placeholders template, n ∈ fields) ∧
        ∀ v, placeholdersIn fields template = .error v ↔ ∃ before name after,
          placeholders template = before ++ name :: after ∧ (∀ n ∈ before, n ∈ fields) ∧
            name ∉ fields ∧ v = .unknownPathField name template) ∧
    ∀ (front : String) (parts : List (String × String)), '{' ∉ front.toList →
      (∀ d ∈ parts, IsName d.1.toList ∧ '{' ∉ d.2.toList) →
      placeholders (written front parts) = parts.map Prod.fst := by
  refine ⟨fun template => ⟨?_, ?_, fun fields => ⟨fun _ => placeholdersIn_eq_ok_iff,
    fun _ => placeholdersIn_eq_error_iff⟩⟩, fun _ _ => placeholders_written⟩
  · refine ⟨(placesOf template.toList).map fun d => (d.1, String.ofList d.2), ?_, ?_, ?_⟩
    · rw [placeholders, ← map_snd_placesOf, List.map_map, List.map_map]
      rfl
    · rw [List.map_map]
      exact pairwise_placesOf template.toList
    · intro place name
      rw [namesAt_iff, ← mem_placesOf]
      constructor
      · intro h
        obtain ⟨d, hd, heq⟩ := List.mem_map.mp h
        cases heq
        rw [String.toList_ofList]
        exact hd
      · intro h
        exact List.mem_map.mpr ⟨_, h, by simp⟩
  · rw [searchFrom_eq, List.drop_zero, placeholders]

/-- A template in which braces are left open, doubled, and alone. -/
def strayBraces : String := "\x7ba{b}\x7b{id}\x7d\x7b"

/-- Stray and doubled braces are not in the way of names. -/
theorem placeholders_exact_braces :
    placeholders (written "/\x7da" [("id", "\x7d/"), ("名", "\x7d-")]) = ["id", "名"] ∧
    (∃ places : List (Nat × String), placeholders strayBraces = places.map Prod.snd ∧
      (2, "b") ∈ places ∧ (6, "id") ∈ places) ∧
    placeholdersIn ["b"] strayBraces = .error (.unknownPathField "id" strayBraces) := by
  obtain ⟨hall, hwritten⟩ := placeholders_exact
  obtain ⟨⟨places, hplaces, -, hmem⟩, -, hin⟩ := hall strayBraces
  refine ⟨hwritten _ _ (by decide) (by decide +kernel), ⟨places, hplaces, ?_, ?_⟩, ?_⟩
  · exact (hmem 2 "b").mpr ⟨by decide +kernel, "\x7ba", "\x7b{id}\x7d\x7b", by decide, by decide⟩
  · exact (hmem 6 "id").mpr ⟨by decide +kernel, "\x7ba{b}\x7b", "\x7d\x7b", by decide, by decide⟩
  · exact ((hin ["b"]).2 _).mpr
      ⟨["b"], "id", [], by decide +kernel, by decide, by decide, rfl⟩

/-! ## Splitting along templates with the same placeholders -/

namespace Schema
variable {template other : String}

theorem partition_eq_error_iff {head : Head} {fields : Entries Schema} {o : Option (Field TypeExpr)}
    {v : Violation} : (object head fields o).partition template = .error v ↔
      ∃ before name after, Template.placeholders template = before ++ name :: after ∧
        (∀ n ∈ before, n ∈ Entries.keys fields) ∧ name ∉ Entries.keys fields ∧
        v = .unknownPathField name template := by
  rw [← Template.placeholdersIn_eq_error_iff, partition]
  cases Template.placeholdersIn (Entries.keys fields) template with
  | error w => simp [bind, Except.bind]
  | ok names => simp [bind, Except.bind, without_object, pure, Except.pure]

theorem partition_respelled_ok (h : Template.placeholders template = Template.placeholders other)
    {s : Schema} {parts : Partition} (hs : s.partition template = .ok parts) :
    s.partition other = .ok parts := by
  obtain ⟨head, fields, o, rfl, hnamed, -⟩ := partition_eq_ok hs
  rw [partition_object hnamed, h] at hs
  rw [partition_object (h ▸ hnamed), ← hs]

theorem partition_respelled_error (h : Template.placeholders template = Template.placeholders other)
    {s : Schema} {name : String}
    (hs : s.partition template = .error (.unknownPathField name template)) :
    s.partition other = .error (.unknownPathField name other) := by
  cases s with
  | text | other | wrapped => cases hs
  | object head fields o =>
    obtain ⟨before, n, after, hnames, hbefore, hnot, hv⟩ := partition_eq_error_iff.mp hs
    cases hv
    exact partition_eq_error_iff.mpr ⟨before, _, after, h ▸ hnames, hbefore, hnot, rfl⟩

end Schema

/-! ## Paths of registered procedures -/

/-- What a run adds to a registry was proposed in one of its steps. -/
theorem Registry.mem_run {r : Registry} {steps : List Step} {q : Procedure}
    (h : q ∈ (r.run steps).procedures) :
    q ∈ r.procedures ∨ ∃ s ∈ steps, s.proposal.accept = .ok q := by
  induction steps generalizing r with
  | nil => exact .inl h
  | cons s rest ih =>
    rw [run_cons] at h
    rcases ih h with hq | ⟨s', hs', hq⟩
    · rcases step_cases r s with ⟨-, -, hkept⟩ | ⟨p, hp, -, -, hstep⟩
      · rw [hkept] at hq
        exact .inl hq
      · rw [hstep] at hq
        rcases List.mem_append.mp hq with hq | hq
        · exact .inl hq
        · cases List.mem_singleton.mp hq
          exact .inr ⟨s, List.mem_cons_self .., hp⟩
    · exact .inr ⟨s', List.mem_cons_of_mem _ hs', hq⟩

/-- The spelling of a path has the placeholders of the path, in the same order and as often.  So the
path of a procedure that was registered splits each input as the path does with which the procedure
was proposed, and refuses the same placeholder. -/
theorem placeholders_of_registered :
    (∀ path, placeholders (normalize path) = placeholders path) ∧
    ∀ (steps : List Registry.Step) (q : Procedure), q ∈ (Registry.empty.run steps).procedures →
      ∃ s ∈ steps, s.proposal.accept = .ok q ∧ q.path = normalize s.proposal.path ∧
        placeholders q.path = placeholders s.proposal.path ∧
        ∀ schema : Schema,
          (∀ parts, schema.partition q.path = .ok parts ↔
            schema.partition s.proposal.path = .ok parts) ∧
          ∀ name, schema.partition q.path = .error (.unknownPathField name q.path) ↔
            schema.partition s.proposal.path =
              .error (.unknownPathField name s.proposal.path) := by
  refine ⟨placeholders_normalize, fun steps q hq => ?_⟩
  rcases Registry.mem_run hq with hq | ⟨s, hs, hq⟩
  · cases hq
  · have hpath := (Proposal.accept_eq_ok hq).2
    have hnames : placeholders q.path = placeholders s.proposal.path := by
      rw [hpath, placeholders_normalize]
    refine ⟨s, hs, hq, hpath, hnames, fun schema => ⟨fun parts => ?_, fun name => ?_⟩⟩
    · exact ⟨Schema.partition_respelled_ok hnames, Schema.partition_respelled_ok hnames.symm⟩
    · exact ⟨Schema.partition_respelled_error hnames, Schema.partition_respelled_error hnames.symm⟩

/-- A path with unbalanced braces at both of its ends. -/
def bracePath : String := " /\x7d{id}/\x7b{id}/\x7b / "

/-- The step of a procedure with this path. -/
def braceSteps : List Registry.Step :=
  [.register { name := "read", method := "get", path := bracePath }]

/-- What is dropped beside the outermost braces takes no placeholder away and adds none. -/
theorem placeholders_of_registered_braces : ∃ q ∈ (Registry.empty.run braceSteps).procedures,
    q.path = "/\x7d{id}/\x7b{id}/\x7b " ∧ placeholders q.path = ["id", "id"] ∧
      placeholders (normalize bracePath) = placeholders bracePath := by
  obtain ⟨hall, hregistered⟩ := placeholders_of_registered
  have hq : ({ name := "read", method := .get, path := "/\x7d{id}/\x7b{id}/\x7b " } : Procedure) ∈
      (Registry.empty.run braceSteps).procedures := .head _
  obtain ⟨s, hs, -, -, hnames, -⟩ := hregistered braceSteps _ hq
  cases List.mem_singleton.mp hs
  refine ⟨_, hq, rfl, ?_, hall _⟩
  rw [hnames]
  decide +kernel

end Procedoc
