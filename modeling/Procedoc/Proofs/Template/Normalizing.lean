import Procedoc.Proofs.Template.Trimming

/-! # The one spelling of a path

`Template.normalize` drops the blanks around a path, then the slashes around what is left.  A blank
that is inside of the outermost slashes stays, and this is the only way in which the spelling is not
the one that it should be:

* `normalize_idem_iff` - the spelling is its own, unless a blank is left at its end (`IsLoose`);
* `normalize_eq_kernel_iff` - it is a slash and the path without any blanks and slashes around it,
  exactly if the blanks around the path are outside of the slashes (`IsFramed`).
-/

namespace Procedoc.Template
set_option autoImplicit false

open Text

/-- Blanks and slashes. -/
def isSurplus (c : Char) : Bool := isBlank c || c = '/'

/-- The path without the blanks and slashes around it, in whatever order they stand. -/
def kernel (path : String) : String := trim isSurplus path

/-- Without the blanks around it, the path has a blank before the slashes at its end. -/
def IsLoose (path : String) : Prop :=
  ∃ before b slashes, isBlank b = true ∧ (∀ c ∈ slashes, c = '/') ∧
    (strip path).toList = before ++ b :: slashes

/-- The blanks around the path are outside of the slashes around it. -/
def IsFramed (path : String) : Prop :=
  ∃ b₁ s₁ s₂ b₂, (∀ c ∈ b₁ ++ b₂, isBlank c = true) ∧ (∀ c ∈ s₁ ++ s₂, c = '/') ∧
    path.toList = b₁ ++ s₁ ++ (kernel path).toList ++ s₂ ++ b₂

theorem isBlank_slash : isBlank '/' = false := by decide +kernel

/-! ## The core of a path -/

section Core

variable {cs : List Char}

theorem isBare_core (cs : List Char) : IsBare (· = '/') (core cs) := isBare_dropEnds _ _

/-- Around the core stand slashes, and blanks around these. -/
theorem exists_core (cs : List Char) : ∃ b₁ s₁ s₂ b₂, (∀ c ∈ b₁ ++ b₂, isBlank c = true) ∧
    (∀ c ∈ s₁ ++ s₂, c = '/') ∧ dropEnds isBlank cs = s₁ ++ core cs ++ s₂ ∧
    cs = b₁ ++ s₁ ++ core cs ++ s₂ ++ b₂ := by
  obtain ⟨b₁, b₂, hb₁, hb₂, hb⟩ := exists_dropEnds isBlank cs
  obtain ⟨s₁, s₂, hs₁, hs₂, hs⟩ := exists_dropEnds (· = '/') (dropEnds isBlank cs)
  refine ⟨b₁, s₁, s₂, b₂, List.forall_mem_append.mpr ⟨hb₁, hb₂⟩,
    List.forall_mem_append.mpr ⟨by simpa using hs₁, by simpa using hs₂⟩, hs, ?_⟩
  conv_lhs => rw [hb, hs]
  simp only [core, List.append_assoc]

theorem core_frame {b₁ s₁ m s₂ b₂ : List Char} (hm : IsBare isSurplus m)
    (hb : ∀ c ∈ b₁ ++ b₂, isBlank c = true) (hs : ∀ c ∈ s₁ ++ s₂, c = '/') :
    core (b₁ ++ s₁ ++ m ++ s₂ ++ b₂) = m := by
  obtain ⟨hb₁, hb₂⟩ := List.forall_mem_append.mp hb
  obtain ⟨hs₁, hs₂⟩ := List.forall_mem_append.mp hs
  have hblank : IsBare isBlank m := hm.mono fun c hc => by simp [isSurplus, hc]
  have hslash : IsBare (· = '/') m := hm.mono fun c hc => by simp_all [isSurplus]
  have hinner : IsBare isBlank (s₁ ++ m ++ s₂) :=
    hblank.surround (fun c hc => hs₁ c hc ▸ isBlank_slash) (fun c hc => hs₂ c hc ▸ isBlank_slash)
  have houter : b₁ ++ s₁ ++ m ++ s₂ ++ b₂ = b₁ ++ (s₁ ++ m ++ s₂) ++ b₂ := by
    simp only [List.append_assoc]
  rw [core, houter, dropEnds_surround hinner hb₁ hb₂,
    dropEnds_surround hslash (by simpa using hs₁) (by simpa using hs₂)]

theorem isBare_cons_slash : IsBare isBlank ('/' :: cs) ↔
    ∀ c, cs.getLast? = some c → isBlank c = false := by
  have hlast : ('/' :: cs).getLast? = some (cs.getLast?.getD '/') := List.getLast?_cons
  constructor
  · intro h c hc
    exact h.back c (by rw [hlast, hc]; rfl)
  · intro h
    refine ⟨fun c hc => ?_, fun c hc => ?_⟩
    · cases hc
      exact isBlank_slash
    · rw [hlast] at hc
      cases hcs : cs.getLast? with
      | none =>
        rw [hcs] at hc
        cases hc
        exact isBlank_slash
      | some d =>
        rw [hcs] at hc
        cases hc
        exact h _ hcs

theorem core_cons_core : core ('/' :: core cs) = core cs ↔ IsBare isBlank ('/' :: core cs) := by
  constructor
  · intro h
    by_contra hnot
    -- a blank goes, so what is left is too short to have a slash that can be dropped
    have hshort := length_dropEnds_lt hnot
    rw [List.length_cons] at hshort
    have hbare : IsBare (· = '/') (dropEnds isBlank ('/' :: core cs)) := by
      by_contra hslash
      have hlt := length_dropEnds_lt hslash
      rw [← core, h] at hlt
      omega
    have heq : dropEnds isBlank ('/' :: core cs) = core cs := by
      rw [← dropEnds_of_isBare hbare, ← core, h]
    have hback := isBare_dropEnds isBlank ('/' :: core cs)
    rw [heq] at hback
    exact hnot (isBare_cons_slash.mpr hback.back)
  · intro hbare
    have hslash : dropEnds (· = '/') (['/'] ++ core cs ++ []) = dropEnds (· = '/') (core cs) :=
      dropEnds_append (by simp) nofun
    rw [core, dropEnds_of_isBare hbare]
    calc dropEnds (· = '/') ('/' :: core cs)
        = dropEnds (· = '/') (['/'] ++ core cs ++ []) := by simp
      _ = dropEnds (· = '/') (core cs) := hslash
      _ = core cs := dropEnds_of_isBare (isBare_core cs)

end Core

/-! ## Spellings -/

variable {path : String}

@[simp] theorem toList_normalize (path : String) :
    (normalize path).toList = '/' :: core path.toList := by simp [normalize]

theorem normalize_inj {other : String} :
    normalize path = normalize other ↔ core path.toList = core other.toList := by
  rw [String.ext_iff, toList_normalize, toList_normalize, List.cons.injEq]
  exact and_iff_right rfl

/-- The spelling begins with one slash and does not end with another. -/
theorem exists_normalize (path : String) :
    ∃ rest, (normalize path).toList = '/' :: rest ∧ IsBare (· = '/') rest :=
  ⟨_, toList_normalize path, isBare_core _⟩

theorem isLoose_iff : IsLoose path ↔
    ∃ b, (core path.toList).getLast? = some b ∧ isBlank b = true := by
  constructor
  · rintro ⟨before, b, slashes, hb, hs, h⟩
    have hne : decide (b = '/') = false := by
      rw [decide_eq_false_iff_not]
      rintro rfl
      rw [isBlank_slash] at hb
      cases hb
    have hcore : core path.toList = dropEnds (· = '/') (before ++ [b]) := by
      rw [strip, toList_trim] at h
      have happ : dropEnds (· = '/') ([] ++ (before ++ [b]) ++ slashes) =
          dropEnds (· = '/') (before ++ [b]) := dropEnds_append nofun (by simpa using hs)
      rw [core, h, ← happ]
      simp
    rw [hcore, dropEnds_concat hne]
    exact ⟨b, by simp, hb⟩
  · rintro ⟨b, hlast, hb⟩
    obtain ⟨-, s₁, s₂, -, -, hs, hstrip, -⟩ := exists_core path.toList
    obtain ⟨init, hinit⟩ := List.getLast?_eq_some_iff.mp hlast
    refine ⟨s₁ ++ init, b, s₂, hb, (List.forall_mem_append.mp hs).2, ?_⟩
    rw [strip, toList_trim, hstrip, hinit]
    simp

theorem isBare_normalize_iff : IsBare isBlank (normalize path).toList ↔ ¬ IsLoose path := by
  rw [toList_normalize, isBare_cons_slash, isLoose_iff]
  simp only [not_exists, not_and, Bool.not_eq_true]

theorem normalize_blank_iff :
    (∃ b, (normalize path).toList.getLast? = some b ∧ isBlank b = true) ↔ IsLoose path := by
  rw [← not_iff_not, ← isBare_normalize_iff]
  constructor
  · intro h
    refine ⟨fun c hc => ?_, fun c hc => ?_⟩
    · rw [toList_normalize] at hc
      cases hc
      exact isBlank_slash
    · exact Bool.eq_false_iff.mpr fun hb => h ⟨c, hc, hb⟩
  · rintro h ⟨b, hlast, hb⟩
    rw [h.back b hlast] at hb
    cases hb

theorem normalize_idem_iff : normalize (normalize path) = normalize path ↔ ¬ IsLoose path := by
  rw [normalize_inj, ← isBare_normalize_iff, toList_normalize, core_cons_core]

/-! ## Kernels -/

theorem toList_kernel (path : String) : (kernel path).toList = dropEnds isSurplus path.toList :=
  toList_trim ..

theorem isBare_kernel (path : String) : IsBare isSurplus (kernel path).toList := by
  rw [toList_kernel]
  exact isBare_dropEnds _ _

theorem dropEnds_core (cs : List Char) : dropEnds isSurplus (core cs) = dropEnds isSurplus cs := by
  obtain ⟨b₁, s₁, s₂, b₂, hb, hs, -, hcs⟩ := exists_core cs
  obtain ⟨hb₁, hb₂⟩ := List.forall_mem_append.mp hb
  obtain ⟨hs₁, hs₂⟩ := List.forall_mem_append.mp hs
  have hslash (c : Char) (hc : c = '/') : isSurplus c = true := by simp [isSurplus, hc]
  have hblank (c : Char) (hc : isBlank c = true) : isSurplus c = true := by simp [isSurplus, hc]
  have happ : cs = (b₁ ++ s₁) ++ core cs ++ (s₂ ++ b₂) := by
    conv_lhs => rw [hcs]
    simp only [List.append_assoc]
  conv_rhs => rw [happ]
  refine (dropEnds_append ?_ ?_).symm
  · exact List.forall_mem_append.mpr
      ⟨fun c hc => hblank c (hb₁ c hc), fun c hc => hslash c (hs₁ c hc)⟩
  · exact List.forall_mem_append.mpr
      ⟨fun c hc => hslash c (hs₂ c hc), fun c hc => hblank c (hb₂ c hc)⟩

/-- Paths with one spelling differ in the blanks and slashes around them only. -/
theorem kernel_eq_of_normalize_eq {other : String} (h : normalize path = normalize other) :
    kernel path = kernel other := by
  rw [String.ext_iff, toList_kernel, toList_kernel, ← dropEnds_core, normalize_inj.mp h,
    dropEnds_core]

theorem core_eq_kernel_iff : core path.toList = (kernel path).toList ↔ IsFramed path := by
  constructor
  · intro h
    obtain ⟨b₁, s₁, s₂, b₂, hb, hs, -, hcs⟩ := exists_core path.toList
    rw [h] at hcs
    exact ⟨b₁, s₁, s₂, b₂, hb, hs, hcs⟩
  · rintro ⟨b₁, s₁, s₂, b₂, hb, hs, hpath⟩
    rw [hpath]
    exact core_frame (isBare_kernel path) hb hs

theorem normalize_eq_kernel_iff : normalize path = "/" ++ kernel path ↔ IsFramed path := by
  rw [← core_eq_kernel_iff, String.ext_iff, toList_normalize, String.toList_append]
  simp

theorem isFramed_kernel (path : String) : IsFramed (kernel path) := by
  have hkernel : (kernel (kernel path)).toList = (kernel path).toList := by
    rw [toList_kernel, dropEnds_of_isBare (isBare_kernel path)]
  exact ⟨[], [], [], [], nofun, nofun, by simp [hkernel]⟩

theorem normalize_kernel_iff : normalize path = normalize (kernel path) ↔ IsFramed path := by
  have hkernel : core (kernel path).toList = (kernel path).toList := by
    rw [core_eq_kernel_iff.mpr (isFramed_kernel path), toList_kernel (kernel path),
      dropEnds_of_isBare (isBare_kernel path)]
  rw [normalize_inj, hkernel, core_eq_kernel_iff]

theorem IsFramed.not_isLoose (h : IsFramed path) : ¬ IsLoose path := by
  rw [isLoose_iff, core_eq_kernel_iff.mpr h]
  rintro ⟨b, hlast, hb⟩
  have hback := (isBare_kernel path).back b hlast
  simp [isSurplus, hb] at hback

/-- Framed paths have one spelling exactly if they differ in the blanks and slashes around them
only. -/
theorem IsFramed.normalize_eq_iff {other : String} (h : IsFramed path) (h' : IsFramed other) :
    normalize path = normalize other ↔ kernel path = kernel other := by
  refine ⟨kernel_eq_of_normalize_eq, fun hk => ?_⟩
  rw [normalize_eq_kernel_iff.mpr h, normalize_eq_kernel_iff.mpr h', hk]

end Procedoc.Template
