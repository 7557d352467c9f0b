import Mathlib.Data.List.DropRight
import Procedoc.Template

/-! # What is left without the ends

`Text.dropEnds` leaves a text that neither begins nor ends with a character of the class, and there
is only one such text around which the given one has characters of the class: `dropEnds_eq_iff`.
The core of a path, which drops blanks first and slashes then, is read through it twice.
-/

namespace Procedoc
set_option autoImplicit false

namespace Text

variable {p : Char → Bool} {cs m u v : List Char}

/-- Neither at the front nor at the end stands a character of the class. -/
structure IsBare (p : Char → Bool) (cs : List Char) : Prop where
  front : ∀ c, cs.head? = some c → p c = false
  back : ∀ c, cs.getLast? = some c → p c = false

theorem IsBare.mono {q : Char → Bool} (h : IsBare p cs) (hq : ∀ c, q c = true → p c = true) :
    IsBare q cs := by
  have hfalse (c : Char) (hc : p c = false) : q c = false := by
    cases hqc : q c with
    | false => rfl
    | true => exact absurd (hq c hqc) (by simp [hc])
  exact ⟨fun c hc => hfalse c (h.front c hc), fun c hc => hfalse c (h.back c hc)⟩

theorem IsBare.surround (h : IsBare p m) (hu : ∀ c ∈ u, p c = false)
    (hv : ∀ c ∈ v, p c = false) : IsBare p (u ++ m ++ v) := by
  constructor
  · intro c hc
    rw [List.head?_append, List.head?_append, Option.or_eq_some_iff, Option.or_eq_some_iff] at hc
    rcases hc with (hc | ⟨-, hc⟩) | ⟨-, hc⟩
    · exact hu c (List.mem_of_head? hc)
    · exact h.front c hc
    · exact hv c (List.mem_of_head? hc)
  · intro c hc
    rw [List.getLast?_append, List.getLast?_append, Option.or_eq_some_iff,
      Option.or_eq_some_iff] at hc
    rcases hc with hc | ⟨-, hc | ⟨-, hc⟩⟩
    · exact hv c (List.mem_of_getLast? hc)
    · exact h.back c hc
    · exact hu c (List.mem_of_getLast? hc)

theorem isBare_dropEnds (p : Char → Bool) (cs : List Char) : IsBare p (dropEnds p cs) := by
  constructor
  · intro c hc
    -- what is left is a beginning of the text without its front
    obtain ⟨rest, hrest⟩ := List.rdropWhile_prefix p (cs.dropWhile p)
    have hhead : (cs.dropWhile p).head? = some c := by
      rw [← hrest, List.head?_append]
      exact Option.or_eq_some_iff.mpr (.inl hc)
    have hnot := List.head?_dropWhile_not p cs
    rw [hhead] at hnot
    exact hnot
  · intro c hc
    obtain ⟨hne, rfl⟩ := List.mem_getLast?_eq_getLast hc
    exact Bool.eq_false_iff.mpr (List.rdropWhile_last_not p (cs.dropWhile p) hne)

/-- Around what is left stand characters of the class, and nothing else. -/
theorem exists_dropEnds (p : Char → Bool) (cs : List Char) :
    ∃ u v, (∀ c ∈ u, p c = true) ∧ (∀ c ∈ v, p c = true) ∧ cs = u ++ dropEnds p cs ++ v := by
  refine ⟨cs.takeWhile p, (cs.dropWhile p).rtakeWhile p, fun c => List.mem_takeWhile_imp,
    fun c => List.mem_rtakeWhile_imp, ?_⟩
  calc cs = cs.takeWhile p ++ cs.dropWhile p := (List.takeWhile_append_dropWhile).symm
    _ = cs.takeWhile p ++ ((cs.dropWhile p).rdropWhile p ++ (cs.dropWhile p).rtakeWhile p) := by
      rw [List.rdropWhile_append_rtakeWhile]
    _ = _ := (List.append_assoc ..).symm

theorem dropEnds_surround (hm : IsBare p m) (hu : ∀ c ∈ u, p c = true)
    (hv : ∀ c ∈ v, p c = true) : dropEnds p (u ++ m ++ v) = m := by
  have hback : m.reverse.dropWhile p = m.reverse := by
    rw [List.dropWhile_eq_self_iff]
    intro hlen hp
    have hlast : m.getLast? = some (m.reverse[0]) := by
      rw [← List.head?_reverse, List.head?_eq_getElem?, List.getElem?_eq_getElem hlen]
    rw [hm.back _ hlast] at hp
    cases hp
  rw [dropEnds, List.append_assoc, List.dropWhile_append_of_pos hu]
  cases m with
  | nil =>
    rw [List.nil_append, List.dropWhile_eq_nil_iff.mpr hv]
    rfl
  | cons c rest =>
    have hc : ¬ p c = true := by simp [hm.front c rfl]
    rw [List.cons_append, List.dropWhile_cons_of_neg hc, ← List.cons_append, dropEnd,
      List.reverse_append, List.dropWhile_append_of_pos (by simpa using hv), hback,
      List.reverse_reverse]

/-- What is left without the ends is the one bare text with characters of the class around it. -/
theorem dropEnds_eq_iff : dropEnds p cs = m ↔
    IsBare p m ∧ ∃ u v, (∀ c ∈ u, p c = true) ∧ (∀ c ∈ v, p c = true) ∧ cs = u ++ m ++ v := by
  constructor
  · rintro rfl
    exact ⟨isBare_dropEnds p cs, exists_dropEnds p cs⟩
  · rintro ⟨hm, u, v, hu, hv, rfl⟩
    exact dropEnds_surround hm hu hv

theorem dropEnds_of_isBare (h : IsBare p cs) : dropEnds p cs = cs :=
  dropEnds_eq_iff.mpr ⟨h, [], [], nofun, nofun, by simp⟩

theorem dropEnds_append (hu : ∀ c ∈ u, p c = true) (hv : ∀ c ∈ v, p c = true) :
    dropEnds p (u ++ cs ++ v) = dropEnds p cs := by
  obtain ⟨u', v', hu', hv', hcs⟩ := exists_dropEnds p cs
  rw [dropEnds_eq_iff]
  refine ⟨isBare_dropEnds p cs, u ++ u', v' ++ v, ?_, ?_, ?_⟩
  · exact List.forall_mem_append.mpr ⟨hu, hu'⟩
  · exact List.forall_mem_append.mpr ⟨hv', hv⟩
  · conv_lhs => rw [hcs]
    simp only [List.append_assoc]

theorem dropEnds_concat {c : Char} (h : p c = false) (cs : List Char) :
    dropEnds p (cs ++ [c]) = cs.dropWhile p ++ [c] := by
  have hnot : ¬ p c = true := by simp [h]
  have hfront : (cs ++ [c]).dropWhile p = cs.dropWhile p ++ [c] := by
    rw [List.dropWhile_append, List.dropWhile_cons_of_neg hnot]
    split
    · next hempty => rw [List.isEmpty_iff.mp hempty, List.nil_append]
    · rfl
  rw [dropEnds, hfront]
  exact List.rdropWhile_concat_neg p _ c hnot

theorem length_dropEnds_lt (h : ¬ IsBare p cs) : (dropEnds p cs).length < cs.length := by
  obtain ⟨u, v, -, -, hcs⟩ := exists_dropEnds p cs
  have hlen : cs.length = u.length + (dropEnds p cs).length + v.length := by
    conv_lhs => rw [hcs]
    rw [List.length_append, List.length_append]
  by_cases huv : u = [] ∧ v = []
  · obtain ⟨rfl, rfl⟩ := huv
    rw [List.nil_append, List.append_nil] at hcs
    rw [hcs] at h
    exact absurd (isBare_dropEnds p cs) h
  · have hpos : 0 < u.length + v.length := by
      rw [← List.length_append, List.length_pos_iff]
      simpa using huv
    omega

end Text
end Procedoc
