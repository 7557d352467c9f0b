import Procedoc.Proofs.Rendering.Finishing
import Std.Data.String.ToNat

/-! # Labels on a sheet

No two keys have one label (`Sheet.Tagged.inj`): the number at the end of a label tells keys of one
full name apart, and giving a key its label keeps that up (`Sheet.Tagged.withLabel`). -/
namespace Procedoc
set_option autoImplicit false

/-- The label of a key whose number is given. -/
def labelOf (o : Owner) (side : Side) (number : Nat) : String :=
  o.fullName ++ "-" ++ side.word ++ "__" ++ toString number

theorem getLastD_candidates (o : Owner) (side : Side) (number : Nat) :
    (candidates o side number).getLastD "" = labelOf o side number := rfl

theorem eq_of_cons_eq {a a' d d' : List Char} (hd : '_' ∉ d) (hd' : '_' ∉ d')
    (h : d ++ '_' :: a = d' ++ '_' :: a') : d = d' ∧ a = a' := by
  induction d generalizing d' with
  | nil =>
    cases d' with
    | nil => exact ⟨rfl, (List.cons.inj h).2⟩
    | cons x xs => exact absurd ((List.cons.inj h).1 ▸ List.mem_cons_self ..) hd'
  | cons y ys ih =>
    cases d' with
    | nil => exact absurd ((List.cons.inj h).1 ▸ List.mem_cons_self ..) hd
    | cons x xs =>
      obtain ⟨rfl, htail⟩ := List.cons.inj h
      obtain ⟨rfl, ha⟩ := ih (fun hm => hd (List.mem_cons_of_mem _ hm))
        (fun hm => hd' (List.mem_cons_of_mem _ hm)) htail
      exact ⟨rfl, ha⟩

theorem eq_of_append_eq {a a' d d' : List Char} (hd : '_' ∉ d) (hd' : '_' ∉ d')
    (h : a ++ '_' :: d = a' ++ '_' :: d') : a = a' ∧ d = d' := by
  have hr := congrArg List.reverse h
  rw [List.reverse_append, List.reverse_append, List.reverse_cons, List.reverse_cons,
    List.append_assoc, List.append_assoc, List.singleton_append, List.singleton_append] at hr
  obtain ⟨hdigits, hfront⟩ := eq_of_cons_eq (by simpa using hd) (by simpa using hd') hr
  exact ⟨List.reverse_injective hfront, List.reverse_injective hdigits⟩

theorem toList_labelOf (o : Owner) (side : Side) (number : Nat) :
    (labelOf o side number).toList =
      (o.fullName ++ "-" ++ side.word ++ "_").toList ++ '_' :: Nat.toDigits 10 number := by
  simp [labelOf, toString]

/-- A label tells the full name, the side and the number that it was made of. -/
theorem labelOf_inj {o o' : Owner} {side side' : Side} {m n : Nat}
    (h : labelOf o side m = labelOf o' side' n) :
    o.fullName = o'.fullName ∧ side = side' ∧ m = n := by
  have hchars := congrArg String.toList h
  rw [toList_labelOf, toList_labelOf] at hchars
  obtain ⟨hfront, hdigits⟩ := eq_of_append_eq Nat.underscore_not_in_toDigits
    Nat.underscore_not_in_toDigits hchars
  obtain rfl : side = side' := by
    have hback := congrArg List.reverse hfront
    cases side <;> cases side' <;> first | rfl | simp [Side.word] at hback
  refine ⟨?_, rfl, ?_⟩
  · have hs := String.toList_injective hfront
    simpa [String.append_assoc] using hs
  · refine Nat.repr_injective (String.toList_injective ?_)
    rw [Nat.toList_repr, Nat.toList_repr, hdigits]

namespace Sheet

/-- The label of a key for inputs, if it has one. -/
def label? (s : Sheet) (key : Key) : Option String := s.labels.lookup (key, .input)

/-- How many keys of a full name have a number. -/
def share (numbers : List (Key × Nat)) (fullName : String) : Nat :=
  (numbers.filter fun p => p.1.owner.fullName = fullName).length

/-- Whether each label has the number of its key, no two keys of one full name have one number, and
what has a label may go by it. -/
structure Tagged (s : Sheet) : Prop where
  bounded : ∀ p ∈ s.numbers, p.2 ≤ share s.numbers p.1.owner.fullName
  apart : ∀ p ∈ s.numbers, ∀ q ∈ s.numbers, p.1.owner.fullName = q.1.owner.fullName →
    p.2 = q.2 → p.1 = q.1
  numbered : ∀ key label, s.label? key = some label →
    ∃ n, (key, n) ∈ s.numbers ∧ label = labelOf key.owner .input n
  named : ∀ key label, s.label? key = some label → label ∈ Renaming.namesOf s.names label

theorem tagged_empty : Tagged {} := ⟨nofun, nofun, nofun, nofun⟩

theorem Tagged.inj {s : Sheet} (hs : s.Tagged) {key key' : Key} {label : String}
    (h : s.label? key = some label) (h' : s.label? key' = some label) : key = key' := by
  obtain ⟨m, hm, heq⟩ := hs.numbered key label h
  obtain ⟨n, hn, heq'⟩ := hs.numbered key' label h'
  obtain ⟨hname, -, hmn⟩ := labelOf_inj (heq.symm.trans heq')
  exact hs.apart _ hm _ hn hname hmn

theorem mem_of_lookup {α β : Type} [BEq α] [LawfulBEq α] {l : List (α × β)} {a : α} {b : β}
    (h : l.lookup a = some b) : (a, b) ∈ l := by
  induction l with
  | nil => cases h
  | cons p rest ih =>
    obtain ⟨x, y⟩ := p
    rw [List.lookup_cons] at h
    split at h
    · rename_i heq
      cases h
      rw [eq_of_beq heq]
      exact List.mem_cons_self ..
    · exact List.mem_cons_of_mem _ (ih h)

theorem share_append (numbers : List (Key × Nat)) (p : Key × Nat) (fullName : String) :
    share (numbers ++ [p]) fullName =
      share numbers fullName + if p.1.owner.fullName = fullName then 1 else 0 := by
  rw [share, share, List.filter_append, List.length_append, List.filter_singleton]
  split <;> simp_all

/-! ## Numbers of keys -/

def numbersWith (s : Sheet) (key : Key) : List (Key × Nat) :=
  if (s.numbers.lookup key).isSome then s.numbers else s.numbers ++ [(key, s.numberOf key)]

section Numbers
variable {s : Sheet} {key : Key}

theorem numbersWith_cases (s : Sheet) (key : Key) :
    s.numbersWith key = s.numbers ∧ (key, s.numberOf key) ∈ s.numbers ∨
    s.numbersWith key = s.numbers ++ [(key, s.numberOf key)] ∧
      s.numberOf key = share s.numbers key.owner.fullName + 1 := by
  rw [numbersWith]
  cases hn : s.numbers.lookup key with
  | some n =>
    refine .inl ⟨by simp, ?_⟩
    rw [numberOf, hn]
    exact mem_of_lookup hn
  | none =>
    refine .inr ⟨by simp, ?_⟩
    rw [numberOf, hn]
    rfl

theorem subset_numbersWith : s.numbers ⊆ s.numbersWith key := by
  rcases numbersWith_cases s key with ⟨hn, -⟩ | ⟨hn, -⟩ <;> rw [hn]
  · exact List.Subset.refl _
  · exact List.subset_append_left _ _

theorem mem_numbersWith : (key, s.numberOf key) ∈ s.numbersWith key := by
  rcases numbersWith_cases s key with ⟨hn, hm⟩ | ⟨hn, -⟩ <;> rw [hn]
  · exact hm
  · exact List.mem_append_right _ (List.mem_singleton.mpr rfl)

theorem mem_or_of_mem_numbersWith {p : Key × Nat} (h : p ∈ s.numbersWith key) :
    p ∈ s.numbers ∨ p.1 = key := by
  rcases numbersWith_cases s key with ⟨hn, -⟩ | ⟨hn, -⟩ <;> rw [hn] at h
  · exact .inl h
  · exact (List.mem_append.mp h).imp_right fun h => by rw [List.mem_singleton.mp h]

variable (hbounded : ∀ p ∈ s.numbers, p.2 ≤ share s.numbers p.1.owner.fullName)
include hbounded

/-- The number of a key, old or new, does not go beyond those of its full name. -/
theorem bounded_numbersWith :
    ∀ p ∈ s.numbersWith key, p.2 ≤ share (s.numbersWith key) p.1.owner.fullName := by
  rcases numbersWith_cases s key with ⟨hn, -⟩ | ⟨hn, hnew⟩ <;> rw [hn]
  · exact hbounded
  · intro p hp
    rw [share_append]
    rcases List.mem_append.mp hp with hp | hp
    · exact Nat.le_add_right_of_le (hbounded p hp)
    · rw [List.mem_singleton.mp hp, if_pos rfl, hnew]

theorem apart_numbersWith
    (hapart : ∀ p ∈ s.numbers, ∀ q ∈ s.numbers, p.1.owner.fullName = q.1.owner.fullName →
      p.2 = q.2 → p.1 = q.1) :
    ∀ p ∈ s.numbersWith key, ∀ q ∈ s.numbersWith key,
      p.1.owner.fullName = q.1.owner.fullName → p.2 = q.2 → p.1 = q.1 := by
  rcases numbersWith_cases s key with ⟨hn, -⟩ | ⟨hn, hnew⟩ <;> rw [hn]
  · exact hapart
  -- the new number is above all numbers of the full name
  have habove : ∀ p ∈ s.numbers, p.1.owner.fullName = key.owner.fullName →
      p.2 ≠ s.numberOf key := by
    intro p hp hname heq
    have hle := hbounded p hp
    rw [hname] at hle
    omega
  intro p hp q hq hpq heq
  rcases List.mem_append.mp hp with hp | hp <;> rcases List.mem_append.mp hq with hq | hq
  · exact hapart p hp q hq hpq heq
  · rw [List.mem_singleton.mp hq] at hpq heq
    exact absurd heq (habove p hp hpq)
  · rw [List.mem_singleton.mp hp] at hpq heq
    exact absurd heq.symm (habove q hq hpq.symm)
  · rw [List.mem_singleton.mp hp, List.mem_singleton.mp hq]

end Numbers

/-! ## Labels of keys -/

theorem withLabel_of_some {s : Sheet} {key : Key} {side : Side} {label : String}
    (h : s.labels.lookup (key, side) = some label) : s.withLabel key side = (label, s) := by
  rw [withLabel, h]

theorem withLabel_of_none {s : Sheet} {key : Key} {side : Side}
    (h : s.labels.lookup (key, side) = none) : s.withLabel key side =
      (labelOf key.owner side (s.numberOf key), { s with
        numbers := s.numbersWith key
        labels := ((key, side), labelOf key.owner side (s.numberOf key)) :: s.labels
        names := Entries.put s.names (labelOf key.owner side (s.numberOf key))
          (candidates key.owner side (s.numberOf key)) }) := by
  rw [withLabel, h]
  rfl

/-- What giving a new label to a key leaves. -/
structure Labels (s s' : Sheet) (key : Key) (label : String) : Prop where
  own : s'.label? key = some label
  other : ∀ k, k ≠ key → s'.label? k = s.label? k
  definitions : s'.definitions = s.definitions
  broken : s'.broken = s.broken

theorem labels_withLabel {s : Sheet} {key : Key} (h : s.label? key = none) :
    Labels s (s.withLabel key .input).2 key (s.withLabel key .input).1 := by
  rw [withLabel_of_none h]
  refine ⟨?_, fun k hk => ?_, rfl, rfl⟩
  · simp [label?]
  · rw [label?, label?, List.lookup_cons]
    have hne : ((k, Side.input) == (key, Side.input)) = false := by simpa using hk
    rw [hne]

theorem Tagged.withLabel {s : Sheet} (hs : s.Tagged) (key : Key) :
    (s.withLabel key .input).2.Tagged := by
  cases h : s.label? key with
  | some label =>
    rw [withLabel_of_some h]
    exact hs
  | none =>
    have hlabels := labels_withLabel h
    rw [withLabel_of_none h] at hlabels ⊢
    refine ⟨bounded_numbersWith hs.bounded, apart_numbersWith hs.bounded hs.apart,
      fun k label hk => ?_, fun k label hk => ?_⟩
    · by_cases hkey : k = key
      · subst hkey
        rw [hlabels.own] at hk
        cases hk
        exact ⟨_, mem_numbersWith, rfl⟩
      · rw [hlabels.other k hkey] at hk
        obtain ⟨n, hn, heq⟩ := hs.numbered k label hk
        exact ⟨n, subset_numbersWith hn, heq⟩
    · rw [Renaming.namesOf, Entries.get?_put]
      split
      · rename_i heq
        rw [← heq, ← getLastD_candidates]
        simp [candidates]
      · rename_i hne
        by_cases hkey : k = key
        · subst hkey
          rw [hlabels.own] at hk
          exact absurd (Option.some.inj hk) hne
        · rw [hlabels.other k hkey] at hk
          exact hs.named k label hk

end Sheet
end Procedoc
