import Mathlib.Data.List.Sort

namespace YoutubeRecords.StableOrder

variable {α : Type}

section Sorting

variable {r : α → α → Prop} [DecidableRel r] {l : List α}

theorem filter_insertionSort [IsTrans α r] (a : α) :
    (l.insertionSort r).filter (fun x => decide (r a x ∧ r x a)) = l.filter (fun x => decide (r a x ∧ r x a)) := by
  have hr : (l.filter (fun x => decide (r a x ∧ r x a))).Pairwise r := by
    apply List.pairwise_of_forall_mem_list
    intro x hx y hy
    have hxa := of_decide_eq_true (List.mem_filter.mp hx).2
    have hay := of_decide_eq_true (List.mem_filter.mp hy).2
    exact IsTrans.trans _ _ _ hxa.2 hay.1
  have hsub := (List.sublist_insertionSort hr List.filter_sublist).filter (fun x => decide (r a x ∧ r x a))
  rw [List.filter_filter] at hsub
  simp only [Bool.and_self] at hsub
  have hlen := ((List.perm_insertionSort r l).filter (fun x => decide (r a x ∧ r x a))).length_eq
  exact (hsub.eq_of_length hlen.symm).symm

/-- A sorted list respects `R` if the list itself does so between elements
that the sort does not tell apart. -/
theorem pairwise_insertionSort_iff [Std.Total r] [IsTrans α r] {R : α → α → Prop}
    (hR : ∀ a ∈ l, ∀ b ∈ l, ¬ r b a → R a b) :
    (l.insertionSort r).Pairwise R ↔ l.Pairwise (fun a b => r a b → r b a → R a b) := by
  simp only [List.pairwise_iff_forall_sublist]
  constructor
  · intro h a b hab hr _
    exact h (List.pair_sublist_insertionSort hr hab)
  · intro h a b hab
    have hr : r a b := List.pairwise_iff_forall_sublist.mp (List.pairwise_insertionSort r l) hab
    by_cases hr' : r b a
    · have hf := hab.filter (fun x => decide (r a x ∧ r x a))
      have haa : r a a := IsTrans.trans _ _ _ hr hr'
      simp only [List.filter_cons, haa, hr, hr', and_self, decide_true, if_true, List.filter_nil,
        filter_insertionSort] at hf
      exact h (hf.trans List.filter_sublist) hr hr'
    · apply hR a _ b _ hr'
      · exact (List.mem_insertionSort r).mp (hab.subset (by simp))
      · exact (List.mem_insertionSort r).mp (hab.subset (by simp))

end Sorting

section Precedes

variable [DecidableEq α]

def Precedes (l : List α) (a b : α) : Prop := l.find? (fun x => decide (x = a ∨ x = b)) = some a

instance (l : List α) (a b : α) : Decidable (Precedes l a b) :=
  inferInstanceAs (Decidable (l.find? (fun x => decide (x = a ∨ x = b)) = some a))

variable {l : List α} {a b c : α}

theorem precedes_cons_self : Precedes (a :: l) a b := by
  simp [Precedes]

theorem not_precedes_cons (h : a ≠ b) : ¬ Precedes (b :: l) a b := by
  simp [Precedes, h.symm]

theorem precedes_cons_of_ne (ha : c ≠ a) (hb : c ≠ b) : Precedes (c :: l) a b ↔ Precedes l a b := by
  simp [Precedes, ha, hb]

theorem pairwise_not_iff_precedes {S : α → α → Prop} (hl : l.Nodup) :
    l.Pairwise (fun x y => ¬ S y x) ↔ ∀ a ∈ l, ∀ b ∈ l, S a b → Precedes l a b := by
  induction l with
  | nil => simp
  | cons c l ih =>
    obtain ⟨hc, hl⟩ := List.nodup_cons.mp hl
    have hne : ∀ x ∈ l, c ≠ x := fun x hx he => hc (he ▸ hx)
    rw [List.pairwise_cons, ih hl]
    constructor
    · rintro ⟨hfirst, hrest⟩ a ha b hb hab
      obtain rfl | hal := List.mem_cons.mp ha
      · exact precedes_cons_self
      · obtain rfl | hbl := List.mem_cons.mp hb
        · exact absurd hab (hfirst a hal)
        · exact (precedes_cons_of_ne (hne a hal) (hne b hbl)).mpr (hrest a hal b hbl hab)
    · intro h
      constructor
      · intro x hx hxc
        exact not_precedes_cons (hne x hx).symm (h x (List.mem_cons_of_mem c hx) c List.mem_cons_self hxc)
      · intro a ha b hb hab
        exact (precedes_cons_of_ne (hne a ha) (hne b hb)).mp
          (h a (List.mem_cons_of_mem c ha) b (List.mem_cons_of_mem c hb) hab)

theorem mem_congr {l' : List α} (h : ∀ p : α → Bool, l.find? p = l'.find? p) : a ∈ l ↔ a ∈ l' := by
  have key : ∀ l : List α, a ∈ l ↔ l.find? (fun x => decide (x = a)) ≠ none := by
    intro l
    simp
  rw [key, key, h]

theorem precedes_congr {l' : List α} (h : ∀ p : α → Bool, l.find? p = l'.find? p) :
    Precedes l a b ↔ Precedes l' a b := by
  rw [Precedes, Precedes, h]

theorem find_self (h : a ∈ l) : l.find? (fun x => decide (x = a)) = some a := by
  cases hf : l.find? (fun x => decide (x = a)) with
  | none => simpa using List.find?_eq_none.mp hf a h
  | some x =>
    have hx : x = a := by simpa using List.find?_some hf
    rw [hx]

theorem find_filter_pair (p : α → Bool) : (l.filter p).find? (fun x => decide (x = a ∨ x = b)) =
    l.find? (fun x => decide (x = a ∧ p a = true ∨ x = b ∧ p b = true)) := by
  rw [List.find?_filter]
  congr 1
  funext x
  rw [decide_eq_decide, decide_eq_true_iff]
  constructor
  · rintro ⟨hp, rfl | rfl⟩
    · exact .inl ⟨rfl, hp⟩
    · exact .inr ⟨rfl, hp⟩
  · rintro (⟨rfl, hp⟩ | ⟨rfl, hp⟩)
    · exact ⟨hp, .inl rfl⟩
    · exact ⟨hp, .inr rfl⟩

/-- When the elements with a property are moved to the front, they precede the
others, and otherwise the order stays. -/
theorem precedes_parts (p : α → Bool) (ha : a ∈ l) (hb : b ∈ l) (hab : a ≠ b) :
    Precedes (l.filter p ++ l.filter (fun x => !p x)) a b ↔
      p a = true ∧ p b = false ∨ p a = p b ∧ Precedes l a b := by
  have hnone : l.find? (fun _ => false) = none := List.find?_eq_none.mpr fun _ _ => Bool.false_ne_true
  rw [Precedes, Precedes, List.find?_append, find_filter_pair, find_filter_pair]
  cases hpa : p a with
  | true =>
    cases hpb : p b with
    | true => simp [hnone]
    | false => simp [find_self ha]
  | false =>
    cases hpb : p b with
    | true => simp [find_self hb, hab.symm]
    | false => simp [hnone]

end Precedes

end YoutubeRecords.StableOrder
