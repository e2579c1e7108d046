import Mathlib.Data.List.Nodup

namespace YoutubeRecords.KeyedList

variable {α κ : Type} [DecidableEq κ]

/-- Replace the element that has the key of `x`, or append `x`. The other
elements keep their places. -/
def upsert (key : α → κ) (x : α) : List α → List α
  | [] => [x]
  | y :: l => if key y = key x then x :: l else y :: upsert key x l

def lookup (key : α → κ) (k : κ) (l : List α) : Option α := l.find? (fun y => decide (key y = k))

variable {key : α → κ} {k : κ} {x y : α} {l : List α}

theorem key_of_lookup (h : lookup key k l = some x) : key x = k := by
  simpa using List.find?_some h

theorem mem_of_lookup (h : lookup key k l = some x) : x ∈ l := List.mem_of_find?_eq_some h

theorem lookup_eq_none : lookup key k l = none ↔ k ∉ l.map key := by
  simp [lookup, List.find?_eq_none]

theorem lookup_of_find {p : κ → Bool} (h : l.find? (fun y => p (key y)) = some x) :
    lookup key (key x) l = some x := by
  induction l with
  | nil => cases h
  | cons y l ih =>
    by_cases hy : p (key y) = true
    · simp only [List.find?_cons, hy] at h
      obtain rfl := Option.some.inj h
      simp [lookup]
    · simp only [List.find?_cons, hy] at h
      have hne : key y ≠ key x := fun he => hy (by simpa [he] using List.find?_some h)
      simpa [lookup, hne] using ih h

@[simp] theorem lookup_cons_self (x : α) (l : List α) : lookup key (key x) (x :: l) = some x := by
  simp [lookup]

theorem lookup_cons_of_ne (h : key y ≠ k) : lookup key k (y :: l) = lookup key k l := by
  simp [lookup, h]

@[simp] theorem lookup_upsert_self (key : α → κ) (x : α) (l : List α) :
    lookup key (key x) (upsert key x l) = some x := by
  induction l with
  | nil => simp [upsert]
  | cons y l ih =>
    by_cases h : key y = key x
    · simp [upsert, h]
    · simp only [upsert, h, if_false, lookup_cons_of_ne h, ih]

theorem lookup_upsert_of_ne (h : key x ≠ k) :
    lookup key k (upsert key x l) = lookup key k l := by
  induction l with
  | nil => simp [upsert, lookup, h]
  | cons y l ih =>
    by_cases hy : key y = key x
    · rw [upsert, if_pos hy, lookup_cons_of_ne h, lookup_cons_of_ne (hy ▸ h)]
    · rw [upsert, if_neg hy]
      by_cases hk : key y = k
      · subst hk; simp
      · rw [lookup_cons_of_ne hk, lookup_cons_of_ne hk, ih]

theorem mem_of_mem_upsert (h : y ∈ upsert key x l) : y = x ∨ y ∈ l := by
  induction l with
  | nil => exact .inl (by simpa [upsert] using h)
  | cons z l ih =>
    by_cases hz : key z = key x
    · rw [upsert, if_pos hz] at h
      exact (List.mem_cons.mp h).imp id (List.mem_cons_of_mem z)
    · rw [upsert, if_neg hz] at h
      obtain rfl | h := List.mem_cons.mp h
      · exact .inr List.mem_cons_self
      · exact (ih h).imp id (List.mem_cons_of_mem z)

theorem map_key_upsert (key : α → κ) (x : α) (l : List α) :
    (upsert key x l).map key = if key x ∈ l.map key then l.map key else l.map key ++ [key x] := by
  induction l with
  | nil => simp [upsert]
  | cons y l ih =>
    by_cases h : key y = key x
    · simp [upsert, h]
    · have hx : key x ≠ key y := Ne.symm h
      simp only [upsert, h, if_false, List.map_cons, ih, List.mem_cons, hx, false_or]
      by_cases hm : key x ∈ l.map key <;> simp [hm]

theorem map_upsert (key : α → κ) (f : α → α) (hf : ∀ y, key (f y) = key y) (x : α) (l : List α) :
    (upsert key x l).map f = upsert key (f x) (l.map f) := by
  induction l with
  | nil => rfl
  | cons y l ih =>
    by_cases h : key y = key x
    · simp [upsert, h, hf]
    · simp [upsert, h, hf, ih]

theorem forall₂_upsert {r : α → α → Prop} (hr : ∀ a b, r a b → key a = key b) {y' : α} {l' : List α}
    (hl : List.Forall₂ r l l') (hy : r y y') : List.Forall₂ r (upsert key y l) (upsert key y' l') := by
  induction hl with
  | nil => exact .cons hy .nil
  | @cons a b l l' hab hl ih =>
    by_cases h : key a = key y
    · have h' : key b = key y' := by rw [← hr a b hab, h, hr y y' hy]
      simp only [upsert, h, h', if_true]
      exact .cons hy hl
    · have h' : ¬ key b = key y' := by rwa [← hr a b hab, ← hr y y' hy]
      simp only [upsert, h, h', if_false]
      exact .cons hab ih

theorem nodup_upsert (h : (l.map key).Nodup) : ((upsert key x l).map key).Nodup := by
  rw [map_key_upsert]
  by_cases hm : key x ∈ l.map key
  · simpa only [hm, if_true] using h
  · simp only [hm, if_false]
    exact List.nodup_append'.mpr ⟨h, List.nodup_singleton _, by simpa using hm⟩

theorem lookup_of_mem (h : (l.map key).Nodup) (hx : x ∈ l) : lookup key (key x) l = some x := by
  induction l with
  | nil => simp at hx
  | cons y l ih =>
    rw [List.map_cons, List.nodup_cons] at h
    obtain rfl | hx := List.mem_cons.mp hx
    · simp
    · have hy : key y ≠ key x := fun he => h.1 (he ▸ List.mem_map_of_mem hx)
      rw [lookup_cons_of_ne hy, ih h.2 hx]

theorem upsert_of_not_mem (h : key x ∉ l.map key) : upsert key x l = l ++ [x] := by
  induction l with
  | nil => rfl
  | cons y l ih =>
    rw [List.map_cons, List.mem_cons, not_or] at h
    rw [upsert, if_neg (Ne.symm h.1), ih h.2]
    rfl

theorem upsert_split {l₁ l₂ : List α} (h : ((l₁ ++ y :: l₂).map key).Nodup) (hy : key y = key x) :
    upsert key x (l₁ ++ y :: l₂) = l₁ ++ x :: l₂ := by
  induction l₁ with
  | nil => rw [List.nil_append, upsert, if_pos hy, List.nil_append]
  | cons z l₁ ih =>
    rw [List.cons_append, List.map_cons, List.nodup_cons] at h
    have hz : key z ≠ key x := by
      intro he
      refine h.1 ?_
      rw [he, ← hy]
      exact List.mem_map_of_mem (by simp)
    rw [List.cons_append, upsert, if_neg hz, ih h.2, List.cons_append]

end YoutubeRecords.KeyedList
