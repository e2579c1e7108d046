import YoutubeRecords.KeyedList

namespace YoutubeRecords.Documents

/-- A collection that gives each inserted document a new identifier. -/
structure Collection (D : Type) where
  docs : List (Nat × D)
  next : Nat
  bounded : ∀ x ∈ docs, x.1 < next
  nodup : (docs.map Prod.fst).Nodup

variable {D : Type}

def empty : Collection D := ⟨[], 0, by simp, by simp⟩

def insert (c : Collection D) (d : D) : Collection D where
  docs := c.docs ++ [(c.next, d)]
  next := c.next + 1
  bounded := by
    intro x hx
    obtain hx | hx := List.mem_append.mp hx
    · exact Nat.lt_succ_of_lt (c.bounded x hx)
    · obtain rfl := List.mem_singleton.mp hx
      exact Nat.lt_succ_self _
  nodup := by
    rw [List.map_append]
    refine List.nodup_append'.mpr ⟨c.nodup, List.nodup_singleton _, ?_⟩
    intro n hn hn'
    obtain ⟨x, hx, rfl⟩ := List.mem_map.mp hn
    have he : x.1 = c.next := by simpa using hn'
    have hb := c.bounded x hx
    omega

def replace (c : Collection D) (id : Nat) (d : D) : Collection D where
  docs := KeyedList.upsert Prod.fst (id, d) c.docs
  next := max c.next (id + 1)
  bounded := by
    intro x hx
    obtain rfl | hx := KeyedList.mem_of_mem_upsert hx
    · exact Nat.lt_of_lt_of_le (Nat.lt_succ_self _) (Nat.le_max_right _ _)
    · exact Nat.lt_of_lt_of_le (c.bounded x hx) (Nat.le_max_left _ _)
  nodup := KeyedList.nodup_upsert c.nodup

def first (c : Collection D) (p : D → Bool) : Option (Nat × D) := c.docs.find? (fun x => p x.2)

def matching (c : Collection D) (p : D → Bool) : List D := (c.docs.map Prod.snd).filter p

variable {c : Collection D} {p : D → Bool} {id : Nat} {d e : D}

theorem mem_matching : d ∈ matching c p ↔ (∃ id, (id, d) ∈ c.docs) ∧ p d = true := by
  simp [matching]

theorem first_eq_some (h : first c p = some (id, d)) : (id, d) ∈ c.docs ∧ p d = true := by
  have hp := List.find?_some h
  exact ⟨List.mem_of_find?_eq_some h, hp⟩

theorem first_eq_none : first c p = none ↔ matching c p = [] := by
  simp only [first, matching, List.find?_eq_none, List.filter_eq_nil_iff, List.mem_map]
  constructor
  · rintro h d ⟨x, hx, rfl⟩
    exact h x hx
  · exact fun h x hx => h x.2 ⟨x, hx, rfl⟩

theorem matching_insert (c : Collection D) (p : D → Bool) (d : D) :
    matching (insert c d) p = matching c p ++ if p d then [d] else [] := by
  by_cases h : p d <;> simp [matching, insert, h]

theorem length_matching_insert (h : p d = true → matching c p = []) (hl : (matching c p).length ≤ 1) :
    (matching (insert c d) p).length ≤ 1 := by
  rw [matching_insert]
  by_cases hd : p d = true
  · simp [h hd, hd]
  · simpa [hd] using hl

theorem mem_insert {x : Nat × D} : x ∈ (insert c d).docs ↔ x ∈ c.docs ∨ x = (c.next, d) := by
  simp [insert]

theorem replace_docs (h : (id, e) ∈ c.docs) (d : D) :
    ∃ l₁ l₂, c.docs = l₁ ++ (id, e) :: l₂ ∧ (replace c id d).docs = l₁ ++ (id, d) :: l₂ := by
  obtain ⟨l₁, l₂, hl⟩ := List.append_of_mem h
  refine ⟨l₁, l₂, hl, ?_⟩
  change KeyedList.upsert Prod.fst (id, d) c.docs = _
  have hn := c.nodup
  rw [hl] at hn ⊢
  exact KeyedList.upsert_split hn rfl

theorem matching_replace_of_not (h : (id, e) ∈ c.docs) (he : p e = false) (hd : p d = false) :
    matching (replace c id d) p = matching c p := by
  obtain ⟨l₁, l₂, hl, hr⟩ := replace_docs h d
  simp [matching, hl, hr, he, hd]

theorem length_matching_replace (h : (id, e) ∈ c.docs) (hp : p e = p d) :
    (matching (replace c id d) p).length = (matching c p).length := by
  obtain ⟨l₁, l₂, hl, hr⟩ := replace_docs h d
  by_cases hd : p d = true
  · simp [matching, hl, hr, hd, hp.trans hd]
  · have hd' : p d = false := by simpa using hd
    simp [matching, hl, hr, hd', hp.trans hd']

theorem mem_of_mem_replace {x : Nat × D} (hx : x ∈ (replace c id d).docs) :
    x = (id, d) ∨ x ∈ c.docs :=
  KeyedList.mem_of_mem_upsert hx

theorem mem_replace_of_ne {x : Nat × D} (hx : x ∈ c.docs) (hne : x.1 ≠ id) (h : (id, e) ∈ c.docs) :
    x ∈ (replace c id d).docs := by
  obtain ⟨l₁, l₂, hl, hr⟩ := replace_docs h d
  rw [hl, List.mem_append, List.mem_cons] at hx
  rw [hr, List.mem_append, List.mem_cons]
  obtain hx | rfl | hx := hx
  · exact .inl hx
  · exact absurd rfl hne
  · exact .inr (.inr hx)

theorem mem_replace_self (h : (id, e) ∈ c.docs) : (id, d) ∈ (replace c id d).docs := by
  obtain ⟨l₁, l₂, -, hr⟩ := replace_docs h d
  rw [hr]
  simp

theorem first_insert (c : Collection D) (p : D → Bool) (d : D) :
    first (insert c d) p = (first c p).or (if p d then some (c.next, d) else none) := by
  have hd : [(c.next, d)].find? (fun x => p x.2) = if p d then some (c.next, d) else none := by
    by_cases h : p d <;> simp [h]
  rw [first, insert, List.find?_append, hd, first]

/-- The first match is replaced where it stands. -/
theorem replace_first (h : first c p = some (id, e)) (d : D) :
    ∃ l₁ l₂, c.docs = l₁ ++ (id, e) :: l₂ ∧ (replace c id d).docs = l₁ ++ (id, d) :: l₂ ∧ p e = true ∧
      ∀ x ∈ l₁, p x.2 = false := by
  obtain ⟨hp, l₁, l₂, hl, hn⟩ := List.find?_eq_some_iff_append.mp h
  refine ⟨l₁, l₂, hl, ?_, hp, fun x hx => by simpa using hn x hx⟩
  change KeyedList.upsert Prod.fst (id, d) c.docs = _
  have hnodup := c.nodup
  rw [hl] at hnodup ⊢
  exact KeyedList.upsert_split hnodup rfl

theorem first_replace_self (h : first c p = some (id, e)) (hd : p d = true) :
    first (replace c id d) p = some (id, d) := by
  obtain ⟨l₁, l₂, -, hr, -, hn⟩ := replace_first h d
  exact List.find?_eq_some_iff_append.mpr ⟨hd, l₁, l₂, hr, fun x hx => by simp [hn x hx]⟩

theorem matching_replace_self (h : first c p = some (id, e)) (hd : p d = true) :
    matching (replace c id d) p = d :: (matching c p).tail := by
  obtain ⟨l₁, l₂, hl, hr, he, hn⟩ := replace_first h d
  have hnil : (l₁.map Prod.snd).filter p = [] := by
    rw [List.filter_eq_nil_iff]
    intro y hy
    obtain ⟨x, hx, rfl⟩ := List.mem_map.mp hy
    simp [hn x hx]
  simp [matching, hl, hr, hnil, he, hd]

theorem first_replace_of_not (h : (id, e) ∈ c.docs) (he : p e = false) (hd : p d = false) :
    first (replace c id d) p = first c p := by
  obtain ⟨l₁, l₂, hl, hr⟩ := replace_docs h d
  simp [first, hl, hr, he, hd]

section Map

variable (f : D → D)

def map (c : Collection D) : Collection D where
  docs := c.docs.map (fun x => (x.1, f x.2))
  next := c.next
  bounded := by
    intro x hx
    obtain ⟨y, hy, rfl⟩ := List.mem_map.mp hx
    exact c.bounded y hy
  nodup := by
    rw [List.map_map]
    exact c.nodup

theorem ext {c e : Collection D} (hd : c.docs = e.docs) (hn : c.next = e.next) : c = e := by
  cases c
  cases e
  congr

theorem map_insert (c : Collection D) (d : D) : map f (insert c d) = insert (map f c) (f d) := by
  apply ext
  · simp [map, insert]
  · rfl

theorem map_replace (c : Collection D) (id : Nat) (d : D) :
    map f (replace c id d) = replace (map f c) id (f d) := by
  apply ext
  · exact KeyedList.map_upsert Prod.fst (fun x : Nat × D => (x.1, f x.2)) (fun _ => rfl) (id, d) c.docs
  · rfl

variable {f} {q : D → Bool}

theorem first_map (h : ∀ d, q (f d) = p d) : first (map f c) q = (first c p).map (fun x => (x.1, f x.2)) := by
  simp only [first, map, List.find?_map, Function.comp_def, h]

theorem matching_map (h : ∀ d, q (f d) = p d) : matching (map f c) q = (matching c p).map f := by
  have hf : (fun x : Nat × D => q (f x.2)) = fun x => p x.2 := funext fun x => h x.2
  simp only [matching, map, List.map_map, List.filter_map, Function.comp_def, hf]

end Map

end YoutubeRecords.Documents
