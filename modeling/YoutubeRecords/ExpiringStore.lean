import Mathlib.Logic.Function.Basic

namespace YoutubeRecords.ExpiringStore

structure Item (V : Type) where
  value : V
  expiry : Option Nat

abbrev Db (K V : Type) := K → Option (Item V)

variable {K V : Type} [DecidableEq K]

def Item.expired (now : Nat) (x : Item V) : Bool :=
  match x.expiry with
  | some w => decide (w < now)
  | none => false

/-- An expired item counts as absent, whether or not it was removed yet. -/
def live (now : Nat) (db : Db K V) (k : K) : Option (Item V) :=
  match db k with
  | some x => if x.expired now then none else some x
  | none => none

def get (now : Nat) (db : Db K V) (k : K) : Option V := (live now db k).map Item.value

def existsKey (now : Nat) (db : Db K V) (k : K) : Bool := (live now db k).isSome

/-- A plain write drops the expiry the key had. -/
def set (db : Db K V) (k : K) (v : V) : Db K V := Function.update db k (some ⟨v, none⟩)

/-- A time to live that ends at once removes the key. -/
def expire (now : Nat) (db : Db K V) (k : K) (ttl : Nat) : Db K V :=
  match live now db k with
  | none => db
  | some x =>
    if now + ttl ≤ now then Function.update db k none
    else Function.update db k (some ⟨x.value, some (now + ttl)⟩)

omit [DecidableEq K] in
theorem live_eq_some {now : Nat} {db : Db K V} {k : K} {x : Item V} :
    live now db k = some x ↔ db k = some x ∧ ∀ w, x.expiry = some w → now ≤ w := by
  unfold live
  cases hk : db k with
  | none => simp
  | some y =>
    have hy : y.expired now = false ↔ ∀ w, y.expiry = some w → now ≤ w := by
      cases he : y.expiry with
      | none => simp [Item.expired, he]
      | some w => simp [Item.expired, he]
    by_cases h : y.expired now = true
    · have hn : ¬ ∀ w, y.expiry = some w → now ≤ w := fun hw => by simp [hy.mpr hw] at h
      simp only [h, if_true, reduceCtorEq, Option.some.injEq, false_iff, not_and]
      rintro rfl
      exact hn
    · have hf : y.expired now = false := by simpa using h
      simp only [hf, Bool.false_eq_true, if_false, Option.some.injEq, iff_self_and]
      rintro rfl
      exact hy.mp hf

omit [DecidableEq K] in
theorem live_congr {now : Nat} {db db' : Db K V} {k : K} (h : db k = db' k) :
    live now db k = live now db' k := by
  simp only [live, h]

omit [DecidableEq K] in
theorem get_eq_some {now : Nat} {db : Db K V} {k : K} {v : V} :
    get now db k = some v ↔ ∃ x, live now db k = some x ∧ x.value = v := by
  simp [get]

omit [DecidableEq K] in
/-- As time passes, items only disappear. -/
theorem live_of_later {now d : Nat} {db : Db K V} {k : K} {x : Item V}
    (h : live (now + d) db k = some x) : live now db k = some x := by
  rw [live_eq_some] at h ⊢
  exact ⟨h.1, fun w hw => by have := h.2 w hw; omega⟩

omit [DecidableEq K] in
theorem live_add (now d : Nat) (db : Db K V) (k : K) :
    live (now + d) db k = (live now db k).filter (fun x => !x.expired (now + d)) := by
  cases hl : live (now + d) db k with
  | some x =>
    have hx : x.expired (now + d) = false := by
      cases he : x.expiry with
      | none => simp [Item.expired, he]
      | some w => simpa [Item.expired, he] using (live_eq_some.mp hl).2 w he
    rw [live_of_later hl, Option.filter_some, hx]
    rfl
  | none =>
    cases hn : live now db k with
    | none => rfl
    | some x =>
      have hx : x.expired (now + d) = true := by
        by_contra h
        simp [live, (live_eq_some.mp hn).1, h] at hl
      rw [Option.filter_some, hx]
      rfl

@[simp] theorem set_self (db : Db K V) (k : K) (v : V) : set db k v k = some ⟨v, none⟩ := by
  simp [set]

theorem set_of_ne (db : Db K V) {k l : K} (h : l ≠ k) (v : V) : set db k v l = db l := by
  simp [set, h]

theorem expire_of_ne (now : Nat) (db : Db K V) {k l : K} (h : l ≠ k) (ttl : Nat) :
    expire now db k ttl l = db l := by
  unfold expire
  cases live now db k with
  | none => rfl
  | some x => by_cases ht : now + ttl ≤ now <;> simp [ht, h]

/-- What is alive under a key after an expiry was alive before, with the same
value, and now ends after the given time. -/
theorem live_expire_self {now : Nat} {db : Db K V} {k : K} {ttl : Nat} {x : Item V}
    (h : live now (expire now db k ttl) k = some x) :
    0 < ttl ∧ x.expiry = some (now + ttl) ∧ ∃ y, live now db k = some y ∧ y.value = x.value := by
  cases hl : live now db k with
  | none =>
    simp only [expire, hl] at h
    cases h
  | some y =>
    have hx := (live_eq_some.mp h).1
    by_cases ht : now + ttl ≤ now
    · simp [expire, hl, ht] at hx
    · simp only [expire, hl, ht, if_false, Function.update_self, Option.some.injEq] at hx
      subst hx
      exact ⟨by omega, rfl, y, rfl, rfl⟩

theorem expire_zero_self (now : Nat) (db : Db K V) (k : K) :
    live now (expire now db k 0) k = none := by
  cases h : live now (expire now db k 0) k with
  | none => rfl
  | some x => exact absurd (live_expire_self h).1 (Nat.lt_irrefl 0)

end YoutubeRecords.ExpiringStore
