import YoutubeRecords.ProgramPool

namespace YoutubeRecords.Lockstep

open CommandProgram ProgramPool

structure Translation (C : Type) (R : C → Type) where
  cmd : C → C
  res : (c : C) → R c → R (cmd c)
  valid : (c : C) → R c → Prop

variable {C : Type} {R : C → Type} {E α β S T : Type}

/-- The second program makes the translated calls of the first one, as long as
it gets the translated answers, and their outcomes are related by `A`. -/
def Follows (τ : Translation C R) (A : Except E α → Except E α → Prop) :
    Program C R E α → Program C R E α → Prop
  | .ret a, q => ∃ b, q = .ret b ∧ A (.ok a) (.ok b)
  | .raise e, q => ∃ e', q = .raise e' ∧ A (.error e) (.error e')
  | .call c k, q => ∃ k', q = .call (τ.cmd c) k' ∧ ∀ r, τ.valid c r → Follows τ A (k r) (k' (τ.res c r))

variable {τ : Translation C R} {A : Except E α → Except E α → Prop} {B : Except E β → Except E β → Prop}

theorem follows_ret {a b : α} (h : A (.ok a) (.ok b)) :
    Follows τ A (.ret a : Program C R E α) (.ret b) :=
  ⟨b, rfl, h⟩

theorem follows_raise {e e' : E} (h : A (.error e) (.error e')) :
    Follows τ A (.raise e : Program C R E α) (.raise e') :=
  ⟨e', rfl, h⟩

theorem follows_call {c : C} {k : R c → Program C R E α} {k' : R (τ.cmd c) → Program C R E α}
    (h : ∀ r, τ.valid c r → Follows τ A (k r) (k' (τ.res c r))) :
    Follows τ A (.call c k) (.call (τ.cmd c) k') :=
  ⟨k', rfl, h⟩

theorem follows_ite {c : Prop} [Decidable c] {p q p' q' : Program C R E α} (ht : c → Follows τ A p q)
    (hf : ¬ c → Follows τ A p' q') : Follows τ A (if c then p else p') (if c then q else q') := by
  by_cases h : c
  · simpa only [if_pos h] using ht h
  · simpa only [if_neg h] using hf h

theorem Follows.bind {p q : Program C R E α} {f g : α → Program C R E β} (h : Follows τ A p q)
    (hf : ∀ a b, A (.ok a) (.ok b) → Follows τ B (f a) (g b))
    (he : ∀ e e', A (.error e) (.error e') → B (.error e) (.error e')) :
    Follows τ B (p >>= f) (q >>= g) := by
  induction p generalizing q with
  | ret a =>
    obtain ⟨b, rfl, hab⟩ := h
    exact hf a b hab
  | raise e =>
    obtain ⟨e', rfl, hee⟩ := h
    exact ⟨e', rfl, he e e' hee⟩
  | call c k ih =>
    obtain ⟨k', rfl, hk⟩ := h
    exact ⟨fun r => k' r >>= g, rfl, fun r hr => ih r (hk r hr)⟩

theorem Follows.bind_eq {p q : Program C R E α} {f g : α → Program C R E β} (h : Follows τ Eq p q)
    (hf : ∀ a, Follows τ B (f a) (g a)) (he : ∀ e, B (.error e) (.error e)) :
    Follows τ B (p >>= f) (q >>= g) := by
  refine h.bind (fun a b hab => ?_) fun e e' hee => ?_
  · obtain rfl := Except.ok.inj hab
    exact hf a
  · obtain rfl := Except.error.inj hee
    exact he e

/-- The machine answers a translated command on the image of a store with the
translated answer, and leaves the image of the store. -/
structure Commutes (M : Machine C R S T) (τ : Translation C R) (η : S → S) : Prop where
  valid : ∀ c s, τ.valid c (M.exec c s).1
  exec : ∀ c s, M.exec (τ.cmd c) (η s) = (τ.res c (M.exec c s).1, η (M.exec c s).2)
  env : ∀ t s, M.env t (η s) = η (M.env t s)

structure Paired (τ : Translation C R) (η : S → S) (A : Nat → Except E α → Except E α → Prop)
    (P P' : Pool C R E α S) : Prop where
  store : P'.store = η P.store
  procs : ∀ i, Follows τ (A i) (P.procs i) (P'.procs i)

variable {M : Machine C R S T} {η : S → S} {D : Nat → Except E α → Except E α → Prop} {P P' : Pool C R E α S}

theorem Paired.update (h : Paired τ η D P P') {i : Nat} {p q : Program C R E α} (hp : Follows τ (D i) p q) (j : Nat) :
    Follows τ (D j) (Function.update P.procs i p j) (Function.update P'.procs i q j) := by
  by_cases hj : j = i
  · subst hj
    simpa only [Function.update_self] using hp
  · simpa only [Function.update_of_ne hj] using h.procs j

theorem Paired.move (h : Paired τ η D P P') (hM : Commutes M τ η) (hD : ∀ i e, D i (.error e) (.error e))
    (m : Move E T) : Paired τ η D (P.move M m) (P'.move M m) := by
  cases m with
  | env t => exact ⟨(congrArg (M.env t) h.store).trans (hM.env t P.store), h.procs⟩
  | go i =>
    have hi := h.procs i
    cases hp : P.procs i with
    | ret a =>
      rw [hp] at hi
      obtain ⟨b, hb, -⟩ := hi
      simpa only [Pool.move, hp, hb] using h
    | raise e =>
      rw [hp] at hi
      obtain ⟨e', he, -⟩ := hi
      simpa only [Pool.move, hp, he] using h
    | call c k =>
      rw [hp] at hi
      obtain ⟨k', hk', hk⟩ := hi
      have hx := hM.exec c P.store
      rw [← h.store] at hx
      rw [move_go hp, move_go hk']
      refine ⟨by rw [Pool.call, hx]; rfl, ?_⟩
      have hres : (M.exec (τ.cmd c) P'.store).1 = τ.res c (M.exec c P.store).1 := congrArg Prod.fst hx
      have hnext := hk _ (hM.valid c P.store)
      rw [← hres] at hnext
      exact h.update hnext
  | stop i e =>
    have hi := h.procs i
    cases hp : P.procs i with
    | ret a =>
      rw [hp] at hi
      obtain ⟨b, hb, -⟩ := hi
      simpa only [Pool.move, hp, hb] using h
    | raise e =>
      rw [hp] at hi
      obtain ⟨e', he, -⟩ := hi
      simpa only [Pool.move, hp, he] using h
    | call c k =>
      rw [hp] at hi
      obtain ⟨k', hk', -⟩ := hi
      simp only [Pool.move, hp, hk']
      exact ⟨h.store, h.update (follows_raise (hD i e))⟩

/-- The same schedule keeps two pools paired. -/
theorem Paired.moves (h : Paired τ η D P P') (hM : Commutes M τ η) (hD : ∀ i e, D i (.error e) (.error e))
    (ms : List (Move E T)) :
    Paired τ η D (ms.foldl (fun Q m => Q.move M m) P) (ms.foldl (fun Q m => Q.move M m) P') := by
  induction ms generalizing P P' with
  | nil => exact h
  | cons m ms ih => exact ih (h.move hM hD m)

end YoutubeRecords.Lockstep
