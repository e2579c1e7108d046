import YoutubeRecords.ProgramPool

namespace YoutubeRecords.DataRefinement

open CommandProgram ProgramPool

variable {C : Type} {R : C → Type} {E α S S' T : Type}

/-- On the image of this store, the second machine answers every command as
the first one does on the store itself, and it leads to images again. -/
structure Imitates (M : Machine C R S T) (M' : Machine C R S' T) (f : S → S') (s : S) : Prop where
  exec : ∀ c, M'.exec c (f s) = ((M.exec c s).1, f (M.exec c s).2)
  env : ∀ t, M'.env t (f s) = f (M.env t s)

def image (f : S → S') (P : Pool C R E α S) : Pool C R E α S' :=
  ⟨P.procs, f P.store, P.trace.map fun e => ⟨e.pid, e.call, f e.before⟩⟩

variable {M : Machine C R S T} {M' : Machine C R S' T} {f : S → S'} {P : Pool C R E α S}

theorem image_move (h : Imitates M M' f P.store) (m : Move E T) :
    (image f P).move M' m = image f (P.move M m) := by
  have hcall : ∀ i c k, (image f P).call M' i c k = image f (P.call M i c k) := by
    intro i c k
    simp only [Pool.call, image, h.exec, List.map_cons]
  have hp' : ∀ i, (image f P).procs i = P.procs i := fun _ => rfl
  cases m with
  | go i =>
    cases hp : P.procs i with
    | call c k =>
      rw [move_go hp, ← hcall]
      exact move_go hp
    | ret a | raise e => simp only [Pool.move, hp', hp]
  | stop i e =>
    cases hp : P.procs i with
    | call c k =>
      simp only [Pool.move, hp', hp]
      rfl
    | ret a | raise e => simp only [Pool.move, hp', hp]
  | env t =>
    simp only [Pool.move, Pool.env, image, h.env]

/-- If every store that can be reached is represented, both machines take
every schedule through the same programs. -/
theorem image_moves (ms : List (Move E T)) (h : ∀ Q, Runs M (fun _ _ => True) P Q → Imitates M M' f Q.store) :
    ms.foldl (fun Q m => Q.move M' m) (image f P) = image f (ms.foldl (fun Q m => Q.move M m) P) := by
  induction ms generalizing P with
  | nil => rfl
  | cons m ms ih =>
    rw [List.foldl_cons, List.foldl_cons, image_move (h P .refl) m]
    exact ih fun Q hQ => h Q (Runs.trans (.move .refl m trivial) hQ)

end YoutubeRecords.DataRefinement
