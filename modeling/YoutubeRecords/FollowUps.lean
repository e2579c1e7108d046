import YoutubeRecords.ProgramPool

namespace YoutubeRecords.FollowUps

open CommandProgram ProgramPool

variable {C : Type} {R : C → Type} {E α β S T : Type} (next : C → Option C)

/-- A command that asks for a follow-up is followed by it at once. -/
def Prompt : Program C R E α → Prop
  | .ret _ | .raise _ => True
  | .call c k => ∀ r, Prompt (k r) ∧ ∀ d, next c = some d → ∃ f, k r = .call d f

variable {next}

theorem prompt_call {c : C} {k : R c → Program C R E α} (hc : next c = none) (hk : ∀ r, Prompt next (k r)) :
    Prompt next (.call c k) := by
  intro r
  refine ⟨hk r, fun d hd => ?_⟩
  rw [hc] at hd
  cases hd

theorem Prompt.bind {p : Program C R E α} {f : α → Program C R E β} (hp : Prompt next p)
    (hf : ∀ a, Prompt next (f a)) : Prompt next (p >>= f) := by
  induction p with
  | ret a => exact hf a
  | raise e => trivial
  | call c k ih =>
    intro r
    refine ⟨ih r (hp r).1, fun d hd => ?_⟩
    obtain ⟨g, hg⟩ := (hp r).2 d hd
    simp only [hg]
    exact ⟨_, rfl⟩

variable (next)

def Owes (i : Nat) (d : C) (t : List (Entry C R S)) : Prop :=
  ∃ x rest, own i t = x :: rest ∧ next x.cmd = some d

/-- No program stops, and the environment does not act, while a follow-up is
due. -/
def Undisturbed (Q : Pool C R E α S) : Move E T → Prop
  | .go _ => True
  | .stop i _ => ∀ d, ¬ Owes next i d Q.trace
  | .env _ => ∀ i d, ¬ Owes next i d Q.trace

structure Punctual (P : Pool C R E α S) : Prop where
  prompt : ∀ i, Prompt next (P.procs i)
  due : ∀ i d, Owes next i d P.trace → ∃ f, P.procs i = .call d f

variable {next} {M : Machine C R S T} {P P' : Pool C R E α S}

theorem owes_cons_self {i : Nat} {x : Call C R} {s : S} {t : List (Entry C R S)} {d : C} :
    Owes next i d (⟨i, x, s⟩ :: t) ↔ next x.cmd = some d := by
  simp [Owes]

theorem owes_cons_ne {i j : Nat} (h : i ≠ j) {x : Call C R} {s : S} {t : List (Entry C R S)} {d : C} :
    Owes next j d (⟨i, x, s⟩ :: t) ↔ Owes next j d t := by
  simp only [Owes, own_cons_ne h]

theorem punctual_start (hp : ∀ i, Prompt next (P.procs i)) (ht : P.trace = []) : Punctual next P := by
  refine ⟨hp, ?_⟩
  rintro i d ⟨x, rest, ho, -⟩
  rw [ht] at ho
  cases ho

theorem Punctual.call (h : Punctual next P) {i : Nat} {c : C} {k : R c → Program C R E α}
    (hp : P.procs i = .call c k) : Punctual next (P.call M i c k) := by
  have hi := h.prompt i
  rw [hp] at hi
  constructor
  · intro j
    by_cases hj : j = i
    · subst hj
      simpa only [Pool.call, Function.update_self] using (hi _).1
    · simpa only [Pool.call, Function.update_of_ne hj] using h.prompt j
  · intro j d hd
    by_cases hj : j = i
    · subst hj
      simpa only [Pool.call, Function.update_self] using (hi _).2 d (owes_cons_self.mp hd)
    · simpa only [Pool.call, Function.update_of_ne hj] using h.due j d ((owes_cons_ne (Ne.symm hj)).mp hd)

theorem Punctual.stop (h : Punctual next P) {i : Nat} (e : E) (ho : ∀ d, ¬ Owes next i d P.trace) :
    Punctual next (P.stop i e) := by
  constructor
  · intro j
    by_cases hj : j = i
    · subst hj
      simp only [Pool.stop, Function.update_self, Prompt]
    · simpa only [Pool.stop, Function.update_of_ne hj] using h.prompt j
  · intro j d hd
    by_cases hj : j = i
    · subst hj
      exact absurd hd (ho d)
    · simpa only [Pool.stop, Function.update_of_ne hj] using h.due j d hd

theorem Punctual.acts (h : Punctual next P) {i : Nat} {c d : C} {k : R c → Program C R E α}
    (hp : P.procs i = .call c k) (ho : Owes next i d P.trace) : c = d := by
  obtain ⟨f, hf⟩ := h.due i d ho
  rw [hp] at hf
  cases hf
  rfl

end YoutubeRecords.FollowUps
