import YoutubeRecords.ProgramPool

namespace YoutubeRecords.Outcomes

open CommandProgram ProgramPool

variable {C : Type} {R : C → Type} {E α β S T : Type}

/-- Provided that its calls are answered as `A` says, the program ends, with a
value or an exception, as `Q` says. -/
def Ends (A : List (Call C R) → Call C R → Prop) (Q : Except E α → List (Call C R) → Prop) :
    Program C R E α → List (Call C R) → Prop
  | .ret a, h => Q (.ok a) h
  | .raise e, h => Q (.error e) h
  | .call c k, h => ∀ r, A h ⟨c, r⟩ → Ends A Q (k r) (⟨c, r⟩ :: h)

def AnsweredAs (A : List (Call C R) → Call C R → Prop) (h : List (Call C R)) : Prop :=
  ∀ x older, x :: older <:+ h → A older x

variable {A : List (Call C R) → Call C R → Prop} {Q : Except E α → List (Call C R) → Prop}
  {Q' : Except E β → List (Call C R) → Prop} {h : List (Call C R)}

theorem answeredAs_cons {x : Call C R} : AnsweredAs A (x :: h) ↔ A h x ∧ AnsweredAs A h := by
  constructor
  · exact fun ha => ⟨ha x h List.suffix_rfl, fun y older hy => ha y older (hy.trans (List.suffix_cons x h))⟩
  · rintro ⟨hx, ha⟩ y older hy
    obtain hy | hy := List.suffix_cons_iff.mp hy
    · obtain ⟨rfl, rfl⟩ := List.cons.inj hy
      exact hx
    · exact ha y older hy

def Unstopped : Pool C R E α S → Move E T → Prop
  | _, .stop _ _ => False
  | _, _ => True

variable {M : Machine C R S T} {P P' : Pool C R E α S}

/-- In a run that stops no program, what is left of a program whose calls were
answered as `A` says still ends as `Q` says. -/
theorem Ends.runs {i : Nat} (hp : Ends A Q (P.procs i) []) (ht : P.trace = []) (hr : Runs M Unstopped P P')
    (ha : AnsweredAs A (own i P'.trace)) : Ends A Q (P'.procs i) (own i P'.trace) := by
  have hJ : AnsweredAs A (own i P'.trace) → Ends A Q (P'.procs i) (own i P'.trace) := by
    refine hr.guarded (J := fun P => AnsweredAs A (own i P.trace) → Ends A Q (P.procs i) (own i P.trace)) ?_ ?_ ?_ ?_
    · intro _
      rw [ht]
      exact hp
    · intro O j c k hO _ hc ha
      by_cases hj : i = j
      · subst hj
        simp only [Pool.call, own_cons_self] at ha ⊢
        obtain ⟨hx, ha⟩ := answeredAs_cons.mp ha
        have he := hO ha
        rw [hc] at he
        simpa only [Function.update_self] using he _ hx
      · simp only [Pool.call, own_cons_ne (Ne.symm hj), Function.update_of_ne hj] at ha ⊢
        exact hO ha
    · exact fun _ _ _ _ hok => hok.elim
    · exact fun _ _ hO _ => hO
  exact hJ ha

theorem own_suffix {i : Nat} {t : List (Entry C R S)} {x : Call C R} {older : List (Call C R)}
    (h : x :: older <:+ own i t) :
    ∃ e past, e :: past <:+ t ∧ e.pid = i ∧ e.call = x ∧ own i past = older := by
  induction t with
  | nil => simp at h
  | cons e t ih =>
    obtain ⟨j, y, s⟩ := e
    have hsub : ∀ {u : List (Entry C R S)}, u <:+ t → u <:+ ⟨j, y, s⟩ :: t := fun hu =>
      hu.trans (List.suffix_cons _ t)
    by_cases hj : j = i
    · subst hj
      rw [own_cons_self] at h
      obtain h | h := List.suffix_cons_iff.mp h
      · obtain ⟨rfl, rfl⟩ := List.cons.inj h
        exact ⟨_, t, List.suffix_rfl, rfl, rfl, rfl⟩
      · obtain ⟨e, past, he, hrest⟩ := ih h
        exact ⟨e, past, hsub he, hrest⟩
    · rw [own_cons_ne hj] at h
      obtain ⟨e, past, he, hrest⟩ := ih h
      exact ⟨e, past, hsub he, hrest⟩

end YoutubeRecords.Outcomes
