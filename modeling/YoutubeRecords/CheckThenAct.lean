import YoutubeRecords.ProgramPool

namespace YoutubeRecords.CheckThenAct

open CommandProgram ProgramPool

variable {C : Type} {R : C → Type} {E α S T K : Type}

def Pending (acts : C → K → Prop) (P : Pool C R E α S) (i : Nat) (k : K) : Prop :=
  ∃ c f, P.procs i = .call c f ∧ acts c k

def Exclusive (acts : C → K → Prop) (P : Pool C R E α S) : Prop :=
  ∀ i j k, Pending acts P i k → Pending acts P j k → i = j

/-- Programs that make a key present only right after they found it absent.
The check is a command of its own, so others may come in between. `J` is what
is known of the store and the trace in every run. -/
structure Protocol (M : Machine C R S T) (G : Nat → List (Call C R) → Call C R → Prop)
    (J : S → List (Entry C R S) → Prop) (acts : C → K → Prop) (clears : Call C R → K → Prop)
    (present : S → K → Prop) : Prop where
  guarded : ∀ i h x k, G i h x → acts x.cmd k → ∃ y rest, h = y :: rest ∧ clears y k
  truthful : ∀ c s k, clears ⟨c, (M.exec c s).1⟩ k → ¬ present s k
  readOnly : ∀ c (r : R c) k, clears ⟨c, r⟩ k → ¬ acts c k
  created : ∀ s t i c k, J s t → G i (own i t) ⟨c, (M.exec c s).1⟩ → present (M.exec c s).2 k →
    present s k ∨ acts c k
  kept : ∀ s t i c, J s t → G i (own i t) ⟨c, (M.exec c s).1⟩ →
    J (M.exec c s).2 (⟨i, ⟨c, (M.exec c s).1⟩, s⟩ :: t)
  env : ∀ x s k, present (M.env x s) k → present s k
  envKept : ∀ x s t, J s t → J (M.env x s) t

variable {M : Machine C R S T} {G : Nat → List (Call C R) → Call C R → Prop}
  {J : S → List (Entry C R S) → Prop} {Q : Nat → α → List (Call C R) → Prop} {acts : C → K → Prop}
  {clears : Call C R → K → Prop} {present : S → K → Prop} {P P' : Pool C R E α S}

/-- Whoever is about to act on a key would still find it absent. -/
structure Fresh (G : Nat → List (Call C R) → Call C R → Prop) (J : S → List (Entry C R S) → Prop)
    (Q : Nat → α → List (Call C R) → Prop) (acts : C → K → Prop) (present : S → K → Prop)
    (P : Pool C R E α S) : Prop where
  lawful : Lawful G Q P
  known : J P.store P.trace
  absent : ∀ i k, Pending acts P i k → ¬ present P.store k

theorem Protocol.checked (hp : Protocol M G J acts clears present) (hl : Lawful G Q P) {i : Nat} {k : K}
    (h : Pending acts P i k) : ∃ y rest, own i P.trace = y :: rest ∧ clears y k := by
  obtain ⟨c, f, hc, ha⟩ := h
  exact hp.guarded i _ _ k (hl.call (M := M) hc).1 ha

theorem Protocol.start (hp : Protocol M G J acts clears present) (hl : Lawful G Q P)
    (ht : P.trace = []) (hJ : J P.store []) : Fresh G J Q acts present P := by
  refine ⟨hl, by rwa [ht], fun i k h => ?_⟩
  obtain ⟨y, rest, ho, -⟩ := hp.checked hl h
  rw [ht] at ho
  cases ho

section TakingTurns

variable {acting : C → Bool}

def aboutTo (acting : C → Bool) : Program C R E α → Bool
  | .call c _ => acting c
  | _ => false

def takesTurns (acting : C → Bool) (P : Pool C R E α S) (_ : Move E T) : Bool :=
  P.trace.all fun e => P.trace.all fun e' =>
    e.pid == e'.pid || !(aboutTo acting (P.procs e.pid) && aboutTo acting (P.procs e'.pid))

theorem Pending.aboutTo (ha : ∀ c k, acts c k → acting c = true) {i : Nat} {k : K} (h : Pending acts P i k) :
    aboutTo acting (P.procs i) = true := by
  obtain ⟨c, f, hc, hk⟩ := h
  rw [hc]
  exact ha c k hk

theorem Protocol.exclusive_of_turns (hp : Protocol M G J acts clears present) (hl : Lawful G Q P)
    (ha : ∀ c k, acts c k → acting c = true) {m : Move E T} (h : takesTurns acting P m = true) :
    Exclusive acts P := by
  -- who is about to act has made the call that checks
  have caller : ∀ i k, Pending acts P i k → ∃ e ∈ P.trace, e.pid = i := by
    intro i k hi
    obtain ⟨y, rest, ho, -⟩ := hp.checked hl hi
    have hy : y ∈ own i P.trace := by simp [ho]
    obtain ⟨e, he, hpid, -⟩ := mem_own.mp hy
    exact ⟨e, he, hpid⟩
  intro i j k hi hj
  obtain ⟨e, he, rfl⟩ := caller i k hi
  obtain ⟨e', he', rfl⟩ := caller j k hj
  have ht := List.all_eq_true.mp (List.all_eq_true.mp h e he) e' he'
  simpa [hi.aboutTo ha, hj.aboutTo ha] using ht

theorem Protocol.runs_in_turn (hp : Protocol M G J acts clears present) (ha : ∀ c k, acts c k → acting c = true)
    (ms : List (Move E T)) (hl : Lawful G Q P) (h : checkMoves M (takesTurns acting) ms P = true) :
    Runs M (fun Q _ => Exclusive acts Q) P (ms.foldl (fun Q m => Q.move M m) P) := by
  induction ms generalizing P with
  | nil => exact .refl
  | cons m ms ih =>
    obtain ⟨hm, h⟩ := Bool.and_eq_true_iff.mp h
    have hstep : Runs M (fun Q _ => Exclusive acts Q) P (P.move M m) :=
      .move .refl m (hp.exclusive_of_turns hl ha hm)
    exact hstep.trans (ih (hl.runs hstep) h)

end TakingTurns

theorem Fresh.call (hp : Protocol M G J acts clears present) (h : Fresh G J Q acts present P)
    (hx : Exclusive acts P) {i : Nat} {c : C} {f : R c → Program C R E α}
    (hc : P.procs i = .call c f) : Fresh G J Q acts present (P.call M i c f) := by
  obtain ⟨hG, hl⟩ := h.lawful.call (M := M) hc
  refine ⟨hl, hp.kept _ _ _ _ h.known hG, fun j k hj hk => ?_⟩
  have hk' := hp.created _ _ _ _ k h.known hG hk
  by_cases hji : j = i
  · subst hji
    obtain ⟨y, rest, ho, hy⟩ := hp.checked hl hj
    simp only [Pool.call, own_cons_self, List.cons.injEq] at ho
    obtain ⟨rfl, -⟩ := ho
    obtain hk' | ha := hk'
    · exact hp.truthful c P.store k hy hk'
    · exact hp.readOnly c _ k hy ha
  · have hj' : Pending acts P j k := by
      obtain ⟨d, g, hd, ha⟩ := hj
      refine ⟨d, g, ?_, ha⟩
      simpa only [Pool.call, Function.update_of_ne hji] using hd
    obtain hk' | ha := hk'
    · exact h.absent j k hj' hk'
    · exact hji (hx j i k hj' ⟨c, f, hc, ha⟩)

theorem Fresh.stop (h : Fresh G J Q acts present P) (i : Nat) (e : E) :
    Fresh G J Q acts present (P.stop i e) := by
  refine ⟨h.lawful.stop i e, h.known, fun j k hj => ?_⟩
  obtain ⟨d, g, hd, ha⟩ := hj
  by_cases hji : j = i
  · subst hji
    simp [Pool.stop] at hd
  · exact h.absent j k ⟨d, g, by simpa only [Pool.stop, Function.update_of_ne hji] using hd, ha⟩

theorem Fresh.env (hp : Protocol M G J acts clears present) (h : Fresh G J Q acts present P) (x : T) :
    Fresh G J Q acts present (P.env M x) :=
  ⟨h.lawful, hp.envKept _ _ _ h.known, fun i k hi hk => h.absent i k hi (hp.env x P.store k hk)⟩

theorem Fresh.runs (hp : Protocol M G J acts clears present) (h : Fresh G J Q acts present P)
    (hr : Runs M (fun Q _ => Exclusive acts Q) P P') : Fresh G J Q acts present P' :=
  hr.invariant h (fun _ _ _ _ h hx hc => h.call hp hx hc) (fun _ i e h => h.stop i e)
    (fun _ x h => h.env hp x)

/-- In exclusive runs it is enough that an assertion survives the commands
that act only on absent keys. -/
theorem Fresh.invariant (hp : Protocol M G J acts clears present) (h : Fresh G J Q acts present P)
    (hr : Runs M (fun Q _ => Exclusive acts Q) P P') {I : S → List (Entry C R S) → Prop}
    (h0 : I P.store P.trace)
    (hcall : ∀ s t i c, I s t → J s t → G i (own i t) ⟨c, (M.exec c s).1⟩ →
      (∀ k, acts c k → ¬ present s k) → I (M.exec c s).2 (⟨i, ⟨c, (M.exec c s).1⟩, s⟩ :: t))
    (henv : ∀ x s t, I s t → I (M.env x s) t) : I P'.store P'.trace := by
  have hJ : Fresh G J Q acts present P' ∧ I P'.store P'.trace := by
    refine hr.invariant (J := fun P => Fresh G J Q acts present P ∧ I P.store P.trace) ⟨h, h0⟩ ?_ ?_ ?_
    · rintro P i c f ⟨hf, hI⟩ hx hc
      have hG := (hf.lawful.call (M := M) hc).1
      refine ⟨hf.call hp hx hc, hcall _ _ _ _ hI hf.known hG fun k ha => ?_⟩
      exact hf.absent i k ⟨c, f, hc, ha⟩
    · rintro P i e ⟨hf, hI⟩
      exact ⟨hf.stop i e, hI⟩
    · rintro P x ⟨hf, hI⟩
      exact ⟨hf.env hp x, henv _ _ _ hI⟩
  exact hJ.2

end YoutubeRecords.CheckThenAct
