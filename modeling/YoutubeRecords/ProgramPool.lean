import Mathlib.Data.List.Infix
import YoutubeRecords.CommandProgram

namespace YoutubeRecords.ProgramPool

open CommandProgram

structure Call (C : Type) (R : C → Type) where
  cmd : C
  res : R cmd

/-- One line of a trace: who issued the call, and the store it found. -/
structure Entry (C : Type) (R : C → Type) (S : Type) where
  pid : Nat
  call : Call C R
  before : S

/-- The meaning of the commands on the shared store, and the changes the
store undergoes without any command, such as the passing of time. -/
structure Machine (C : Type) (R : C → Type) (S T : Type) where
  exec : (c : C) → S → R c × S
  env : T → S → S

/-- Programs that share one store. The trace is newest first. -/
structure Pool (C : Type) (R : C → Type) (E α S : Type) where
  procs : Nat → Program C R E α
  store : S
  trace : List (Entry C R S)

inductive Move (E T : Type) where
  | go (i : Nat)
  | stop (i : Nat) (e : E)
  | env (t : T)

variable {C : Type} {R : C → Type} {E α β S T : Type}

def Pool.call (M : Machine C R S T) (P : Pool C R E α S) (i : Nat) (c : C)
    (k : R c → Program C R E α) : Pool C R E α S :=
  ⟨Function.update P.procs i (k (M.exec c P.store).1), (M.exec c P.store).2,
    ⟨i, ⟨c, (M.exec c P.store).1⟩, P.store⟩ :: P.trace⟩

def Pool.stop (P : Pool C R E α S) (i : Nat) (e : E) : Pool C R E α S :=
  { P with procs := Function.update P.procs i (.raise e) }

def Pool.env (M : Machine C R S T) (P : Pool C R E α S) (t : T) : Pool C R E α S :=
  { P with store := M.env t P.store }

/-- The scheduler lets one program issue its next command, makes it fail
there for good, or lets the environment act. Programs that have ended stay
as they are. -/
def Pool.move (M : Machine C R S T) (P : Pool C R E α S) : Move E T → Pool C R E α S
  | .go i => match P.procs i with
    | .call c k => P.call M i c k
    | _ => P
  | .stop i e => match P.procs i with
    | .call _ _ => P.stop i e
    | _ => P
  | .env t => P.env M t

/-- Every interleaving: any list of moves, each made in a pool where `ok`
admits it. -/
inductive Runs (M : Machine C R S T) (ok : Pool C R E α S → Move E T → Prop)
    (P : Pool C R E α S) : Pool C R E α S → Prop
  | refl : Runs M ok P P
  | move {Q : Pool C R E α S} (h : Runs M ok P Q) (m : Move E T) (hok : ok Q m) :
      Runs M ok P (Q.move M m)

variable {M : Machine C R S T} {ok : Pool C R E α S → Move E T → Prop}
  {P P' : Pool C R E α S}

theorem move_go {i : Nat} {c : C} {k : R c → Program C R E α} (h : P.procs i = .call c k) :
    P.move M (.go i : Move E T) = P.call M i c k := by
  simp only [Pool.move, h]

theorem Runs.trans {P Q O : Pool C R E α S} (h : Runs M ok P Q) (h' : Runs M ok Q O) :
    Runs M ok P O := by
  induction h' with
  | refl => exact h
  | move _ m hok ih => exact .move ih m hok

theorem runs_moves (ms : List (Move E T)) (P : Pool C R E α S) :
    Runs M (fun _ _ => True) P (ms.foldl (fun Q m => Q.move M m) P) := by
  induction ms generalizing P with
  | nil => exact .refl
  | cons m ms ih => exact Runs.trans (.move .refl m trivial) (ih _)

def checkMoves (M : Machine C R S T) (check : Pool C R E α S → Move E T → Bool) :
    List (Move E T) → Pool C R E α S → Bool
  | [], _ => true
  | m :: ms, P => check P m && checkMoves M check ms (P.move M m)

theorem runs_checked {check : Pool C R E α S → Move E T → Bool} (hc : ∀ Q m, check Q m = true → ok Q m)
    (ms : List (Move E T)) (P : Pool C R E α S) (h : checkMoves M check ms P = true) :
    Runs M ok P (ms.foldl (fun Q m => Q.move M m) P) := by
  induction ms generalizing P with
  | nil => exact .refl
  | cons m ms ih =>
    obtain ⟨hm, h⟩ := Bool.and_eq_true_iff.mp h
    exact Runs.trans (.move .refl m (hc P m hm)) (ih _ h)

theorem procs_go_of_not_mem {i : Nat} {js : List Nat} (h : i ∉ js) (P : Pool C R E α S) :
    (js.foldl (fun Q j => Q.move M (.go j)) P).procs i = P.procs i := by
  induction js generalizing P with
  | nil => rfl
  | cons j js ih =>
    rw [List.mem_cons, not_or] at h
    rw [List.foldl_cons, ih h.2]
    cases hj : P.procs j with
    | call c k => simp only [move_go hj, Pool.call, Function.update_of_ne h.1]
    | ret a | raise e => simp only [Pool.move, hj]

/-- A program that runs alone to its end is one of the interleavings. -/
theorem runs_alone {i : Nat} {a : α} {s : S} (h : run M.exec (P.procs i) P.store = (.ok a, s)) :
    ∃ P', Runs M (fun _ _ => True) P P' ∧ P'.store = s ∧ P'.procs = Function.update P.procs i (.ret a) := by
  generalize hp : P.procs i = p at h
  induction p generalizing P with
  | ret b =>
    obtain ⟨hb, rfl⟩ := Prod.mk.inj h
    obtain rfl := Except.ok.inj hb
    exact ⟨P, .refl, rfl, by rw [← hp, Function.update_eq_self]⟩
  | raise e => cases (Prod.mk.inj h).1
  | call c k ih =>
    have hc : (P.call M i c k).procs i = k (M.exec c P.store).1 := by simp [Pool.call]
    obtain ⟨P', hr, hs, hprocs⟩ := ih _ hc h
    refine ⟨P', Runs.trans (.move .refl (.go i) trivial) ?_, hs, ?_⟩
    · rw [move_go hp]
      exact hr
    · rw [hprocs, Pool.call, Function.update_idem]

theorem move_cases (P : Pool C R E α S) (m : Move E T) :
    ((P.move M m).store = P.store ∧ (P.move M m).trace = P.trace) ∨
      (∃ i c, (P.move M m).store = (M.exec c P.store).2 ∧
        (P.move M m).trace = ⟨i, ⟨c, (M.exec c P.store).1⟩, P.store⟩ :: P.trace) ∨
      ∃ t, (P.move M m).store = M.env t P.store ∧ (P.move M m).trace = P.trace := by
  cases m with
  | go i =>
    cases hp : P.procs i with
    | call c k =>
      rw [move_go hp]
      exact .inr (.inl ⟨i, c, rfl, rfl⟩)
    | ret a | raise e => exact .inl (by simp only [Pool.move, hp, and_self])
  | stop i e =>
    cases hp : P.procs i with
    | call c k =>
      simp only [Pool.move, hp]
      exact .inl ⟨rfl, rfl⟩
    | ret a | raise e => exact .inl (by simp only [Pool.move, hp, and_self])
  | env t => exact .inr (.inr ⟨t, rfl, rfl⟩)

/-- What holds at the start and survives every admitted move holds in every
pool a run reaches. -/
theorem Runs.guarded {J : Pool C R E α S → Prop} (h : Runs M ok P P') (h0 : J P)
    (hcall : ∀ Q i c k, J Q → ok Q (.go i) → Q.procs i = .call c k → J (Q.call M i c k))
    (hstop : ∀ Q i e, J Q → ok Q (.stop i e) → J (Q.stop i e))
    (henv : ∀ Q t, J Q → ok Q (.env t) → J (Q.env M t)) : J P' := by
  induction h with
  | refl => exact h0
  | @move Q _ m hok hQ =>
    cases m with
    | go i =>
      cases hp : Q.procs i with
      | call c k =>
        rw [move_go hp]
        exact hcall Q i c k hQ hok hp
      | ret a | raise e => simpa only [Pool.move, hp] using hQ
    | stop i e =>
      cases hp : Q.procs i with
      | call c k => simpa only [Pool.move, hp] using hstop Q i e hQ hok
      | ret a | raise e => simpa only [Pool.move, hp] using hQ
    | env t => exact henv Q t hQ hok

theorem Runs.invariant {J : Pool C R E α S → Prop} (h : Runs M ok P P') (h0 : J P)
    (hcall : ∀ Q i c k, J Q → ok Q (.go i) → Q.procs i = .call c k → J (Q.call M i c k))
    (hstop : ∀ Q i e, J Q → J (Q.stop i e)) (henv : ∀ Q t, J Q → J (Q.env M t)) : J P' :=
  h.guarded h0 hcall (fun Q i e hQ _ => hstop Q i e hQ) (fun Q t hQ _ => henv Q t hQ)

def own (i : Nat) (t : List (Entry C R S)) : List (Call C R) :=
  (t.filter (fun e => decide (e.pid = i))).map Entry.call

@[simp] theorem own_nil (i : Nat) : own i ([] : List (Entry C R S)) = [] := rfl

@[simp] theorem own_cons_self (i : Nat) (x : Call C R) (s : S) (t : List (Entry C R S)) :
    own i (⟨i, x, s⟩ :: t) = x :: own i t := by
  simp [own]

theorem own_cons_ne {i j : Nat} (h : i ≠ j) (x : Call C R) (s : S) (t : List (Entry C R S)) :
    own j (⟨i, x, s⟩ :: t) = own j t := by
  simp [own, h]

theorem own_mono {i : Nat} {t u : List (Entry C R S)} (h : t <:+ u) : own i t <:+ own i u :=
  (h.filter _).map _

theorem own_append (i : Nat) (t u : List (Entry C R S)) : own i (t ++ u) = own i t ++ own i u := by
  simp [own]

theorem mem_own {i : Nat} {x : Call C R} {t : List (Entry C R S)} :
    x ∈ own i t ↔ ∃ e ∈ t, e.pid = i ∧ e.call = x := by
  simp only [own, List.mem_map, List.mem_filter, decide_eq_true_eq, and_assoc]

theorem own_eq_cons {i : Nat} {x : Call C R} {h : List (Call C R)} {t : List (Entry C R S)}
    (ht : own i t = x :: h) :
    ∃ newer e older, t = newer ++ e :: older ∧ own i newer = [] ∧ e.pid = i ∧ e.call = x ∧
      own i older = h := by
  induction t with
  | nil => simp at ht
  | cons e t ih =>
    obtain ⟨j, y, s⟩ := e
    by_cases hj : j = i
    · subst hj
      rw [own_cons_self, List.cons.injEq] at ht
      exact ⟨[], ⟨j, y, s⟩, t, rfl, rfl, rfl, ht.1, ht.2⟩
    · rw [own_cons_ne hj] at ht
      obtain ⟨newer, e, older, rfl, hn, he⟩ := ih ht
      exact ⟨⟨j, y, s⟩ :: newer, e, older, rfl, by rw [own_cons_ne hj, hn], he⟩

def Since (Q P : Entry C R S → Prop) : List (Entry C R S) → Prop
  | [] => False
  | e :: t => P e ∨ (Q e ∧ Since Q P t)

theorem since_iff {Q P : Entry C R S → Prop} {t : List (Entry C R S)} :
    Since Q P t ↔ ∃ newer e older, t = newer ++ e :: older ∧ P e ∧ ∀ x ∈ newer, Q x := by
  induction t with
  | nil => simp [Since]
  | cons e t ih =>
    constructor
    · rintro (hp | ⟨hq, hs⟩)
      · exact ⟨[], e, t, rfl, hp, by simp⟩
      · obtain ⟨newer, w, older, rfl, hw, hn⟩ := ih.mp hs
        exact ⟨e :: newer, w, older, rfl, hw, List.forall_mem_cons.mpr ⟨hq, hn⟩⟩
    · rintro ⟨newer, w, older, ht, hw, hn⟩
      cases newer with
      | nil =>
        obtain ⟨rfl, rfl⟩ := List.cons.inj ht
        exact .inl hw
      | cons x newer =>
        obtain ⟨rfl, rfl⟩ := List.cons.inj ht
        obtain ⟨hq, hn⟩ := List.forall_mem_cons.mp hn
        exact .inr ⟨hq, ih.mpr ⟨newer, w, older, rfl, hw, hn⟩⟩

theorem Since.mono {Q Q' P P' : Entry C R S → Prop} {t : List (Entry C R S)} (h : Since Q P t)
    (hq : ∀ e, Q e → Q' e) (hp : ∀ e, P e → P' e) : Since Q' P' t := by
  induction t with
  | nil => exact h
  | cons e t ih => exact h.imp (hp e) (And.imp (hq e) ih)

instance Since.decidable (Q P : Entry C R S → Prop) [DecidablePred Q] [DecidablePred P] :
    DecidablePred (Since Q P)
  | [] => .isFalse id
  | e :: t =>
    haveI := Since.decidable Q P t
    inferInstanceAs (Decidable (P e ∨ (Q e ∧ Since Q P t)))

/-- Whatever the answers, each call of the program satisfies `G` of the calls
before it, and `Q` holds of a returned value and of all its calls. -/
def Obeys (G : List (Call C R) → Call C R → Prop) (Q : α → List (Call C R) → Prop) :
    Program C R E α → List (Call C R) → Prop
  | .ret a, h => Q a h
  | .raise _, _ => True
  | .call c k, h => ∀ r, G h ⟨c, r⟩ ∧ Obeys G Q (k r) (⟨c, r⟩ :: h)

theorem Obeys.bind {G : List (Call C R) → Call C R → Prop} {Q : α → List (Call C R) → Prop}
    {Q' : β → List (Call C R) → Prop} {p : Program C R E α} {f : α → Program C R E β}
    {h : List (Call C R)} (hp : Obeys G Q p h) (hf : ∀ a h, Q a h → Obeys G Q' (f a) h) :
    Obeys G Q' (p >>= f) h := by
  induction p generalizing h with
  | ret a => exact hf a h hp
  | raise e => trivial
  | call c k ih => exact fun r => ⟨(hp r).1, ih r (hp r).2⟩

theorem Obeys.mono {G G' : List (Call C R) → Call C R → Prop} {Q Q' : α → List (Call C R) → Prop}
    {p : Program C R E α} {h : List (Call C R)} (hp : Obeys G Q p h)
    (hG : ∀ h x, G h x → G' h x) (hQ : ∀ a h, Q a h → Q' a h) : Obeys G' Q' p h := by
  induction p generalizing h with
  | ret a => exact hQ a h hp
  | raise e => trivial
  | call c k ih => exact fun r => ⟨hG _ _ (hp r).1, ih r (hp r).2⟩

section ObeysLemmas

variable {G : List (Call C R) → Call C R → Prop} {Q : α → List (Call C R) → Prop}
  {h : List (Call C R)}

@[simp] theorem obeys_ret (a : α) : Obeys G Q (.ret a : Program C R E α) h ↔ Q a h := Iff.rfl

@[simp] theorem obeys_raise (e : E) : Obeys G Q (.raise e : Program C R E α) h ↔ True := Iff.rfl

theorem obeys_call (c : C) (k : R c → Program C R E α) :
    Obeys G Q (.call c k) h ↔ ∀ r, G h ⟨c, r⟩ ∧ Obeys G Q (k r) (⟨c, r⟩ :: h) := Iff.rfl

end ObeysLemmas

theorem Obeys.run_invariant {G : List (Call C R) → Call C R → Prop} {Q : α → List (Call C R) → Prop}
    {exec : (c : C) → S → R c × S} {p : Program C R E α} {h : List (Call C R)} (hp : Obeys G Q p h)
    {I : S → Prop} {s : S} (hs : I s)
    (hcall : ∀ h c s, I s → G h ⟨c, (exec c s).1⟩ → I (exec c s).2) : I (run exec p s).2 := by
  induction p generalizing h s with
  | ret a | raise e => exact hs
  | call c k ih => exact ih _ (hp _).2 (hcall _ _ _ hs (hp _).1)

/-- Along a lone execution, an assertion about the store and the calls made so
far is proved one call at a time. -/
theorem Obeys.steps {G : List (Call C R) → Call C R → Prop} {Q : α → List (Call C R) → Prop}
    {exec : (c : C) → S → R c × S} {p q : Program C R E α} {s t : S} {h : List (Call C R)}
    (hp : Obeys G Q p h) {I : S → List (Call C R) → Prop} (hs : I s h)
    (hcall : ∀ s h c, I s h → G h ⟨c, (exec c s).1⟩ → I (exec c s).2 (⟨c, (exec c s).1⟩ :: h))
    (hst : Steps exec p s q t) : ∃ h', Obeys G Q q h' ∧ I t h' := by
  induction hst generalizing h with
  | refl p s => exact ⟨h, hp, hs⟩
  | call _ ih => exact ih (hp _).2 (hcall _ _ _ hs (hp _).1)

section Journal

variable (exec : (c : C) → S → R c × S)

def journal : Program C R E α → S → List (Call C R) → List (Call C R)
  | .ret _, _, h | .raise _, _, h => h
  | .call c k, s, h => journal (k (exec c s).1) (exec c s).2 (⟨c, (exec c s).1⟩ :: h)

theorem suffix_journal (p : Program C R E α) (s : S) (h : List (Call C R)) : h <:+ journal exec p s h := by
  induction p generalizing s h with
  | ret a | raise e => exact List.suffix_rfl
  | call c k ih => exact (List.suffix_cons _ h).trans (ih _ _ _)

theorem journal_append (p : Program C R E α) (s : S) (h : List (Call C R)) :
    journal exec p s h = journal exec p s [] ++ h := by
  induction p generalizing s h with
  | ret a | raise e => rfl
  | call c k ih => simp only [journal, ih _ _ (_ :: h), ih _ _ [_], List.append_assoc, List.singleton_append]

theorem journal_bind_ok {p : Program C R E α} {f : α → Program C R E β} {s t : S} {a : α}
    (hr : run exec p s = (.ok a, t)) (h : List (Call C R)) :
    journal exec (p >>= f) s h = journal exec (f a) t (journal exec p s h) := by
  induction p generalizing s h with
  | ret b =>
    obtain ⟨hb, rfl⟩ := Prod.mk.inj hr
    obtain rfl := Except.ok.inj hb
    rfl
  | raise e => cases (Prod.mk.inj hr).1
  | call c k ih => exact ih _ hr _

theorem journal_bind_ret (p : Program C R E α) (f : α → β) (s : S) (h : List (Call C R)) :
    journal exec (p >>= fun a => .ret (f a)) s h = journal exec p s h := by
  induction p generalizing s h with
  | ret a | raise e => rfl
  | call c k ih => exact ih _ _ _

variable {exec}

theorem Obeys.through {G : List (Call C R) → Call C R → Prop} {Q : α → List (Call C R) → Prop}
    {p : Program C R E α} {s : S} {h : List (Call C R)} (hp : Obeys G Q p h)
    {I : S → List (Call C R) → Prop} (hs : I s h)
    (hcall : ∀ s h c, I s h → G h ⟨c, (exec c s).1⟩ → I (exec c s).2 (⟨c, (exec c s).1⟩ :: h)) :
    I (run exec p s).2 (journal exec p s h) := by
  induction p generalizing s h with
  | ret a | raise e => exact hs
  | call c k ih => exact ih _ (hp _).2 (hcall _ _ _ hs (hp _).1)

end Journal

variable {G : Nat → List (Call C R) → Call C R → Prop} {Q : Nat → α → List (Call C R) → Prop}

def Lawful (G : Nat → List (Call C R) → Call C R → Prop) (Q : Nat → α → List (Call C R) → Prop)
    (P : Pool C R E α S) : Prop :=
  ∀ i, Obeys (G i) (Q i) (P.procs i) (own i P.trace)

theorem Lawful.call (h : Lawful G Q P) {i : Nat} {c : C} {k : R c → Program C R E α}
    (hp : P.procs i = .call c k) :
    G i (own i P.trace) ⟨c, (M.exec c P.store).1⟩ ∧ Lawful G Q (P.call M i c k) := by
  have hi := h i
  rw [hp] at hi
  refine ⟨(hi _).1, fun j => ?_⟩
  by_cases hj : j = i
  · subst hj
    simpa only [Pool.call, Function.update_self, own_cons_self] using (hi _).2
  · simpa only [Pool.call, Function.update_of_ne hj, own_cons_ne (Ne.symm hj)] using h j

theorem Lawful.stop (h : Lawful G Q P) (i : Nat) (e : E) : Lawful G Q (P.stop i e) := by
  intro j
  by_cases hj : j = i
  · subst hj
    simp only [Pool.stop, Function.update_self, Obeys]
  · simpa only [Pool.stop, Function.update_of_ne hj] using h j

theorem Lawful.runs (h : Lawful G Q P) (hr : Runs M ok P P') : Lawful G Q P' :=
  hr.invariant h (fun _ _ _ _ hQ _ hp => (hQ.call hp).2) (fun _ i e hQ => hQ.stop i e)
    (fun _ _ hQ => hQ)

/-- An assertion about the store and the trace is proved one call at a time,
with the caller's guarantee at hand. It then also holds of the store each
recorded call found and of the trace at that moment. -/
structure Chronicle (M : Machine C R S T) (G : Nat → List (Call C R) → Call C R → Prop)
    (I : S → List (Entry C R S) → Prop) (s : S) (t : List (Entry C R S)) : Prop where
  now : I s t
  past : ∀ e older, e :: older <:+ t → I e.before older ∧ G e.pid (own e.pid older) e.call ∧
    e.call.res = (M.exec e.call.cmd e.before).1

theorem Chronicle.of_runs {I : S → List (Entry C R S) → Prop} (hl : Lawful G Q P)
    (ht : P.trace = []) (h0 : I P.store [])
    (hcall : ∀ s t i c, I s t → G i (own i t) ⟨c, (M.exec c s).1⟩ →
      I (M.exec c s).2 (⟨i, ⟨c, (M.exec c s).1⟩, s⟩ :: t))
    (henv : ∀ x s t, I s t → I (M.env x s) t) (hr : Runs M ok P P') :
    Chronicle M G I P'.store P'.trace := by
  have hJ : Lawful G Q P' ∧ Chronicle M G I P'.store P'.trace := by
    refine hr.invariant (J := fun P => Lawful G Q P ∧ Chronicle M G I P.store P.trace) ?_ ?_ ?_ ?_
    · refine ⟨hl, by rwa [ht], fun e older he => ?_⟩
      rw [ht] at he
      simp at he
    · rintro P i c k ⟨hl, hn, hp⟩ - hc
      obtain ⟨hG, hl'⟩ := hl.call (M := M) hc
      refine ⟨hl', hcall _ _ _ _ hn hG, fun e older he => ?_⟩
      obtain he | he := List.suffix_cons_iff.mp he
      · obtain ⟨rfl, rfl⟩ := List.cons.inj he
        exact ⟨hn, hG, rfl⟩
      · exact hp e older he
    · rintro P i e ⟨hl, hc⟩
      exact ⟨hl.stop i e, hc⟩
    · rintro P t ⟨hl, hn, hp⟩
      exact ⟨hl, henv _ _ _ hn, hp⟩
  exact hJ.2

/-- Each call of a run is one that its program has promised. -/
theorem Lawful.past (hl : Lawful G Q P) (ht : P.trace = []) (hr : Runs M ok P P') {e : Entry C R S}
    {older : List (Entry C R S)} (he : e :: older <:+ P'.trace) : G e.pid (own e.pid older) e.call := by
  have hc : Chronicle M G (fun _ _ => True) P'.store P'.trace :=
    Chronicle.of_runs hl ht trivial (fun _ _ _ _ _ _ => trivial) (fun _ _ _ _ => trivial) hr
  exact (hc.past e older he).2.1

end YoutubeRecords.ProgramPool
