import YoutubeRecords.ProgramPool

namespace YoutubeRecords.CommandEmbedding

open CommandProgram ProgramPool

/-- A command language as a part of a larger one. -/
structure Embedding (C : Type) (R : C → Type) (C' : Type) (R' : C' → Type) where
  cmd : C → C'
  res : (c : C) → R' (cmd c) → R c
  part : Call C' R' → Option (Call C R)
  part_cmd : ∀ c r, part ⟨cmd c, r⟩ = some ⟨c, res c r⟩

variable {C : Type} {R : C → Type} {C' : Type} {R' : C' → Type} {E α α' β S S' T T' : Type}

def Embedding.lift (ι : Embedding C R C' R') : Program C R E α → Program C' R' E α
  | .ret a => .ret a
  | .raise e => .raise e
  | .call c k => .call (ι.cmd c) (fun r => ι.lift (k (ι.res c r)))

def Embedding.own (ι : Embedding C R C' R') (h : List (Call C' R')) : List (Call C R) := h.filterMap ι.part

def Embedding.Foreign (ι : Embedding C R C' R') (c : C') : Prop := ∀ r, ι.part ⟨c, r⟩ = none

theorem bind_bind {γ : Type} (p : Program C R E α) (f : α → Program C R E β) (g : β → Program C R E γ) :
    (p >>= f) >>= g = p >>= fun a => f a >>= g := by
  induction p with
  | ret a | raise e => rfl
  | call c k ih =>
    rw [call_bind, call_bind, call_bind]
    congr 1
    funext r
    exact ih r

section Lift

variable (ι : Embedding C R C' R')

@[simp] theorem lift_ret (a : α) : ι.lift (.ret a : Program C R E α) = .ret a := rfl

@[simp] theorem lift_raise (e : E) : ι.lift (.raise e : Program C R E α) = .raise e := rfl

@[simp] theorem lift_call (c : C) (k : R c → Program C R E α) :
    ι.lift (.call c k) = .call (ι.cmd c) (fun r => ι.lift (k (ι.res c r))) := rfl

@[simp] theorem own_cmd (c : C) (r : R' (ι.cmd c)) (h : List (Call C' R')) :
    ι.own (⟨ι.cmd c, r⟩ :: h) = ⟨c, ι.res c r⟩ :: ι.own h := by
  simp [Embedding.own, ι.part_cmd]

theorem own_suffix {h h' : List (Call C' R')} (hs : h <:+ h') : ι.own h <:+ ι.own h' := hs.filterMap _

/-- A lifted program keeps the promises of the program, about the calls of its
own language, whatever the calls before it were. -/
theorem obeys_lift {G : List (Call C R) → Call C R → Prop} {Q : α → List (Call C R) → Prop}
    {p : Program C R E α} {h : List (Call C' R')} (hp : Obeys G Q p (ι.own h)) :
    Obeys (fun h' x => ∃ y, ι.part x = some y ∧ G (ι.own h') y) (fun a h' => Q a (ι.own h')) (ι.lift p) h := by
  induction p generalizing h with
  | ret a => exact hp
  | raise e => trivial
  | call c k ih =>
    rw [lift_call, obeys_call]
    intro r
    obtain ⟨hg, hk⟩ := hp (ι.res c r)
    refine ⟨⟨_, ι.part_cmd c r, hg⟩, ih _ ?_⟩
    rwa [own_cmd]

end Lift

/-- What a program is told about its calls includes the ones before it. -/
theorem obeys_since {G : List (Call C R) → Call C R → Prop} {Q : α → List (Call C R) → Prop}
    {p : Program C R E α} {h₀ h : List (Call C R)} (hs : h₀ <:+ h) (hp : Obeys G Q p h) :
    Obeys (fun h' x => G h' x ∧ h₀ <:+ h') (fun a h' => Q a h' ∧ h₀ <:+ h') p h := by
  induction p generalizing h with
  | ret a => exact ⟨hp, hs⟩
  | raise e => trivial
  | call c k ih =>
    intro r
    exact ⟨⟨(hp r).1, hs⟩, ih r (hs.trans (List.suffix_cons _ _)) (hp r).2⟩

theorem obeys_lift_true (ι : Embedding C R C' R') {Q : α → List (Call C R) → Prop} {p : Program C R E α}
    {h : List (Call C' R')} (hp : Obeys (fun _ _ => True) Q p (ι.own h)) :
    Obeys (fun _ _ => True) (fun a h' => Q a (ι.own h') ∧ h <:+ h') (ι.lift p) h :=
  (obeys_since List.suffix_rfl (obeys_lift ι hp)).mono (fun _ _ _ => trivial) fun _ _ hx => hx

theorem obeys_true (p : Program C R E α) (h : List (Call C R)) :
    Obeys (fun _ _ => True) (fun _ _ => True) p h := by
  induction p generalizing h with
  | ret a | raise e => trivial
  | call c k ih => exact fun r => ⟨trivial, ih r _⟩

/-- One machine as a part of another: the commands of the part act on their
projection of the store as they do alone, and nothing else touches it. -/
structure Component (M' : Machine C' R' S' T') (M : Machine C R S T) (ι : Embedding C R C' R')
    (proj : S' → S) (time : T' → Option T) : Prop where
  exec : ∀ c s, M.exec c (proj s) = (ι.res c (M'.exec (ι.cmd c) s).1, proj (M'.exec (ι.cmd c) s).2)
  foreign : ∀ c s, ι.Foreign c → proj (M'.exec c s).2 = proj s
  env : ∀ t u s, time t = some u → proj (M'.env t s) = M.env u (proj s)
  still : ∀ t s, time t = none → proj (M'.env t s) = proj s

def Embedding.entry (ι : Embedding C R C' R') (proj : S' → S) (e : Entry C' R' S') : Option (Entry C R S) :=
  (ι.part e.call).map (fun x => ⟨e.pid, x, proj e.before⟩)

theorem own_entries (ι : Embedding C R C' R') (proj : S' → S) (i : Nat) (t : List (Entry C' R' S')) :
    ProgramPool.own i (t.filterMap (ι.entry proj)) = ι.own (ProgramPool.own i t) := by
  induction t with
  | nil => rfl
  | cons e t ih =>
    obtain ⟨j, x, s⟩ := e
    by_cases hj : j = i
    · subst hj
      rw [own_cons_self]
      unfold Embedding.own at ih ⊢
      cases hx : ι.part x with
      | none => simp [Embedding.entry, hx, ih]
      | some y => simp [Embedding.entry, hx, ih]
    · rw [own_cons_ne hj]
      cases hx : ι.part x with
      | none => simp [Embedding.entry, hx, ih]
      | some y => simp [Embedding.entry, hx, own_cons_ne hj, ih]

section Projection

variable (ι : Embedding C R C' R')

/-- The second program issues the calls of the first one that are of its own
language, on the same answers; `End` relates it to a value the first returns. -/
inductive Shadows (End : α' → Program C R E α → Prop) : Program C' R' E α' → Program C R E α → Prop
  | ret {a : α'} {p : Program C R E α} (h : End a p) : Shadows End (.ret a) p
  | raise (e : E) (p : Program C R E α) : Shadows End (.raise e) p
  | own {c : C} {k' : R' (ι.cmd c) → Program C' R' E α'} {k : R c → Program C R E α}
      (h : ∀ r, Shadows End (k' r) (k (ι.res c r))) : Shadows End (.call (ι.cmd c) k') (.call c k)
  | foreign {c : C'} {k' : R' c → Program C' R' E α'} {p : Program C R E α} (hc : ι.Foreign c)
      (h : ∀ r, Shadows End (k' r) p) : Shadows End (.call c k') p

/-- After some calls that are not of the part, the program is shadowed by one
of the given ones; which one may depend on the calls so far and their answers. -/
inductive Becomes (End : α' → Program C R E α → Prop) (choice : List (Call C' R') → Program C R E α → Prop) :
    List (Call C' R') → Program C' R' E α' → Prop
  | bound {h : List (Call C' R')} {p' : Program C' R' E α'} (p : Program C R E α) (hp : choice h p)
      (hs : Shadows ι End p' p) : Becomes End choice h p'
  | foreign {h : List (Call C' R')} {c : C'} {k' : R' c → Program C' R' E α'} (hc : ι.Foreign c)
      (hk : ∀ r, Becomes End choice (⟨c, r⟩ :: h) (k' r)) : Becomes End choice h (.call c k')

structure Standing (choice : List (Call C' R') → Program C R E α → Prop) : Prop where
  exists_choice : ∀ h, ∃ p, choice h p
  later : ∀ {h h' p}, choice h p → h <:+ h' → choice h' p

variable {ι} {End : α' → Program C R E α → Prop} {choice : List (Call C' R') → Program C R E α → Prop}

theorem standing_eq (p : Program C R E α) : Standing (fun (_ : List (Call C' R')) q => q = p) :=
  ⟨fun _ => ⟨p, rfl⟩, fun hq _ => hq⟩

theorem Shadows.lift_bind {γ : Type} {p : Program C R E γ} {f' : γ → Program C' R' E α'}
    {f : γ → Program C R E α} (h : ∀ a, Shadows ι End (f' a) (f a)) :
    Shadows ι End (ι.lift p >>= f') (p >>= f) := by
  induction p with
  | ret a => exact h a
  | raise e => exact .raise e _
  | call c k ih => exact .own fun r => ih _

theorem Shadows.foreign_bind {D : Type} {V : D → Type} {κ : Embedding D V C' R'} (hκ : ∀ d, ι.Foreign (κ.cmd d))
    {γ : Type} {q : Program D V E γ} {f' : γ → Program C' R' E α'} {p : Program C R E α}
    (h : ∀ a, Shadows ι End (f' a) p) : Shadows ι End (κ.lift q >>= f') p := by
  induction q with
  | ret a => exact h a
  | raise e => exact .raise e p
  | call d k ih => exact .foreign (hκ d) fun r => ih _

theorem Becomes.foreign_bind {D : Type} {V : D → Type} {κ : Embedding D V C' R'} (hκ : ∀ d, ι.Foreign (κ.cmd d))
    (hc : Standing choice) {γ : Type} {q : Program D V E γ} {f' : γ → Program C' R' E α'}
    {h : List (Call C' R')} (hf : ∀ a h', Becomes ι End choice h' (f' a)) :
    Becomes ι End choice h (κ.lift q >>= f') := by
  induction q generalizing h with
  | ret a => exact hf a h
  | raise e =>
    obtain ⟨p, hp⟩ := hc.exists_choice h
    exact .bound p hp (.raise e p)
  | call d k ih => exact .foreign (hκ d) fun r => ih _

/-- Where a run of the whole stands in the run of the part: programs that have
not issued a call of the part may still become any of their choices. -/
structure Stands (M : Machine C R S T) (ι : Embedding C R C' R') (proj : S' → S)
    (End : Nat → α' → Program C R E α → Prop) (s₀ : S) (ps : Nat → Program C R E α)
    (bound : Nat → Prop) (P' : Pool C' R' E α' S') (P : Pool C R E α S) : Prop where
  runs : Runs M (fun _ _ => True) ⟨ps, s₀, []⟩ P
  store : P.store = proj P'.store
  trace : P.trace = P'.trace.filterMap (ι.entry proj)
  waits : ∀ i, ¬ bound i → P.procs i = ps i
  shadows : ∀ i, bound i → Shadows ι (End i) (P'.procs i) (P.procs i)

variable {M' : Machine C' R' S' T'} {M : Machine C R S T} {proj : S' → S} {time : T' → Option T}
  {Ends : Nat → α' → Program C R E α → Prop} {s₀ : S} {ps : Nat → Program C R E α} {bound : Nat → Prop}
  {P' : Pool C' R' E α' S'} {P : Pool C R E α S}

theorem Stands.env (h : Stands M ι proj Ends s₀ ps bound P' P) (hM : Component M' M ι proj time) (t : T') :
    ∃ Q, Stands M ι proj Ends s₀ ps bound (P'.env M' t) Q := by
  cases ht : time t with
  | none => exact ⟨P, h.runs, h.store.trans (hM.still t _ ht).symm, h.trace, h.waits, h.shadows⟩
  | some u =>
    refine ⟨P.env M u, .move h.runs (.env u) trivial, ?_, h.trace, h.waits, h.shadows⟩
    rw [Pool.env, h.store]
    exact (hM.env t u _ ht).symm

theorem Stands.stop (h : Stands M ι proj Ends s₀ ps bound P' P) (i : Nat) (e : E) :
    Stands M ι proj Ends s₀ ps bound (P'.stop i e) P := by
  refine ⟨h.runs, h.store, h.trace, h.waits, fun j hj => ?_⟩
  by_cases hi : j = i
  · subst hi
    simp only [Pool.stop, Function.update_self]
    exact .raise e _
  · simpa only [Pool.stop, Function.update_of_ne hi] using h.shadows j hj

theorem Stands.foreign (h : Stands M ι proj Ends s₀ ps bound P' P) (hM : Component M' M ι proj time)
    {i : Nat} {c : C'} {k : R' c → Program C' R' E α'} (hc : ι.Foreign c)
    (hk : bound i → Shadows ι (Ends i) (k (M'.exec c P'.store).1) (P.procs i)) :
    Stands M ι proj Ends s₀ ps bound (P'.call M' i c k) P := by
  refine ⟨h.runs, h.store.trans (hM.foreign c _ hc).symm, ?_, h.waits, fun j hj => ?_⟩
  · simp [Pool.call, h.trace, Embedding.entry, hc _]
  · by_cases hi : j = i
    · subst hi
      simpa only [Pool.call, Function.update_self] using hk hj
    · simpa only [Pool.call, Function.update_of_ne hi] using h.shadows j hj

theorem Stands.own (h : Stands M ι proj Ends s₀ ps bound P' P) (hM : Component M' M ι proj time)
    {i : Nat} {c : C} {k' : R' (ι.cmd c) → Program C' R' E α'} {k : R c → Program C R E α}
    (hi : bound i) (hp : P.procs i = .call c k)
    (hk : ∀ r, Shadows ι (Ends i) (k' r) (k (ι.res c r))) :
    Stands M ι proj Ends s₀ ps bound (P'.call M' i (ι.cmd c) k') (P.call M i c k) := by
  have hexec := hM.exec c P'.store
  rw [← h.store] at hexec
  refine ⟨?_, ?_, ?_, fun j hj => ?_, fun j hj => ?_⟩
  · have hr := Runs.move h.runs (.go i) trivial
    rwa [move_go hp] at hr
  · simp only [Pool.call, hexec]
  · simp [Pool.call, hexec, h.trace, Embedding.entry, ι.part_cmd, ← h.store]
  · have hne : j ≠ i := fun he => hj (he ▸ hi)
    simpa only [Pool.call, Function.update_of_ne hne] using h.waits j hj
  · by_cases hij : j = i
    · subst hij
      simpa only [Pool.call, Function.update_self, hexec] using hk _
    · simpa only [Pool.call, Function.update_of_ne hij] using h.shadows j hj

/-- Some programs are bound to a choice; however the others are chosen, the
part has a run that stands where the whole does. -/
structure Tracks (M : Machine C R S T) (ι : Embedding C R C' R') (proj : S' → S)
    (Ends : Nat → α' → Program C R E α → Prop) (choices : Nat → List (Call C' R') → Program C R E α → Prop)
    (s₀ : S) (binding : Nat → Option (Program C R E α)) (P' : Pool C' R' E α' S') : Prop where
  chosen : ∀ i p, binding i = some p → choices i (own i P'.trace) p
  pending : ∀ i, binding i = none → Becomes ι (Ends i) (choices i) (own i P'.trace) (P'.procs i)
  stands : ∀ ps, (∀ i p, binding i = some p → ps i = p) →
    ∃ P, Stands M ι proj Ends s₀ ps (fun i => binding i ≠ none) P' P

variable {choices : Nat → List (Call C' R') → Program C R E α → Prop} {binding : Nat → Option (Program C R E α)}

/-- A program that is about to issue a call of the part is bound first. -/
theorem Tracks.bind (h : Tracks M ι proj Ends choices s₀ binding P') {i : Nat} (hi : binding i = none)
    {p : Program C R E α} (hp : choices i (own i P'.trace) p) (hs : Shadows ι (Ends i) (P'.procs i) p) :
    Tracks M ι proj Ends choices s₀ (Function.update binding i (some p)) P' := by
  have hne : ∀ j, binding j ≠ none → j ≠ i := fun j hj he => hj (he ▸ hi)
  refine ⟨fun j q hq => ?_, fun j hj => ?_, fun ps hfix => ?_⟩
  · by_cases hij : j = i
    · subst hij
      rw [Function.update_self, Option.some.injEq] at hq
      exact hq ▸ hp
    · exact h.chosen j q (by rwa [Function.update_of_ne hij] at hq)
  · have hij : j ≠ i := fun he => by simp [he] at hj
    exact h.pending j (by rwa [Function.update_of_ne hij] at hj)
  · obtain ⟨P, hP⟩ := h.stands ps fun j q hq => hfix j q (by
      rw [Function.update_of_ne (hne j (by simp [hq])), hq])
    refine ⟨P, hP.runs, hP.store, hP.trace, fun j hj => hP.waits j fun hb => hj ?_, fun j hj => ?_⟩
    · rwa [Function.update_of_ne (hne j hb)]
    · by_cases hij : j = i
      · subst hij
        rw [hP.waits j (by simp [hi]), hfix j p (by simp)]
        exact hs
      · exact hP.shadows j (by rwa [Function.update_of_ne hij] at hj)

theorem Tracks.call_bound (h : Tracks M ι proj Ends choices s₀ binding P') (hc : ∀ i, Standing (choices i))
    (hM : Component M' M ι proj time) {i : Nat} (hi : binding i ≠ none) {c : C'}
    {k : R' c → Program C' R' E α'} (hp : P'.procs i = .call c k) :
    Tracks M ι proj Ends choices s₀ binding (P'.call M' i c k) := by
  refine ⟨fun j q hq => (hc j).later (h.chosen j q hq) (own_mono (List.suffix_cons _ _)), fun j hj => ?_,
    fun ps hfix => ?_⟩
  · have hij : j ≠ i := fun he => hi (he ▸ hj)
    simpa only [Pool.call, Function.update_of_ne hij, own_cons_ne hij.symm] using h.pending j hj
  · obtain ⟨P, hP⟩ := h.stands ps hfix
    have hs := hP.shadows i hi
    rw [hp] at hs
    generalize hq : P.procs i = q at hs
    cases hs with
    | own hk => exact ⟨_, hP.own hM hi hq hk⟩
    | foreign hc hk => exact ⟨P, hP.foreign hM hc fun _ => hq ▸ hk _⟩

theorem Tracks.call (h : Tracks M ι proj Ends choices s₀ binding P') (hc : ∀ i, Standing (choices i))
    (hM : Component M' M ι proj time) {i : Nat} {c : C'} {k : R' c → Program C' R' E α'}
    (hp : P'.procs i = .call c k) : ∃ binding', Tracks M ι proj Ends choices s₀ binding' (P'.call M' i c k) := by
  cases hi : binding i with
  | some q => exact ⟨binding, h.call_bound hc hM (by simp [hi]) hp⟩
  | none =>
    have hb := h.pending i hi
    rw [hp] at hb
    cases hb with
    | bound p hchoice hs => exact ⟨_, (h.bind hi hchoice (hp ▸ hs)).call_bound hc hM (by simp) hp⟩
    | foreign hforeign hk =>
      refine ⟨binding, fun j q hq => (hc j).later (h.chosen j q hq) (own_mono (List.suffix_cons _ _)), fun j hj => ?_,
        fun ps hfix => ?_⟩
      · by_cases hij : j = i
        · subst hij
          simpa only [Pool.call, Function.update_self, own_cons_self] using hk _
        · simpa only [Pool.call, Function.update_of_ne hij, own_cons_ne (Ne.symm hij)] using h.pending j hj
      · obtain ⟨P, hP⟩ := h.stands ps hfix
        exact ⟨P, hP.foreign hM hforeign fun hne => absurd hi hne⟩

theorem Tracks.stop (h : Tracks M ι proj Ends choices s₀ binding P') (hc : ∀ i, Standing (choices i))
    (i : Nat) (e : E) : Tracks M ι proj Ends choices s₀ binding (P'.stop i e) := by
  refine ⟨h.chosen, fun j hj => ?_, fun ps hfix => ?_⟩
  · by_cases hij : j = i
    · subst hij
      obtain ⟨p, hp⟩ := (hc j).exists_choice (own j P'.trace)
      simp only [Pool.stop, Function.update_self]
      exact .bound p hp (.raise e p)
    · simpa only [Pool.stop, Function.update_of_ne hij] using h.pending j hj
  · obtain ⟨P, hP⟩ := h.stands ps hfix
    exact ⟨P, hP.stop i e⟩

theorem Tracks.env (h : Tracks M ι proj Ends choices s₀ binding P') (hM : Component M' M ι proj time)
    (t : T') : Tracks M ι proj Ends choices s₀ binding (P'.env M' t) := by
  refine ⟨h.chosen, h.pending, fun ps hfix => ?_⟩
  obtain ⟨P, hP⟩ := h.stands ps hfix
  exact hP.env hM t

theorem Becomes.exists_end (hc : Standing choice) {h : List (Call C' R')} {p' : Program C' R' E α'}
    (hb : Becomes ι End choice h p') : ∃ p, choice h p ∧ ∀ a, p' = .ret a → End a p := by
  cases hb with
  | bound p hp hs =>
    refine ⟨p, hp, fun a ha => ?_⟩
    subst ha
    cases hs with
    | ret hend => exact hend
  | foreign =>
    obtain ⟨p, hp⟩ := hc.exists_choice h
    exact ⟨p, hp, fun a ha => nomatch ha⟩

/-- Every interleaving of the whole is, seen from the part, an interleaving of
programs of the part: the same store and the same calls, in the same order. -/
theorem projects {ok : Pool C' R' E α' S' → Move E T' → Prop} {P₀ : Pool C' R' E α' S'}
    (hM : Component M' M ι proj time) (ht : P₀.trace = []) (hc : ∀ i, Standing (choices i))
    (hp : ∀ i, Becomes ι (Ends i) (choices i) [] (P₀.procs i)) (hr : Runs M' ok P₀ P') :
    ∃ ps P, (∀ i, choices i (own i P'.trace) (ps i)) ∧ Runs M (fun _ _ => True) ⟨ps, proj P₀.store, []⟩ P ∧
      P.store = proj P'.store ∧ P.trace = P'.trace.filterMap (ι.entry proj) ∧
      ∀ i a, P'.procs i = .ret a → Ends i a (P.procs i) := by
  have hJ : ∃ binding, Tracks M ι proj Ends choices (proj P₀.store) binding P' := by
    refine hr.invariant (J := fun Q => ∃ binding, Tracks M ι proj Ends choices (proj P₀.store) binding Q)
      ?_ ?_ ?_ ?_
    · refine ⟨fun _ => none, nofun, fun i _ => ?_, fun ps _ => ⟨⟨ps, proj P₀.store, []⟩, ?_⟩⟩
      · rw [ht, own_nil]
        exact hp i
      · exact ⟨.refl, rfl, by simp [ht], fun _ _ => rfl, fun _ hi => absurd rfl hi⟩
    · rintro Q i c k ⟨binding, hQ⟩ - hk
      exact hQ.call hc hM hk
    · rintro Q i e ⟨binding, hQ⟩
      exact ⟨binding, hQ.stop hc i e⟩
    · rintro Q t ⟨binding, hQ⟩
      exact ⟨binding, hQ.env hM t⟩
  obtain ⟨binding, hF⟩ := hJ
  -- programs that have made no call of the part are chosen only now
  have hps : ∀ i, ∃ p, choices i (own i P'.trace) p ∧ (∀ q, binding i = some q → p = q) ∧
      (binding i = none → ∀ a, P'.procs i = .ret a → Ends i a p) := by
    intro i
    cases hi : binding i with
    | some q => exact ⟨q, hF.chosen i q hi, fun _ hq => Option.some.inj hq, nofun⟩
    | none =>
      obtain ⟨p, hchoice, hend⟩ := (hF.pending i hi).exists_end (hc i)
      exact ⟨p, hchoice, nofun, fun _ => hend⟩
  choose ps hchoice hfix hend using hps
  obtain ⟨P, hP⟩ := hF.stands ps hfix
  refine ⟨ps, P, hchoice, hP.runs, hP.store, hP.trace, fun i a ha => ?_⟩
  by_cases hi : binding i = none
  · rw [hP.waits i (by simp [hi])]
    exact hend i hi a ha
  · have hs := hP.shadows i hi
    rw [ha] at hs
    generalize P.procs i = q at hs
    cases hs with
    | ret h => exact h

end Projection

end YoutubeRecords.CommandEmbedding
