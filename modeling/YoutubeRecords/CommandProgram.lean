import Mathlib.Logic.Function.Basic

namespace YoutubeRecords.CommandProgram

/-- A program acts on its environment only through atomic commands. The
answer to a command `c` is a value of `R c`; all that happens between two
commands is pure. -/
inductive Program (C : Type) (R : C → Type) (E α : Type) where
  | ret (a : α)
  | raise (e : E)
  | call (c : C) (k : R c → Program C R E α)

variable {C : Type} {R : C → Type} {E S α β : Type}

def Program.bind : Program C R E α → (α → Program C R E β) → Program C R E β
  | .ret a, f => f a
  | .raise e, _ => .raise e
  | .call c k, f => .call c (fun r => (k r).bind f)

instance : Monad (Program C R E) where
  pure := .ret
  bind := Program.bind

def perform (c : C) : Program C R E (R c) := .call c .ret

@[simp] theorem pure_eq (a : α) : (pure a : Program C R E α) = .ret a := rfl

@[simp] theorem ret_bind (a : α) (f : α → Program C R E β) : (.ret a >>= f) = f a := rfl

@[simp] theorem raise_bind (e : E) (f : α → Program C R E β) : (.raise e >>= f) = .raise e := rfl

@[simp] theorem call_bind (c : C) (k : R c → Program C R E α) (f : α → Program C R E β) :
    (.call c k >>= f) = .call c (fun r => k r >>= f) := rfl

@[simp] theorem perform_bind (c : C) (f : R c → Program C R E β) :
    (perform c >>= f) = .call c f := rfl

def Program.returned : Program C R E α → Bool
  | .ret _ => true
  | _ => false

theorem exists_of_returned {p : Program C R E α} (h : p.returned = true) : ∃ a, p = .ret a := by
  cases p with
  | ret a => exact ⟨a, rfl⟩
  | raise | call => cases h

variable (exec : (c : C) → S → R c × S)

def run : Program C R E α → S → Except E α × S
  | .ret a, s => (.ok a, s)
  | .raise e, s => (.error e, s)
  | .call c k, s => run (k (exec c s).1) (exec c s).2

@[simp] theorem run_ret (a : α) (s : S) : run exec (.ret a : Program C R E α) s = (.ok a, s) := rfl

@[simp] theorem run_raise (e : E) (s : S) :
    run exec (.raise e : Program C R E α) s = (.error e, s) := rfl

@[simp] theorem run_call (c : C) (k : R c → Program C R E α) (s : S) :
    run exec (.call c k) s = run exec (k (exec c s).1) (exec c s).2 := rfl

theorem run_bind (p : Program C R E α) (f : α → Program C R E β) (s : S) :
    run exec (p >>= f) s =
      match run exec p s with
      | (.ok a, t) => run exec (f a) t
      | (.error e, t) => (.error e, t) := by
  induction p generalizing s with
  | ret a | raise e => rfl
  | call c k ih => simp only [call_bind, run_call, ih]

theorem run_bind_ok {p : Program C R E α} {f : α → Program C R E β} {s t : S} {a : α}
    (h : run exec p s = (.ok a, t)) : run exec (p >>= f) s = run exec (f a) t := by
  rw [run_bind, h]

theorem run_bind_error {p : Program C R E α} {f : α → Program C R E β} {s t : S} {e : E}
    (h : run exec p s = (.error e, t)) : run exec (p >>= f) s = (.error e, t) := by
  rw [run_bind, h]

theorem run_bind_ret (p : Program C R E α) (f : α → β) (s : S) :
    run exec (p >>= fun a => .ret (f a)) s = ((run exec p s).1.map f, (run exec p s).2) := by
  induction p generalizing s with
  | ret a | raise e => rfl
  | call c k ih => exact ih _ _

/-- A part of a lone execution: what is left of the program and the store it
has reached. An execution that a failing command cuts short ends in such a
pair. -/
inductive Steps : Program C R E α → S → Program C R E α → S → Prop
  | refl (p : Program C R E α) (s : S) : Steps p s p s
  | call {c : C} {k : R c → Program C R E α} {s t : S} {q : Program C R E α}
      (h : Steps (k (exec c s).1) (exec c s).2 q t) : Steps (.call c k) s q t

def advance : Nat → Program C R E α → S → Program C R E α × S
  | n + 1, .call c k, s => advance n (k (exec c s).1) (exec c s).2
  | _, p, s => (p, s)

theorem steps_advance (n : Nat) (p : Program C R E α) (s : S) :
    Steps exec p s (advance exec n p s).1 (advance exec n p s).2 := by
  induction n generalizing p s with
  | zero => exact .refl p s
  | succ n ih =>
    cases p with
    | ret a | raise e => exact .refl _ s
    | call c k => exact .call (ih _ _)

/-- `I` holds of every store an execution passes through, and `Q` of its
result if it returns one. -/
def Always (I : S → Prop) (Q : α → S → Prop) : Program C R E α → S → Prop
  | .ret a, s => I s ∧ Q a s
  | .raise _, s => I s
  | .call c k, s => I s ∧ Always I Q (k (exec c s).1) (exec c s).2

def Never (bad : C → Prop) : Program C R E α → S → Prop
  | .ret _, _ | .raise _, _ => True
  | .call c k, s => ¬ bad c ∧ Never bad (k (exec c s).1) (exec c s).2

theorem never_call {bad : C → Prop} (c : C) (k : R c → Program C R E α) (s : S) :
    Never exec bad (.call c k) s ↔ ¬ bad c ∧ Never exec bad (k (exec c s).1) (exec c s).2 := Iff.rfl

variable {exec} {I : S → Prop} {Q : α → S → Prop}

theorem always_of_keeps (h : ∀ c s, I s → I (exec c s).2) (p : Program C R E α) {s : S} (hs : I s) :
    Always exec I (fun _ _ => True) p s := by
  induction p generalizing s with
  | ret a => exact ⟨hs, trivial⟩
  | raise e => exact hs
  | call c k ih => exact ⟨hs, ih _ (h c s hs)⟩

theorem Always.run {p : Program C R E α} {s : S} (h : Always exec I Q p s) : I (run exec p s).2 := by
  induction p generalizing s with
  | ret a => exact h.1
  | raise e => exact h
  | call c k ih => exact ih _ h.2

theorem steps_run (p : Program C R E α) (s : S) :
    ∃ q, Steps exec p s q (run exec p s).2 := by
  induction p generalizing s with
  | ret a => exact ⟨.ret a, .refl _ _⟩
  | raise e => exact ⟨.raise e, .refl _ _⟩
  | call c k ih =>
    obtain ⟨q, hq⟩ := ih _ (exec c s).2
    exact ⟨q, .call hq⟩

end YoutubeRecords.CommandProgram
