import YoutubeRecords.CheckThenAct
import YoutubeRecords.SessionPromises

namespace YoutubeRecords.Registration

open CommandProgram ProgramPool CheckThenAct PythonBasics AccountStore AccountViews SessionPromises

def saves : Cmd → String → Prop
  | .saveUser user, email => user.email = email
  | _, _ => False

def foundMissing : Call Cmd Answer → String → Prop
  | ⟨.findUser id, found⟩, email => id = .str email ∧ found = none
  | _, _ => False

def isRegistered (s : Store) (email : String) : Prop := s.user email ≠ none

variable {env : Env} {reqs : Nat → Request} {clock : Nat} {users : List User}
  {P P' : Pool Cmd Answer Exn Reply Store}

theorem saves_iff {c : Cmd} {email : String} :
    saves c email ↔ ∃ user, c = .saveUser user ∧ user.email = email := by
  cases c <;> simp [saves]

theorem foundMissing_iff {x : Call Cmd Answer} {email : String} :
    foundMissing x email ↔ x = ⟨.findUser (.str email), none⟩ := by
  obtain ⟨c, r⟩ := x
  cases c with
  | findUser id =>
    constructor
    · rintro ⟨rfl, rfl⟩
      rfl
    · intro h
      cases h
      exact ⟨rfl, rfl⟩
  | set | expire | get | existsKey | utcnow | encode | decode | saveUser => simp [foundMissing]

/-- Every view but the registration leaves the users alone, and that one looks
the address up right before it saves. -/
theorem saveUser_guarded {req : Request} {h : History} {user : User} {r : Bool}
    (hp : promise env req h ⟨.saveUser user, r⟩) :
    ∃ salt data, req = .register salt data ∧ h = [⟨.findUser (.str user.email), none⟩] := by
  cases req with
  | register salt data =>
    obtain ⟨he, hh⟩ := hp
    exact ⟨salt, data, rfl, by rw [hh, he]⟩
  | login | refresh | logout | protectedView => exact hp.elim

theorem user_exec (c : Cmd) (s : Store) (email : String) (h : ¬ saves c email) :
    (exec env c s).2.user email = s.user email := by
  cases c with
  | saveUser user =>
    rw [user_saveUser, if_neg]
    exact fun hc => h hc.2
  | set | expire | get | existsKey | utcnow | encode | decode | findUser => rfl

theorem protocol (env : Env) (reqs : Nat → Request) :
    Protocol (machine env) (fun i => promise env (reqs i)) (fun _ _ => True) saves foundMissing
      isRegistered where
  guarded := by
    rintro i h ⟨c, r⟩ email hp ha
    obtain ⟨user, rfl, rfl⟩ := saves_iff.mp ha
    obtain ⟨salt, data, -, hh⟩ := saveUser_guarded hp
    exact ⟨_, [], hh, foundMissing_iff.mpr rfl⟩
  truthful := by
    intro c s email hc
    have hx := foundMissing_iff.mp hc
    obtain rfl : c = .findUser (.str email) := congrArg Call.cmd hx
    have hr : (exec env (.findUser (.str email)) s).1 = none := by
      simp only [Call.mk.injEq, true_and, heq_eq_eq] at hx
      exact hx
    rw [exec, find_str] at hr
    exact not_not.mpr hr
  readOnly := by
    intro c r email hc ha
    obtain ⟨user, rfl, -⟩ := saves_iff.mp ha
    exact hc
  created := by
    intro s t i c email _ _ h
    by_cases ha : saves c email
    · exact .inr ha
    · exact .inl fun hn => h ((user_exec c s email ha).trans hn)
  kept := fun _ _ _ _ _ _ => trivial
  env := fun _ _ _ h => h
  envKept := fun _ _ _ _ => trivial

def Succeeded (reqs : Nat → Request) (P : Pool Cmd Answer Exn Reply Store) (i : Nat)
    (email : String) : Prop :=
  ∃ salt data response, reqs i = .register salt data ∧ data.email = .str email ∧
    P.procs i = .ret (.response response) ∧ response.status = 200

/-- What is stored under an address in `P` is stored there in the later `P'`,
and at most one registration of an address has succeeded. -/
def AccountsKept (reqs : Nat → Request) (P P' : Pool Cmd Answer Exn Reply Store) : Prop :=
  (∀ email user, P.store.user email = some user → P'.store.user email = some user) ∧
    ∀ i j email, Succeeded reqs P' i email → Succeeded reqs P' j email → i = j

structure SavedOnce (s : Store) (t : List (Entry Cmd Answer Store)) : Prop where
  stored : ∀ e ∈ t, ∀ user, e.call = ⟨.saveUser user, true⟩ → isRegistered s user.email
  once : ∀ e ∈ t, ∀ e' ∈ t, ∀ user user', e.call = ⟨.saveUser user, true⟩ →
    e'.call = ⟨.saveUser user', true⟩ → user.email = user'.email → e.pid = e'.pid

theorem isRegistered_saved {user : User} {s : Store} (h : (exec env (.saveUser user) s).1 = true) :
    isRegistered (exec env (.saveUser user) s).2 user.email := by
  have ha : env.accepts user = true := by
    by_contra hn
    simp [exec, hn] at h
  simp [isRegistered, user_saveUser, ha]

theorem SavedOnce.call {s : Store} {t : List (Entry Cmd Answer Store)} (h : SavedOnce s t) (i : Nat)
    (c : Cmd) (hf : ∀ email, saves c email → ¬ isRegistered s email) :
    SavedOnce (exec env c s).2 (⟨i, ⟨c, (exec env c s).1⟩, s⟩ :: t) := by
  have old : ∀ e ∈ t, ∀ user, e.call = ⟨.saveUser user, true⟩ → ¬ saves c user.email :=
    fun e he user hc hs => hf _ hs (h.stored e he user hc)
  have new : ∀ user, (⟨c, (exec env c s).1⟩ : Call Cmd Answer) = ⟨.saveUser user, true⟩ →
      saves c user.email := by
    intro user hc
    obtain rfl : c = .saveUser user := congrArg Call.cmd hc
    rfl
  constructor
  · refine List.forall_mem_cons.mpr ⟨fun user hc => ?_, fun e he user hc => ?_⟩
    · obtain rfl : c = .saveUser user := congrArg Call.cmd hc
      apply isRegistered_saved
      simpa only [Call.mk.injEq, true_and, heq_eq_eq] using hc
    · exact user_exec_ne_none (h.stored e he user hc)
  · intro e he e' he' user user' hc hc' hu
    obtain rfl | he := List.mem_cons.mp he
    · obtain rfl | he' := List.mem_cons.mp he'
      · rfl
      · exact absurd (hu ▸ new user hc) (old e' he' user' hc')
    · obtain rfl | he' := List.mem_cons.mp he'
      · exact absurd (hu ▸ new user' hc') (old e he user hc)
      · exact h.once e he e' he' user user' hc hc' hu

theorem succeeded_saved (hl : Lawful (fun i => promise env (reqs i)) (fun i => reported (reqs i)) P)
    {i : Nat} {email : String} (h : Succeeded reqs P i email) :
    ∃ e ∈ P.trace, e.pid = i ∧ ∃ user, e.call = ⟨.saveUser user, true⟩ ∧ user.email = email := by
  obtain ⟨salt, data, response, hreq, hemail, hp, hstatus⟩ := h
  have hi : Obeys (promise env (reqs i)) (reported (reqs i)) (P.procs i) (own i P.trace) := hl i
  rw [hp, hreq] at hi
  obtain ⟨user, hu, -, hown⟩ := hi hstatus
  have hm : (⟨.saveUser user, true⟩ : Call Cmd Answer) ∈ own i P.trace := by
    rw [hown]
    simp
  obtain ⟨e, he, hpid, hcall⟩ := mem_own.mp hm
  refine ⟨e, he, hpid, user, hcall, ?_⟩
  rw [hemail] at hu
  exact (Json.str.inj hu).symm

theorem accounts_kept (h : Runs (machine env) (fun Q _ => Exclusive saves Q) (start env clock users reqs) P)
    (h' : Runs (machine env) (fun Q _ => Exclusive saves Q) P P') : AccountsKept reqs P P' := by
  have hp := protocol env reqs
  have hstart := hp.start (start_lawful env clock users reqs) rfl trivial
  have hfresh := hstart.runs hp h
  constructor
  · intro email user hu
    refine hfresh.invariant hp h' (I := fun s _ => s.user email = some user) hu ?_ (fun _ _ _ hs => hs)
    intro s t i c hs _ _ hf
    have hns : ¬ saves c email := fun ha => hf email ha (by simp [isRegistered, hs])
    exact (user_exec c s email hns).trans hs
  · intro i j email hi hj
    have hl := (hfresh.runs hp h').lawful
    obtain ⟨e, he, hpi, user, hc, hu⟩ := succeeded_saved hl hi
    obtain ⟨e', he', hpj, user', hc', hu'⟩ := succeeded_saved hl hj
    have hs : SavedOnce P'.store P'.trace :=
      hstart.invariant hp (h.trans h') (I := SavedOnce) ⟨by simp [start], by simp [start]⟩
        (fun s t i c hs _ _ hf => hs.call i c hf) (fun _ _ _ hs => ⟨hs.stored, hs.once⟩)
    rw [← hpi, ← hpj]
    exact hs.once e he e' he' user user' hc hc' (hu.trans hu'.symm)

section TwoRegistrations

def salt : Salt := ⟨"0123456789abcdef0123456789abcdef", by decide, mem_of_all (by decide)⟩

def digestEnv : Env := .recorded []
  [("0123456789abcdef0123456789abcdefsecret",
    "0bcca54fe4bc681d31dd1922d1cf4e8e3d4548a4bcca8fd33d47cbec06fd41e0"),
   ("0123456789abcdef0123456789abcdefother",
    "17233470240e12a249189f3c84b1f267ab8cf5f93b6cf7399b4f05608f1ef561")]

def posts : Nat → Salt × RegisterData
  | 0 => (salt, ⟨.str "first", .str "user@example.com", .str "secret"⟩)
  | 1 => (salt, ⟨.str "second", .str "user@example.com", .str "other"⟩)
  | _ => (salt, ⟨.null, .null, .null⟩)

def registrations (posts : Nat → Salt × RegisterData) (i : Nat) : Request :=
  .register (posts i).1 (posts i).2

def afterMoves (moves : List (Move Exn Nat)) : Pool Cmd Answer Exn Reply Store :=
  moves.foldl (fun P m => P.move (machine digestEnv) m) (start digestEnv 0 [] (registrations posts))

theorem account_overwritten_by_race : ¬ ∀ (env : Env) (posts : Nat → Salt × RegisterData) (clock : Nat)
    (users : List User) (P P' : Pool Cmd Answer Exn Reply Store),
    Runs (machine env) (fun _ _ => True) (start env clock users (registrations posts)) P →
    Runs (machine env) (fun _ _ => True) P P' → AccountsKept (registrations posts) P P' := by
  intro hall
  have h := hall digestEnv posts 0 [] (afterMoves [.go 0, .go 1, .go 0])
    (afterMoves [.go 0, .go 1, .go 0, .go 1]) (runs_moves _ _) (runs_moves [.go 1] _)
  have hname : ((afterMoves [.go 0, .go 1, .go 0]).store.user "user@example.com").map User.name =
      some "first" := by decide +kernel
  have hname' : ((afterMoves [.go 0, .go 1, .go 0, .go 1]).store.user "user@example.com").map User.name =
      some "second" := by decide +kernel
  obtain ⟨user, hu, hn⟩ := Option.map_eq_some_iff.mp hname
  rw [h.1 _ _ hu, Option.map_some, hn] at hname'
  exact absurd hname' (by decide)

def savesUser : Cmd → Bool
  | .saveUser _ => true
  | _ => false

theorem turn_checks :
    checkMoves (machine digestEnv) (takesTurns savesUser) [.go 0, .go 0]
      (start digestEnv 0 [] (registrations posts)) = true ∧
    checkMoves (machine digestEnv) (takesTurns savesUser) [.go 1] (afterMoves [.go 0, .go 0]) = true ∧
    ((afterMoves [.go 0, .go 0]).store.user "user@example.com").isSome = true := by
  decide +kernel

theorem accounts_kept_in_turn : ((afterMoves [.go 0, .go 0]).store.user "user@example.com").isSome ∧
    AccountsKept (registrations posts) (afterMoves [.go 0, .go 0]) (afterMoves [.go 0, .go 0, .go 1]) := by
  obtain ⟨hfirst, hsecond, hstored⟩ := turn_checks
  have hp := protocol digestEnv (registrations posts)
  have hacts : ∀ c k, saves c k → savesUser c = true := by
    intro c k hc
    cases c with
    | saveUser => rfl
    | _ => cases hc
  have h : Runs (machine digestEnv) (fun Q _ => Exclusive saves Q) (start digestEnv 0 [] (registrations posts))
      (afterMoves [.go 0, .go 0]) := hp.runs_in_turn hacts _ (start_lawful digestEnv 0 [] _) hfirst
  exact ⟨hstored, accounts_kept h (hp.runs_in_turn hacts _ ((start_lawful digestEnv 0 [] _).runs h) hsecond)⟩

end TwoRegistrations

end YoutubeRecords.Registration
