import YoutubeRecords.FollowUps
import YoutubeRecords.SessionSoundness

namespace YoutubeRecords.EntryExpiry

open CommandProgram ProgramPool PythonBasics AccountStore AccountViews SessionPromises SessionSoundness FollowUps

def ageOf (key : String) : Nat :=
  if "_secret".toList.isSuffixOf key.toList then refreshAgeMinutes * 60 else accessAgeMinutes * 60

def followUp : Cmd → Option Cmd
  | .set key _ => some (.expire key (ageOf key))
  | _ => none

def LastWrite (key : String) (time : Nat) : Trace → Prop :=
  Since (fun e => ∀ value, e.call.cmd ≠ .set key value)
    (fun e => (∃ value, e.call.cmd = .set key value) ∧ e.before.clock = time)

def ExpiresWithin (s : Store) (t : Trace) (key : String) (seconds : Nat) : Prop :=
  ∀ x, s.live key = some x →
    ∃ w time, x.expiry = some w ∧ LastWrite key time t ∧ w ≤ time + seconds * 1000

def EntriesExpire (s : Store) (t : Trace) : Prop :=
  ∀ k, ExpiresWithin s t (k ++ "_access") (accessAgeMinutes * 60) ∧
    ExpiresWithin s t (k ++ "_secret") (refreshAgeMinutes * 60)

def Quiescent (P : Pool Cmd Answer Exn Reply Store) : Prop :=
  ∀ i, own i P.trace ≠ [] → ∀ c f, P.procs i ≠ .call c f

/-- An expiry follows the request's own write of the key, or ends it at once. -/
def expiryPromise (h : History) : Call Cmd Answer → Prop
  | ⟨.expire key seconds, _⟩ => seconds = 0 ∨
      ∃ value rest, h = ⟨.set key value, ()⟩ :: rest ∧ seconds = ageOf key
  | _ => True

theorem ageOf_secret (k : String) : ageOf (k ++ "_secret") = refreshAgeMinutes * 60 := by
  rw [ageOf, if_pos (secretKey_isSuffixOf k)]

theorem ageOf_access (k : String) : ageOf (k ++ "_access") = accessAgeMinutes * 60 := by
  have hk : ¬ "_secret".toList.isSuffixOf (k ++ "_access").toList = true := by
    rw [List.isSuffixOf_iff_suffix, String.toList_append]
    intro hs
    have := List.suffix_of_suffix_length_le hs (List.suffix_append k.toList "_access".toList) (by decide)
    exact absurd this (by decide)
  rw [ageOf, if_neg hk]

/-- The program writes keys only through `setValue`, with the age of the key. -/
structure Orderly {α : Type} (p : Prog α) : Prop where
  prompt : Prompt followUp p
  obeys : ∀ h, Obeys expiryPromise (fun _ _ => True) p h

section Orderly

variable {α β : Type}

theorem orderly_ret (a : α) : Orderly (.ret a : Prog α) := ⟨trivial, fun _ => trivial⟩

theorem orderly_raise (e : Exn) : Orderly (.raise e : Prog α) := ⟨trivial, fun _ => trivial⟩

theorem Orderly.bind {p : Prog α} {f : α → Prog β} (hp : Orderly p) (hf : ∀ a, Orderly (f a)) :
    Orderly (p >>= f) :=
  ⟨hp.prompt.bind fun a => (hf a).prompt, fun h => (hp.obeys h).bind fun a h _ => (hf a).obeys h⟩

theorem orderly_call {c : Cmd} {k : Answer c → Prog α} (hs : ∀ key value, c ≠ .set key value)
    (he : ∀ key seconds, c = .expire key seconds → seconds = 0) (hk : ∀ r, Orderly (k r)) : Orderly (.call c k) := by
  constructor
  · refine prompt_call ?_ fun r => (hk r).prompt
    cases c with
    | set key value => exact absurd rfl (hs key value)
    | expire | get | existsKey | utcnow | encode | decode | findUser | saveUser => rfl
  · intro h r
    refine ⟨?_, (hk r).obeys _⟩
    cases c with
    | set key value => exact absurd rfl (hs key value)
    | expire key seconds => exact .inl (he key seconds rfl)
    | get | existsKey | utcnow | encode | decode | findUser | saveUser => trivial

theorem orderly_setValue (key value : String) {age : Nat} (h : age = ageOf key) :
    Orderly (setValue key value age) := by
  subst h
  constructor
  · intro r
    refine ⟨prompt_call rfl fun _ => prompt_call rfl fun _ => trivial, fun d hd => ?_⟩
    obtain rfl := Option.some.inj hd
    exact ⟨_, rfl⟩
  · intro h
    exact setValue_obeys key value _ h (fun _ _ => trivial) trivial (.inr ⟨value, h, rfl, rfl⟩) fun _ => trivial

theorem orderly_createToken (userId secret : String) (age : Nat) : Orderly (createToken userId secret age) := by
  refine orderly_call (by simp) (by simp) fun now => orderly_call (by simp) (by simp) fun issued => ?_
  exact orderly_call (by simp) (by simp) orderly_ret

theorem orderly_drawKeyName (draws : List KeyDraw) : Orderly (drawKeyName draws) := by
  induction draws with
  | nil => exact orderly_raise _
  | cons draw draws ih =>
    refine orderly_call (by simp) (by simp) fun taken => ?_
    cases taken with
    | true => exact ih
    | false => exact orderly_ret _

theorem orderly_startSession (draws : Draws) (user : User) : Orderly (startSession draws user) := by
  refine (orderly_createToken _ _ _).bind fun access => (orderly_createToken _ _ _).bind fun refresh => ?_
  refine (orderly_drawKeyName _).bind fun k => ?_
  refine (orderly_setValue _ _ (ageOf_access k).symm).bind fun _ => ?_
  refine (orderly_setValue _ _ (ageOf_secret k).symm).bind fun _ => ?_
  exact orderly_call (by simp) (by simp) fun now => orderly_ret _

theorem orderly_login (env : Env) (draws : Draws) (data : LoginData) : Orderly (LoginView.post env draws data) := by
  unfold LoginView.post
  split
  · simp only [ask, perform_bind]
    refine orderly_call (by simp) (by simp) fun found => ?_
    cases found with
    | none => exact orderly_ret _
    | some user =>
      cases hc : checkPassword env user.password data.password with
      | error e =>
        simp only [hc]
        exact orderly_raise e
      | ok accepted =>
        cases accepted with
        | false =>
          simp only [hc]
          exact orderly_ret _
        | true =>
          simp only [hc]
          exact orderly_startSession draws user
  · exact orderly_ret _

theorem orderly_refresh (cookies : Cookies) : Orderly (RefreshToken.post cookies) := by
  unfold RefreshToken.post
  split
  · exact orderly_ret _
  · exact orderly_ret _
  · refine orderly_call (by simp) (by simp) fun secret => orderly_call (by simp) (by simp) fun claims => ?_
    cases claims with
    | error e =>
      cases e with
      | expiredSignature | decodeError | typeError => exact orderly_raise _
    | ok payload =>
      cases secret with
      | none => exact orderly_raise _
      | some secret =>
        refine (orderly_createToken _ _ _).bind fun access => ?_
        exact (orderly_setValue _ _ (ageOf_access _).symm).bind fun _ => orderly_ret _

theorem orderly_logout (cookies : Cookies) : Orderly (LogoutView.post cookies) := by
  unfold LogoutView.post
  split
  · exact orderly_raise _
  · refine orderly_call (by simp) (by simp) fun _ => orderly_call (by simp) (by simp) fun _ => orderly_ret _

theorem orderly_register (env : Env) (salt : Salt) (data : RegisterData) :
    Orderly (RegisterView.post env salt data) := by
  unfold RegisterView.post
  split
  · split
    · exact orderly_raise _
    · exact orderly_ret _
    · split
      · simp only [ask, perform_bind]
        refine orderly_call (by simp) (by simp) fun found => ?_
        cases found with
        | some user => exact orderly_ret _
        | none =>
          refine orderly_call (by simp) (by simp) fun saved => ?_
          cases saved with
          | true => exact orderly_ret _
          | false => exact orderly_raise _
      · exact orderly_raise _
  · exact orderly_ret _

theorem orderly_processRequest (path : String) (cookies : Cookies) : Orderly (processRequest path cookies) := by
  unfold processRequest
  split
  · exact orderly_ret _
  · split
    · exact orderly_raise _
    · simp only [getValue, ask, perform_bind]
      refine orderly_call (by simp) (by simp) fun secret => orderly_call (by simp) (by simp) fun token => ?_
      split
      · exact orderly_raise _
      · refine orderly_call (by simp) (by simp) fun claims => ?_
        cases claims with
        | error e =>
          cases e with
          | expiredSignature | decodeError | typeError => exact orderly_raise _
        | ok payload => exact orderly_ret _

theorem orderly_getUser (keyName : Option String) : Orderly (getUser keyName) := by
  unfold getUser
  split
  · exact orderly_raise _
  · simp only [getValue, ask, perform_bind]
    refine orderly_call (by simp) (by simp) fun secret => orderly_call (by simp) (by simp) fun token => ?_
    split
    · refine orderly_call (by simp) (by simp) fun claims => ?_
      cases claims with
      | error e =>
        cases e with
        | expiredSignature | decodeError | typeError => exact orderly_raise _
      | ok payload => exact orderly_call (by simp) (by simp) orderly_ret
    · exact orderly_ret _

theorem orderly_program (env : Env) (req : Request) : Orderly (req.program env) := by
  cases req with
  | register salt data => exact (orderly_register env salt data).bind fun _ => orderly_ret _
  | login draws data => exact (orderly_login env draws data).bind fun _ => orderly_ret _
  | refresh cookies => exact (orderly_refresh cookies).bind fun _ => orderly_ret _
  | logout cookies => exact (orderly_logout cookies).bind fun _ => orderly_ret _
  | protectedView path cookies asksUser =>
    refine (orderly_processRequest path cookies).bind fun _ => ?_
    cases asksUser with
    | false => exact orderly_ret _
    | true => exact (orderly_getUser cookies.jwt).bind fun _ => orderly_ret _

end Orderly

/-- Whoever owes an expiry has written the key at this moment, and a live key
has its expiry unless somebody owes it. -/
structure Timely (P : Pool Cmd Answer Exn Reply Store) : Prop where
  lawful : Lawful (fun _ => expiryPromise) (fun _ _ _ => True) P
  punctual : Punctual followUp P
  fresh : ∀ i key, Owes followUp i (.expire key (ageOf key)) P.trace → LastWrite key P.store.clock P.trace
  bounded : ∀ key x, P.store.live key = some x → (∃ i, Owes followUp i (.expire key (ageOf key)) P.trace) ∨
    ∃ w time, x.expiry = some w ∧ LastWrite key time P.trace ∧ w ≤ time + ageOf key * 1000

variable {env : Env}

theorem timely_start (clock : Nat) (users : List User) (reqs : Nat → Request) :
    Timely (start env clock users reqs) := by
  refine ⟨fun i => (orderly_program env (reqs i)).obeys _, ?_, ?_, ?_⟩
  · exact punctual_start (fun i => (orderly_program env (reqs i)).prompt) rfl
  · rintro i key ⟨x, rest, ho, -⟩
    cases ho
  · intro key x hx
    simp [start, Store.live, ExpiringStore.live] at hx

theorem lastWrite_cons {key : String} {time : Nat} {t : Trace} (h : LastWrite key time t)
    {e : Entry Cmd Answer Store} (he : e.before.clock = time) : LastWrite key time (e :: t) := by
  by_cases hw : ∃ value, e.call.cmd = .set key value
  · exact .inl ⟨hw, he⟩
  · exact .inr ⟨fun value hv => hw ⟨value, hv⟩, h⟩

theorem Timely.fresh_call {P : Pool Cmd Answer Exn Reply Store} (h : Timely P) {i : Nat} {c : Cmd}
    {k : Answer c → Prog Reply} (j : Nat) (key : String)
    (ho : Owes followUp j (.expire key (ageOf key)) (P.call (machine env) i c k).trace) :
    LastWrite key (P.call (machine env) i c k).store.clock (P.call (machine env) i c k).trace := by
  have hclock : (P.call (machine env) i c k).store.clock = P.store.clock := exec_clock env c P.store
  rw [hclock]
  by_cases hj : j = i
  · subst hj
    have hc := owes_cons_self.mp ho
    refine .inl ⟨?_, rfl⟩
    cases c with
    | set key' value =>
      simp only [followUp, Option.some.injEq, Cmd.expire.injEq] at hc
      exact ⟨value, by rw [← hc.1]⟩
    | expire | get | existsKey | utcnow | encode | decode | findUser | saveUser => cases hc
  · exact lastWrite_cons (h.fresh j key ((owes_cons_ne (Ne.symm hj)).mp ho)) rfl

theorem Timely.bounded_other {P : Pool Cmd Answer Exn Reply Store} (h : Timely P) {i : Nat} {c : Cmd}
    {k : Answer c → Prog Reply} (hp : P.procs i = .call c k) {key : String} {x : ExpiringStore.Item String}
    (hs : ∀ value, c ≠ .set key value) (he : ∀ seconds, c ≠ .expire key seconds)
    (hx : (P.call (machine env) i c k).store.live key = some x) :
    (∃ j, Owes followUp j (.expire key (ageOf key)) (P.call (machine env) i c k).trace) ∨
      ∃ w time, x.expiry = some w ∧ LastWrite key time (P.call (machine env) i c k).trace ∧
        w ≤ time + ageOf key * 1000 := by
  have hl : P.store.live key = some x := (live_exec env c P.store key hs he).symm.trans hx
  obtain ⟨j, hj⟩ | ⟨w, time, hw, hlast, hle⟩ := h.bounded key x hl
  · by_cases hji : j = i
    · subst hji
      exact absurd (h.punctual.acts hp hj) (he _)
    · exact .inl ⟨j, (owes_cons_ne (Ne.symm hji)).mpr hj⟩
  · exact .inr ⟨w, time, hw, .inr ⟨hs, hlast⟩, hle⟩

theorem Timely.bounded_call {P : Pool Cmd Answer Exn Reply Store} (h : Timely P) {i : Nat} {c : Cmd}
    {k : Answer c → Prog Reply} (hp : P.procs i = .call c k) (key : String) (x : ExpiringStore.Item String)
    (hx : (P.call (machine env) i c k).store.live key = some x) :
    (∃ j, Owes followUp j (.expire key (ageOf key)) (P.call (machine env) i c k).trace) ∨
      ∃ w time, x.expiry = some w ∧ LastWrite key time (P.call (machine env) i c k).trace ∧
        w ≤ time + ageOf key * 1000 := by
  have hG := (h.lawful.call (M := machine env) hp).1
  cases c with
  | set key' value =>
    by_cases hk : key' = key
    · subst hk
      exact .inl ⟨i, owes_cons_self.mpr rfl⟩
    · exact h.bounded_other hp (fun v hc => hk (Cmd.set.inj hc).1) (by simp) hx
  | expire key' seconds =>
    by_cases hk : key' = key
    · subst hk
      obtain ⟨hpos, hexp, -⟩ := ExpiringStore.live_expire_self hx
      obtain rfl | ⟨value, rest, ho, rfl⟩ := hG
      · exact absurd hpos (by simp)
      · have hlast := h.fresh i key' ⟨_, rest, ho, rfl⟩
        exact .inr ⟨_, _, hexp, lastWrite_cons hlast rfl, le_rfl⟩
    · exact h.bounded_other hp (by simp) (fun n hc => hk (Cmd.expire.inj hc).1) hx
  | get | existsKey | utcnow | encode | decode | findUser | saveUser =>
    exact h.bounded_other hp (by simp) (by simp) hx

theorem timely_runs {clock : Nat} {users : List User} {reqs : Nat → Request}
    {P : Pool Cmd Answer Exn Reply Store}
    (hr : Runs (machine env) (Undisturbed followUp) (start env clock users reqs) P) : Timely P := by
  refine hr.guarded (timely_start clock users reqs) ?_ ?_ ?_
  · intro Q i c k h _ hp
    exact ⟨(h.lawful.call hp).2, h.punctual.call hp, h.fresh_call, h.bounded_call hp⟩
  · intro Q i e h hok
    exact ⟨h.lawful.stop i e, h.punctual.stop e hok, h.fresh, h.bounded⟩
  · intro Q ms h hok
    refine ⟨h.lawful, ⟨h.punctual.prompt, h.punctual.due⟩, fun i key ho => absurd ho (hok i _), ?_⟩
    intro key x hx
    exact h.bounded key x (ExpiringStore.live_of_later hx)

theorem Timely.expiresWithin {P : Pool Cmd Answer Exn Reply Store} (h : Timely P) (hq : Quiescent P)
    (key : String) : ExpiresWithin P.store P.trace key (ageOf key) := by
  intro x hx
  obtain ⟨i, ho⟩ | hw := h.bounded key x hx
  · obtain ⟨f, hf⟩ := h.punctual.due i _ ho
    obtain ⟨y, rest, hy, -⟩ := ho
    exact absurd hf (hq i (by simp [hy]) _ f)
  · exact hw

/-- Where no request stops, and no time passes, between the write of a key and
its expiry, every entry of a session expires in time. -/
theorem entries_expire {clock : Nat} {users : List User} {reqs : Nat → Request}
    {P : Pool Cmd Answer Exn Reply Store}
    (hr : Runs (machine env) (Undisturbed followUp) (start env clock users reqs) P) (hq : Quiescent P) :
    EntriesExpire P.store P.trace := by
  have h := timely_runs hr
  intro k
  rw [← ageOf_access k, ← ageOf_secret k]
  exact ⟨h.expiresWithin hq _, h.expiresWithin hq _⟩

section StoppedLogin

def unfinished {α : Type} : Prog α → Bool
  | .call _ _ => true
  | _ => false

theorem quiescent_of_check {P : Pool Cmd Answer Exn Reply Store}
    (h : P.trace.all (fun e => !unfinished (P.procs e.pid)) = true) : Quiescent P := by
  intro i hi c f hp
  obtain ⟨x, hx⟩ := List.exists_mem_of_ne_nil _ hi
  obtain ⟨e, he, rfl, -⟩ := mem_own.mp hx
  have hr := List.all_eq_true.mp h e he
  rw [hp] at hr
  cases hr

def stoppedMoves : List (Move Exn Nat) := List.replicate 9 (.go 0) ++ [.stop 0 .stopped]

theorem stopped_checks :
    ((raceRun stoppedMoves).trace.all (fun e => !unfinished ((raceRun stoppedMoves).procs e.pid)) &&
      decide (((raceRun stoppedMoves).store.live "cccccccccc_access").map (·.expiry) = some none)) = true := by
  decide +kernel

theorem stopped_login_never_expires : ¬ ∀ (env : Env) (reqs : Nat → Request) (clock : Nat) (users : List User)
    (P : Pool Cmd Answer Exn Reply Store), Runs (machine env) (fun _ _ => True) (start env clock users reqs) P →
    Quiescent P → EntriesExpire P.store P.trace := by
  intro hall
  obtain ⟨hq, hl⟩ := Bool.and_eq_true_iff.mp stopped_checks
  have h := (hall raceEnv raceReqs 0 [raceUser] _ (runs_raceRun stoppedMoves) (quiescent_of_check hq)
    "cccccccccc").1
  obtain ⟨x, hx, hnone⟩ := Option.map_eq_some_iff.mp (of_decide_eq_true hl)
  obtain ⟨w, time, hw, -⟩ := h x hx
  rw [hnone] at hw
  cases hw

def owing (i : Nat) (t : Trace) : Bool :=
  match own i t with
  | x :: _ => (followUp x.cmd).isSome
  | [] => false

theorem owing_of_owes {i : Nat} {d : Cmd} {t : Trace} (h : Owes followUp i d t) : owing i t = true := by
  obtain ⟨x, rest, ho, hd⟩ := h
  simp [owing, ho, hd]

def undisturbed (Q : Pool Cmd Answer Exn Reply Store) : Move Exn Nat → Bool
  | .go _ => true
  | .stop i _ => !owing i Q.trace
  | .env _ => Q.trace.all (fun e => !owing e.pid Q.trace)

theorem undisturbed_of_check (Q : Pool Cmd Answer Exn Reply Store) (m : Move Exn Nat)
    (h : undisturbed Q m = true) : Undisturbed followUp Q m := by
  cases m with
  | go i => trivial
  | stop i e =>
    intro d ho
    simp [undisturbed, owing_of_owes ho] at h
  | env ms =>
    intro i d ho
    have howing := owing_of_owes ho
    obtain ⟨x, rest, hx, -⟩ := ho
    obtain ⟨e, he, rfl, -⟩ := mem_own.mp (hx ▸ List.mem_cons_self : x ∈ own i Q.trace)
    have hn := List.all_eq_true.mp h e he
    rw [howing] at hn
    cases hn

def calmMoves : List (Move Exn Nat) :=
  List.replicate 15 (.go 0) ++ .env 1000 :: List.replicate 3 (.go 3)

theorem calm_checks : (checkMoves (machine raceEnv) undisturbed calmMoves (start raceEnv 0 [raceUser] raceReqs) &&
    (raceRun calmMoves).trace.all (fun e => !unfinished ((raceRun calmMoves).procs e.pid)) &&
    ((raceRun calmMoves).store.live "cccccccccc_secret").isSome) = true := by
  decide +kernel

theorem entries_expire_calm : ((raceRun calmMoves).store.live "cccccccccc_secret").isSome = true ∧
    EntriesExpire (raceRun calmMoves).store (raceRun calmMoves).trace := by
  have h := calm_checks
  simp only [Bool.and_eq_true] at h
  have hr : Runs (machine raceEnv) (Undisturbed followUp) (start raceEnv 0 [raceUser] raceReqs)
      (raceRun calmMoves) := by
    unfold raceRun
    exact runs_checked undisturbed_of_check calmMoves _ h.1.1
  exact ⟨h.2, entries_expire hr (quiescent_of_check h.1.2)⟩

end StoppedLogin

end YoutubeRecords.EntryExpiry
