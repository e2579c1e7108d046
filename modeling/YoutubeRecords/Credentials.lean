import YoutubeRecords.Registration
import YoutubeRecords.RequestEffects

namespace YoutubeRecords.Credentials

open CommandProgram ProgramPool PythonBasics AccountStore AccountViews SessionPromises RequestEffects

abbrev Log := List (Request × Except Exn Reply)

inductive Logged (env : Env) (s : Store) : Log → Store → Prop
  | start : Logged env s [] s
  | request {log : Log} {t : Store} (h : Logged env s log t) (req : Request) :
      Logged env s (log ++ [(req, (run (exec env) (req.program env) t).1)])
        (run (exec env) (req.program env) t).2
  | wait {log : Log} {t : Store} (h : Logged env s log t) (ms : Nat) :
      Logged env s log { t with clock := t.clock + ms }

def grantedPassword (email : String) : Request × Except Exn Reply → Option String
  | (.register _ ⟨_, .str id, .str password⟩, .ok (.response r)) =>
      if id = email ∧ r.status = 200 then some password else none
  | _ => none

def firstPassword (email : String) (log : Log) : Option String := log.findSome? (grantedPassword email)

/-- The login answers with a session, whose access token and secret are in
Redis. -/
def IssuesSession (x : Except Exn Response × Store) : Prop :=
  ∃ keyName refresh expiry, x.1 = .ok (sessionStarted keyName refresh expiry) ∧
    x.2.live (keyName ++ "_access") ≠ none ∧ x.2.live (keyName ++ "_secret") ≠ none

def HexDigests (env : Env) : Prop :=
  ∀ bytes, ∀ c ∈ (env.hexdigest bytes).toList, c ∈ "0123456789abcdef".toList

/-- No password of the log has the salted digest of another password `p`. -/
def NoCollision (env : Env) (log : Log) (p : String) : Prop :=
  ∀ salt data password result, (Request.register salt data, result) ∈ log → data.password = .str password →
    env.hexdigest (salt.hex.toUTF8 ++ p.toUTF8) = env.hexdigest (salt.hex.toUTF8 ++ password.toUTF8) →
    p = password

variable {env : Env} {s : Store} {log : Log}

theorem hex_no_colon {text : String} (h : ∀ c ∈ text.toList, c ∈ "0123456789abcdef".toList) :
    ':' ∉ text.toList :=
  fun hc => absurd (h _ hc) (by decide)

theorem split_hashPassword (hx : HexDigests env) (salt : Salt) (password : String) :
    split ':' (hashPassword env salt password) =
      [env.hexdigest (salt.hex.toUTF8 ++ password.toUTF8), salt.hex] := by
  have hd := hex_no_colon (hx (salt.hex.toUTF8 ++ password.toUTF8))
  have hs := hex_no_colon salt.digits
  have hl : (hashPassword env salt password).toList =
      (env.hexdigest (salt.hex.toUTF8 ++ password.toUTF8)).toList ++ ':' :: salt.hex.toList := by
    simp [hashPassword]
  rw [split, hl, List.splitOn_append_cons_self_of_not_mem hd, List.splitOn_eq_singleton hs]
  simp

theorem checkPassword_hashPassword (hx : HexDigests env) (salt : Salt) (password attempt : String) :
    checkPassword env (hashPassword env salt password) (.str attempt) =
      .ok (decide (env.hexdigest (salt.hex.toUTF8 ++ password.toUTF8) =
        env.hexdigest (salt.hex.toUTF8 ++ attempt.toUTF8))) := by
  simp only [checkPassword, split_hashPassword hx]

/-- A stored user goes back to the first successful registration of the
address, with the hash of the password it carried. -/
structure Recorded (env : Env) (log : Log) (user : User) (password : String) (salt : Salt) : Prop where
  first : firstPassword user.email log = some password
  hash : user.password = hashPassword env salt password
  posted : ∃ data result, (.register salt data, result) ∈ log ∧ data.password = .str password

structure Accounts (env : Env) (log : Log) (s : Store) : Prop where
  stored : ∀ user ∈ s.users, ∃ password salt, Recorded env log user password salt
  known : ∀ email, s.user email = none → firstPassword email log = none

theorem firstPassword_append (email : String) (log : Log) (x : Request × Except Exn Reply) :
    firstPassword email (log ++ [x]) = (firstPassword email log).or (grantedPassword email x) := by
  simp [firstPassword, List.findSome?_append]

theorem Recorded.append {user : User} {password : String} {salt : Salt}
    (h : Recorded env log user password salt) (x : Request × Except Exn Reply) :
    Recorded env (log ++ [x]) user password salt := by
  obtain ⟨data, result, hm, hp⟩ := h.posted
  refine ⟨?_, h.hash, data, result, List.mem_append_left _ hm, hp⟩
  rw [firstPassword_append, h.first]
  rfl

theorem Accounts.append (h : Accounts env log s) {x : Request × Except Exn Reply}
    (hx : ∀ email, grantedPassword email x = none) : Accounts env (log ++ [x]) s := by
  constructor
  · intro user hu
    obtain ⟨password, salt, hr⟩ := h.stored user hu
    exact ⟨password, salt, hr.append x⟩
  · intro email he
    rw [firstPassword_append, h.known email he, hx]
    rfl

theorem Accounts.congr {t : Store} (h : Accounts env log s) (hu : t.users = s.users) : Accounts env log t := by
  refine ⟨fun user hm => h.stored user (hu ▸ hm), fun email he => h.known email ?_⟩
  rwa [Store.user, hu] at he

theorem register_cases (env : Env) (salt : Salt) (data : RegisterData) (s : Store) :
    ((run (exec env) (RegisterView.post env salt data) s).2 = s ∧
      ∀ response, (run (exec env) (RegisterView.post env salt data) s).1 = .ok response →
        response.status ≠ 200) ∨
    ∃ name email password, data = ⟨.str name, .str email, .str password⟩ ∧ s.user email = none ∧
      env.accepts ⟨name, email, hashPassword env salt password⟩ = true ∧
      run (exec env) (RegisterView.post env salt data) s =
        (.ok (registered ⟨name, email, hashPassword env salt password⟩),
          (exec env (.saveUser ⟨name, email, hashPassword env salt password⟩) s).2) := by
  obtain ⟨name, email, password⟩ := data
  unfold RegisterView.post
  split
  · split
    · exact .inl ⟨rfl, by simp⟩
    · refine .inl ⟨rfl, ?_⟩
      simp only [pure_eq, run_ret, Except.ok.injEq]
      rintro response rfl
      decide
    · split
      · rename_i password name email hp hn he
        dsimp only at hp hn he
        subst hp hn he
        have hf : exec env (.findUser (.str email)) s = (s.user email, s) := by
          rw [exec, find_str]
        simp only [ask, perform_bind, run_call, hf]
        cases hu : s.user email with
        | some user =>
          refine .inl ⟨rfl, ?_⟩
          simp only [pure_eq, run_ret, Except.ok.injEq]
          rintro response rfl
          decide
        | none =>
          by_cases ha : env.accepts ⟨name, email, hashPassword env salt password⟩ = true
          · refine .inr ⟨name, email, password, rfl, hu, ha, ?_⟩
            simp [exec, ha]
          · refine .inl ⟨?_, ?_⟩
            · simp [exec, ha]
            · simp [exec, ha]
      · exact .inl ⟨rfl, by simp⟩
  · refine .inl ⟨rfl, ?_⟩
    simp only [pure_eq, run_ret, Except.ok.injEq]
    rintro response rfl
    decide

theorem grantedPassword_failed {email : String} {req : Request} {result : Except Exn Reply}
    (h : ∀ response, result = .ok (.response response) → response.status ≠ 200) :
    grantedPassword email (req, result) = none := by
  unfold grantedPassword
  split
  · next r heq =>
    obtain ⟨-, rfl⟩ := Prod.mk.inj heq
    rw [if_neg]
    exact fun hc => h r rfl hc.2
  · rfl

theorem Accounts.save (h : Accounts env log s) (salt : Salt) {name email password : String}
    (hn : s.user email = none) (ha : env.accepts ⟨name, email, hashPassword env salt password⟩ = true) :
    Accounts env
      (log ++ [(.register salt ⟨.str name, .str email, .str password⟩,
        .ok (.response (registered ⟨name, email, hashPassword env salt password⟩)))])
      (exec env (.saveUser ⟨name, email, hashPassword env salt password⟩) s).2 := by
  constructor
  · intro user hu
    have hu' : user = ⟨name, email, hashPassword env salt password⟩ ∨ user ∈ s.users := by
      simp only [exec, ha, if_true] at hu
      exact KeyedList.mem_of_mem_upsert hu
    obtain rfl | hu' := hu'
    · refine ⟨password, salt, ?_, rfl, _, _, List.mem_append_right _ (List.mem_singleton.mpr rfl), rfl⟩
      rw [firstPassword_append, h.known email hn]
      simp [grantedPassword, registered]
    · obtain ⟨p, salt', hr⟩ := h.stored user hu'
      exact ⟨p, salt', hr.append _⟩
  · intro email' he
    rw [user_saveUser] at he
    split at he
    · cases he
    · next hne =>
      have hid : email ≠ email' := fun heq => hne ⟨ha, heq⟩
      rw [firstPassword_append, h.known email' he]
      simp [grantedPassword, hid]

theorem Accounts.request (h : Accounts env log s) (req : Request) :
    Accounts env (log ++ [(req, (run (exec env) (req.program env) s).1)])
      (run (exec env) (req.program env) s).2 := by
  by_cases hreq : ∃ salt data, req = .register salt data
  · obtain ⟨salt, data, rfl⟩ := hreq
    simp only [Request.program, pure_eq, run_bind_ret]
    obtain ⟨hs, hr⟩ | ⟨name, email, password, rfl, hn, ha, hrun⟩ := register_cases env salt data s
    · rw [hs]
      refine h.append fun email => grantedPassword_failed fun response hres => ?_
      cases hrun : (run (exec env) (RegisterView.post env salt data) s).1 with
      | error e => simp [hrun, Except.map] at hres
      | ok r =>
        simp only [hrun, Except.map, Except.ok.injEq, Reply.response.injEq] at hres
        exact hr response (hres ▸ hrun)
    · rw [hrun]
      exact h.save salt hn ha
  · have hu := RequestEffects.users_of_promise env req s fun own user r hp => by
      obtain ⟨salt, data, rfl, -⟩ := Registration.saveUser_guarded hp
      exact hreq ⟨salt, data, rfl⟩
    refine (h.append fun email => ?_).congr hu
    cases req with
    | register salt data => exact absurd ⟨salt, data, rfl⟩ hreq
    | login | refresh | logout | protectedView => rfl

theorem accounts_logged {clock : Nat} {redis : ExpiringStore.Db String String}
    (h : Logged env ⟨clock, redis, []⟩ log s) : Accounts env log s := by
  induction h with
  | start => exact ⟨by simp, fun _ _ => rfl⟩
  | request _ req ih => exact ih.request req
  | wait _ ms ih => exact ih.congr rfl

theorem login_accepts_registered {clock : Nat} {redis : ExpiringStore.Db String String}
    (hx : HexDigests env) (h : Logged env ⟨clock, redis, []⟩ log s) {email password : String}
    (he : email ≠ "") (hp : password ≠ "") (hn : NoCollision env log password) (draws : Draws)
    (hd : (freeName s draws.keys).isSome) :
    (IssuesSession (run (exec env) (LoginView.post env draws ⟨.str email, .str password⟩) s) ↔
      firstPassword email log = some password) ∧
    ∀ user ∈ s.users, ∀ attempt, ∃ same, checkPassword env user.password (.str attempt) = .ok same := by
  have ha := accounts_logged h
  constructor
  · have ht : (((⟨.str email, .str password⟩ : LoginData).email.truthy) &&
        (⟨.str email, .str password⟩ : LoginData).password.truthy) = true := by
      simp [Json.truthy, he, hp]
    rw [run_login env draws ht, find_str]
    cases hu : s.user email with
    | none => simp [ha.known email hu, IssuesSession, sessionStarted]
    | some user =>
      obtain ⟨first, salt, hr⟩ := ha.stored user (KeyedList.mem_of_lookup hu)
      have hid : user.email = email := KeyedList.key_of_lookup hu
      have hf : firstPassword email log = some first := hid ▸ hr.first
      have hc := checkPassword_hashPassword hx salt first password
      rw [← hr.hash] at hc
      simp only [hc, hf, Option.some.injEq]
      by_cases heq : env.hexdigest (salt.hex.toUTF8 ++ first.toUTF8) =
          env.hexdigest (salt.hex.toUTF8 ++ password.toUTF8)
      · obtain ⟨data, result, hm, hpw⟩ := hr.posted
        have hsame : password = first := hn salt data first result hm hpw heq.symm
        obtain ⟨k, hk⟩ := Option.isSome_iff_exists.mp hd
        simp only [heq, decide_true, run_startSession, hk]
        refine ⟨fun _ => hsame.symm, fun _ => ⟨_, _, _, rfl, ?_, ?_⟩⟩
        · simp [live_opened_access]
        · simp [live_opened_secret]
      · have hdiff : first ≠ password := fun hs => heq (by rw [hs])
        simp only [decide_eq_false heq, hdiff, iff_false]
        simp [IssuesSession, sessionStarted]
  · intro user hu attempt
    obtain ⟨first, salt, hr⟩ := ha.stored user hu
    exact ⟨_, by rw [hr.hash, checkPassword_hashPassword hx]⟩

section SecondRegistration

open Registration

theorem hexDigests_recorded {tokens : List (Payload × String × String)} {digests : List (String × String)}
    (h : digests.all (fun r => r.2.toList.all (fun c => decide (c ∈ "0123456789abcdef".toList))) = true) :
    HexDigests (.recorded tokens digests) := by
  intro bytes c hc
  simp only [Env.recorded] at hc
  cases hf : digests.find? (fun r => decide (r.1.toUTF8.data = bytes.data)) with
  | none =>
    rw [hf] at hc
    simp at hc
  | some r =>
    simp only [hf, Option.map_some, Option.getD_some] at hc
    exact mem_of_all (List.all_eq_true.mp h r (List.mem_of_find?_eq_some hf)) c hc

def emptySite : Store := ⟨0, fun _ => none, []⟩

def firstPost : Request := registrations posts 0

def secondPost : Request := registrations posts 1

def afterFirst : Store := (run (exec digestEnv) (firstPost.program digestEnv) emptySite).2

def afterSecond : Store := (run (exec digestEnv) (secondPost.program digestEnv) afterFirst).2

def twoPosts : Log :=
  [(firstPost, (run (exec digestEnv) (firstPost.program digestEnv) emptySite).1),
   (secondPost, (run (exec digestEnv) (secondPost.program digestEnv) afterFirst).1)]

theorem twoPosts_logged : Logged digestEnv emptySite twoPosts afterSecond :=
  .request (.request .start firstPost) secondPost

theorem twoPosts_noCollision : NoCollision digestEnv twoPosts "secret" := by
  intro salt data password result hm hp heq
  simp only [twoPosts, List.mem_cons, Prod.mk.injEq, List.not_mem_nil, or_false] at hm
  obtain ⟨hreq, -⟩ | ⟨hreq, -⟩ := hm
  · obtain ⟨-, rfl⟩ := Request.register.inj hreq
    exact (Json.str.inj hp)
  · obtain ⟨rfl, rfl⟩ := Request.register.inj hreq
    obtain rfl : "other" = password := Json.str.inj hp
    exact absurd heq (by decide +kernel)

theorem twoPosts_firstPassword : firstPassword "user@example.com" twoPosts = some "secret" := by
  decide +kernel

theorem login_after_second_post :
    IssuesSession (run (exec digestEnv) (LoginView.post digestEnv ⟨fun _ => 0, [fun _ => 2]⟩
      ⟨.str "user@example.com", .str "secret"⟩) afterSecond) :=
  (login_accepts_registered (hexDigests_recorded (by decide +kernel)) twoPosts_logged (by decide) (by decide)
    twoPosts_noCollision ⟨fun _ => 0, [fun _ => 2]⟩ (by decide +kernel)).1.mpr twoPosts_firstPassword

end SecondRegistration

end YoutubeRecords.Credentials
