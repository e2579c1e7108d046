import YoutubeRecords.SessionPromises

namespace YoutubeRecords.RequestEffects

open CommandProgram ProgramPool PythonBasics AccountStore AccountViews SessionPromises

variable (env : Env)

def put (s : Store) (key value : String) (seconds : Nat) : Store :=
  { s with redis := ExpiringStore.expire s.clock (ExpiringStore.set s.redis key value) key (seconds * 1000) }

def drop (s : Store) (key : String) : Store :=
  { s with redis := ExpiringStore.expire s.clock s.redis key 0 }

theorem redis_put_self (s : Store) (key value : String) {seconds : Nat} (h : 0 < seconds) :
    (put s key value seconds).redis key = some ⟨value, some (s.clock + seconds * 1000)⟩ := by
  have hpos : ¬ s.clock + seconds * 1000 ≤ s.clock := by omega
  simp [put, ExpiringStore.expire, ExpiringStore.live, ExpiringStore.Item.expired, hpos]

theorem redis_put_of_ne (s : Store) {key key' : String} (value : String) (seconds : Nat) (h : key' ≠ key) :
    (put s key value seconds).redis key' = s.redis key' := by
  simp only [put, ExpiringStore.expire_of_ne _ _ h, ExpiringStore.set_of_ne _ h]

theorem live_put_self (s : Store) (key value : String) {seconds : Nat} (h : 0 < seconds) :
    (put s key value seconds).live key = some ⟨value, some (s.clock + seconds * 1000)⟩ := by
  refine ExpiringStore.live_eq_some.mpr ⟨redis_put_self s key value h, fun w hw => ?_⟩
  obtain rfl := Option.some.inj hw
  exact Nat.le_add_right _ _

theorem live_put_of_ne (s : Store) {key key' : String} (value : String) (seconds : Nat) (h : key' ≠ key) :
    (put s key value seconds).live key' = s.live key' :=
  ExpiringStore.live_congr (redis_put_of_ne s value seconds h)

theorem live_drop_self (s : Store) (key : String) : (drop s key).live key = none :=
  ExpiringStore.expire_zero_self _ _ _

theorem redis_drop_of_ne (s : Store) {key key' : String} (h : key' ≠ key) :
    (drop s key).redis key' = s.redis key' :=
  ExpiringStore.expire_of_ne _ _ h _

theorem live_drop_of_ne (s : Store) {key key' : String} (h : key' ≠ key) :
    (drop s key).live key' = s.live key' :=
  ExpiringStore.live_congr (redis_drop_of_ne s h)

theorem run_setValue (key value : String) (age : Nat) (s : Store) :
    run (exec env) (setValue key value age) s = (.ok (), put s key value age) := rfl

theorem run_createToken (userId secret : String) (age : Nat) (s : Store) :
    run (exec env) (createToken userId secret age) s =
      (.ok (env.encode ⟨userId, (s.clock + age * 60 * 1000) / 1000, s.clock / 1000⟩ secret), s) := rfl

def freeName (s : Store) (draws : List KeyDraw) : Option String :=
  (draws.map generateRandomKey).find? (fun k => (s.live (k ++ "_secret")).isNone)

theorem run_drawKeyName (draws : List KeyDraw) (s : Store) :
    run (exec env) (drawKeyName draws) s =
      (match freeName s draws with
        | some k => .ok k
        | none => .error .drawsSpent, s) := by
  induction draws with
  | nil => rfl
  | cons draw draws ih =>
    cases hl : s.live (generateRandomKey draw ++ "_secret") with
    | none =>
      have he : (exec env (.existsKey (generateRandomKey draw ++ "_secret")) s).1 = false := by
        simpa [exec, ExpiringStore.existsKey, Store.live] using hl
      simp only [drawKeyName, checkForExistence, ask, perform_bind, run_call, he, freeName, List.map_cons,
        List.find?_cons, hl, Option.isNone_none]
      rfl
    | some x =>
      have he : (exec env (.existsKey (generateRandomKey draw ++ "_secret")) s).1 = true := by
        simp only [Store.live] at hl
        simp [exec, ExpiringStore.existsKey, hl]
      have hf : freeName s (draw :: draws) = freeName s draws := by
        simp [freeName, hl]
      rw [hf]
      simp only [drawKeyName, checkForExistence, ask, perform_bind, run_call, he]
      exact ih

def accessToken (s : Store) (user : User) (secret : String) : String :=
  env.encode ⟨user.email, (s.clock + accessAgeMinutes * 60 * 1000) / 1000, s.clock / 1000⟩ secret

def refreshToken (s : Store) (user : User) (secret : String) : String :=
  env.encode ⟨user.email, (s.clock + refreshAgeMinutes * 60 * 1000) / 1000, s.clock / 1000⟩ secret

def opened (s : Store) (user : User) (secret k : String) : Store :=
  put (put s (k ++ "_access") (accessToken env s user secret) (accessAgeMinutes * 60))
    (k ++ "_secret") secret (refreshAgeMinutes * 60)

theorem live_opened_secret (s : Store) (user : User) (secret k : String) :
    (opened env s user secret k).live (k ++ "_secret") =
      some ⟨secret, some (s.clock + refreshAgeMinutes * 60 * 1000)⟩ :=
  live_put_self _ _ _ (by decide)

theorem live_opened_access (s : Store) (user : User) (secret k : String) :
    (opened env s user secret k).live (k ++ "_access") =
      some ⟨accessToken env s user secret, some (s.clock + accessAgeMinutes * 60 * 1000)⟩ := by
  refine (live_put_of_ne _ _ _ (accessKey_ne_secretKey k k)).trans ?_
  exact live_put_self _ _ _ (by decide)

theorem run_startSession (draws : Draws) (user : User) (s : Store) :
    run (exec env) (startSession draws user) s =
      match freeName s draws.keys with
      | some k => (.ok (sessionStarted k (refreshToken env s user (generateRandomKey draws.secret))
          (s.clock + refreshAgeMinutes * 60 * 1000)), opened env s user (generateRandomKey draws.secret) k)
      | none => (.error .drawsSpent, s) := by
  unfold startSession
  rw [run_bind_ok _ (run_createToken env _ _ _ s), run_bind_ok _ (run_createToken env _ _ _ s)]
  cases hk : freeName s draws.keys with
  | none =>
    refine run_bind_error _ ?_
    rw [run_drawKeyName, hk]
  | some k =>
    have hd : run (exec env) (drawKeyName draws.keys) s = (.ok k, s) := by rw [run_drawKeyName, hk]
    rw [run_bind_ok _ hd, run_bind_ok _ (run_setValue env _ _ _ s), run_bind_ok _ (run_setValue env _ _ _ _)]
    rfl

theorem run_login (draws : Draws) {data : LoginData} (h : (data.email.truthy && data.password.truthy) = true)
    (s : Store) :
    run (exec env) (LoginView.post env draws data) s =
      match s.users.find? (fun u => matchesId env data.email u.email) with
      | none => (.ok ⟨401, [("message", "user does not exist")], []⟩, s)
      | some user =>
        match checkPassword env user.password data.password with
        | .error e => (.error e, s)
        | .ok false => (.ok ⟨401, [("message", "Wrong Password")], []⟩, s)
        | .ok true => run (exec env) (startSession draws user) s := by
  have hf : exec env (.findUser data.email) s =
      (s.users.find? (fun u => matchesId env data.email u.email), s) := rfl
  simp only [LoginView.post, h, if_true, ask, perform_bind, run_call, hf]
  cases s.users.find? (fun u => matchesId env data.email u.email) with
  | none => rfl
  | some user =>
    cases hc : checkPassword env user.password data.password with
    | error e =>
      simp only [hc]
      rfl
    | ok accepted =>
      cases accepted with
      | false =>
        simp only [hc]
        rfl
      | true => simp only [hc]

variable {env}

theorem login_store (env : Env) (draws : Draws) (data : LoginData) (s : Store) :
    (run (exec env) ((Request.login draws data).program env) s).2 = s ∨
      ∃ user k, freeName s draws.keys = some k ∧
        (run (exec env) ((Request.login draws data).program env) s).2 =
          opened env s user (generateRandomKey draws.secret) k := by
  simp only [Request.program, pure_eq, run_bind_ret]
  by_cases h : (data.email.truthy && data.password.truthy) = true
  · rw [run_login env draws h]
    cases s.users.find? (fun u => matchesId env data.email u.email) with
    | none => exact .inl rfl
    | some user =>
      cases hc : checkPassword env user.password data.password with
      | error e => exact .inl (by simp only [hc])
      | ok accepted =>
        cases accepted with
        | false => exact .inl (by simp only [hc])
        | true =>
          simp only [hc, run_startSession]
          cases freeName s draws.keys with
          | none => exact .inl rfl
          | some k => exact .inr ⟨user, k, rfl, rfl⟩
  · unfold LoginView.post
    rw [if_neg h]
    exact .inl rfl

/-- What a login that was answered with a session has found and done. -/
structure Started (env : Env) (draws : Draws) (data : LoginData) (s : Store) (user : User) (k token : String) :
    Prop where
  given : (data.email.truthy && data.password.truthy) = true
  accepted : checkPassword env user.password data.password = .ok true
  free : freeName s draws.keys = some k
  refresh : token = refreshToken env s user (generateRandomKey draws.secret)
  store : (run (exec env) (LoginView.post env draws data) s).2 =
    opened env s user (generateRandomKey draws.secret) k

theorem login_started {draws : Draws} {data : LoginData} {s : Store} {user : User} {k token : String} {expiry : Nat}
    (hf : s.users.find? (fun u => matchesId env data.email u.email) = some user)
    (hr : (run (exec env) (LoginView.post env draws data) s).1 = .ok (sessionStarted k token expiry)) :
    Started env draws data s user k token := by
  by_cases h : (data.email.truthy && data.password.truthy) = true
  · have hrun := run_login env draws h s
    simp only [hf] at hrun
    cases hc : checkPassword env user.password data.password with
    | error e =>
      simp only [hrun, hc] at hr
      cases hr
    | ok accepted =>
      cases accepted with
      | false => simp [hrun, hc, sessionStarted] at hr
      | true =>
        simp only [hc, run_startSession] at hrun
        cases hk : freeName s draws.keys with
        | none =>
          simp only [hrun, hk] at hr
          cases hr
        | some l =>
          simp only [hk] at hrun
          have he := hr
          simp only [hrun, sessionStarted, Except.ok.injEq, Response.mk.injEq, List.cons.injEq, Prod.mk.injEq] at he
          obtain ⟨-, ⟨⟨-, rfl⟩, ⟨-, rfl⟩, -⟩, -⟩ := he
          exact ⟨h, hc, hk, rfl, by rw [hrun]⟩
  · unfold LoginView.post at hr
    rw [if_neg h] at hr
    simp [sessionStarted] at hr

/-- A login whose password is accepted makes both of its tokens. -/
theorem login_makes {draws : Draws} {data : LoginData} {s : Store} {user : User}
    (hd : (data.email.truthy && data.password.truthy) = true)
    (hf : s.users.find? (fun u => matchesId env data.email u.email) = some user)
    (hp : checkPassword env user.password data.password = .ok true) :
    ⟨.encode ⟨user.email, (s.clock + accessAgeMinutes * 60 * 1000) / 1000, s.clock / 1000⟩
        (generateRandomKey draws.secret), accessToken env s user (generateRandomKey draws.secret)⟩ ∈
      journal (exec env) (LoginView.post env draws data) s [] ∧
    ⟨.encode ⟨user.email, (s.clock + refreshAgeMinutes * 60 * 1000) / 1000, s.clock / 1000⟩
        (generateRandomKey draws.secret), refreshToken env s user (generateRandomKey draws.secret)⟩ ∈
      journal (exec env) (LoginView.post env draws data) s [] := by
  have hx : exec env (.findUser data.email) s = (some user, s) := by rw [exec, hf]
  simp only [LoginView.post, hd, if_true, ask, perform_bind, journal, hx, hp, startSession]
  rw [journal_bind_ok _ (run_createToken env _ _ _ s), journal_bind_ok _ (run_createToken env _ _ _ s)]
  constructor
  · apply (suffix_journal _ _ _ _).subset
    exact List.mem_cons_of_mem _ (List.mem_cons_of_mem _ (List.mem_cons_of_mem _ List.mem_cons_self))
  · exact (suffix_journal _ _ _ _).subset List.mem_cons_self

theorem get_live (s : Store) (key : String) : (exec env (.get key) s).1 = (s.live key).map (·.value) := rfl

structure Renews (env : Env) (cookies : Cookies) (s : Store) (k : String) (x : ExpiringStore.Item String)
    (payload : Payload) : Prop where
  key : nonempty cookies.jwt = some k
  secret : s.live (k ++ "_secret") = some x
  token : ∃ token, nonempty cookies.refresh = some token ∧
    env.decode (s.clock / 1000) token (some x.value) = .ok payload

def renewed (s : Store) (payload : Payload) : Payload :=
  ⟨payload.id, (s.clock + accessAgeMinutes * 60 * 1000) / 1000, s.clock / 1000⟩

theorem run_refresh {cookies : Cookies} {s : Store} {k : String} {x : ExpiringStore.Item String} {payload : Payload}
    (h : Renews env cookies s k x payload) :
    run (exec env) (RefreshToken.post cookies) s = (.ok ⟨201, [("message", "successful")], []⟩,
        put s (k ++ "_access") (env.encode (renewed s payload) x.value) (accessAgeMinutes * 60)) ∧
      ⟨.encode (renewed s payload) x.value, env.encode (renewed s payload) x.value⟩ ∈
        journal (exec env) (RefreshToken.post cookies) s [] := by
  obtain ⟨token, ht, hd⟩ := h.token
  simp only [RefreshToken.post, ht, h.key, getValue, ask, perform_bind, run_call, journal, get_live]
  generalize hs : (s.live (k ++ "_secret")).map (·.value) = secret
  obtain rfl : secret = some x.value := by rw [← hs, h.secret]; rfl
  simp only [exec, hd]
  rw [run_bind_ok _ (run_createToken env _ _ _ s), journal_bind_ok _ (run_createToken env _ _ _ s)]
  exact ⟨rfl, (suffix_journal _ _ _ _).subset List.mem_cons_self⟩

theorem refresh_renews {cookies : Cookies} {s : Store} {k : String} {x : ExpiringStore.Item String}
    {payload : Payload} (h : Renews env cookies s k x payload) :
    (run (exec env) ((Request.refresh cookies).program env) s).2 =
        put s (k ++ "_access") (env.encode (renewed s payload) x.value) (accessAgeMinutes * 60) ∧
      ⟨.encode (renewed s payload) x.value, env.encode (renewed s payload) x.value⟩ ∈
        journal (exec env) ((Request.refresh cookies).program env) s [] := by
  obtain ⟨hrun, hmade⟩ := run_refresh h
  simp only [Request.program, pure_eq, run_bind_ret, journal_bind_ret, hrun]
  exact ⟨trivial, hmade⟩

def refusal : JwtError → Exn
  | .expiredSignature => .authenticationFailed "UnAuthenticated! Session has been expired Login Again Please"
  | e => .jwt e

theorem run_refresh_error {cookies : Cookies} {s : Store} {k token : String} {e : JwtError}
    (ht : nonempty cookies.refresh = some token) (hk : nonempty cookies.jwt = some k)
    (hd : env.decode (s.clock / 1000) token ((s.live (k ++ "_secret")).map (·.value)) = .error e) :
    run (exec env) (RefreshToken.post cookies) s = (.error (refusal e), s) := by
  simp only [RefreshToken.post, ht, hk, getValue, ask, perform_bind, run_call, get_live]
  generalize (s.live (k ++ "_secret")).map (·.value) = secret at hd
  simp only [exec, hd]
  cases e <;> rfl

theorem refresh_refused {cookies : Cookies} {s : Store} (h : ∀ k x payload, ¬ Renews env cookies s k x payload) :
    (run (exec env) ((Request.refresh cookies).program env) s).2 = s := by
  simp only [Request.program, pure_eq, run_bind_ret]
  unfold RefreshToken.post
  split
  · rfl
  · rfl
  · next token k ht hk =>
    simp only [getValue, ask, perform_bind, run_call, get_live]
    cases hx : s.live (k ++ "_secret") with
    | none =>
      simp only [exec, Option.map_none]
      cases env.decode (s.clock / 1000) token none with
      | error e => cases e <;> rfl
      | ok payload => rfl
    | some x =>
      simp only [exec, Option.map_some]
      cases hd : env.decode (s.clock / 1000) token (some x.value) with
      | error e => cases e <;> rfl
      | ok payload => exact absurd ⟨hk, hx, token, ht, hd⟩ (h k x payload)

theorem refresh_store (env : Env) (cookies : Cookies) (s : Store) :
    (run (exec env) ((Request.refresh cookies).program env) s).2 = s ∨
      ∃ k x payload, Renews env cookies s k x payload := by
  by_cases h : ∃ k x payload, Renews env cookies s k x payload
  · exact .inr h
  · exact .inl (refresh_refused fun k x payload hr => h ⟨k, x, payload, hr⟩)

theorem logout_store (env : Env) (cookies : Cookies) (s : Store) :
    (run (exec env) ((Request.logout cookies).program env) s).2 = s ∨
      ∃ k, cookies.jwt = some k ∧ (run (exec env) ((Request.logout cookies).program env) s).2 =
        drop (drop s (k ++ "_secret")) (k ++ "_access") := by
  simp only [Request.program, pure_eq, run_bind_ret]
  unfold LogoutView.post
  split
  · exact .inl rfl
  · next k hk => exact .inr ⟨k, hk, by simp only [scheduleExpire, ask, perform_bind, run_call]; rfl⟩

/-- Registrations and protected requests leave Redis as it is. -/
theorem redis_of_promise (env : Env) (req : Request) (s : Store)
    (h : ∀ h key value seconds, ¬ promise env req h ⟨.set key value, ()⟩ ∧
      ¬ promise env req h ⟨.expire key seconds, ()⟩) :
    (run (exec env) (req.program env) s).2.redis = s.redis ∧
      (run (exec env) (req.program env) s).2.clock = s.clock := by
  refine (program_obeys env req).run_invariant (I := fun t : Store => t.redis = s.redis ∧ t.clock = s.clock)
    ⟨rfl, rfl⟩ ?_
  intro h' c t ht hp
  refine ⟨?_, (exec_clock env c t).trans ht.2⟩
  refine (exec_redis env c t ?_ ?_).trans ht.1
  · rintro key value rfl
    exact (h h' key value 0).1 hp
  · rintro key seconds rfl
    exact (h h' key "" seconds).2 hp

theorem clock_request (env : Env) (req : Request) (s : Store) :
    (run (exec env) (req.program env) s).2.clock = s.clock :=
  (always_of_keeps (I := fun t : Store => t.clock = s.clock) (fun c t ht => (exec_clock env c t).trans ht) _ rfl).run

theorem users_of_promise (env : Env) (req : Request) (s : Store)
    (h : ∀ h user r, ¬ promise env req h ⟨.saveUser user, r⟩) :
    (run (exec env) (req.program env) s).2.users = s.users := by
  refine (program_obeys env req).run_invariant (I := fun t : Store => t.users = s.users) rfl ?_
  intro h' c t ht hp
  refine (exec_users env c t ?_).trans ht
  rintro user rfl
  exact h h' user _ hp

end YoutubeRecords.RequestEffects
