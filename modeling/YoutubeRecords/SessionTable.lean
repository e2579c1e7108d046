import YoutubeRecords.RefreshGrants
import YoutubeRecords.SessionCompleteness
import YoutubeRecords.Transducers

namespace YoutubeRecords.SessionTable

open CommandProgram ProgramPool PythonBasics Transducers AccountStore AccountViews SessionPromises RequestEffects
  SessionLifetimes TokenVerification SessionCompleteness
open RefreshGrants (PyJwt)

/-- All there is to know of a session: its user, the secret of its tokens, when
it was opened and when its access was last renewed, in milliseconds. -/
structure Session where
  user : String
  secret : String
  opened : Nat
  renewed : Nat
  secret_ne : secret ≠ ""

/-- The site as a table of sessions, with no Redis and no stored tokens. -/
structure Table where
  clock : Nat
  users : List User
  sessions : String → Option Session

def refreshAge : Nat := refreshAgeMinutes * 60 * 1000

def accessAge : Nat := accessAgeMinutes * 60 * 1000

def lasting (now : Nat) (moment : Session → Nat) (age : Nat) (x : Option Session) : Option Session :=
  x.filter fun x => decide (now ≤ moment x + age)

namespace Table

def running (T : Table) (k : String) : Option Session := lasting T.clock Session.opened refreshAge (T.sessions k)

def recent (T : Table) (k : String) : Option Session := lasting T.clock Session.renewed accessAge (T.sessions k)

def put (T : Table) (k : String) (x : Option Session) : Table :=
  { T with sessions := Function.update T.sessions k x }

def freeName (T : Table) (draws : List KeyDraw) : Option String :=
  (draws.map generateRandomKey).find? (fun k => (T.running k).isNone)

variable (env : Env) (expired : Nat → Nat → Prop) [DecidableRel expired] (T : Table)

def register (salt : Salt) (data : RegisterData) : Except Exn Response × Table :=
  ((run (exec env) (RegisterView.post env salt data) (fresh T.clock T.users)).1,
    { T with users := (run (exec env) (RegisterView.post env salt data) (fresh T.clock T.users)).2.users })

def startSession (draws : Draws) (user : User) : Except Exn Response × Table :=
  match T.freeName draws.keys with
  | none => (.error .drawsSpent, T)
  | some k =>
    (.ok (sessionStarted k (env.encode ⟨user.email, (T.clock + refreshAge) / 1000, T.clock / 1000⟩
        (generateRandomKey draws.secret)) (T.clock + refreshAge)),
      T.put k (some ⟨user.email, generateRandomKey draws.secret, T.clock, T.clock,
        generateRandomKey_ne_empty draws.secret⟩))

def login (draws : Draws) (data : LoginData) : Except Exn Response × Table :=
  if data.email.truthy && data.password.truthy then
    match T.users.find? (fun u => matchesId env data.email u.email) with
    | none => (.ok ⟨401, [("message", "user does not exist")], []⟩, T)
    | some user =>
      match checkPassword env user.password data.password with
      | .error e => (.error e, T)
      | .ok false => (.ok ⟨401, [("message", "Wrong Password")], []⟩, T)
      | .ok true => T.startSession env draws user
  else (.ok ⟨401, [("message", "User or password is not found")], []⟩, T)

def refresh (cookies : Cookies) : Except Exn Response × Table :=
  match nonempty cookies.refresh, nonempty cookies.jwt with
  | none, _ => (.ok ⟨401, [("Error", "please login again!")], []⟩, T)
  | some _, none => (.ok ⟨401, [("message", "no jwt token")], []⟩, T)
  | some token, some k =>
    match T.running k with
    | none => (.error (.jwt .typeError), T)
    | some x =>
      match env.decode (T.clock / 1000) token (some x.secret) with
      | .error e => (.error (refusal e), T)
      | .ok _ => (.ok ⟨201, [("message", "successful")], []⟩, T.put k (some { x with renewed := T.clock }))

def logout (cookies : Cookies) : Except Exn Response × Table :=
  match cookies.jwt with
  | none => (.error .typeError, T)
  | some k =>
    (.ok ⟨200, [("message", "success")], [⟨"jwt", "", some 0⟩, ⟨"refresh", "", some 0⟩]⟩, T.put k none)

/-- The last second of an access token, which PyJWT may or may not count in. -/
def spent (x : Session) : Prop := expired ((x.renewed + accessAge) / 1000) (T.clock / 1000)

instance (x : Session) : Decidable (T.spent expired x) :=
  inferInstanceAs (Decidable (expired ((x.renewed + accessAge) / 1000) (T.clock / 1000)))

def processRequest (path : String) (cookies : Cookies) : Except Exn Unit :=
  if path ∈ authenticationPaths ∨ "admin".toList <:+: path.toList then .ok ()
  else match cookies.jwt with
    | none => .error .typeError
    | some k =>
      match T.recent k, T.running k with
      | none, _ => .error (.authenticationFailed "UnAuthenticated! Refresh Your token Again!")
      | some _, none => .error (.jwt .typeError)
      | some x, some _ =>
        if T.spent expired x then
          .error (.authenticationFailed "UnAuthenticated! Session has been expired Login Again Please")
        else .ok ()

def getUser (keyName : Option String) : Except Exn (Option User) :=
  match keyName with
  | none => .error .typeError
  | some k =>
    match T.running k, T.recent k with
    | some x, some _ =>
      if T.spent expired x then .error .nameError else .ok (KeyedList.lookup User.email x.user T.users)
    | _, _ => .ok none

def protectedView (path : String) (cookies : Cookies) (asksUser : Bool) : Except Exn Reply :=
  match T.processRequest expired path cookies with
  | .error e => .error e
  | .ok () => if asksUser then (T.getUser expired cookies.jwt).map .userView else .ok .view

def answer : Request → Except Exn Reply × Table
  | .register salt data => ((T.register env salt data).1.map .response, (T.register env salt data).2)
  | .login draws data => ((T.login env draws data).1.map .response, (T.login env draws data).2)
  | .refresh cookies => ((T.refresh env cookies).1.map .response, (T.refresh env cookies).2)
  | .logout cookies => ((T.logout cookies).1.map .response, (T.logout cookies).2)
  | .protectedView path cookies asksUser => (T.protectedView expired path cookies asksUser, T)

def step : Event → Option (Except Exn Reply) × Table
  | .request req => (some (T.answer env expired req).1, (T.answer env expired req).2)
  | .wait ms => (none, { T with clock := T.clock + ms })

end Table

def respond (env : Env) (P : Site) (e : Event) : Option (Except Exn Reply) × Site :=
  (match e with
    | .request req => some (run (exec env) (req.program env) P.store).1
    | .wait _ => none, play env P e)

def secretItem (x : Session) : ExpiringStore.Item String := ⟨x.secret, some (x.opened + refreshAge)⟩

def accessItem (env : Env) (x : Session) : ExpiringStore.Item String :=
  ⟨env.encode ⟨x.user, (x.renewed + accessAge) / 1000, x.renewed / 1000⟩ x.secret, some (x.renewed + accessAge)⟩

/-- The store holds the table: what Redis has under the keys of a session is
made from the session. -/
structure Represents (env : Env) (T : Table) (s : Store) : Prop where
  clock : s.clock = T.clock
  users : s.users = T.users
  secret : ∀ k, s.live (k ++ "_secret") = (T.running k).map secretItem
  access : ∀ k, s.live (k ++ "_access") = (T.recent k).map (accessItem env)

variable {env : Env} {expired : Nat → Nat → Prop} [DecidableRel expired] {T : Table} {s t : Store}

theorem lasting_eq_some {now age : Nat} {moment : Session → Nat} {o : Option Session} {x : Session} :
    lasting now moment age o = some x ↔ o = some x ∧ now ≤ moment x + age := by
  rw [lasting, Option.filter_eq_some_iff, decide_eq_true_eq]

theorem lasting_some (now : Nat) (moment : Session → Nat) (age : Nat) (x : Session) :
    lasting now moment age (some x) = if now ≤ moment x + age then some x else none := by
  by_cases h : now ≤ moment x + age <;> simp [lasting, Option.filter_some, h]

theorem expire_lasting {now age : Nat} {moment : Session → Nat} {item : Session → ExpiringStore.Item String}
    (h : ∀ x, (item x).expiry = some (moment x + age)) (ms : Nat) (o : Option Session) :
    ((lasting now moment age o).map item).filter (fun y => !y.expired (now + ms)) =
      (lasting (now + ms) moment age o).map item := by
  cases o with
  | none => rfl
  | some x =>
    have hx : (item x).expired (now + ms) = decide (moment x + age < now + ms) := by
      rw [ExpiringStore.Item.expired, h]
    rw [lasting_some, lasting_some]
    by_cases hm : now + ms ≤ moment x + age
    · have hnow : now ≤ moment x + age := by omega
      rw [if_pos hnow, if_pos hm, Option.map_some, Option.filter_some, hx, decide_eq_false (by omega)]
      rfl
    · rw [if_neg hm]
      by_cases hnow : now ≤ moment x + age
      · rw [if_pos hnow, Option.map_some, Option.filter_some, hx, decide_eq_true (by omega)]
        rfl
      · rw [if_neg hnow]
        rfl

theorem Table.running_put_self (T : Table) (k : String) (x : Option Session) :
    (T.put k x).running k = lasting T.clock Session.opened refreshAge x := by
  simp [Table.running, Table.put]

theorem Table.running_put_of_ne (T : Table) {k l : String} (h : l ≠ k) (x : Option Session) :
    (T.put k x).running l = T.running l := by
  simp [Table.running, Table.put, h]

theorem Table.recent_put_self (T : Table) (k : String) (x : Option Session) :
    (T.put k x).recent k = lasting T.clock Session.renewed accessAge x := by
  simp [Table.recent, Table.put]

theorem Table.recent_put_of_ne (T : Table) {k l : String} (h : l ≠ k) (x : Option Session) :
    (T.put k x).recent l = T.recent l := by
  simp [Table.recent, Table.put, h]

theorem Represents.freeName (h : Represents env T s) (draws : List KeyDraw) :
    RequestEffects.freeName s draws = T.freeName draws := by
  unfold RequestEffects.freeName Table.freeName
  congr 1
  funext k
  rw [h.secret k, Option.isNone_map]

theorem represents_fresh (clock : Nat) (users : List User) :
    Represents env ⟨clock, users, fun _ => none⟩ (fresh clock users) :=
  ⟨rfl, rfl, fun _ => rfl, fun _ => rfl⟩

/-- Time passes for the table as it passes for Redis. -/
theorem Represents.wait (h : Represents env T s) (ms : Nat) :
    Represents env { T with clock := T.clock + ms } { s with clock := s.clock + ms } := by
  have hlater : ∀ key, Store.live { s with clock := s.clock + ms } key =
      (s.live key).filter (fun y => !y.expired (T.clock + ms)) := by
    intro key
    rw [← h.clock]
    exact ExpiringStore.live_add s.clock ms s.redis key
  refine ⟨congrArg (· + ms) h.clock, h.users, fun k => ?_, fun k => ?_⟩
  · rw [hlater, h.secret k]
    exact expire_lasting (fun _ => rfl) ms (T.sessions k)
  · rw [hlater, h.access k]
    exact expire_lasting (fun _ => rfl) ms (T.sessions k)

/-- A store that differs from one that holds the table only under the keys of
one session holds the table with another session there. -/
theorem Represents.change (h : Represents env T s) (k : String) (x : Option Session) (hc : t.clock = s.clock)
    (hu : t.users = s.users) (hother : ∀ key, key ≠ k ++ "_secret" → key ≠ k ++ "_access" → t.live key = s.live key)
    (hs : t.live (k ++ "_secret") = (lasting T.clock Session.opened refreshAge x).map secretItem)
    (ha : t.live (k ++ "_access") = (lasting T.clock Session.renewed accessAge x).map (accessItem env)) :
    Represents env (T.put k x) t := by
  refine ⟨hc.trans h.clock, hu.trans h.users, fun l => ?_, fun l => ?_⟩
  · by_cases hl : l = k
    · subst hl
      rw [hs, T.running_put_self]
    · have hne : l ++ "_secret" ≠ k ++ "_secret" := fun he => hl (key_inj.mp he)
      rw [hother _ hne (secret_ne_access l k), h.secret l, T.running_put_of_ne hl]
  · by_cases hl : l = k
    · subst hl
      rw [ha, T.recent_put_self]
    · have hne : l ++ "_access" ≠ k ++ "_access" := fun he => hl (key_inj.mp he)
      rw [hother _ (accessKey_ne_secretKey l k) hne, h.access l, T.recent_put_of_ne hl]

section Requests

theorem run_register (env : Env) (salt : Salt) (data : RegisterData) (s : Store) :
    run (exec env) (RegisterView.post env salt data) s =
      ((run (exec env) (RegisterView.post env salt data) (fresh s.clock s.users)).1,
        { s with users := (run (exec env) (RegisterView.post env salt data) (fresh s.clock s.users)).2.users }) := by
  unfold RegisterView.post
  split
  · split
    · rfl
    · rfl
    · split
      · next password name email _ _ _ =>
        simp only [ask, perform_bind, run_call, exec, fresh]
        cases s.users.find? (fun u => matchesId env (.str email) u.email) with
        | some user => rfl
        | none =>
          simp only [run_call, exec]
          by_cases ha : env.accepts ⟨name, email, hashPassword env salt password⟩ = true
          · simp only [ha, if_true]
            rfl
          · simp only [ha]
            rfl
      · rfl
  · rfl

theorem Represents.register (h : Represents env T s) (salt : Salt) (data : RegisterData) :
    (run (exec env) (RegisterView.post env salt data) s).1 = (T.register env salt data).1 ∧
      Represents env (T.register env salt data).2 (run (exec env) (RegisterView.post env salt data) s).2 := by
  obtain ⟨clock, redis, users⟩ := s
  obtain rfl : clock = T.clock := h.clock
  obtain rfl : users = T.users := h.users
  rw [run_register]
  exact ⟨rfl, rfl, rfl, h.secret, h.access⟩

theorem Represents.startSession (h : Represents env T s) (draws : Draws) (user : User) :
    (run (exec env) (AccountViews.startSession draws user) s).1 = (T.startSession env draws user).1 ∧
      Represents env (T.startSession env draws user).2 (run (exec env) (AccountViews.startSession draws user) s).2 := by
  rw [run_startSession, h.freeName, Table.startSession]
  cases T.freeName draws.keys with
  | none => exact ⟨rfl, h⟩
  | some k =>
    refine ⟨?_, ?_⟩
    · simp only [refreshToken, h.clock]
      rfl
    · dsimp only
      refine h.change k _ rfl rfl ?_ ?_ ?_
      · intro key hs ha
        rw [opened, live_put_of_ne _ _ _ hs, live_put_of_ne _ _ _ ha]
      · rw [live_opened_secret, lasting_some, if_pos (Nat.le_add_right _ _), ← h.clock]
        rfl
      · rw [live_opened_access, lasting_some, if_pos (Nat.le_add_right _ _), ← h.clock]
        rfl

theorem Represents.login (h : Represents env T s) (draws : Draws) (data : LoginData) :
    (run (exec env) (LoginView.post env draws data) s).1 = (T.login env draws data).1 ∧
      Represents env (T.login env draws data).2 (run (exec env) (LoginView.post env draws data) s).2 := by
  unfold Table.login
  split
  · next hd =>
    rw [run_login env draws hd, h.users]
    cases T.users.find? (fun u => matchesId env data.email u.email) with
    | none => exact ⟨rfl, h⟩
    | some user =>
      dsimp only
      cases checkPassword env user.password data.password with
      | error e => exact ⟨rfl, h⟩
      | ok accepted =>
        cases accepted with
        | false => exact ⟨rfl, h⟩
        | true => exact h.startSession draws user
  · next hd =>
    unfold LoginView.post
    rw [if_neg hd]
    exact ⟨rfl, h⟩

/-- A refresh that is granted renews the session, since the token it was
granted for is one of the session's user. -/
theorem Represents.renewed (h : Represents env T s) {k : String} {x : Session} {payload : Payload}
    (hx : T.running k = some x) (hid : payload.id = x.user) :
    Represents env (T.put k (some { x with renewed := T.clock }))
      (RequestEffects.put s (k ++ "_access") (env.encode (renewed s payload) x.secret) (accessAgeMinutes * 60)) := by
  have hrunning := (lasting_eq_some.mp hx).2
  refine h.change k _ rfl rfl (fun key _ ha => live_put_of_ne _ _ _ ha) ?_ ?_
  · rw [live_put_of_ne _ _ _ (secret_ne_access k k), h.secret k, hx, lasting_some, if_pos hrunning]
    rfl
  · rw [live_put_self _ _ _ (by decide), lasting_some, if_pos (Nat.le_add_right _ _), RequestEffects.renewed, hid,
      h.clock]
    rfl

omit [DecidableRel expired] in
theorem Represents.refresh (h : Represents env T s) (hj : PyJwt env expired) (cookies : Cookies)
    (hown : ∀ k x y payload, T.running k = some x → Renews env cookies s k y payload → payload.id = x.user) :
    (run (exec env) (RefreshToken.post cookies) s).1 = (T.refresh env cookies).1 ∧
      Represents env (T.refresh env cookies).2 (run (exec env) (RefreshToken.post cookies) s).2 := by
  cases ht : nonempty cookies.refresh with
  | none =>
    simp only [RefreshToken.post, Table.refresh, ht]
    exact ⟨rfl, h⟩
  | some token =>
    cases hk : nonempty cookies.jwt with
    | none =>
      simp only [RefreshToken.post, Table.refresh, ht, hk]
      exact ⟨rfl, h⟩
    | some k =>
      simp only [Table.refresh, ht, hk]
      have hlive := h.secret k
      cases hx : T.running k with
      | none =>
        rw [hx] at hlive
        have hd : env.decode (s.clock / 1000) token ((s.live (k ++ "_secret")).map (·.value)) =
            .error .typeError := by
          rw [hlive]
          exact hj.noKey _ _
        rw [run_refresh_error ht hk hd]
        exact ⟨rfl, h⟩
      | some x =>
        rw [hx] at hlive
        dsimp only
        cases hd : env.decode (T.clock / 1000) token (some x.secret) with
        | error e =>
          have hd' : env.decode (s.clock / 1000) token ((s.live (k ++ "_secret")).map (·.value)) = .error e := by
            rw [hlive, h.clock]
            exact hd
          rw [run_refresh_error ht hk hd']
          exact ⟨rfl, h⟩
        | ok payload =>
          have hr : Renews env cookies s k (secretItem x) payload := by
            refine ⟨hk, hlive, token, ht, ?_⟩
            rw [h.clock]
            exact hd
          rw [(run_refresh hr).1]
          exact ⟨rfl, h.renewed hx (hown k x _ payload hx hr)⟩

theorem Represents.logout (h : Represents env T s) (cookies : Cookies) :
    (run (exec env) (LogoutView.post cookies) s).1 = (T.logout cookies).1 ∧
      Represents env (T.logout cookies).2 (run (exec env) (LogoutView.post cookies) s).2 := by
  cases hk : cookies.jwt with
  | none =>
    simp only [LogoutView.post, Table.logout, hk]
    exact ⟨rfl, h⟩
  | some k =>
    have hrun : (run (exec env) (LogoutView.post cookies) s).2 =
        drop (drop s (k ++ "_secret")) (k ++ "_access") := by
      simp only [LogoutView.post, hk]
      rfl
    rw [hrun]
    simp only [LogoutView.post, Table.logout, hk]
    refine ⟨rfl, ?_⟩
    refine h.change k none rfl rfl (fun key hs ha => ?_) ?_ (live_drop_self _ _)
    · rw [live_drop_of_ne _ ha, live_drop_of_ne _ hs]
    · rw [live_drop_of_ne _ (secret_ne_access k k)]
      exact live_drop_self _ _

theorem same_session {k : String} {x y : Session} (hy : T.running k = some y) (hx : T.recent k = some x) :
    y = x :=
  Option.some.inj ((lasting_eq_some.mp hy).1.symm.trans (lasting_eq_some.mp hx).1)

theorem exec_get (env : Env) (key : String) (s : Store) :
    exec env (.get key) s = ((s.live key).map (·.value), s) := rfl

theorem exec_decode (env : Env) (token : String) (secret : Option String) (s : Store) :
    exec env (.decode token secret) s = (env.decode (s.clock / 1000) token secret, s) := rfl

/-- The stored access token is accepted until its last second. -/
theorem decode_access (hj : PyJwt env expired) (x : Session) :
    env.decode (T.clock / 1000) (accessItem env x).value (some x.secret) =
      if T.spent expired x then .error .expiredSignature
      else .ok ⟨x.user, (x.renewed + accessAge) / 1000, x.renewed / 1000⟩ := by
  split
  · next hspent => exact hj.past _ _ _ hspent
  · next hspent => exact hj.running _ _ _ hspent

theorem Represents.processRequest (h : Represents env T s) (hj : PyJwt env expired) (path : String)
    (cookies : Cookies) :
    run (exec env) (AccountViews.processRequest path cookies) s = (T.processRequest expired path cookies, s) := by
  unfold AccountViews.processRequest Table.processRequest
  split
  · rfl
  · cases cookies.jwt with
    | none => rfl
    | some k =>
      simp only [getValue, ask, perform_bind, run_call, exec_get, h.access k]
      cases hx : T.recent k with
      | none => rfl
      | some x =>
        have ht : nonempty (some (accessItem env x).value) = some (accessItem env x).value :=
          nonempty_eq_some.mpr ⟨rfl, hj.token_ne _ _⟩
        simp only [Option.map_some, ht, run_call, exec_decode, h.clock, h.secret k]
        cases hy : T.running k with
        | none =>
          rw [Option.map_none, Option.map_none, hj.noKey]
          rfl
        | some y =>
          obtain rfl : y = x := same_session hy hx
          rw [Option.map_some, Option.map_some, secretItem, decode_access hj]
          by_cases hspent : T.spent expired y
          · simp only [if_pos hspent]
            rfl
          · simp only [if_neg hspent]
            rfl

theorem Represents.getUser (h : Represents env T s) (hj : PyJwt env expired) (keyName : Option String) :
    run (exec env) (AccountViews.getUser keyName) s = (T.getUser expired keyName, s) := by
  unfold AccountViews.getUser Table.getUser
  cases keyName with
  | none => rfl
  | some k =>
    simp only [getValue, ask, perform_bind, run_call, exec_get, h.secret k, h.access k]
    cases hy : T.running k with
    | none => rfl
    | some y =>
      have hs : nonempty (some (secretItem y).value) = some y.secret := nonempty_eq_some.mpr ⟨rfl, y.secret_ne⟩
      cases hx : T.recent k with
      | none =>
        simp only [Option.map_some, Option.map_none, hs]
        rfl
      | some x =>
        obtain rfl : y = x := same_session hy hx
        have ht : nonempty (some (accessItem env y).value) = some (accessItem env y).value :=
          nonempty_eq_some.mpr ⟨rfl, hj.token_ne _ _⟩
        simp only [Option.map_some, hs, ht, run_call, exec_decode, h.clock]
        rw [decode_access hj]
        by_cases hspent : T.spent expired y
        · simp only [if_pos hspent]
          rfl
        · simp only [if_neg hspent]
          have hf : run (exec env) (ask (.findUser (.str y.user))) s = (.ok (s.user y.user), s) := by
            simp only [ask, perform, run_call, exec, find_str]
            rfl
          rw [hf, Store.user, h.users]

theorem Represents.protectedView (h : Represents env T s) (hj : PyJwt env expired) (path : String)
    (cookies : Cookies) (asksUser : Bool) :
    run (exec env) ((Request.protectedView path cookies asksUser).program env) s =
      (T.protectedView expired path cookies asksUser, s) := by
  have hp := h.processRequest hj path cookies
  unfold Request.program Table.protectedView
  cases hc : T.processRequest expired path cookies with
  | error e =>
    rw [hc] at hp
    exact run_bind_error _ hp
  | ok passed =>
    rw [hc] at hp
    rw [run_bind_ok _ hp]
    cases asksUser with
    | false => rfl
    | true => simp only [if_true, pure_eq, run_bind_ret, h.getUser hj]

end Requests

section Simulation

/-- A session after a step was there before it, or is a login's. -/
theorem step_sessions (e : Event) {k : String} {y : Session}
    (h : (T.step env expired e).2.sessions k = some y) :
    (∃ x, T.sessions k = some x ∧ y.secret = x.secret ∧ y.user = x.user) ∨
      ∃ draws data user, e = .request (.login draws data) ∧
        T.users.find? (fun u => matchesId env data.email u.email) = some user ∧
        y.secret = generateRandomKey draws.secret ∧ y.user = user.email := by
  cases e with
  | wait ms => exact .inl ⟨y, h, rfl, rfl⟩
  | request req =>
    cases req with
    | register salt data => exact .inl ⟨y, h, rfl, rfl⟩
    | protectedView path cookies asksUser => exact .inl ⟨y, h, rfl, rfl⟩
    | logout cookies =>
      simp only [Table.step, Table.answer, Table.logout] at h
      split at h
      · exact .inl ⟨y, h, rfl, rfl⟩
      · next l hl =>
        by_cases hk : k = l
        · simp [Table.put, hk] at h
        · exact .inl ⟨y, by simpa [Table.put, hk] using h, rfl, rfl⟩
    | refresh cookies =>
      simp only [Table.step, Table.answer, Table.refresh] at h
      split at h
      · exact .inl ⟨y, h, rfl, rfl⟩
      · exact .inl ⟨y, h, rfl, rfl⟩
      · next l _ _ =>
        split at h
        · exact .inl ⟨y, h, rfl, rfl⟩
        · next x hx =>
          split at h
          · exact .inl ⟨y, h, rfl, rfl⟩
          · by_cases hk : k = l
            · subst hk
              obtain rfl : { x with renewed := T.clock } = y := by simpa [Table.put] using h
              exact .inl ⟨x, (lasting_eq_some.mp hx).1, rfl, rfl⟩
            · exact .inl ⟨y, by simpa [Table.put, hk] using h, rfl, rfl⟩
    | login draws data =>
      simp only [Table.step, Table.answer, Table.login] at h
      split at h
      · split at h
        · exact .inl ⟨y, h, rfl, rfl⟩
        · next user hu =>
          split at h
          · exact .inl ⟨y, h, rfl, rfl⟩
          · exact .inl ⟨y, h, rfl, rfl⟩
          · unfold Table.startSession at h
            split at h
            · exact .inl ⟨y, h, rfl, rfl⟩
            · next l _ =>
              by_cases hk : k = l
              · subst hk
                obtain rfl := Option.some.inj ((Function.update_self k _ T.sessions).symm.trans h)
                exact .inr ⟨draws, data, user, rfl, hu, rfl, rfl⟩
              · exact .inl ⟨y, by simpa [Table.put, hk] using h, rfl, rfl⟩
      · exact .inl ⟨y, h, rfl, rfl⟩

/-- The site runs like the table, and the secrets of the logins to come are
new to both. -/
structure Simulates (env : Env) (P : Site) (T : Table) (events : List Event) : Prop where
  represents : Represents env T P.store
  sound : Sound (playAll env P events).calls
  distinct : (events.filterMap drawnSecret).Nodup
  signed : ∀ k x, T.sessions k = some x → Signed x.secret x.user P.calls
  drawn : ∀ k x, T.sessions k = some x → x.secret ∉ events.filterMap drawnSecret
  unsigned : ∀ secret ∈ events.filterMap drawnSecret, ∀ id, Signed secret id P.calls

variable {P : Site} {e : Event} {events : List Event}

theorem Simulates.drawnSecret_ne (h : Simulates env P T (e :: events)) {secret : String}
    (hs : secret ∈ events.filterMap drawnSecret) : drawnSecret e ≠ some secret := by
  intro he
  have hd := h.distinct
  rw [List.filterMap_cons_some he] at hd
  exact (List.nodup_cons.mp hd).1 hs

theorem Simulates.signed_play (h : Simulates env P T (e :: events)) {k : String} {x : Session}
    (hx : T.sessions k = some x) : Signed x.secret x.user (play env P e).calls := by
  refine signed_step (h.signed k x hx) (fun he => h.drawn k x hx ?_) (h.sound.suffix (suffix_playAll env _ events))
  exact List.mem_filterMap.mpr ⟨e, List.mem_cons_self, he⟩

theorem answers_view {p : Prog Response} {result : Except Exn Response × Table}
    (h : (run (exec env) p s).1 = result.1 ∧ Represents env result.2 (run (exec env) p s).2) :
    some (run (exec env) (p >>= fun r => pure (Reply.response r)) s).1 = some (result.1.map .response) ∧
      Represents env result.2 (run (exec env) (p >>= fun r => pure (Reply.response r)) s).2 := by
  simp only [pure_eq, run_bind_ret, h.1]
  exact ⟨trivial, h.2⟩

theorem Simulates.answers (hj : PyJwt env expired) (h : Simulates env P T (e :: events)) :
    (respond env P e).1 = (T.step env expired e).1 ∧ Represents env (T.step env expired e).2 (play env P e).store := by
  have hr := h.represents
  cases e with
  | wait ms => exact ⟨rfl, hr.wait ms⟩
  | request req =>
    cases req with
    | register salt data =>
      simp only [respond, play, SessionLifetimes.step, Table.step, Table.answer, Request.program]
      exact answers_view (hr.register salt data)
    | login draws data =>
      simp only [respond, play, SessionLifetimes.step, Table.step, Table.answer, Request.program]
      exact answers_view (hr.login draws data)
    | logout cookies =>
      simp only [respond, play, SessionLifetimes.step, Table.step, Table.answer, Request.program]
      exact answers_view (hr.logout cookies)
    | refresh cookies =>
      simp only [respond, play, SessionLifetimes.step, Table.step, Table.answer, Request.program]
      refine answers_view (hr.refresh hj cookies fun k x y payload hx hy => ?_)
      have hsecret := hr.secret k
      rw [hx, hy.secret] at hsecret
      obtain rfl := Option.some.inj hsecret
      -- the new access token is one of the calls, so it is for the session's user
      have hmade := List.mem_append_left P.calls (refresh_renews hy).2
      rw [← calls_request, renewed, secretItem] at hmade
      have hid := h.signed_play (lasting_eq_some.mp hx).1 _ _ hmade
      exact hid
    | protectedView path cookies asksUser =>
      have hrun := hr.protectedView hj path cookies asksUser
      simp only [respond, play, SessionLifetimes.step, Table.step, Table.answer, hrun]
      exact ⟨trivial, hr⟩

theorem Simulates.step (hj : PyJwt env expired) (h : Simulates env P T (e :: events)) :
    (respond env P e).1 = (T.step env expired e).1 ∧
      Simulates env (respond env P e).2 (T.step env expired e).2 events := by
  obtain ⟨hout, hr⟩ := h.answers hj
  have hsound : Sound (play env P e).calls := h.sound.suffix (suffix_playAll env _ events)
  have hsub : ∀ secret ∈ events.filterMap drawnSecret, secret ∈ (e :: events).filterMap drawnSecret := by
    intro secret hs
    obtain ⟨e', he', hs⟩ := List.mem_filterMap.mp hs
    exact List.mem_filterMap.mpr ⟨e', List.mem_cons_of_mem _ he', hs⟩
  refine ⟨hout, hr, h.sound, ?_, ?_, ?_, ?_⟩
  · exact h.distinct.sublist ((List.sublist_cons_self e events).filterMap drawnSecret)
  · intro k y hy
    obtain ⟨x, hx, hsecret, huser⟩ | ⟨draws, data, user, rfl, hu, hsecret, huser⟩ := step_sessions e hy
    · rw [hsecret, huser]
      exact h.signed_play hx
    · rw [hsecret, huser]
      refine signed_login (h.unsigned _ ?_ _) (h.represents.users ▸ hu)
      exact List.mem_filterMap.mpr ⟨_, List.mem_cons_self, rfl⟩
  · intro k y hy
    obtain ⟨x, hx, hsecret, -⟩ | ⟨draws, data, user, rfl, -, hsecret, -⟩ := step_sessions e hy
    · rw [hsecret]
      exact fun hs => h.drawn k x hx (hsub _ hs)
    · rw [hsecret]
      exact fun hs => h.drawnSecret_ne hs rfl
  · intro secret hs id
    exact signed_step (h.unsigned secret (hsub _ hs) id) (h.drawnSecret_ne hs) hsound

/-- Requests one after another are answered as from a table of sessions: with
Redis, expiring keys and signed tokens the site does exactly what it would do
if it noted for each key whose session it is and when it was opened and
renewed. The tokens must be unforgeable, and no two logins draw one secret. -/
theorem table_refines (hj : PyJwt env expired) (clock : Nat) (users : List User) (events : List Event)
    (hs : Sound (playAll env (newSite clock users) events).calls) (hd : (events.filterMap drawnSecret).Nodup) :
    outputs (respond env) (newSite clock users) events =
      outputs (Table.step env expired) ⟨clock, users, fun _ => none⟩ events := by
  refine outputs_eq (Simulates env) ?_ ⟨represents_fresh clock users, hs, hd, ?_, ?_, ?_⟩
  · intro P T e events h
    exact h.step hj
  · intro k x hx
    cases hx
  · intro k x hx
    cases hx
  · intro secret _ id claims token hm
    cases hm

end Simulation

section Visits

open SessionSoundness (drawA drawC raceUser)
open RefreshGrants (signingEnv signingEnv_pyJwt ownCookies)

def visits : List Event :=
  [.request (.login ⟨drawA, [drawC]⟩ ⟨.str "user@example.com", .str "secret"⟩), .wait 1800001,
    .request (.protectedView "/search/" ownCookies true), .request (.refresh ownCookies),
    .request (.protectedView "/search/" ownCookies true)]

@[irreducible] def visited : Site := playAll signingEnv (newSite 0 [raceUser]) visits

theorem visited_eq : visited = playAll signingEnv (newSite 0 [raceUser]) visits := by
  unfold visited
  rfl

theorem visits_sound : Sound.check visited.calls = true := by
  decide +kernel

theorem visits_distinct : (visits.filterMap drawnSecret).Nodup := by
  decide +kernel

theorem table_visits :
    (outputs (Table.step signingEnv (fun exp now => exp < now)) ⟨0, [raceUser], fun _ => none⟩ visits).map
      (Option.map Except.isOk) =
    [some true, none, some false, some true, some true] := by
  decide +kernel

theorem table_refines_visits :
    (outputs (respond signingEnv) (newSite 0 [raceUser]) visits).map (Option.map Except.isOk) =
    [some true, none, some false, some true, some true] := by
  rw [table_refines signingEnv_pyJwt 0 [raceUser] visits ?_ visits_distinct, table_visits]
  rw [← visited_eq]
  exact sound_of_check visits_sound

end Visits

end YoutubeRecords.SessionTable
