import YoutubeRecords.Credentials
import YoutubeRecords.LoginIdentity
import YoutubeRecords.SessionLifetimes
import YoutubeRecords.TokenVerification

namespace YoutubeRecords.SessionCompleteness

open CommandProgram ProgramPool PythonBasics AccountStore AccountViews SessionPromises RequestEffects
  SessionSoundness SessionLifetimes TokenVerification

structure Site where
  store : Store
  calls : History

def calls (env : Env) (P : Site) : Event → History
  | .request req => journal (exec env) (req.program env) P.store P.calls
  | .wait _ => P.calls

def play (env : Env) (P : Site) (e : Event) : Site := ⟨step env P.store e, calls env P e⟩

def playAll (env : Env) (P : Site) (events : List Event) : Site := events.foldl (play env) P

def newSite (clock : Nat) (users : List User) : Site := ⟨fresh clock users, []⟩

def drawnSecret : Event → Option String
  | .request (.login draws _) => some (generateRandomKey draws.secret)
  | _ => none

def logsOut (k : String) : Event → Prop
  | .request (.logout cookies) => cookies.jwt = some k
  | _ => False

def presents (k token : String) : Event → Prop
  | .request (.refresh cookies) => cookies.jwt = some k ∧ cookies.refresh = some token
  | _ => False

instance (k token : String) : DecidablePred (presents k token)
  | .request (.refresh cookies) => inferInstanceAs (Decidable (cookies.jwt = some k ∧ cookies.refresh = some token))
  | .request (.register _ _) | .request (.login _ _) | .request (.logout _) | .request (.protectedView _ _ _)
  | .wait _ => .isFalse id

def inSeconds : Event → Prop
  | .wait ms => ms % 1000 = 0
  | _ => True

/-- When the key was last refreshed with the token, where `moment` is the time
of the last refresh before the events. -/
def refreshedAt (env : Env) (k token : String) (s : Store) (moment : Nat) : List Event → Nat
  | [] => moment
  | e :: events => refreshedAt env k token (step env s e) (if presents k token e then s.clock else moment) events

variable {env : Env} {P Q : Site} {events : List Event} {e : Event}

theorem clock_step (env : Env) (s : Store) (e : Event) : s.clock ≤ (step env s e).clock := by
  cases e with
  | request req => exact (clock_request env req s).ge
  | wait ms => exact Nat.le_add_right _ _

theorem clock_playAll (env : Env) (P : Site) (events : List Event) :
    P.store.clock ≤ (playAll env P events).store.clock := by
  induction events generalizing P with
  | nil => exact le_rfl
  | cons e events ih => exact (clock_step env P.store e).trans (ih (play env P e))

theorem seconds_step {s : Store} (h : s.clock % 1000 = 0) (he : inSeconds e) :
    (step env s e).clock % 1000 = 0 := by
  cases e with
  | request req => rwa [step, clock_request]
  | wait ms =>
    have hms : ms % 1000 = 0 := he
    simp only [step]
    omega

theorem seconds_playAll (h : P.store.clock % 1000 = 0) (he : ∀ e ∈ events, inSeconds e) :
    (playAll env P events).store.clock % 1000 = 0 := by
  induction events generalizing P with
  | nil => exact h
  | cons e events ih =>
    obtain ⟨he, hes⟩ := List.forall_mem_cons.mp he
    exact ih (P := play env P e) (seconds_step h he) hes

/-- In whole seconds, a token expires exactly when its Redis entry does. -/
theorem seconds_exp {now : Nat} (h : now % 1000 = 0) (age : Nat) :
    (now + age * 60 * 1000) / 1000 * 1000 = now + age * 60 * 1000 := by
  omega

theorem calls_request (env : Env) (P : Site) (req : Request) : (play env P (.request req)).calls =
    journal (exec env) (req.program env) P.store [] ++ P.calls :=
  journal_append _ _ _ _

theorem suffix_calls (env : Env) (P : Site) (e : Event) : P.calls <:+ (play env P e).calls := by
  cases e with
  | request req => exact suffix_journal _ _ _ _
  | wait ms => exact List.suffix_rfl

theorem suffix_playAll (env : Env) (P : Site) (events : List Event) :
    P.calls <:+ (playAll env P events).calls := by
  induction events generalizing P with
  | nil => exact List.suffix_rfl
  | cons e events ih => exact (suffix_calls env P e).trans (ih (play env P e))

def Signed (secret id : String) (h : History) : Prop :=
  ∀ claims token, ⟨.encode claims secret, token⟩ ∈ h → claims.id = id

variable {secret id : String}

theorem signed_step (h : Signed secret id P.calls) (he : drawnSecret e ≠ some secret)
    (hs : Sound (play env P e).calls) : Signed secret id (play env P e).calls := by
  cases e with
  | wait ms => exact h
  | request req =>
    rw [calls_request] at hs ⊢
    revert hs
    refine (program_obeys env req).through
      (I := fun _ own => Sound (own ++ P.calls) → Signed secret id (own ++ P.calls)) (fun _ => h) ?_
    intro t own c ih hp ⟨hsound, _⟩ claims token hm
    obtain hx | hm := List.mem_cons.mp hm
    · cases hx
      obtain ⟨draws, data, user, rfl, hs, -⟩ | ⟨word, old, hd, hid⟩ := promise_encode hp
      · exact absurd (congrArg some hs.symm) he
      · obtain ⟨text, htext, hold⟩ := hsound.of_mem (List.mem_append_left P.calls hd)
        obtain rfl := Option.some.inj htext
        rw [hid]
        exact ih hsound old word hold
    · exact ih hsound claims token hm

theorem signed_playAll (h : Signed secret id P.calls) (he : ∀ e ∈ events, drawnSecret e ≠ some secret)
    (hs : Sound (playAll env P events).calls) : Signed secret id (playAll env P events).calls := by
  induction events generalizing P with
  | nil => exact h
  | cons e events ih =>
    obtain ⟨he, hes⟩ := List.forall_mem_cons.mp he
    exact ih (signed_step h he (hs.suffix (suffix_playAll env (play env P e) events))) hes hs

structure Session where
  key : String
  secret : String
  refresh : String
  user : User
  start : Nat
  key_ne : key ≠ ""
  secret_ne : secret ≠ ""

/-- The session is open: its secret is in Redis, an access token made at
`moment` or later is there with it, its refresh token is genuine and its user
is there. -/
structure Session.Open (x : Session) (moment : Nat) (P : Site) : Prop where
  secretStored : P.store.redis (x.key ++ "_secret") =
    some ⟨x.secret, some (x.start + refreshAgeMinutes * 60 * 1000)⟩
  accessStored : ∃ token w claims, P.store.redis (x.key ++ "_access") = some ⟨token, some w⟩ ∧
    ⟨.encode claims x.secret, token⟩ ∈ P.calls ∧ moment + accessAgeMinutes * 60 * 1000 ≤ w ∧
    moment + accessAgeMinutes * 60 * 1000 ≤ claims.exp * 1000
  refreshMade : ∃ claims, ⟨.encode claims x.secret, x.refresh⟩ ∈ P.calls ∧
    x.start + refreshAgeMinutes * 60 * 1000 ≤ claims.exp * 1000
  account : P.store.user x.user.email = some x.user
  past : moment ≤ P.store.clock

variable {x : Session} {moment : Nat}

theorem Session.Open.frame (h : x.Open moment P)
    (hs : Q.store.redis (x.key ++ "_secret") = P.store.redis (x.key ++ "_secret"))
    (ha : Q.store.redis (x.key ++ "_access") = P.store.redis (x.key ++ "_access"))
    (hu : Q.store.user x.user.email = P.store.user x.user.email)
    (hc : P.store.clock ≤ Q.store.clock) (hm : P.calls <:+ Q.calls) : x.Open moment Q := by
  obtain ⟨token, w, claims, hr, he, hw, hexp⟩ := h.accessStored
  obtain ⟨old, hold, hexp'⟩ := h.refreshMade
  exact ⟨hs.trans h.secretStored, ⟨token, w, claims, ha.trans hr, hm.subset he, hw, hexp⟩,
    ⟨old, hm.subset hold, hexp'⟩, hu.trans h.account, h.past.trans hc⟩

theorem Session.Open.live_secret (h : x.Open moment P)
    (hnow : P.store.clock < x.start + refreshAgeMinutes * 60 * 1000) :
    P.store.live (x.key ++ "_secret") = some ⟨x.secret, some (x.start + refreshAgeMinutes * 60 * 1000)⟩ := by
  refine ExpiringStore.live_eq_some.mpr ⟨h.secretStored, fun w hw => ?_⟩
  obtain rfl := Option.some.inj hw
  exact hnow.le

theorem Session.Open.register (h : x.Open moment P) (salt : Salt) (data : RegisterData) :
    x.Open moment (play env P (.request (.register salt data))) := by
  obtain ⟨hr, hc⟩ := redis_of_promise env (.register salt data) P.store (fun _ _ _ _ => ⟨id, id⟩)
  refine h.frame (congrFun hr _) (congrFun hr _) ?_ hc.ge (suffix_calls env P _)
  simp only [play, step, Request.program, pure_eq, run_bind_ret]
  obtain ⟨hs, -⟩ | ⟨name, email, password, -, hn, -, hrun⟩ := Credentials.register_cases env salt data P.store
  · rw [hs]
  · rw [hrun, user_saveUser]
    refine if_neg fun he => ?_
    have hsome := h.account
    rw [← he.2, hn] at hsome
    cases hsome

/-- A request that saves no user and leaves the session's entries alone leaves
the session open. -/
theorem Session.Open.request (h : x.Open moment P) {req : Request}
    (hu : ∀ own user r, ¬ promise env req own ⟨.saveUser user, r⟩)
    (hs : (run (exec env) (req.program env) P.store).2.redis (x.key ++ "_secret") =
      P.store.redis (x.key ++ "_secret"))
    (ha : (run (exec env) (req.program env) P.store).2.redis (x.key ++ "_access") =
      P.store.redis (x.key ++ "_access")) : x.Open moment (play env P (.request req)) :=
  h.frame hs ha (congrArg (KeyedList.lookup User.email x.user.email) (users_of_promise env req P.store hu))
    (clock_step env P.store _) (suffix_calls env P _)

theorem Session.Open.login (h : x.Open moment P)
    (hnow : P.store.clock < x.start + refreshAgeMinutes * 60 * 1000) (draws : Draws) (data : LoginData) :
    x.Open moment (play env P (.request (.login draws data))) := by
  obtain hs | ⟨user, k, hk, hs⟩ := login_store env draws data P.store
  · exact h.request (fun _ _ _ => id) (by rw [hs]) (by rw [hs])
  · have hne : x.key ≠ k := by
      rintro rfl
      have hfree := List.find?_some hk
      rw [h.live_secret hnow] at hfree
      cases hfree
    apply h.request (fun _ _ _ => id)
    · rw [hs, opened, redis_put_of_ne _ _ _ (fun he => hne (key_inj.mp he)),
        redis_put_of_ne _ _ _ (secret_ne_access x.key k)]
    · rw [hs, opened, redis_put_of_ne _ _ _ (accessKey_ne_secretKey x.key k),
        redis_put_of_ne _ _ _ (fun he => hne (key_inj.mp he))]

theorem Session.Open.logout (h : x.Open moment P) {cookies : Cookies} (hk : cookies.jwt ≠ some x.key) :
    x.Open moment (play env P (.request (.logout cookies))) := by
  obtain hs | ⟨k, hj, hs⟩ := logout_store env cookies P.store
  · exact h.request (fun _ _ _ => id) (by rw [hs]) (by rw [hs])
  · have hne : x.key ≠ k := fun he => hk (he ▸ hj)
    apply h.request (fun _ _ _ => id)
    · rw [hs, redis_drop_of_ne _ (secret_ne_access x.key k),
        redis_drop_of_ne _ (fun he => hne (key_inj.mp he))]
    · rw [hs, redis_drop_of_ne _ (fun he => hne (key_inj.mp he)),
        redis_drop_of_ne _ (accessKey_ne_secretKey x.key k)]

theorem Session.Open.renews (h : x.Open moment P) (hh : Hs256 env P.calls)
    (hnow : P.store.clock < x.start + refreshAgeMinutes * 60 * 1000) {cookies : Cookies}
    (hc : presents x.key x.refresh (.request (.refresh cookies))) :
    ∃ payload,
      Renews env cookies P.store x.key ⟨x.secret, some (x.start + refreshAgeMinutes * 60 * 1000)⟩ payload := by
  obtain ⟨claims, hm, hexp⟩ := h.refreshMade
  obtain ⟨hne, hdecode⟩ := hh.complete claims x.secret x.refresh hm
  refine ⟨claims, nonempty_eq_some.mpr ⟨hc.1, x.key_ne⟩, h.live_secret hnow, x.refresh,
    nonempty_eq_some.mpr ⟨hc.2, hne⟩, hdecode _ ?_⟩
  exact (Nat.div_lt_iff_lt_mul (by decide)).mpr (hnow.trans_le hexp)

/-- A refresh that is accepted for the session's key puts a new access token
in the place of the old one. -/
theorem Session.Open.renewed (h : x.Open moment P)
    (hnow : P.store.clock < x.start + refreshAgeMinutes * 60 * 1000) (hsec : P.store.clock % 1000 = 0)
    {cookies : Cookies} {y : ExpiringStore.Item String} {payload : Payload}
    (hr : Renews env cookies P.store x.key y payload) {moment' : Nat} (hm : moment' ≤ P.store.clock) :
    x.Open moment' (play env P (.request (.refresh cookies))) := by
  obtain rfl := Option.some.inj (hr.secret.symm.trans (h.live_secret hnow))
  obtain ⟨hput, hmade⟩ := refresh_renews hr
  refine ⟨?_, ⟨env.encode (RequestEffects.renewed P.store payload) x.secret,
    P.store.clock + accessAgeMinutes * 60 * 1000, RequestEffects.renewed P.store payload, ?_, ?_,
    Nat.add_le_add_right hm _, ?_⟩, ?_, ?_, hm.trans (clock_step env P.store _)⟩
  · rw [play, step, hput, redis_put_of_ne _ _ _ (secret_ne_access x.key x.key)]
    exact h.secretStored
  · rw [play, step, hput]
    exact redis_put_self _ _ _ (by decide)
  · rw [calls_request]
    exact List.mem_append_left P.calls hmade
  · exact (Nat.add_le_add_right hm _).trans (seconds_exp hsec _).ge
  · obtain ⟨claims, hold, hexp⟩ := h.refreshMade
    exact ⟨claims, (suffix_calls env P _).subset hold, hexp⟩
  · exact (congrArg (KeyedList.lookup User.email x.user.email)
      (users_of_promise env (.refresh cookies) P.store (fun _ _ _ => id))).trans h.account

theorem Session.Open.refresh (h : x.Open moment P) (hh : Hs256 env P.calls)
    (hnow : P.store.clock < x.start + refreshAgeMinutes * 60 * 1000) (hsec : P.store.clock % 1000 = 0)
    (cookies : Cookies) :
    x.Open (if presents x.key x.refresh (.request (.refresh cookies)) then P.store.clock else moment)
      (play env P (.request (.refresh cookies))) := by
  by_cases hr : ∃ k y payload, Renews env cookies P.store k y payload
  · obtain ⟨k, y, payload, hr⟩ := hr
    by_cases hk : k = x.key
    · subst hk
      apply h.renewed hnow hsec hr
      split
      · exact le_rfl
      · exact h.past
    · have hno : ¬ presents x.key x.refresh (.request (.refresh cookies)) := fun hp =>
        hk (Option.some.inj ((nonempty_eq_some.mp hr.key).1.symm.trans hp.1))
      rw [if_neg hno]
      apply h.request (fun _ _ _ => id)
      · rw [(refresh_renews hr).1, redis_put_of_ne _ _ _ (secret_ne_access x.key k)]
      · rw [(refresh_renews hr).1, redis_put_of_ne _ _ _ (fun he => hk (key_inj.mp he).symm)]
  · have hno : ¬ presents x.key x.refresh (.request (.refresh cookies)) := fun hp => by
      obtain ⟨payload, hp⟩ := h.renews hh hnow hp
      exact hr ⟨_, _, payload, hp⟩
    have hs := refresh_refused fun k y payload hp => hr ⟨k, y, payload, hp⟩
    rw [if_neg hno]
    exact h.request (fun _ _ _ => id) (by rw [hs]) (by rw [hs])

theorem Session.Open.step (h : x.Open moment P) (hh : Hs256 env P.calls)
    (hnow : P.store.clock < x.start + refreshAgeMinutes * 60 * 1000) (hsec : P.store.clock % 1000 = 0)
    (hout : ¬ logsOut x.key e) :
    x.Open (if presents x.key x.refresh e then P.store.clock else moment) (play env P e) := by
  cases e with
  | wait ms => exact h.frame rfl rfl rfl (Nat.le_add_right _ _) List.suffix_rfl
  | request req =>
    cases req with
    | register salt data => exact h.register salt data
    | login draws data => exact h.login hnow draws data
    | refresh cookies => exact h.refresh hh hnow hsec cookies
    | logout cookies => exact h.logout hout
    | protectedView path cookies asks =>
      obtain ⟨hr, -⟩ := redis_of_promise env (.protectedView path cookies asks) P.store fun _ _ _ _ => ⟨id, id⟩
      exact h.request (fun _ _ _ => id) (congrFun hr _) (congrFun hr _)

/-- A session stays open as long as its secret lives. -/
theorem Session.Open.playAll (h : x.Open moment P) (hsec : P.store.clock % 1000 = 0)
    (hes : ∀ e ∈ events, inSeconds e) (hout : ∀ e ∈ events, ¬ logsOut x.key e)
    (hh : Hs256 env (playAll env P events).calls)
    (hend : (playAll env P events).store.clock < x.start + refreshAgeMinutes * 60 * 1000) :
    x.Open (refreshedAt env x.key x.refresh P.store moment events) (playAll env P events) := by
  induction events generalizing P moment with
  | nil => exact h
  | cons e events ih =>
    obtain ⟨he, hes⟩ := List.forall_mem_cons.mp hes
    obtain ⟨hout, houts⟩ := List.forall_mem_cons.mp hout
    have hnow := ((clock_playAll env P (e :: events)).trans_lt hend)
    have hstep := h.step (hh.suffix (suffix_playAll env P (e :: events))) hnow hsec hout
    exact ih hstep (seconds_step hsec he) hes houts hh hend

/-- An open session passes the middleware, and is its user's. -/
theorem Session.Open.passes (h : x.Open moment P) (hh : Hs256 env P.calls)
    (hsigned : Signed x.secret x.user.email P.calls)
    (hstart : P.store.clock < x.start + refreshAgeMinutes * 60 * 1000)
    (hmoment : P.store.clock < moment + accessAgeMinutes * 60 * 1000) (path : String) (refresh : Option String) :
    (run (exec env) (processRequest path ⟨some x.key, refresh⟩) P.store).1 = .ok () ∧
      (run (exec env) (getUser (some x.key)) P.store).1 = .ok (some x.user) := by
  obtain ⟨token, w, claims, hr, hm, hw, hexp⟩ := h.accessStored
  obtain ⟨hne, hdecode⟩ := hh.complete claims x.secret token hm
  have hsecret : ExpiringStore.get P.store.clock P.store.redis (x.key ++ "_secret") = some x.secret :=
    ExpiringStore.get_eq_some.mpr ⟨_, h.live_secret hstart, rfl⟩
  have haccess : ExpiringStore.get P.store.clock P.store.redis (x.key ++ "_access") = some token := by
    refine ExpiringStore.get_eq_some.mpr ⟨_, ExpiringStore.live_eq_some.mpr ⟨hr, fun v hv => ?_⟩, rfl⟩
    obtain rfl := Option.some.inj hv
    exact hmoment.le.trans hw
  have hverified : env.decode (P.store.clock / 1000) token (some x.secret) = .ok claims :=
    hdecode _ ((Nat.div_lt_iff_lt_mul (by decide)).mpr (hmoment.trans_le hexp))
  have ht : nonempty (some token) = some token := nonempty_eq_some.mpr ⟨rfl, hne⟩
  have hs : nonempty (some x.secret) = some x.secret := nonempty_eq_some.mpr ⟨rfl, x.secret_ne⟩
  constructor
  · unfold processRequest
    split
    · rfl
    · simp only [getValue, ask, perform_bind, run_call, exec, hsecret, haccess, ht, hverified]
      rfl
  · have hfound : P.store.users.find? (fun u => matchesId env (.str claims.id) u.email) = some x.user := by
      rw [find_str, hsigned claims token hm]
      exact h.account
    simp only [getUser, getValue, ask, perform_bind, run_call, exec, hsecret, haccess, hs, ht, hverified]
    exact congrArg Except.ok hfound

section Login

variable {clock : Nat} {users : List User} {before after : List Event} {draws : Draws} {data : LoginData}
  {user : User} {k token : String} {expiry : Nat}

theorem calls_login (P : Site) : (play env P (.request (.login draws data))).calls =
    journal (exec env) (LoginView.post env draws data) P.store [] ++ P.calls := by
  simp only [calls_request, Request.program, pure_eq, journal_bind_ret]

theorem freeName_ne_empty {s : Store} {keys : List KeyDraw} (h : freeName s keys = some k) : k ≠ "" := by
  obtain ⟨draw, -, rfl⟩ := List.mem_map.mp (List.mem_of_find?_eq_some h)
  exact generateRandomKey_ne_empty draw

theorem Session.opens (x : Session) (hstart : Started env draws data P.store x.user x.key x.refresh)
    (hf : P.store.users.find? (fun u => matchesId env data.email u.email) = some x.user)
    (hsec : P.store.clock % 1000 = 0) (hx : x.secret = generateRandomKey draws.secret)
    (h0 : x.start = P.store.clock) : x.Open P.store.clock (play env P (.request (.login draws data))) := by
  have hu := users_of_promise env (.login draws data) P.store (fun _ _ _ => id)
  have hstore : (play env P (.request (.login draws data))).store =
      opened env P.store x.user x.secret x.key := by
    simp only [play, step, Request.program, pure_eq, run_bind_ret, hstart.store, hx]
  obtain ⟨haccess, hrefresh⟩ := login_makes hstart.given hf hstart.accepted
  rw [← hx] at haccess hrefresh
  refine ⟨?_, ⟨accessToken env P.store x.user x.secret, P.store.clock + accessAgeMinutes * 60 * 1000,
    ⟨x.user.email, (P.store.clock + accessAgeMinutes * 60 * 1000) / 1000, P.store.clock / 1000⟩, ?_, ?_,
    le_rfl, (seconds_exp hsec accessAgeMinutes).ge⟩,
    ⟨⟨x.user.email, (P.store.clock + refreshAgeMinutes * 60 * 1000) / 1000, P.store.clock / 1000⟩, ?_, ?_⟩, ?_, ?_⟩
  · rw [hstore, h0]
    exact redis_put_self _ _ _ (by decide)
  · rw [hstore, opened, redis_put_of_ne _ _ _ (accessKey_ne_secretKey x.key x.key)]
    exact redis_put_self _ _ _ (by decide)
  · rw [calls_login]
    exact List.mem_append_left P.calls haccess
  · rw [calls_login, hstart.refresh, ← hx]
    exact List.mem_append_left P.calls hrefresh
  · rw [h0]
    exact (seconds_exp hsec _).ge
  · exact (congrArg (KeyedList.lookup User.email x.user.email) hu).trans
      (KeyedList.lookup_of_find (p := matchesId env data.email) hf)
  · exact clock_step env P.store _

theorem signed_login (h : Signed (generateRandomKey draws.secret) user.email P.calls)
    (hf : P.store.users.find? (fun u => matchesId env data.email u.email) = some user) :
    Signed (generateRandomKey draws.secret) user.email (play env P (.request (.login draws data))).calls := by
  intro claims token hm
  rw [calls_login] at hm
  obtain hm | hm := List.mem_append.mp hm
  · obtain ⟨found, hfound, -, hid⟩ := (LoginIdentity.login_consistent draws data P.store).made _ _ _ hm
    obtain rfl := Option.some.inj (hf.symm.trans hfound)
    exact hid
  · exact h claims token hm

/-- Until its secret or its latest access token runs out, and unless it is
logged out, the session that a login has issued passes the middleware and
belongs to its user, whatever else the site is asked. -/
theorem session_complete (hclock : clock % 1000 = 0) (hes : ∀ e ∈ before ++ after, inSeconds e)
    (hdraws : ∀ e ∈ before ++ after, drawnSecret e ≠ some (generateRandomKey draws.secret))
    (hP : P = playAll env (newSite clock users) before)
    (hf : P.store.users.find? (fun u => matchesId env data.email u.email) = some user)
    (hlogin : (run (exec env) (LoginView.post env draws data) P.store).1 = .ok (sessionStarted k token expiry))
    (hout : ∀ e ∈ after, ¬ logsOut k e)
    (hQ : Q = playAll env (play env P (.request (.login draws data))) after) (hh : Hs256 env Q.calls)
    (hsecret : Q.store.clock < P.store.clock + refreshAgeMinutes * 60 * 1000)
    (haccess : Q.store.clock < refreshedAt env k token (step env P.store (.request (.login draws data)))
      P.store.clock after + accessAgeMinutes * 60 * 1000) (path : String) (refresh : Option String) :
    (run (exec env) (processRequest path ⟨some k, refresh⟩) Q.store).1 = .ok () ∧
      (run (exec env) (getUser (some k)) Q.store).1 = .ok (some user) := by
  obtain ⟨hbefore, hafter⟩ := List.forall_mem_append.mp hes
  obtain ⟨hother, hlater⟩ := List.forall_mem_append.mp hdraws
  have hstart := login_started hf hlogin
  let x : Session := ⟨k, generateRandomKey draws.secret, token, user, P.store.clock,
    freeName_ne_empty hstart.free, generateRandomKey_ne_empty draws.secret⟩
  have hsec : P.store.clock % 1000 = 0 := hP ▸ seconds_playAll hclock hbefore
  have hsec' : (play env P (.request (.login draws data))).store.clock % 1000 = 0 := seconds_step hsec trivial
  have hopen : x.Open P.store.clock (play env P (.request (.login draws data))) := x.opens hstart hf hsec rfl rfl
  subst hQ
  have hend := hopen.playAll hsec' hafter hout hh hsecret
  have hsound := hh.sound.suffix (suffix_playAll env _ after)
  have hsigned : Signed x.secret user.email P.calls := by
    rw [hP]
    refine signed_playAll (by simp [Signed, newSite]) hother ?_
    rw [← hP]
    exact hsound.suffix (suffix_calls env P _)
  exact hend.passes hh (signed_playAll (signed_login hsigned hf) hlater hh.sound) hsecret haccess path refresh

end Login

section RefreshedSession

def loginSite : Site := newSite 0 [raceUser]

def refreshEvents : List Event := [.wait 7000000, .request (raceReqs 2), .wait 100000]

@[irreducible] def refreshedSite : Site :=
  playAll raceEnv (play raceEnv loginSite
    (.request (.login ⟨drawA, [drawC]⟩ ⟨.str "user@example.com", .str "secret"⟩))) refreshEvents

theorem refreshedSite_eq : refreshedSite =
    playAll raceEnv (play raceEnv loginSite
      (.request (.login ⟨drawA, [drawC]⟩ ⟨.str "user@example.com", .str "secret"⟩))) refreshEvents := by
  unfold refreshedSite
  rfl

theorem refreshed_checks : (Sound.check refreshedSite.calls && refreshedSite.calls.all (isRecorded raceTokens) &&
    decide (refreshedSite.store.clock = 7100000) &&
    decide (refreshedAt raceEnv "cccccccccc" refreshWord
      (step raceEnv loginSite.store (.request (.login ⟨drawA, [drawC]⟩ ⟨.str "user@example.com", .str "secret"⟩))) 0
      refreshEvents = 7000000)) = true := by
  decide +kernel

theorem loginSite_started : (run (exec raceEnv) (LoginView.post raceEnv ⟨drawA, [drawC]⟩
    ⟨.str "user@example.com", .str "secret"⟩) loginSite.store).1 =
      .ok (sessionStarted "cccccccccc" refreshWord 7200000) := by
  rfl

theorem session_complete_refreshed : refreshedSite.store.clock = 7100000 ∧
    (run (exec raceEnv) (processRequest "/search/" ⟨some "cccccccccc", none⟩) refreshedSite.store).1 = .ok () ∧
      (run (exec raceEnv) (getUser (some "cccccccccc")) refreshedSite.store).1 = .ok (some raceUser) := by
  have hc := refreshed_checks
  simp only [Bool.and_eq_true, decide_eq_true_eq] at hc
  obtain ⟨⟨⟨hs, hr⟩, hclock⟩, hmoment⟩ := hc
  have hlogin : loginSite = playAll raceEnv (newSite 0 [raceUser]) [] := rfl
  refine ⟨hclock, session_complete (by decide) ?_ ?_ hlogin rfl loginSite_started ?_ refreshedSite_eq
    (hs256_recorded hs hr) ?_ ?_ "/search/" none⟩
  · simp [refreshEvents, raceReqs, inSeconds]
  · simp [refreshEvents, raceReqs, drawnSecret]
  · simp [refreshEvents, raceReqs, logsOut]
  · rw [hclock]
    decide
  · rw [hclock]
    exact lt_of_lt_of_eq (by decide) (congrArg (· + accessAgeMinutes * 60 * 1000) hmoment.symm)

end RefreshedSession

end YoutubeRecords.SessionCompleteness
