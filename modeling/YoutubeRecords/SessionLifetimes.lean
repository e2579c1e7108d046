import YoutubeRecords.RequestEffects
import YoutubeRecords.SessionSoundness

namespace YoutubeRecords.SessionLifetimes

open CommandProgram PythonBasics AccountStore AccountViews SessionPromises RequestEffects

inductive Event where
  | request (req : Request)
  | wait (ms : Nat)

def step (env : Env) (s : Store) : Event → Store
  | .request req => (run (exec env) (req.program env) s).2
  | .wait ms => { s with clock := s.clock + ms }

/-- The stores that requests executed one at a time lead to, where `ok`
admits each event in the store it meets. -/
inductive Reached (env : Env) (ok : Store → Event → Prop) (s : Store) : Store → Prop
  | start : Reached env ok s s
  | step {t : Store} (h : Reached env ok s t) (e : Event) (hok : ok t e) : Reached env ok s (step env t e)

def fresh (clock : Nat) (users : List User) : Store := ⟨clock, fun _ => none, users⟩

def decodesNone (c : Cmd) : Prop := ∃ token, c = .decode token none

/-- The secret of the key is there, so neither the middleware nor a refresh
verifies a token against nothing. -/
structure HasSecret (env : Env) (s : Store) (k : String) : Prop where
  secret : s.live (k ++ "_secret") ≠ none
  middleware : ∀ path refresh, Never (exec env) decodesNone (processRequest path ⟨some k, refresh⟩) s
  refresh : ∀ token, Never (exec env) decodesNone (RefreshToken.post ⟨some k, token⟩) s

def AccessHasSecret (env : Env) (s : Store) : Prop :=
  ∀ k, s.live (k ++ "_access") ≠ none → HasSecret env s k

/-- A refresh whose token is accepted comes while the secret has at least the
age of an access token to live. -/
def RefreshInTime (env : Env) (s : Store) : Event → Prop
  | .request (.refresh cookies) => ∀ k token x payload, cookies.jwt = some k → cookies.refresh = some token →
      s.live (k ++ "_secret") = some x → env.decode (s.clock / 1000) token (some x.value) = .ok payload →
      ∀ w, x.expiry = some w → s.clock + accessAgeMinutes * 60 * 1000 ≤ w
  | _ => True

/-- The secret of a live access token ends no earlier than the token. -/
def SecretOutlives (s : Store) : Prop :=
  ∀ k x, s.live (k ++ "_access") = some x → ∃ y v w, s.live (k ++ "_secret") = some y ∧
    x.expiry = some v ∧ y.expiry = some w ∧ v ≤ w

def SecretsExpire (s : Store) : Prop :=
  ∀ k x, s.live (k ++ "_secret") = some x → ∃ w, x.expiry = some w

structure Invariant (s : Store) : Prop where
  outlives : SecretOutlives s
  expire : SecretsExpire s

variable {env : Env} {s t : Store}

theorem Invariant.congr (h : Invariant s) (hr : t.redis = s.redis) (hc : t.clock = s.clock) : Invariant t := by
  have hl : ∀ key, t.live key = s.live key := by
    intro key
    rw [Store.live, Store.live, hr, hc]
  constructor
  · intro k x hx
    rw [hl] at hx
    rw [hl]
    exact h.outlives k x hx
  · intro k x hx
    rw [hl] at hx
    exact h.expire k x hx

theorem Invariant.wait (h : Invariant s) (ms : Nat) : Invariant { s with clock := s.clock + ms } := by
  constructor
  · intro k x hx
    obtain ⟨y, v, w, hy, hv, hw, hvw⟩ := h.outlives k x (ExpiringStore.live_of_later hx)
    have hnow := (ExpiringStore.live_eq_some.mp hx).2 v hv
    refine ⟨y, v, w, ?_, hv, hw, hvw⟩
    apply ExpiringStore.live_eq_some.mpr
    refine ⟨(ExpiringStore.live_eq_some.mp hy).1, fun w' hw' => ?_⟩
    rw [hw] at hw'
    obtain rfl := Option.some.inj hw'
    exact hnow.trans hvw
  · intro k x hx
    exact h.expire k x (ExpiringStore.live_of_later hx)

theorem secret_ne_access (k l : String) : k ++ "_secret" ≠ l ++ "_access" :=
  (accessKey_ne_secretKey l k).symm

theorem Invariant.opened (h : Invariant s) (user : User) (secret k : String) :
    Invariant (opened env s user secret k) := by
  have hs : ∀ l, l ≠ k → l ++ "_secret" ≠ k ++ "_secret" := fun l hl he => hl (key_inj.mp he)
  have ha : ∀ l, l ≠ k → l ++ "_access" ≠ k ++ "_access" := fun l hl he => hl (key_inj.mp he)
  have hsecret := live_opened_secret env s user secret k
  have haccess := live_opened_access env s user secret k
  have other : ∀ l, l ≠ k → (RequestEffects.opened env s user secret k).live (l ++ "_secret") =
        s.live (l ++ "_secret") ∧
      (RequestEffects.opened env s user secret k).live (l ++ "_access") = s.live (l ++ "_access") := by
    intro l hl
    constructor
    · exact (live_put_of_ne _ _ _ (hs l hl)).trans (live_put_of_ne _ _ _ (secret_ne_access l k))
    · exact (live_put_of_ne _ _ _ (accessKey_ne_secretKey l k)).trans (live_put_of_ne _ _ _ (ha l hl))
  constructor
  · intro l x hx
    by_cases hl : l = k
    · subst hl
      rw [haccess] at hx
      obtain rfl := Option.some.inj hx
      refine ⟨_, _, _, hsecret, rfl, rfl, ?_⟩
      simp only [accessAgeMinutes, refreshAgeMinutes]
      omega
    · rw [(other l hl).2] at hx
      rw [(other l hl).1]
      exact h.outlives l x hx
  · intro l x hx
    by_cases hl : l = k
    · subst hl
      rw [hsecret] at hx
      obtain rfl := Option.some.inj hx
      exact ⟨_, rfl⟩
    · rw [(other l hl).1] at hx
      exact h.expire l x hx

theorem Invariant.renewed (h : Invariant s) {k : String} {x : ExpiringStore.Item String}
    (hx : s.live (k ++ "_secret") = some x) (access : String)
    (hw : ∀ w, x.expiry = some w → s.clock + accessAgeMinutes * 60 * 1000 ≤ w) :
    Invariant (put s (k ++ "_access") access (accessAgeMinutes * 60)) := by
  have hsecret : ∀ l, (put s (k ++ "_access") access (accessAgeMinutes * 60)).live (l ++ "_secret") =
      s.live (l ++ "_secret") := fun l => live_put_of_ne _ _ _ (secret_ne_access l k)
  constructor
  · intro l y hy
    rw [hsecret]
    by_cases hl : l = k
    · subst hl
      rw [live_put_self _ _ _ (by decide)] at hy
      obtain rfl := Option.some.inj hy
      obtain ⟨w, hxw⟩ := h.expire l x hx
      exact ⟨x, _, w, hx, rfl, hxw, hw w hxw⟩
    · rw [live_put_of_ne _ _ _ (fun he => hl (key_inj.mp he))] at hy
      exact h.outlives l y hy
  · intro l y hy
    rw [hsecret] at hy
    exact h.expire l y hy

theorem Invariant.closed (h : Invariant s) (k : String) :
    Invariant (drop (drop s (k ++ "_secret")) (k ++ "_access")) := by
  constructor
  · intro l x hx
    by_cases hl : l = k
    · subst hl
      rw [live_drop_self] at hx
      cases hx
    · rw [live_drop_of_ne _ (fun he => hl (key_inj.mp he)),
        live_drop_of_ne _ (accessKey_ne_secretKey l k)] at hx
      rw [live_drop_of_ne _ (secret_ne_access l k), live_drop_of_ne _ (fun he => hl (key_inj.mp he))]
      exact h.outlives l x hx
  · intro l x hx
    rw [live_drop_of_ne _ (secret_ne_access l k)] at hx
    by_cases hl : l = k
    · subst hl
      rw [live_drop_self] at hx
      cases hx
    · rw [live_drop_of_ne _ (fun he => hl (key_inj.mp he))] at hx
      exact h.expire l x hx

theorem Invariant.request (h : Invariant s) (req : Request) (hok : RefreshInTime env s (.request req)) :
    Invariant (run (exec env) (req.program env) s).2 := by
  cases req with
  | register salt data =>
    obtain ⟨hr, hc⟩ := redis_of_promise env (.register salt data) s
      (fun _ _ _ _ => ⟨id, id⟩)
    exact h.congr hr hc
  | protectedView path cookies asks =>
    obtain ⟨hr, hc⟩ := redis_of_promise env (.protectedView path cookies asks) s
      (fun _ _ _ _ => ⟨id, id⟩)
    exact h.congr hr hc
  | login draws data =>
    obtain he | ⟨user, k, -, he⟩ := login_store env draws data s
    · rwa [he]
    · rw [he]
      exact h.opened user _ k
  | refresh cookies =>
    obtain he | ⟨k, x, payload, hr⟩ := refresh_store env cookies s
    · rwa [he]
    · obtain ⟨token, ht, hd⟩ := hr.token
      rw [(refresh_renews hr).1]
      exact h.renewed hr.secret _
        (hok k token x payload (nonempty_eq_some.mp hr.key).1 (nonempty_eq_some.mp ht).1 hr.secret hd)
  | logout cookies =>
    obtain he | ⟨k, -, he⟩ := logout_store env cookies s
    · rwa [he]
    · rw [he]
      exact h.closed k

theorem invariant_reached {clock : Nat} {users : List User}
    (h : Reached env (RefreshInTime env) (fresh clock users) s) : Invariant s := by
  induction h with
  | start =>
    have hl : ∀ key, (fresh clock users).live key = none := fun _ => rfl
    exact ⟨fun k x hx => by simp [hl] at hx, fun k x hx => by simp [hl] at hx⟩
  | step _ e hok ih =>
    cases e with
    | request req => exact ih.request req hok
    | wait ms => exact ih.wait ms

theorem processRequest_never {k : String} (h : s.live (k ++ "_secret") ≠ none) (path : String)
    (refresh : Option String) : Never (exec env) decodesNone (processRequest path ⟨some k, refresh⟩) s := by
  obtain ⟨x, hx⟩ := Option.ne_none_iff_exists'.mp h
  unfold processRequest
  split
  · trivial
  · simp only [getValue, ask, perform_bind, never_call, get_live]
    refine ⟨by simp [decodesNone], by simp [decodesNone], ?_⟩
    split
    · trivial
    · rw [never_call]
      refine ⟨by simp [decodesNone, hx], ?_⟩
      split <;> trivial

theorem refresh_never {k : String} (h : s.live (k ++ "_secret") ≠ none) (token : Option String) :
    Never (exec env) decodesNone (RefreshToken.post ⟨some k, token⟩) s := by
  obtain ⟨x, hx⟩ := Option.ne_none_iff_exists'.mp h
  unfold RefreshToken.post
  split
  · trivial
  · trivial
  · next token' k' _ hk =>
    obtain rfl : k = k' := Option.some.inj (nonempty_eq_some.mp hk).1
    simp only [getValue, ask, perform_bind, never_call, get_live, hx, Option.map_some]
    refine ⟨by simp [decodesNone], by simp [decodesNone], ?_⟩
    split
    · trivial
    · trivial
    · simp [createToken, setValue, ask, never_call, decodesNone, Never]

theorem access_has_secret {clock : Nat} {users : List User}
    (h : Reached env (RefreshInTime env) (fresh clock users) s) : AccessHasSecret env s := by
  intro k hk
  obtain ⟨x, hx⟩ := Option.ne_none_iff_exists'.mp hk
  obtain ⟨y, v, w, hy, -⟩ := (invariant_reached h).outlives k x hx
  have hs : s.live (k ++ "_secret") ≠ none := by simp [hy]
  exact ⟨hs, processRequest_never hs, refresh_never hs⟩

section LateRefresh

open SessionSoundness (header accessWord refreshWord raceDigests raceUser drawA drawC)

def siteEnv : Env := .recorded
  [(⟨"user@example.com", 1800, 0⟩, "aaaaaaaaaa", accessWord),
   (⟨"user@example.com", 7200, 0⟩, "aaaaaaaaaa", refreshWord),
   (⟨"user@example.com", 3600, 1800⟩, "aaaaaaaaaa", header ++
      "eyJpZCI6InVzZXJAZXhhbXBsZS5jb20iLCJleHAiOjM2MDAsImlhdCI6MTgwMH0.VdMCW28wpTWMTpVeGQaAr6dpfep7E-1Fr0k962D8ckc"),
   (⟨"user@example.com", 8900, 7100⟩, "aaaaaaaaaa", header ++
      "eyJpZCI6InVzZXJAZXhhbXBsZS5jb20iLCJleHAiOjg5MDAsImlhdCI6NzEwMH0.Absp2CBigQws08ZzNeos_zDkEiIZwnpCqXQde4ECpJs")]
  raceDigests

def siteStart : Store := fresh 0 [raceUser]

def logIn : Event :=
  .request (.login ⟨drawA, [drawC]⟩ ⟨.str "user@example.com", .str "secret"⟩)

def renew : Event := .request (.refresh ⟨some "cccccccccc", some refreshWord⟩)

/-- The store after some events, newest first. -/
def after : List Event → Store
  | [] => siteStart
  | e :: events => step siteEnv (after events) e

theorem reached_after {ok : Store → Event → Prop} {events : List Event} (e : Event)
    (h : Reached siteEnv ok siteStart (after events)) (hok : ok (after events) e) :
    Reached siteEnv ok siteStart (after (e :: events)) := by
  rw [after]
  exact .step h e hok

theorem reached_late :
    Reached siteEnv (fun _ _ => True) siteStart (after [.wait 200000, renew, .wait 7100000, logIn]) := by
  have h1 : Reached siteEnv (fun _ _ => True) siteStart (after [logIn]) := reached_after logIn .start trivial
  have h2 := reached_after (.wait 7100000) h1 trivial
  have h3 := reached_after renew h2 trivial
  exact reached_after (.wait 200000) h3 trivial

theorem late_live :
    ((after [.wait 200000, renew, .wait 7100000, logIn]).live ("cccccccccc" ++ "_access")).isSome ∧
      ((after [.wait 200000, renew, .wait 7100000, logIn]).live ("cccccccccc" ++ "_secret")).isNone := by
  decide +kernel

theorem access_outlives_secret : ¬ ∀ (env : Env) (clock : Nat) (users : List User) (s : Store),
    Reached env (fun _ _ => True) (fresh clock users) s → AccessHasSecret env s := by
  intro hall
  have h := hall siteEnv 0 _ _ reached_late "cccccccccc" (Option.isSome_iff_ne_none.mp late_live.1)
  exact h.secret (Option.isNone_iff_eq_none.mp late_live.2)

def RefreshInTime.check (s : Store) (k : String) : Bool :=
  (s.live (k ++ "_secret")).all fun x => x.expiry.all fun w =>
    decide (s.clock + accessAgeMinutes * 60 * 1000 ≤ w)

theorem refreshInTime_of_check {k : String} (h : RefreshInTime.check s k = true) (token : Option String) :
    RefreshInTime env s (.request (.refresh ⟨some k, token⟩)) := by
  intro l token' x payload hk ht hx hd w hw
  obtain rfl : k = l := Option.some.inj hk
  rw [RefreshInTime.check, hx, Option.all_some, hw, Option.all_some] at h
  exact of_decide_eq_true h

theorem in_time_live : RefreshInTime.check (after [.wait 1800000, logIn]) "cccccccccc" ∧
    ((after [renew, .wait 1800000, logIn]).live ("cccccccccc" ++ "_access")).isSome := by
  decide +kernel

theorem access_has_secret_in_time :
    ((after [renew, .wait 1800000, logIn]).live ("cccccccccc" ++ "_access")).isSome ∧
      AccessHasSecret siteEnv (after [renew, .wait 1800000, logIn]) := by
  have h1 : Reached siteEnv (RefreshInTime siteEnv) siteStart (after [logIn]) :=
    reached_after logIn .start trivial
  have h2 := reached_after (.wait 1800000) h1 trivial
  exact ⟨in_time_live.2, access_has_secret (reached_after renew h2 (refreshInTime_of_check in_time_live.1 _))⟩

end LateRefresh

end YoutubeRecords.SessionLifetimes
