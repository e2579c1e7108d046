import YoutubeRecords.RequestEffects
import YoutubeRecords.SessionSoundness

namespace YoutubeRecords.LoginIdentity

open CommandProgram ProgramPool PythonBasics AccountStore AccountViews SessionPromises RequestEffects
  SessionSoundness

def IssuesTokens (env : Env) (draws : Draws) (data : LoginData) (s : Store) (u : String) : Prop :=
  ∃ keyName refresh expiry payload secret,
    (run (exec env) (LoginView.post env draws data) s).1 = .ok (sessionStarted keyName refresh expiry) ∧
    ⟨.encode payload secret, refresh⟩ ∈ journal (exec env) (LoginView.post env draws data) s [] ∧
    payload.id = u

/-- Whoever gets tokens has named their account and given its password. -/
def NamesAccount (env : Env) (draws : Draws) (data : LoginData) (s : Store) : Prop :=
  ∀ u, IssuesTokens env draws data s u → data.email = .str u ∧
    ∃ user, s.user u = some user ∧ checkPassword env user.password data.password = .ok true

/-- The email address is an operator document, and the first user it matches
has the given password. -/
def OperatorMatches (env : Env) (data : LoginData) (s : Store) : Prop :=
  ∃ fields user, data.email = .obj fields ∧ data.email.truthy ∧ data.password.truthy ∧
    s.users.find? (fun u => matchesId env data.email u.email) = some user ∧
    checkPassword env user.password data.password = .ok true

variable {env : Env} {s : Store}

structure Consistent (env : Env) (data : LoginData) (s t : Store) (h : History) : Prop where
  users : t.users = s.users
  found : ∀ id user, ⟨.findUser id, some user⟩ ∈ h →
    s.users.find? (fun u => matchesId env id u.email) = some user
  made : ∀ payload secret token, ⟨.encode payload secret, token⟩ ∈ h →
    ∃ user, s.users.find? (fun u => matchesId env data.email u.email) = some user ∧
      checkPassword env user.password data.password = .ok true ∧ payload.id = user.email

theorem login_consistent (draws : Draws) (data : LoginData) (s : Store) :
    Consistent env data s (run (exec env) (LoginView.post env draws data) s).2
      (journal (exec env) (LoginView.post env draws data) s []) := by
  refine (login_obeys env draws data).through (I := Consistent env data s)
    ⟨rfl, by simp, by simp⟩ fun t h c hc hp => ⟨?_, ?_, ?_⟩
  · refine (exec_users env c t ?_).trans hc.users
    rintro user rfl
    exact hp.elim
  · intro id user hm
    obtain hx | hm := List.mem_cons.mp hm
    · obtain ⟨hid, hr⟩ := Call.mk.inj hx
      cases hid
      rw [← hc.users]
      exact (eq_of_heq hr).symm
    · exact hc.found id user hm
  · intro payload secret token hm
    obtain hx | hm := List.mem_cons.mp hm
    · cases hx
      obtain ⟨-, user, ⟨hf, hpw⟩, hid⟩ := hp
      exact ⟨user, hc.found _ user hf, hpw, hid⟩
    · exact hc.made payload secret token hm

theorem login_issues {draws : Draws} {data : LoginData} {user : User} {k : String}
    (he : data.email.truthy = true) (hw : data.password.truthy = true)
    (hf : s.users.find? (fun u => matchesId env data.email u.email) = some user)
    (hp : checkPassword env user.password data.password = .ok true)
    (hk : freeName s draws.keys = some k) : IssuesTokens env draws data s user.email := by
  have ht : (data.email.truthy && data.password.truthy) = true := by rw [he, hw]; rfl
  refine ⟨k, refreshToken env s user (generateRandomKey draws.secret), s.clock + refreshAgeMinutes * 60 * 1000,
    ⟨user.email, (s.clock + refreshAgeMinutes * 60 * 1000) / 1000, s.clock / 1000⟩,
    generateRandomKey draws.secret, ?_, ?_, rfl⟩
  · rw [run_login env draws ht]
    simp only [hf, hp, run_startSession, hk]
  · exact (login_makes ht hf hp).2

/-- A login authenticates only the account it names, unless its email address
is an operator document that selects a user with the given password. -/
theorem names_account_iff (env : Env) (draws : Draws) (data : LoginData) (s : Store) :
    NamesAccount env draws data s ↔
      ¬ (OperatorMatches env data s ∧ (freeName s draws.keys).isSome) := by
  constructor
  · rintro h ⟨⟨fields, user, hobj, he, hw, hf, hp⟩, hk⟩
    obtain ⟨k, hk⟩ := Option.isSome_iff_exists.mp hk
    have hstr := (h user.email (login_issues he hw hf hp hk)).1
    rw [hobj] at hstr
    cases hstr
  · intro h u hu
    obtain ⟨keyName, refresh, expiry, payload, secret, hr, hm, rfl⟩ := hu
    obtain ⟨user, hf, hp, hid⟩ := (login_consistent draws data s).made payload secret refresh hm
    have hstart := login_started hf hr
    obtain ⟨he, hw⟩ := Bool.and_eq_true_iff.mp hstart.given
    have hk : (freeName s draws.keys).isSome = true := by rw [hstart.free]; rfl
    have hmatch := List.find?_some hf
    cases hemail : data.email with
    | str text =>
      have htext : text = user.email := by simpa [hemail, matchesId] using hmatch
      refine ⟨by rw [htext, hid], user, ?_, hp⟩
      rw [hid, ← htext, ← find_str env text s, ← hemail]
      exact hf
    | obj fields => exact absurd ⟨⟨fields, user, hemail, he, hw, hf, hp⟩, hk⟩ h
    | null | bool b | num m e | arr items => simp [hemail, matchesId] at hmatch

/-- MongoDB's greater-than operator on strings, next to the recorded calls. -/
def operatorEnv : Env :=
  { raceEnv with
    operators := fun fields id => match fields with
      | [("$gt", .str bound)] => decide (bound < id)
      | _ => false }

def operatorLogin : LoginData := ⟨.obj [("$gt", .str "")], .str "secret"⟩

def oneUser : Store := ⟨0, fun _ => none, [raceUser]⟩

theorem operatorLogin_matches : OperatorMatches operatorEnv operatorLogin oneUser := by
  refine ⟨_, raceUser, rfl, rfl, rfl, ?_, ?_⟩
  · decide +kernel
  · decide +kernel

theorem operator_login_takes_account : ¬ ∀ (env : Env) (draws : Draws) (data : LoginData) (s : Store),
    NamesAccount env draws data s := by
  intro hall
  have h := hall operatorEnv ⟨drawA, [drawC]⟩ operatorLogin oneUser
  obtain ⟨fields, user, hobj, he, hw, hf, hp⟩ := operatorLogin_matches
  have hk : freeName oneUser [drawC] = some (generateRandomKey drawC) := rfl
  have hstr := (h user.email (login_issues he hw hf hp hk)).1
  cases hstr

end YoutubeRecords.LoginIdentity
