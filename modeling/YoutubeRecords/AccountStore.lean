import YoutubeRecords.ExpiringStore
import YoutubeRecords.KeyedList
import YoutubeRecords.ProgramPool
import YoutubeRecords.PythonBasics

namespace YoutubeRecords.AccountStore

open CommandProgram ProgramPool PythonBasics

/-- A document of the `User` collection; `email` is its primary key. -/
structure User where
  name : String
  email : String
  password : String
  deriving DecidableEq

/-- The claims of a session token, with `exp` and `iat` in whole seconds. -/
structure Payload where
  id : String
  exp : Nat
  iat : Nat
  deriving DecidableEq

/-- The libraries the account views call: PyJWT (`decode` also reads the
clock, in seconds), SHA-256, pymodm's validation of a user, and MongoDB's
evaluation of an operator document against a primary key. -/
structure Env where
  encode : Payload → String → String
  decode : Nat → String → Option String → Except JwtError Payload
  hexdigest : ByteArray → String
  accepts : User → Bool
  operators : List (String × Json) → String → Bool

/-- The filter `{"_id": v}`: equality for a scalar, operator evaluation for a
document whose keys start with a dollar sign. -/
def matchesId (env : Env) : Json → String → Bool
  | .str s, id => decide (s = id)
  | .obj fields, id => fields.all (fun f => f.1.toList.head? == some '$') && env.operators fields id
  | _, _ => false

/-- Libraries that answer from recorded calls: tokens with the payload and the
secret they were made from, and digests with the text they belong to. -/
def Env.recorded (tokens : List (Payload × String × String)) (digests : List (String × String)) :
    Env where
  encode payload secret :=
    ((tokens.find? (fun r => decide (r.1 = payload ∧ r.2.1 = secret))).map (fun r => r.2.2)).getD ""
  decode now token secret :=
    match secret with
    | none => .error .typeError
    | some s =>
      match tokens.find? (fun r => decide (r.2.2 = token ∧ r.2.1 = s)) with
      | none => .error .decodeError
      | some r => if r.1.exp < now then .error .expiredSignature else .ok r.1
  hexdigest bytes := ((digests.find? (fun r => decide (r.1.toUTF8.data = bytes.data))).map Prod.snd).getD ""
  accepts _ := true
  operators _ _ := false

inductive Cmd where
  | set (key value : String)
  | expire (key : String) (seconds : Nat)
  | get (key : String)
  | existsKey (key : String)
  | utcnow
  | encode (payload : Payload) (secret : String)
  | decode (token : String) (secret : Option String)
  | findUser (id : Json)
  | saveUser (user : User)

@[reducible] def Answer : Cmd → Type
  | .set _ _ | .expire _ _ => Unit
  | .get _ => Option String
  | .existsKey _ | .saveUser _ => Bool
  | .utcnow => Nat
  | .encode _ _ => String
  | .decode _ _ => Except JwtError Payload
  | .findUser _ => Option User

/-- Redis, the `User` collection and the wall clock in milliseconds. -/
structure Store where
  clock : Nat
  redis : ExpiringStore.Db String String
  users : List User

/-- Redis counts expiry times in milliseconds. Saving a user replaces the
document with that primary key, or inserts one, unless validation refuses. -/
def exec (env : Env) : (c : Cmd) → Store → Answer c × Store
  | .set key value, s => ((), { s with redis := ExpiringStore.set s.redis key value })
  | .expire key seconds, s =>
    ((), { s with redis := ExpiringStore.expire s.clock s.redis key (seconds * 1000) })
  | .get key, s => (ExpiringStore.get s.clock s.redis key, s)
  | .existsKey key, s => (ExpiringStore.existsKey s.clock s.redis key, s)
  | .utcnow, s => (s.clock, s)
  | .encode payload secret, s => (env.encode payload secret, s)
  | .decode token secret, s => (env.decode (s.clock / 1000) token secret, s)
  | .findUser id, s => (s.users.find? (fun u => matchesId env id u.email), s)
  | .saveUser user, s =>
    if env.accepts user then
      (true, { s with users := KeyedList.upsert User.email user s.users })
    else (false, s)

def machine (env : Env) : Machine Cmd Answer Store Nat where
  exec := exec env
  env ms s := { s with clock := s.clock + ms }

abbrev Prog (α : Type) := Program Cmd Answer Exn α

abbrev ask (c : Cmd) : Prog (Answer c) := perform c

def Store.user (s : Store) (email : String) : Option User := KeyedList.lookup User.email email s.users

def Store.live (s : Store) (key : String) : Option (ExpiringStore.Item String) :=
  ExpiringStore.live s.clock s.redis key

theorem find_str (env : Env) (email : String) (s : Store) :
    s.users.find? (fun u => matchesId env (.str email) u.email) = s.user email := by
  unfold Store.user KeyedList.lookup
  congr 1
  funext u
  simp [matchesId, eq_comm]

theorem exec_redis (env : Env) (c : Cmd) (s : Store) (hs : ∀ key value, c ≠ .set key value)
    (he : ∀ key seconds, c ≠ .expire key seconds) : (exec env c s).2.redis = s.redis := by
  cases c with
  | set key value => exact absurd rfl (hs key value)
  | expire key seconds => exact absurd rfl (he key seconds)
  | saveUser user => by_cases h : env.accepts user <;> simp [exec, h]
  | get | existsKey | utcnow | encode | decode | findUser => rfl

/-- A command that neither writes a key nor sets its expiry leaves it be. -/
theorem live_exec (env : Env) (c : Cmd) (s : Store) (key : String) (hs : ∀ value, c ≠ .set key value)
    (he : ∀ seconds, c ≠ .expire key seconds) : (exec env c s).2.live key = s.live key := by
  cases c with
  | set l value =>
    have hl : key ≠ l := fun h => hs value (by rw [h])
    exact ExpiringStore.live_congr (ExpiringStore.set_of_ne _ hl value)
  | expire l seconds =>
    have hl : key ≠ l := fun h => he seconds (by rw [h])
    exact ExpiringStore.live_congr (ExpiringStore.expire_of_ne _ _ hl _)
  | saveUser user => by_cases h : env.accepts user <;> simp [exec, h, Store.live]
  | get | existsKey | utcnow | encode | decode | findUser => rfl

theorem exec_clock (env : Env) (c : Cmd) (s : Store) : (exec env c s).2.clock = s.clock := by
  cases c with
  | saveUser user => by_cases h : env.accepts user <;> simp [exec, h]
  | set | expire | get | existsKey | utcnow | encode | decode | findUser => rfl

theorem exec_users (env : Env) (c : Cmd) (s : Store) (h : ∀ user, c ≠ .saveUser user) :
    (exec env c s).2.users = s.users := by
  cases c with
  | saveUser user => exact absurd rfl (h user)
  | set | expire | get | existsKey | utcnow | encode | decode | findUser => rfl

theorem user_saveUser (env : Env) (user : User) (s : Store) (email : String) :
    (exec env (.saveUser user) s).2.user email =
      if env.accepts user ∧ user.email = email then some user else s.user email := by
  by_cases ha : env.accepts user
  · by_cases he : user.email = email
    · subst he
      simp [exec, ha, Store.user]
    · simp [exec, ha, he, Store.user, KeyedList.lookup_upsert_of_ne he]
  · simp [exec, ha]

/-- Users are never removed. -/
theorem user_exec_ne_none {env : Env} {c : Cmd} {s : Store} {email : String} (h : s.user email ≠ none) :
    (exec env c s).2.user email ≠ none := by
  cases c with
  | saveUser user =>
    rw [user_saveUser]
    split
    · exact Option.some_ne_none user
    · exact h
  | set | expire | get | existsKey | utcnow | encode | decode | findUser => exact h

theorem secretKey_isSuffixOf (k : String) : "_secret".toList.isSuffixOf (k ++ "_secret").toList = true := by
  rw [List.isSuffixOf_iff_suffix, String.toList_append]
  exact List.suffix_append _ _

theorem accessKey_ne_secretKey (k l : String) : k ++ "_access" ≠ l ++ "_secret" := by
  intro h
  have hl := congrArg String.toList h
  simp only [String.toList_append] at hl
  have := (List.append_inj' hl (by decide)).2
  exact absurd this (by decide)

theorem key_inj {k l suffix : String} : k ++ suffix = l ++ suffix ↔ k = l := by
  constructor
  · intro h
    have hl := congrArg String.toList h
    simp only [String.toList_append] at hl
    exact String.toList_injective (List.append_cancel_right hl)
  · rintro rfl
    rfl

end YoutubeRecords.AccountStore
