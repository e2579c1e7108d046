import YoutubeRecords.AccountViews

namespace YoutubeRecords.SessionPromises

open CommandProgram ProgramPool PythonBasics AccountStore AccountViews

abbrev History := List (Call Cmd Answer)

def start (env : Env) (clock : Nat) (users : List User) (reqs : Nat → Request) :
    Pool Cmd Answer Exn Reply Store :=
  ⟨fun i => (reqs i).program env, ⟨clock, fun _ => none, users⟩, []⟩

def Verified (env : Env) (data : LoginData) (user : User) (h : History) : Prop :=
  ⟨.findUser data.email, some user⟩ ∈ h ∧ checkPassword env user.password data.password = .ok true

def NoSecretWrite (h : History) : Prop :=
  ∀ x ∈ h, ∀ k value, x.cmd ≠ .set (k ++ "_secret") value

def loginPromise (env : Env) (draws : Draws) (data : LoginData) (h : History) :
    Call Cmd Answer → Prop
  | ⟨.set key value, _⟩ => (∃ k, key = k ++ "_access") ∨
      ∃ k user, key = k ++ "_secret" ∧ value = generateRandomKey draws.secret ∧
        Verified env data user h ∧ NoSecretWrite h
  | ⟨.expire key seconds, _⟩ => (∃ k, key = k ++ "_access") ∨
      ∃ k rest, key = k ++ "_secret" ∧ seconds = refreshAgeMinutes * 60 ∧
        h = ⟨.set key (generateRandomKey draws.secret), ()⟩ :: rest ∧ NoSecretWrite rest
  | ⟨.encode payload secret, _⟩ => secret = generateRandomKey draws.secret ∧
      ∃ user, Verified env data user h ∧ payload.id = user.email
  | ⟨.decode _ _, _⟩ | ⟨.saveUser _, _⟩ => False
  | _ => True

def refreshPromise (h : History) : Call Cmd Answer → Prop
  | ⟨.set key _, _⟩ | ⟨.expire key _, _⟩ => ∃ k, key = k ++ "_access"
  | ⟨.encode payload secret, _⟩ =>
      ∃ token claims, ⟨.decode token (some secret), .ok claims⟩ ∈ h ∧ payload.id = claims.id
  | ⟨.saveUser _, _⟩ => False
  | _ => True

def logoutPromise (cookies : Cookies) : Call Cmd Answer → Prop
  | ⟨.expire key seconds, _⟩ => ∃ k, cookies.jwt = some k ∧ seconds = 0 ∧
      (key = k ++ "_secret" ∨ key = k ++ "_access")
  | _ => False

def viewPromise (cookies : Cookies) (h : History) : Call Cmd Answer → Prop
  | ⟨.get _, _⟩ | ⟨.findUser _, _⟩ => True
  | ⟨.decode token secret, _⟩ => ∃ k rest, cookies.jwt = some k ∧
      h = ⟨.get (k ++ "_access"), some token⟩ :: ⟨.get (k ++ "_secret"), secret⟩ :: rest
  | _ => False

def registerPromise (data : RegisterData) (h : History) : Call Cmd Answer → Prop
  | ⟨.findUser id, _⟩ => id = data.email ∧ h = []
  | ⟨.saveUser user, _⟩ => data.email = .str user.email ∧ h = [⟨.findUser data.email, none⟩]
  | _ => False

/-- What each kind of request guarantees about its next call, whatever
answers it has seen so far. -/
def promise (env : Env) : Request → History → Call Cmd Answer → Prop
  | .register _ data => registerPromise data
  | .login draws data => loginPromise env draws data
  | .refresh _ => refreshPromise
  | .logout cookies => fun _ => logoutPromise cookies
  | .protectedView _ cookies _ => viewPromise cookies

/-- A registration that reports success has just saved the user it found
missing. -/
def reported : Request → Reply → History → Prop
  | .register _ data, .response r, h => r.status = 200 →
      ∃ user, data.email = .str user.email ∧ r = registered user ∧
        h = [⟨.saveUser user, true⟩, ⟨.findUser data.email, none⟩]
  | _, _, _ => True

theorem register_obeys (env : Env) (salt : Salt) (data : RegisterData) :
    Obeys (registerPromise data) (fun r h => reported (.register salt data) (.response r) h)
      (RegisterView.post env salt data) [] := by
  unfold RegisterView.post
  split
  · split
    · trivial
    · simp [reported]
    · split
      · rename_i password name email hp hn he
        simp only [ask, perform_bind, obeys_call]
        intro found
        refine ⟨⟨by rw [he], rfl⟩, ?_⟩
        cases found with
        | some user => simp [reported]
        | none =>
          rw [obeys_call]
          intro saved
          refine ⟨⟨he, by rw [he]⟩, ?_⟩
          cases saved with
          | false => simp
          | true => exact fun _ => ⟨⟨name, email, hashPassword env salt password⟩, he, rfl, by rw [he]⟩
      · trivial
  · simp [reported]

theorem logout_obeys (cookies : Cookies) :
    Obeys (fun _ => logoutPromise cookies) (fun _ _ => True) (LogoutView.post cookies) [] := by
  unfold LogoutView.post
  split
  · trivial
  · rename_i k hk
    simp [scheduleExpire, ask, obeys_call, logoutPromise, hk]

theorem createToken_obeys {G : History → Call Cmd Answer → Prop} {Q : String → History → Prop}
    (userId secret : String) (age : Nat) (h : History) (hu : ∀ h t, G h ⟨.utcnow, t⟩)
    (hG : ∀ payload token a b, payload.id = userId →
      G (⟨.utcnow, a⟩ :: ⟨.utcnow, b⟩ :: h) ⟨.encode payload secret, token⟩ ∧
        Q token (⟨.encode payload secret, token⟩ :: ⟨.utcnow, a⟩ :: ⟨.utcnow, b⟩ :: h)) :
    Obeys G Q (createToken userId secret age) h := by
  intro now
  refine ⟨hu _ _, fun issued => ⟨hu _ _, fun token => ?_⟩⟩
  exact hG _ token issued now rfl

theorem setValue_obeys {G : History → Call Cmd Answer → Prop} {Q : Unit → History → Prop}
    (key value : String) (age : Nat) (h : History) (hg : ∀ h r, G h ⟨.get key, r⟩)
    (hs : G h ⟨.set key value, ()⟩) (he : G (⟨.set key value, ()⟩ :: h) ⟨.expire key age, ()⟩)
    (hQ : ∀ r, Q () (⟨.get key, r⟩ :: ⟨.expire key age, ()⟩ :: ⟨.set key value, ()⟩ :: h)) :
    Obeys G Q (setValue key value age) h :=
  fun _ => ⟨hs, fun _ => ⟨he, fun r => ⟨hg _ r, hQ r⟩⟩⟩

theorem refresh_obeys (cookies : Cookies) :
    Obeys refreshPromise (fun _ _ => True) (RefreshToken.post cookies) [] := by
  unfold RefreshToken.post
  split
  · trivial
  · trivial
  · rename_i token k _ _
    simp only [getValue, ask, perform_bind, obeys_call]
    intro secret
    refine ⟨trivial, fun claims => ⟨trivial, ?_⟩⟩
    match claims, secret with
    | .error .expiredSignature, _ | .error .decodeError, _ | .error .typeError, _ => trivial
    | .ok claims, none => trivial
    | .ok claims, some secret =>
      refine Obeys.bind (Q := fun _ _ => True) (createToken_obeys _ _ _ _ (fun _ _ => trivial) ?_) ?_
      · intro payload token' a b hid
        exact ⟨⟨token, claims, by simp, hid⟩, trivial⟩
      · intro access h _
        exact Obeys.bind (Q := fun _ _ => True)
          (setValue_obeys _ _ _ _ (fun _ _ => trivial) ⟨k, rfl⟩ ⟨k, rfl⟩ fun _ => trivial)
          (fun _ _ _ => trivial)

theorem processRequest_obeys (path : String) (cookies : Cookies) (h : History) :
    Obeys (viewPromise cookies) (fun _ _ => True) (processRequest path cookies) h := by
  unfold processRequest
  split
  · trivial
  · split
    · trivial
    · rename_i k hk
      simp only [getValue, ask, perform_bind, obeys_call]
      intro secret
      refine ⟨trivial, fun token => ⟨trivial, ?_⟩⟩
      split
      · trivial
      · rename_i text ht
        obtain ⟨rfl, -⟩ := nonempty_eq_some.mp ht
        intro claims
        refine ⟨⟨k, h, hk, rfl⟩, ?_⟩
        match claims with
        | .error .expiredSignature | .error .decodeError | .error .typeError => trivial
        | .ok claims => trivial

theorem getUser_obeys (cookies : Cookies) (h : History) :
    Obeys (viewPromise cookies) (fun _ _ => True) (getUser cookies.jwt) h := by
  unfold getUser
  split
  · trivial
  · rename_i k hk
    simp only [getValue, ask, perform_bind, obeys_call]
    intro secret
    refine ⟨trivial, fun token => ⟨trivial, ?_⟩⟩
    split
    · rename_i text word hs ht
      obtain ⟨rfl, -⟩ := nonempty_eq_some.mp hs
      obtain ⟨rfl, -⟩ := nonempty_eq_some.mp ht
      intro claims
      refine ⟨⟨k, h, hk, rfl⟩, ?_⟩
      match claims with
      | .error .expiredSignature | .error .decodeError | .error .typeError => trivial
      | .ok claims => exact fun found => ⟨trivial, trivial⟩
    · trivial

/-- What a login knows from the moment the password is accepted until it
writes the secret. -/
def Opening (env : Env) (data : LoginData) (user : User) (h : History) : Prop :=
  Verified env data user h ∧ NoSecretWrite h

theorem Verified.cons {env : Env} {data : LoginData} {user : User} {h : History}
    (hv : Verified env data user h) (x : Call Cmd Answer) : Verified env data user (x :: h) :=
  ⟨List.mem_cons_of_mem x hv.1, hv.2⟩

theorem Opening.cons {env : Env} {data : LoginData} {user : User} {h : History}
    (ho : Opening env data user h) {x : Call Cmd Answer}
    (hx : ∀ k value, x.cmd ≠ .set (k ++ "_secret") value) : Opening env data user (x :: h) :=
  ⟨ho.1.cons x, List.forall_mem_cons.mpr ⟨hx, ho.2⟩⟩

theorem drawKeyName_obeys (env : Env) (draws : Draws) (data : LoginData) (user : User)
    (keys : List KeyDraw) (h : History) (ho : Opening env data user h) :
    Obeys (loginPromise env draws data) (fun _ => Opening env data user) (drawKeyName keys) h := by
  induction keys generalizing h with
  | nil => trivial
  | cons draw keys ih =>
    simp only [drawKeyName, checkForExistence, ask, perform_bind, obeys_call]
    intro taken
    have ho' := ho.cons (x := ⟨.existsKey (generateRandomKey draw ++ "_secret"), taken⟩) (by simp)
    refine ⟨trivial, ?_⟩
    cases taken with
    | true => exact ih _ ho'
    | false => exact ho'

theorem token_obeys (env : Env) (draws : Draws) (data : LoginData) (user : User) (age : Nat)
    (h : History) (ho : Opening env data user h) :
    Obeys (loginPromise env draws data) (fun _ => Opening env data user)
      (createToken user.email (generateRandomKey draws.secret) age) h := by
  refine createToken_obeys _ _ _ _ (fun _ _ => trivial) fun payload token a b hid => ?_
  have h2 := (ho.cons (x := ⟨.utcnow, b⟩) (by simp)).cons (x := ⟨.utcnow, a⟩) (by simp)
  exact ⟨⟨rfl, user, h2.1, hid⟩, h2.cons (by simp)⟩

theorem startSession_obeys (env : Env) (draws : Draws) (data : LoginData) (user : User)
    (h : History) (ho : Opening env data user h) :
    Obeys (loginPromise env draws data) (fun _ _ => True) (startSession draws user) h := by
  refine Obeys.bind (token_obeys env draws data user _ h ho) fun access h ho => ?_
  refine Obeys.bind (token_obeys env draws data user _ h ho) fun refresh h ho => ?_
  refine Obeys.bind (drawKeyName_obeys env draws data user _ h ho) fun k h ho => ?_
  have hne : ∀ (l : String) (token value : String),
      Cmd.set (k ++ "_access") token ≠ .set (l ++ "_secret") value := fun l token value he =>
    accessKey_ne_secretKey k l (Cmd.set.inj he).1
  refine Obeys.bind (Q := fun _ => Opening env data user)
    (setValue_obeys _ _ _ _ (fun _ _ => trivial) (.inl ⟨k, rfl⟩) (.inl ⟨k, rfl⟩) fun r =>
      ((ho.cons (hne · _)).cons (by simp)).cons (by simp)) fun _ h ho => ?_
  refine Obeys.bind (Q := fun _ _ => True)
    (setValue_obeys _ _ _ _ (fun _ _ => trivial) (.inr ⟨k, user, rfl, rfl, ho⟩)
      (.inr ⟨k, h, rfl, rfl, rfl, ho.2⟩) fun _ => trivial) fun _ _ _ => ?_
  exact fun now => ⟨trivial, trivial⟩

theorem loginView_obeys {G : History → Call Cmd Answer → Prop} (env : Env) (draws : Draws) (data : LoginData)
    (hf : ∀ found, G [] ⟨.findUser data.email, found⟩)
    (hs : ∀ user, checkPassword env user.password data.password = .ok true →
      Obeys G (fun _ _ => True) (startSession draws user) [⟨.findUser data.email, some user⟩]) :
    Obeys G (fun _ _ => True) (LoginView.post env draws data) [] := by
  unfold LoginView.post
  split
  · simp only [ask, perform_bind, obeys_call]
    intro found
    refine ⟨hf found, ?_⟩
    cases found with
    | none => trivial
    | some user =>
      cases hc : checkPassword env user.password data.password with
      | error e => simp [hc]
      | ok accepted =>
        cases accepted with
        | false => simp [hc]
        | true =>
          simp only [hc]
          exact hs user hc
  · trivial

theorem login_obeys (env : Env) (draws : Draws) (data : LoginData) :
    Obeys (loginPromise env draws data) (fun _ _ => True) (LoginView.post env draws data) [] :=
  loginView_obeys env draws data (fun _ => trivial) fun user hc =>
    startSession_obeys env draws data user _ ⟨⟨by simp, hc⟩, by simp [NoSecretWrite]⟩

theorem program_obeys (env : Env) (req : Request) :
    Obeys (promise env req) (reported req) (req.program env) [] := by
  cases req with
  | register salt data => exact (register_obeys env salt data).bind fun _ _ h => h
  | login draws data => exact (login_obeys env draws data).bind fun _ _ _ => trivial
  | refresh cookies => exact (refresh_obeys cookies).bind fun _ _ _ => trivial
  | logout cookies => exact (logout_obeys cookies).bind fun _ _ _ => trivial
  | protectedView path cookies asksUser =>
    refine (processRequest_obeys path cookies []).bind fun _ h _ => ?_
    cases asksUser with
    | false => trivial
    | true => exact (getUser_obeys cookies h).bind fun _ _ _ => trivial

theorem promise_set_secret {env : Env} {req : Request} {h : History} {k value : String} {r : Unit}
    (hp : promise env req h ⟨.set (k ++ "_secret") value, r⟩) :
    ∃ draws data, req = .login draws data ∧ value = generateRandomKey draws.secret := by
  cases req with
  | login draws data =>
    obtain ⟨l, hl⟩ | ⟨l, user, hl, hv, -⟩ := hp
    · exact absurd hl.symm (accessKey_ne_secretKey l k)
    · exact ⟨draws, data, rfl, hv⟩
  | refresh cookies =>
    obtain ⟨l, hl⟩ := hp
    exact absurd hl.symm (accessKey_ne_secretKey l k)
  | register salt data | logout cookies | protectedView path cookies asks => exact hp.elim

theorem promise_expire_secret {env : Env} {req : Request} {h : History} {k : String} {n : Nat}
    {r : Unit} (hp : promise env req h ⟨.expire (k ++ "_secret") n, r⟩) :
    (∃ draws data rest, req = .login draws data ∧ n = refreshAgeMinutes * 60 ∧
      h = ⟨.set (k ++ "_secret") (generateRandomKey draws.secret), ()⟩ :: rest ∧ NoSecretWrite rest) ∨
      (∃ cookies, req = .logout cookies ∧ n = 0) := by
  cases req with
  | login draws data =>
    obtain ⟨l, hl⟩ | ⟨l, rest, hl, hn, hh, hw⟩ := hp
    · exact absurd hl.symm (accessKey_ne_secretKey l k)
    · exact .inl ⟨draws, data, rest, rfl, hn, hh, hw⟩
  | refresh cookies =>
    obtain ⟨l, hl⟩ := hp
    exact absurd hl.symm (accessKey_ne_secretKey l k)
  | logout cookies =>
    obtain ⟨l, -, hn, -⟩ := hp
    exact .inr ⟨cookies, rfl, hn⟩
  | register salt data | protectedView path cookies asks => exact hp.elim

/-- A token is made by the login that drew the secret, for the user it has
found, or by a refresh, for the user of the token it has verified. -/
theorem promise_encode {env : Env} {req : Request} {h : History} {payload : Payload} {secret token : String}
    (hp : promise env req h ⟨.encode payload secret, token⟩) :
    (∃ draws data user, req = .login draws data ∧ secret = generateRandomKey draws.secret ∧
      Verified env data user h ∧ payload.id = user.email) ∨
      ∃ word claims, ⟨.decode word (some secret), .ok claims⟩ ∈ h ∧ payload.id = claims.id := by
  cases req with
  | login draws data =>
    obtain ⟨hs, user, hv, hid⟩ := hp
    exact .inl ⟨draws, data, user, rfl, hs, hv, hid⟩
  | refresh cookies => exact .inr hp
  | register salt data | logout cookies | protectedView path cookies asks => exact hp.elim

theorem start_lawful (env : Env) (clock : Nat) (users : List User) (reqs : Nat → Request) :
    Lawful (fun i => promise env (reqs i)) (fun i => reported (reqs i)) (start env clock users reqs) :=
  fun i => program_obeys env (reqs i)

end YoutubeRecords.SessionPromises
