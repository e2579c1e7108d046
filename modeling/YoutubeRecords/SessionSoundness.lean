import YoutubeRecords.TokenVerification

namespace YoutubeRecords.SessionSoundness

open CommandProgram ProgramPool PythonBasics AccountStore AccountViews SessionPromises TokenVerification

abbrev Trace := List (Entry Cmd Answer Store)

def DistinctSecrets (reqs : Nat → Request) : Prop :=
  ∀ i j di dj xi xj, reqs i = .login di xi → reqs j = .login dj xj →
    generateRandomKey di.secret = generateRandomKey dj.secret → i = j

/-- Verification under a secret succeeds only for tokens that `createToken`
made with that secret, and gives back the payload they were made from. -/
def Genuine : Trace → Prop
  | [] => True
  | e :: t => Genuine t ∧ ∀ token secret payload, e.call = ⟨.decode token secret, .ok payload⟩ →
      ∃ s, secret = some s ∧ ∃ x ∈ t, x.call = ⟨.encode payload s, token⟩

theorem genuine_of_sound {t : Trace} (h : Sound (t.map Entry.call)) : Genuine t := by
  induction t with
  | nil => trivial
  | cons e t ih =>
    refine ⟨ih h.1, fun token secret payload he => ?_⟩
    obtain ⟨s, hs, hm⟩ := h.2 token secret payload he
    obtain ⟨x, hx, hc⟩ := List.mem_map.mp hm
    exact ⟨s, hs, x, hx, hc⟩

theorem genuine_of_check {t : Trace} (h : Sound.check (t.map Entry.call) = true) : Genuine t :=
  genuine_of_sound (sound_of_check h)

def LogoutExpires (reqs : Nat → Request) (k : String) (e : Entry Cmd Answer Store) : Prop :=
  (∃ cookies, reqs e.pid = .logout cookies) ∧ e.call.cmd = .expire (k ++ "_secret") 0

/-- Since the login's write of the secret there was no logout for its key, and
if the login has set the expiry, then `moment` is not past it. -/
def Unrevoked (reqs : Nat → Request) (login : Nat) (k secret : String) (moment : Nat) :
    Trace → Prop :=
  Since
    (fun e => ¬ LogoutExpires reqs k e ∧
      (e.pid = login → e.call.cmd = .expire (k ++ "_secret") (refreshAgeMinutes * 60) →
        moment ≤ e.before.clock + refreshAgeMinutes * 60 * 1000))
    (fun e => e.pid = login ∧ e.call.cmd = .set (k ++ "_secret") secret)

/-- Every access token a protected request decodes goes back to a login that
checked the password of the payload's user and wrote the secret that was read,
and that login is not revoked at the read. -/
def SessionSound (env : Env) (reqs : Nat → Request) (t : Trace) : Prop :=
  ∀ d older path cookies asks token secret payload, d :: older <:+ t →
    reqs d.pid = .protectedView path cookies asks →
    d.call = ⟨.decode token secret, .ok payload⟩ →
    ∃ k s between read past, cookies.jwt = some k ∧ secret = some s ∧
      older = between ++ read :: past ∧
      own d.pid between = [⟨.get (k ++ "_access"), some token⟩] ∧
      read.pid = d.pid ∧ read.call = ⟨.get (k ++ "_secret"), some s⟩ ∧
      ∃ login draws data user, reqs login = .login draws data ∧
        Verified env data user (own login older) ∧ user.email = payload.id ∧
        Unrevoked reqs login k s read.before.clock past

/-- No login sets an expiry on a secret that another login has written. -/
def ExpiresOwnSecret (reqs : Nat → Request) (e : Entry Cmd Answer Store) : Prop :=
  ∀ draws data k seconds x, reqs e.pid = .login draws data →
    e.call.cmd = .expire (k ++ "_secret") seconds → e.before.live (k ++ "_secret") = some x →
    x.value = generateRandomKey draws.secret

structure Written (reqs : Nat → Request) (k : String) (x : ExpiringStore.Item String) (t : Trace) where
  login : Nat
  draws : Draws
  data : LoginData
  newer : Trace
  write : Entry Cmd Answer Store
  older : Trace
  split : t = newer ++ write :: older
  request : reqs login = .login draws data
  value : x.value = generateRandomKey draws.secret
  pid : write.pid = login
  cmd : write.call.cmd = .set (k ++ "_secret") x.value
  kept : ∀ e ∈ newer, ¬ LogoutExpires reqs k e
  bound : ∀ e ∈ newer, e.pid = login →
    e.call.cmd = .expire (k ++ "_secret") (refreshAgeMinutes * 60) →
    ∃ w, x.expiry = some w ∧ w ≤ e.before.clock + refreshAgeMinutes * 60 * 1000

def SecretOrigin (reqs : Nat → Request) (s : Store) (t : Trace) : Prop :=
  ∀ k x, s.live (k ++ "_secret") = some x → Nonempty (Written reqs k x t)

variable {env : Env} {reqs : Nat → Request} {k : String} {x : ExpiringStore.Item String} {t : Trace}

def Written.cons (w : Written reqs k x t) (e : Entry Cmd Answer Store)
    (he : ∀ n, e.call.cmd ≠ .expire (k ++ "_secret") n) : Written reqs k x (e :: t) :=
  { w with
    newer := e :: w.newer
    split := congrArg (e :: ·) w.split
    kept := List.forall_mem_cons.mpr ⟨fun h => he 0 h.2, w.kept⟩
    bound := List.forall_mem_cons.mpr ⟨fun _ h => absurd h (he _), w.bound⟩ }

theorem Written.own_newer (w : Written reqs k x t) {value : String} {rest : History}
    (h : own w.login t = ⟨.set (k ++ "_secret") value, ()⟩ :: rest) (hr : NoSecretWrite rest) :
    own w.login w.newer = [] := by
  have ho : own w.login t = own w.login w.newer ++ w.write.call :: own w.login w.older := by
    have hw : own w.login (w.write :: w.older) = w.write.call :: own w.login w.older := by
      conv_lhs => rw [← w.pid]
      simp [own, w.pid]
    rw [← hw, ← own_append, ← w.split]
  cases hn : own w.login w.newer with
  | nil => rfl
  | cons y ys =>
    rw [ho, hn, List.cons_append, List.cons.injEq] at h
    have hm : w.write.call ∈ rest := by rw [← h.2]; simp
    exact absurd w.cmd (hr _ hm k x.value)

theorem secretOrigin_set {s : Store} {i : Nat} {key value : String} {r : Unit}
    (h : SecretOrigin reqs s t) (hp : promise env (reqs i) (own i t) ⟨.set key value, r⟩) :
    SecretOrigin reqs (exec env (.set key value) s).2 (⟨i, ⟨.set key value, r⟩, s⟩ :: t) := by
  intro k x hx
  by_cases hk : key = k ++ "_secret"
  · subst hk
    obtain ⟨draws, data, hq, hv⟩ := promise_set_secret hp
    have hx' : x = ⟨value, none⟩ := by
      have hl := (ExpiringStore.live_eq_some.mp hx).1
      simpa [exec, eq_comm] using hl
    subst hx'
    exact ⟨⟨i, draws, data, [], _, t, rfl, hq, hv, rfl, rfl, by simp, by simp⟩⟩
  · rw [live_exec env _ s _ (fun v hc => hk (Cmd.set.inj hc).1) (by simp)] at hx
    obtain ⟨w⟩ := h k x hx
    exact ⟨w.cons _ (by simp)⟩

theorem secretOrigin_expire {s : Store} {i : Nat} {key : String} {n : Nat} {r : Unit}
    (hd : DistinctSecrets reqs) (h : SecretOrigin reqs s t)
    (hp : promise env (reqs i) (own i t) ⟨.expire key n, r⟩)
    (ho : ExpiresOwnSecret reqs ⟨i, ⟨.expire key n, r⟩, s⟩) :
    SecretOrigin reqs (exec env (.expire key n) s).2 (⟨i, ⟨.expire key n, r⟩, s⟩ :: t) := by
  intro k x hx
  by_cases hk : key = k ++ "_secret"
  · subst hk
    obtain ⟨hpos, hexp, y, hy, hv⟩ := ExpiringStore.live_expire_self hx
    obtain ⟨draws, data, rest, hq, rfl, hh, hr⟩ | ⟨cookies, -, rfl⟩ := promise_expire_secret hp
    · obtain ⟨w⟩ := h k y hy
      have hi : i = w.login := hd i w.login draws w.draws data w.data hq w.request
        ((ho draws data k _ y hq rfl hy).symm.trans w.value)
      have hnew := w.own_newer (hi ▸ hh) hr
      have hnone : ∀ e ∈ w.newer, e.pid ≠ w.login := fun e he hpid => by
        have hm : e.call ∈ own w.login w.newer := mem_own.mpr ⟨e, he, hpid, rfl⟩
        rw [hnew] at hm
        exact absurd hm (by simp)
      refine ⟨⟨w.login, w.draws, w.data, ⟨i, ⟨.expire (k ++ "_secret") _, r⟩, s⟩ :: w.newer, w.write,
        w.older, congrArg (_ :: ·) w.split, w.request, ?_, w.pid, ?_, ?_, ?_⟩⟩
      · rw [← hv, w.value]
      · rw [← hv, w.cmd]
      · refine List.forall_mem_cons.mpr ⟨?_, w.kept⟩
        rintro ⟨⟨cookies, hc⟩, -⟩
        rw [hq] at hc
        cases hc
      · refine List.forall_mem_cons.mpr ⟨fun _ _ => ⟨_, hexp, le_rfl⟩, fun e he hpid => ?_⟩
        exact absurd hpid (hnone e he)
    · exact absurd hpos (by simp)
  · rw [live_exec env _ s _ (by simp) (fun m hc => hk (Cmd.expire.inj hc).1)] at hx
    obtain ⟨w⟩ := h k x hx
    exact ⟨w.cons _ (fun m hc => hk (Cmd.expire.inj hc).1)⟩

theorem secretOrigin_call {s : Store} {i : Nat} (hd : DistinctSecrets reqs)
    (h : SecretOrigin reqs s t) (c : Cmd)
    (hp : promise env (reqs i) (own i t) ⟨c, (exec env c s).1⟩)
    (ho : ExpiresOwnSecret reqs ⟨i, ⟨c, (exec env c s).1⟩, s⟩) :
    SecretOrigin reqs (exec env c s).2 (⟨i, ⟨c, (exec env c s).1⟩, s⟩ :: t) := by
  cases c with
  | set key value => exact secretOrigin_set h hp
  | expire key n => exact secretOrigin_expire hd h hp ho
  | get | existsKey | utcnow | encode | decode | findUser | saveUser =>
    intro k x hx
    rw [live_exec env _ s _ (by simp) (by simp)] at hx
    obtain ⟨w⟩ := h k x hx
    exact ⟨w.cons _ (by simp)⟩

def SignedBy (env : Env) (reqs : Nat → Request) (t : Trace) (secret id : String) : Prop :=
  ∃ login draws data user, reqs login = .login draws data ∧ secret = generateRandomKey draws.secret ∧
    Verified env data user (own login t) ∧ user.email = id

theorem SignedBy.cons {secret id : String} (h : SignedBy env reqs t secret id)
    (e : Entry Cmd Answer Store) : SignedBy env reqs (e :: t) secret id := by
  obtain ⟨login, draws, data, user, hq, hs, ⟨hm, hc⟩, hid⟩ := h
  obtain ⟨y, hy, hpid, hcall⟩ := mem_own.mp hm
  have hm' := mem_own.mpr ⟨y, List.mem_cons_of_mem e hy, hpid, hcall⟩
  exact ⟨login, draws, data, user, hq, hs, ⟨hm', hc⟩, hid⟩

structure TokenOrigin (env : Env) (reqs : Nat → Request) (t : Trace) : Prop where
  made : ∀ e ∈ t, ∀ payload secret token, e.call = ⟨.encode payload secret, token⟩ →
    SignedBy env reqs t secret payload.id
  decoded : ∀ e ∈ t, ∀ token secret payload, e.call = ⟨.decode token (some secret), .ok payload⟩ →
    SignedBy env reqs t secret payload.id

theorem signedBy_encode {e : Entry Cmd Answer Store} {payload : Payload} {secret token : String}
    (h : TokenOrigin env reqs t) (hp : promise env (reqs e.pid) (own e.pid t) e.call)
    (he : e.call = ⟨.encode payload secret, token⟩) : SignedBy env reqs t secret payload.id := by
  rw [he] at hp
  obtain ⟨draws, data, user, hq, hs, hv, hid⟩ | ⟨word, claims, hm, hid⟩ := promise_encode hp
  · exact ⟨e.pid, draws, data, user, hq, hs, hv, hid.symm⟩
  · obtain ⟨y, hy, -, hcall⟩ := mem_own.mp hm
    rw [hid]
    exact h.decoded y hy word secret claims hcall

theorem tokenOrigin_cons {e : Entry Cmd Answer Store} (h : TokenOrigin env reqs t)
    (hp : promise env (reqs e.pid) (own e.pid t) e.call) (hg : Genuine (e :: t)) :
    TokenOrigin env reqs (e :: t) := by
  constructor
  · refine List.forall_mem_cons.mpr ⟨fun payload secret token he => ?_, fun y hy payload secret token he => ?_⟩
    · exact (signedBy_encode h hp he).cons e
    · exact (h.made y hy payload secret token he).cons e
  · refine List.forall_mem_cons.mpr ⟨fun token secret payload he => ?_, fun y hy token secret payload he => ?_⟩
    · obtain ⟨s, hs, y, hy, hcall⟩ := hg.2 token (some secret) payload he
      cases hs
      exact (h.made y hy payload secret token hcall).cons e
    · exact (h.decoded y hy token secret payload he).cons e

def SessionOrigins (env : Env) (reqs : Nat → Request) (s : Store) (t : Trace) : Prop :=
  Genuine t → (∀ e ∈ t, ExpiresOwnSecret reqs e) → SecretOrigin reqs s t ∧ TokenOrigin env reqs t

theorem sessionOrigins_of_runs {ok : Pool Cmd Answer Exn Reply Store → Move Exn Nat → Prop} {clock : Nat}
    {users : List User} {P : Pool Cmd Answer Exn Reply Store} (hd : DistinctSecrets reqs)
    (hr : Runs (machine env) ok (start env clock users reqs) P) :
    Chronicle (machine env) (fun i => promise env (reqs i)) (SessionOrigins env reqs) P.store P.trace := by
  refine Chronicle.of_runs (start_lawful env clock users reqs) rfl ?_ ?_ ?_ hr
  · exact fun _ _ => ⟨fun k x hx => absurd hx (by simp [start, Store.live, ExpiringStore.live]),
      ⟨by simp, by simp⟩⟩
  · intro s t i c h hp hg ho
    obtain ⟨ho', hot⟩ := List.forall_mem_cons.mp ho
    obtain ⟨hs, ht⟩ := h hg.1 hot
    exact ⟨secretOrigin_call hd hs c hp ho', tokenOrigin_cons ht hp hg⟩
  · intro ms s t h hg ho
    obtain ⟨hs, ht⟩ := h hg ho
    exact ⟨fun k x hx => hs k x (ExpiringStore.live_of_later hx), ht⟩

theorem Genuine.suffix {t u : Trace} (h : Genuine t) (hu : u <:+ t) : Genuine u := by
  induction t with
  | nil => rwa [List.suffix_nil.mp hu]
  | cons e t ih =>
    obtain rfl | hu := List.suffix_cons_iff.mp hu
    · exact h
    · exact ih h.1 hu

/-- The write behind a secret that is read, seen from the moment of the read. -/
theorem Written.unrevoked (w : Written reqs k x t) {moment : Nat}
    (hm : ∀ v, x.expiry = some v → moment ≤ v) :
    Unrevoked reqs w.login k x.value moment t := by
  refine since_iff.mpr ⟨w.newer, w.write, w.older, w.split, ⟨w.pid, w.cmd⟩, fun e he => ⟨w.kept e he, ?_⟩⟩
  intro hpid hcmd
  obtain ⟨v, hv, hle⟩ := w.bound e he hpid hcmd
  exact (hm v hv).trans hle

theorem session_sound {ok : Pool Cmd Answer Exn Reply Store → Move Exn Nat → Prop} {clock : Nat}
    {users : List User} {P : Pool Cmd Answer Exn Reply Store} (hd : DistinctSecrets reqs)
    (hr : Runs (machine env) ok (start env clock users reqs) P) (hg : Genuine P.trace)
    (ho : ∀ e ∈ P.trace, ExpiresOwnSecret reqs e) : SessionSound env reqs P.trace := by
  have hc : Chronicle (machine env) _ (SessionOrigins env reqs) P.store P.trace := sessionOrigins_of_runs hd hr
  intro d older path cookies asks token secret payload hsuf hreq hcall
  obtain ⟨hI, hp, -⟩ := hc.past d older hsuf
  have hgd := hg.suffix hsuf
  have hold : older <:+ P.trace := (List.suffix_cons d older).trans hsuf
  obtain ⟨s, rfl, y, hy, hmade⟩ := hgd.2 token secret payload hcall
  -- the two reads of this validation are the last two calls of the request
  rw [hreq, hcall] at hp
  obtain ⟨k, rest, hk, hown⟩ := hp
  obtain ⟨newer, ea, o₁, rfl, hn₁, hpa, hca, hown₁⟩ := own_eq_cons hown
  obtain ⟨newer₂, es, past, rfl, hn₂, hps, hcs, -⟩ := own_eq_cons hown₁
  obtain ⟨-, ht⟩ := hI hgd.1 fun e he => ho e (hold.subset he)
  obtain ⟨login, draws, data, user, hq, hsec, hv, hid⟩ := ht.made y hy payload s token hmade
  have hes : es :: past <:+ P.trace :=
    (List.suffix_append_of_suffix ⟨ea :: newer₂, by simp⟩ : es :: past <:+ _).trans hold
  obtain ⟨hIs, -, hres⟩ := hc.past es past hes
  have hpast : past <:+ P.trace := (List.suffix_cons es past).trans hes
  obtain ⟨hso, -⟩ := hIs (hg.suffix hpast) fun e he => ho e (hpast.subset he)
  obtain ⟨x, hx, hxv⟩ : ∃ x, es.before.live (k ++ "_secret") = some x ∧ x.value = s := by
    have hget : (exec env (.get (k ++ "_secret")) es.before).1 = some s := by
      rw [hcs] at hres
      exact hres.symm
    exact ExpiringStore.get_eq_some.mp hget
  obtain ⟨w⟩ := hso k x hx
  have hlogin : w.login = login := hd _ _ w.draws draws w.data data w.request hq
    (by rw [← w.value, hxv, hsec])
  refine ⟨k, s, newer ++ ea :: newer₂, es, past, hk, rfl, by simp, ?_, hps, hcs, login, draws, data, user,
    hq, hv, hid, ?_⟩
  · obtain ⟨i, y, b⟩ := ea
    obtain rfl : i = d.pid := hpa
    rw [own_append, hn₁, own_cons_self, hn₂]
    exact congrArg (fun z => [z]) hca
  · rw [← hlogin, ← hxv]
    exact w.unrevoked (ExpiringStore.live_eq_some.mp hx).2

section RacingLogins

def header : String := "eyJ0eXAiOiJKV1QiLCJhbGciOiJIUzI1NiJ9."

def accessWord : String := header ++
  "eyJpZCI6InVzZXJAZXhhbXBsZS5jb20iLCJleHAiOjE4MDAsImlhdCI6MH0.l1UyqMuUqlEoZsy_AxbRhICd02D3wSr7RxoSCjkXDcY"

def refreshWord : String := header ++
  "eyJpZCI6InVzZXJAZXhhbXBsZS5jb20iLCJleHAiOjcyMDAsImlhdCI6MH0.oyKC8edHQNI-lDIypzci42Uw-ZHzXulfYVtk_KA1hoA"

def raceTokens : List (Payload × String × String) :=
  [(⟨"user@example.com", 1800, 0⟩, "aaaaaaaaaa", accessWord),
   (⟨"user@example.com", 7200, 0⟩, "aaaaaaaaaa", refreshWord),
   (⟨"user@example.com", 1800, 0⟩, "bbbbbbbbbb", header ++
      "eyJpZCI6InVzZXJAZXhhbXBsZS5jb20iLCJleHAiOjE4MDAsImlhdCI6MH0.Ng0ScnJj1ppWUqVAEfhGd045l6ZfWZHPFccD2Lcl9JU"),
   (⟨"user@example.com", 7200, 0⟩, "bbbbbbbbbb", header ++
      "eyJpZCI6InVzZXJAZXhhbXBsZS5jb20iLCJleHAiOjcyMDAsImlhdCI6MH0.I8iMPopb55KMkcMjRIj-l8P3ySsW5Kl4ds02Hd854ww"),
   (⟨"user@example.com", 8800, 7000⟩, "aaaaaaaaaa", header ++
      "eyJpZCI6InVzZXJAZXhhbXBsZS5jb20iLCJleHAiOjg4MDAsImlhdCI6NzAwMH0.GEuI-_Qr19sS3F77J-IdEQ5j2WEwGfNap7hs7crx5pE")]

def raceDigests : List (String × String) :=
  [("0123456789abcdef0123456789abcdefsecret", "0bcca54fe4bc681d31dd1922d1cf4e8e3d4548a4bcca8fd33d47cbec06fd41e0")]

def raceEnv : Env := .recorded raceTokens raceDigests

def raceUser : User :=
  ⟨"user", "user@example.com",
    "0bcca54fe4bc681d31dd1922d1cf4e8e3d4548a4bcca8fd33d47cbec06fd41e0:0123456789abcdef0123456789abcdef"⟩

def drawA : KeyDraw := fun _ => 0

def drawB : KeyDraw := fun _ => 1

def drawC : KeyDraw := fun _ => 2

def drawD : KeyDraw := fun _ => 3

/-- Two logins that draw the same key name, a refresh with the first one's
refresh token, and a search. -/
def raceReqs : Nat → Request
  | 0 => .login ⟨drawA, [drawC]⟩ ⟨.str "user@example.com", .str "secret"⟩
  | 1 => .login ⟨drawB, [drawC]⟩ ⟨.str "user@example.com", .str "secret"⟩
  | 2 => .refresh ⟨some "cccccccccc", some refreshWord⟩
  | 3 => .protectedView "/search/" ⟨some "cccccccccc", none⟩ false
  | _ => .logout ⟨none, none⟩

@[irreducible] def raceRun (moves : List (Move Exn Nat)) : Pool Cmd Answer Exn Reply Store :=
  moves.foldl (fun P m => P.move (machine raceEnv) m) (start raceEnv 0 [raceUser] raceReqs)

theorem runs_raceRun (moves : List (Move Exn Nat)) : Runs (machine raceEnv) (fun _ _ => True)
    (start raceEnv 0 [raceUser] raceReqs) (raceRun moves) := by
  unfold raceRun
  exact runs_moves moves _

/-- Login 1 writes its secret, login 0 writes its own over it and sets the
expiry, and an hour later login 1 sets the expiry once more. -/
def raceMoves : List (Move Exn Nat) :=
  List.flatten [List.replicate 8 (.go 1), List.replicate 8 (.go 0), List.replicate 4 (.go 1),
    List.replicate 7 (.go 0), [.env 3600000, .go 1, .env 3400000], List.replicate 8 (.go 2),
    [.env 300000], List.replicate 3 (.go 3)]

theorem raceReqs_distinct : DistinctSecrets raceReqs := by
  intro i j di dj xi xj hi hj h
  have key : ∀ i d x, raceReqs i = .login d x → i = 0 ∧ generateRandomKey d.secret = "aaaaaaaaaa" ∨
      i = 1 ∧ generateRandomKey d.secret = "bbbbbbbbbb" := by
    intro i d x hi
    match i with
    | 0 => cases hi; exact .inl (by decide)
    | 1 => cases hi; exact .inr (by decide)
    | 2 | 3 | _ + 4 => cases hi
  obtain ⟨rfl, hdi⟩ | ⟨rfl, hdi⟩ := key i di xi hi <;>
    obtain ⟨rfl, hdj⟩ | ⟨rfl, hdj⟩ := key j dj xj hj
  · rfl
  · rw [hdi, hdj] at h; exact absurd h (by decide)
  · rw [hdi, hdj] at h; exact absurd h (by decide)
  · rfl

def expires (key : String) (seconds : Nat) : Cmd → Bool
  | .expire k n => decide (k = key ∧ n = seconds)
  | _ => false

def setsTo (key value : String) : Cmd → Bool
  | .set k v => decide (k = key ∧ v = value)
  | _ => false

def decodes (e : Entry Cmd Answer Store) : Bool :=
  match e.call with
  | ⟨.decode _ _, .ok _⟩ => true
  | _ => false

def raceCheck : Trace → Bool
  | d :: ea :: es :: past =>
    d.pid == 3 && decodes d && ea.pid == 3 && es.pid == 3 && es.before.clock == 7300000 &&
      (match es.call with
        | ⟨.get _, some v⟩ => v == "aaaaaaaaaa"
        | _ => false) &&
      [0, 1].all fun i => !decide (Since
        (fun e => ¬ (e.pid = i ∧ expires "cccccccccc_secret" 7200 e.call.cmd ∧
          e.before.clock + 7200000 < 7300000))
        (fun e => e.pid = i ∧ setsTo "cccccccccc_secret" "aaaaaaaaaa" e.call.cmd) past)
  | _ => false

theorem race_checks : (Sound.check ((raceRun raceMoves).trace.map Entry.call) &&
    raceCheck (raceRun raceMoves).trace) = true := by
  decide +kernel

theorem not_unrevoked {past : Trace} {i : Nat} (h : ¬ Since
      (fun e => ¬ (e.pid = i ∧ expires "cccccccccc_secret" 7200 e.call.cmd ∧
        e.before.clock + 7200000 < 7300000))
      (fun e => e.pid = i ∧ setsTo "cccccccccc_secret" "aaaaaaaaaa" e.call.cmd) past) :
    ¬ Unrevoked raceReqs i "cccccccccc" "aaaaaaaaaa" 7300000 past := by
  intro hu
  refine h (hu.mono ?_ ?_)
  · rintro e ⟨-, hq⟩ ⟨hpid, hx, hlt⟩
    have hc : e.call.cmd = .expire ("cccccccccc" ++ "_secret") (refreshAgeMinutes * 60) := by
      cases hcmd : e.call.cmd with
      | expire key n =>
        rw [hcmd] at hx
        obtain ⟨rfl, rfl⟩ := of_decide_eq_true hx
        rfl
      | _ => rw [hcmd] at hx; cases hx
    have := hq hpid hc
    simp only [refreshAgeMinutes] at this
    omega
  · rintro e ⟨hpid, hc⟩
    exact ⟨hpid, by rw [hc]; decide⟩

theorem session_unsound_when_logins_race : ¬ ∀ (env : Env) (reqs : Nat → Request) (clock : Nat)
    (users : List User) (P : Pool Cmd Answer Exn Reply Store), DistinctSecrets reqs →
    Runs (machine env) (fun _ _ => True) (start env clock users reqs) P → Genuine P.trace →
    SessionSound env reqs P.trace := by
  intro hall
  obtain ⟨hg, hc⟩ := Bool.and_eq_true_iff.mp race_checks
  have hs := hall raceEnv raceReqs 0 [raceUser] (raceRun raceMoves) raceReqs_distinct
    (runs_raceRun raceMoves) (genuine_of_check hg)
  revert hs hc
  generalize (raceRun raceMoves).trace = t
  intro hc hs
  match t with
  | [] | [_] | [_, _] => cases hc
  | d :: ea :: es :: past =>
    simp only [raceCheck, Bool.and_eq_true, beq_iff_eq, List.all_cons, List.all_nil, and_true,
      Bool.not_eq_true', decide_eq_false_iff_not] at hc
    obtain ⟨⟨⟨⟨⟨⟨hd, hdec⟩, hea⟩, hes⟩, hclock⟩, hval⟩, h0, h1⟩ := hc
    obtain ⟨token, secret, payload, hcall⟩ : ∃ token secret payload,
        d.call = ⟨.decode token secret, .ok payload⟩ := by
      simp only [decodes] at hdec
      split at hdec
      · exact ⟨_, _, _, by assumption⟩
      · cases hdec
    have hreq : raceReqs d.pid = .protectedView "/search/" ⟨some "cccccccccc", none⟩ false := by
      rw [hd]; rfl
    obtain ⟨k, s, between, read, past', hk, -, hsplit, hown, -, hread, login, draws, data, user, hlog, -, -, hu⟩ :=
      hs d _ _ _ _ token secret payload List.suffix_rfl hreq hcall
    obtain rfl : "cccccccccc" = k := Option.some.inj hk
    match between with
    | [] => cases hown
    | [x] =>
      simp only [List.cons_append, List.nil_append, List.cons.injEq] at hsplit
      obtain ⟨-, rfl, rfl⟩ := hsplit
      rw [hread] at hval
      obtain rfl : s = "aaaaaaaaaa" := beq_iff_eq.mp hval
      rw [hclock] at hu
      match login with
      | 0 => exact not_unrevoked h0 hu
      | 1 => exact not_unrevoked h1 hu
      | 2 | 3 | _ + 4 => cases hlog
    | x :: y :: rest =>
      simp only [List.cons_append, List.cons.injEq] at hsplit
      obtain ⟨rfl, rfl, -⟩ := hsplit
      simp [own, hea, hes, hd] at hown

def ExpiresOwnSecret.check (reqs : Nat → Request) (e : Entry Cmd Answer Store) : Bool :=
  match e.call.cmd, reqs e.pid with
  | .expire key _, .login draws _ => !("_secret".toList.isSuffixOf key.toList) ||
    (e.before.live key).all (fun x => x.value == generateRandomKey draws.secret)
  | _, _ => true

theorem expiresOwnSecret_of_check {e : Entry Cmd Answer Store}
    (h : ExpiresOwnSecret.check reqs e = true) : ExpiresOwnSecret reqs e := by
  intro draws data k seconds x hreq hcmd hx
  simp only [ExpiresOwnSecret.check, hcmd, hreq, hx] at h
  simpa only [secretKey_isSuffixOf, Bool.not_true, Bool.false_or, Option.all_some, beq_iff_eq] using h

def quietMoves : List (Move Exn Nat) := List.replicate 15 (.go 0) ++ List.replicate 3 (.go 3)

theorem quiet_checks : (Sound.check ((raceRun quietMoves).trace.map Entry.call) &&
    (raceRun quietMoves).trace.all (ExpiresOwnSecret.check raceReqs) &&
    (raceRun quietMoves).trace.any decodes) = true := by
  decide +kernel

theorem session_sound_quiet : (raceRun quietMoves).trace.any decodes = true ∧
    SessionSound raceEnv raceReqs (raceRun quietMoves).trace := by
  have h := quiet_checks
  simp only [Bool.and_eq_true, List.all_eq_true] at h
  exact ⟨h.2, session_sound raceReqs_distinct (runs_raceRun quietMoves) (genuine_of_check h.1.1)
    fun e he => expiresOwnSecret_of_check (h.1.2 e he)⟩

end RacingLogins

end YoutubeRecords.SessionSoundness
