import YoutubeRecords.RequestEffects
import YoutubeRecords.SessionSoundness

namespace YoutubeRecords.RefreshGrants

open CommandProgram ProgramPool PythonBasics AccountStore AccountViews SessionPromises RequestEffects
  SessionSoundness

/-- PyJWT: `decode` gives back the payload of a token that was made with the
key, unless it has expired, and tells the reasons of its failures apart.
`expired` is its comparison of the expiry claim with the clock. -/
structure PyJwt (env : Env) (expired : Nat → Nat → Prop) : Prop where
  token_ne : ∀ payload secret, env.encode payload secret ≠ ""
  noKey : ∀ now token, env.decode now token none = .error .typeError
  running : ∀ payload secret now, ¬ expired payload.exp now →
    env.decode now (env.encode payload secret) (some secret) = .ok payload
  past : ∀ payload secret now, expired payload.exp now →
    env.decode now (env.encode payload secret) (some secret) = .error .expiredSignature
  foreign : ∀ token secret now, (∀ payload, token ≠ env.encode payload secret) →
    env.decode now token (some secret) = .error .decodeError

def secretOf (s : Store) (k : String) : Option String := (s.live (k ++ "_secret")).map (·.value)

/-- The refresh cookie is an unexpired token that was made with the live
secret of the jwt cookie's key. -/
structure Grants (env : Env) (expired : Nat → Nat → Prop) (s : Store) (cookies : Cookies) (k secret : String)
    (payload : Payload) : Prop where
  key : cookies.jwt = some k
  key_ne : k ≠ ""
  live : secretOf s k = some secret
  token : cookies.refresh = some (env.encode payload secret)
  unexpired : ¬ expired payload.exp (s.clock / 1000)

structure RenewsAccess (env : Env) (s t : Store) (k secret : String) (payload : Payload) : Prop where
  access : ∃ x exp iat, t.live (k ++ "_access") = some x ∧ x.value = env.encode ⟨payload.id, exp, iat⟩ secret
  redis : ∀ key, key ≠ k ++ "_access" → t.redis key = s.redis key
  users : t.users = s.users
  clock : t.clock = s.clock

def Refused : Except Exn Response → Prop
  | .ok response => response.status = 401
  | .error (.authenticationFailed _) => True
  | .error _ => False

/-- The refresh is granted exactly to the session's own token, and refused
without a trace otherwise. -/
structure GrantsExactly (env : Env) (expired : Nat → Nat → Prop) (s : Store) (cookies : Cookies) : Prop where
  granted : (∃ response, (run (exec env) (RefreshToken.post cookies) s).1 = .ok response ∧ response.status = 201) ↔
    ∃ k secret payload, Grants env expired s cookies k secret payload
  renews : ∀ k secret payload, Grants env expired s cookies k secret payload →
    RenewsAccess env s (run (exec env) (RefreshToken.post cookies) s).2 k secret payload
  refused : (∀ k secret payload, ¬ Grants env expired s cookies k secret payload) →
    Refused (run (exec env) (RefreshToken.post cookies) s).1 ∧ (run (exec env) (RefreshToken.post cookies) s).2 = s

/-- If both cookies are there, then the key has a live secret and the token,
expired or not, was made with it. -/
def OwnToken (env : Env) (s : Store) (cookies : Cookies) : Prop :=
  ∀ k token, nonempty cookies.jwt = some k → nonempty cookies.refresh = some token →
    ∃ secret payload, secretOf s k = some secret ∧ token = env.encode payload secret

variable {env : Env} {expired : Nat → Nat → Prop} {s : Store} {cookies : Cookies} {k secret token : String}
  {payload : Payload}

theorem PyJwt.unexpired (h : PyJwt env expired) {now : Nat} {claims : Payload}
    (hd : env.decode now (env.encode payload secret) (some secret) = .ok claims) : ¬ expired payload.exp now := by
  intro he
  rw [h.past payload secret now he] at hd
  cases hd

theorem Grants.renews (h : PyJwt env expired) (hg : Grants env expired s cookies k secret payload) :
    ∃ x, x.value = secret ∧ Renews env cookies s k x payload := by
  obtain ⟨x, hx, rfl⟩ := Option.map_eq_some_iff.mp hg.live
  exact ⟨x, rfl, nonempty_eq_some.mpr ⟨hg.key, hg.key_ne⟩, hx, _,
    nonempty_eq_some.mpr ⟨hg.token, h.token_ne payload x.value⟩, h.running payload x.value _ hg.unexpired⟩

/-- Without one of its cookies, a refresh is answered with a 401 response. -/
theorem run_refresh_missing (h : nonempty cookies.refresh = none ∨ nonempty cookies.jwt = none) :
    ∃ data, run (exec env) (RefreshToken.post cookies) s = (.ok ⟨401, data, []⟩, s) := by
  unfold RefreshToken.post
  split
  · exact ⟨_, rfl⟩
  · exact ⟨_, rfl⟩
  · next ht hk =>
    obtain h | h := h
    · exact absurd (h.symm.trans ht) (by simp)
    · exact absurd (h.symm.trans hk) (by simp)

theorem renewsAccess_put (s : Store) (k secret : String) (payload : Payload) :
    RenewsAccess env s (put s (k ++ "_access") (env.encode (renewed s payload) secret) (accessAgeMinutes * 60))
      k secret payload := by
  have hpos : 0 < accessAgeMinutes * 60 := by decide
  have hlive := live_put_self s (k ++ "_access") (env.encode (renewed s payload) secret) hpos
  exact ⟨⟨_, _, _, hlive, rfl⟩, fun _ hne => redis_put_of_ne s _ _ hne, rfl, rfl⟩

theorem grantsExactly_granted (h : PyJwt env expired) (hg : Grants env expired s cookies k secret payload) :
    GrantsExactly env expired s cookies := by
  obtain ⟨x, -, hr⟩ := hg.renews h
  have hrun := (run_refresh hr).1
  refine ⟨⟨fun _ => ⟨k, secret, payload, hg⟩, fun _ => ⟨_, by rw [hrun], rfl⟩⟩, ?_, ?_⟩
  · intro k' secret' payload' hg'
    obtain ⟨y, rfl, hr'⟩ := hg'.renews h
    rw [(run_refresh hr').1]
    exact renewsAccess_put s k' y.value payload'
  · intro hn
    exact absurd hg (hn k secret payload)

theorem grantsExactly_refused {result : Except Exn Response}
    (hn : ∀ k secret payload, ¬ Grants env expired s cookies k secret payload)
    (hrun : run (exec env) (RefreshToken.post cookies) s = (result, s)) (hr : Refused result) :
    GrantsExactly env expired s cookies := by
  refine ⟨⟨?_, ?_⟩, fun k secret payload hg => absurd hg (hn k secret payload), fun _ => ?_⟩
  · rintro ⟨response, hres, h201⟩
    rw [hrun] at hres
    obtain rfl : result = .ok response := hres
    exact absurd (h201.symm.trans hr) (by decide)
  · rintro ⟨k, secret, payload, hg⟩
    exact absurd hg (hn k secret payload)
  · rw [hrun]
    exact ⟨hr, rfl⟩

theorem not_grants_missing (h : PyJwt env expired)
    (hm : nonempty cookies.refresh = none ∨ nonempty cookies.jwt = none) :
    ¬ Grants env expired s cookies k secret payload := by
  intro hg
  obtain hm | hm := hm
  · have ht := nonempty_eq_some.mpr ⟨hg.token, h.token_ne payload secret⟩
    exact absurd (hm.symm.trans ht) (by simp)
  · have hk := nonempty_eq_some.mpr ⟨hg.key, hg.key_ne⟩
    exact absurd (hm.symm.trans hk) (by simp)

theorem grantsExactly_of_ownToken (h : PyJwt env expired) (ho : OwnToken env s cookies) :
    GrantsExactly env expired s cookies := by
  by_cases hm : nonempty cookies.refresh = none ∨ nonempty cookies.jwt = none
  · obtain ⟨data, hrun⟩ := run_refresh_missing hm
    exact grantsExactly_refused (fun _ _ _ => not_grants_missing h hm) hrun rfl
  · obtain ⟨ht, hk⟩ := not_or.mp hm
    obtain ⟨token, ht⟩ := Option.ne_none_iff_exists'.mp ht
    obtain ⟨k, hk⟩ := Option.ne_none_iff_exists'.mp hk
    obtain ⟨secret, payload, hsecret, rfl⟩ := ho k token hk ht
    by_cases he : expired payload.exp (s.clock / 1000)
    · have hd := h.past payload secret _ he
      rw [← hsecret] at hd
      refine grantsExactly_refused ?_ (run_refresh_error ht hk hd) trivial
      intro k' secret' payload' hg
      -- whoever is granted the refresh presents the same key and the same token
      obtain ⟨x, hx, hr⟩ := hg.renews h
      obtain ⟨word, hword, hok⟩ := hr.token
      obtain rfl := Option.some.inj (hk.symm.trans hr.key)
      obtain rfl := Option.some.inj (ht.symm.trans hword)
      obtain rfl : secret = x.value := hx ▸ Option.some.inj (hsecret.symm.trans hg.live)
      exact h.unexpired hok he
    · obtain ⟨hjwt, hne⟩ := nonempty_eq_some.mp hk
      exact grantsExactly_granted h ⟨hjwt, hne, hsecret, (nonempty_eq_some.mp ht).1, he⟩

/-- A key without a secret, or a token that was not made with it, ends the
refresh in an error of PyJWT that nobody catches. -/
theorem run_refresh_foreign (h : PyJwt env expired) (ht : nonempty cookies.refresh = some token)
    (hk : nonempty cookies.jwt = some k)
    (hn : ∀ secret payload, secretOf s k = some secret → token ≠ env.encode payload secret) :
    ∃ e, run (exec env) (RefreshToken.post cookies) s = (.error (.jwt e), s) := by
  cases hs : secretOf s k with
  | none =>
    have hd := h.noKey (s.clock / 1000) token
    rw [← hs] at hd
    exact ⟨.typeError, run_refresh_error ht hk hd⟩
  | some secret =>
    have hd := h.foreign token secret (s.clock / 1000) fun payload => hn secret payload hs
    rw [← hs] at hd
    exact ⟨.decodeError, run_refresh_error ht hk hd⟩

theorem ownToken_of_grantsExactly (h : PyJwt env expired) (hx : GrantsExactly env expired s cookies) :
    OwnToken env s cookies := by
  intro k token hk ht
  by_contra hn
  obtain ⟨e, hrun⟩ := run_refresh_foreign h ht hk fun secret payload hs he => hn ⟨secret, payload, hs, he⟩
  have hno : ∀ k secret payload, ¬ Grants env expired s cookies k secret payload := by
    intro k' secret' payload' hg
    obtain ⟨response, hres, -⟩ := hx.granted.mpr ⟨k', secret', payload', hg⟩
    rw [hrun] at hres
    cases hres
  have hr := (hx.refused hno).1
  rw [hrun] at hr
  exact hr

/-- A refresh is granted exactly to the session's own token and refused
otherwise, unless it names no live session or presents a foreign token. -/
theorem grants_exactly_iff (h : PyJwt env expired) (s : Store) (cookies : Cookies) :
    GrantsExactly env expired s cookies ↔ OwnToken env s cookies :=
  ⟨ownToken_of_grantsExactly h, grantsExactly_of_ownToken h⟩

section SignedTokens

def sign (payload : Payload) (secret : String) : String :=
  String.ofList (secret.toList ++ '.' :: (Nat.toDigits 10 payload.exp ++ '.' ::
    (Nat.toDigits 10 payload.iat ++ '.' :: payload.id.toList)))

def claimsOf (token secret : String) : Payload :=
  let exp := token.toList.drop (secret.toList.length + 1)
  let iat := (exp.dropWhile (· ≠ '.')).drop 1
  ⟨String.ofList ((iat.dropWhile (· ≠ '.')).drop 1), Nat.ofDigitChars 10 (exp.takeWhile (· ≠ '.')) 0,
    Nat.ofDigitChars 10 (iat.takeWhile (· ≠ '.')) 0⟩

theorem ne_dot_of_mem_toDigits (n : Nat) : ∀ c ∈ Nat.toDigits 10 n, decide (c ≠ '.') = true := by
  intro c hc
  apply decide_eq_true
  rintro rfl
  exact absurd (Nat.isDigit_of_mem_toDigits (by decide) (by decide) hc) (by decide)

theorem claimsOf_sign (payload : Payload) (secret : String) : claimsOf (sign payload secret) secret = payload := by
  have htake : ∀ n rest, (Nat.toDigits 10 n ++ '.' :: rest).takeWhile (· ≠ '.') = Nat.toDigits 10 n := by
    intro n rest
    rw [List.takeWhile_append_of_pos (ne_dot_of_mem_toDigits n)]
    simp
  have hdrop : ∀ n rest, (Nat.toDigits 10 n ++ '.' :: rest).dropWhile (· ≠ '.') = '.' :: rest := by
    intro n rest
    rw [List.dropWhile_append_of_pos (ne_dot_of_mem_toDigits n)]
    simp
  have hdot : ∀ rest : List Char, (secret.toList ++ '.' :: rest).drop (secret.toList.length + 1) = rest := by
    intro rest
    simp [List.drop_append]
  simp only [claimsOf, sign, String.toList_ofList, hdot, htake, hdrop, List.drop_succ_cons, List.drop_zero,
    Nat.ofDigitChars_ten_toDigits, String.ofList_toList]

theorem sign_ne_empty (payload : Payload) (secret : String) : sign payload secret ≠ "" := by
  intro h
  have hl : '.' ∈ (sign payload secret).toList := by simp [sign]
  rw [h] at hl
  cases hl

def verify (now : Nat) (token : String) : Option String → Except JwtError Payload
  | none => .error .typeError
  | some secret =>
    if sign (claimsOf token secret) secret = token then
      if (claimsOf token secret).exp < now then .error .expiredSignature else .ok (claimsOf token secret)
    else .error .decodeError

def signingEnv : Env := { raceEnv with encode := sign, decode := verify }

theorem signingEnv_pyJwt : PyJwt signingEnv (fun exp now => exp < now) where
  token_ne := sign_ne_empty
  noKey _ _ := rfl
  running payload secret now h := by
    simp only [signingEnv, verify, claimsOf_sign, if_true, if_neg h]
  past payload secret now h := by
    simp only [signingEnv, verify, claimsOf_sign, if_true, if_pos h]
  foreign token secret now h := by
    have hne : sign (claimsOf token secret) secret ≠ token := fun he => h (claimsOf token secret) he.symm
    simp only [signingEnv, verify, if_neg hne]

def ownCookies : Cookies := ⟨some "cccccccccc", some (sign ⟨"user@example.com", 7200, 0⟩ "aaaaaaaaaa")⟩

theorem ownCookies_refresh :
    nonempty ownCookies.refresh = some (sign ⟨"user@example.com", 7200, 0⟩ "aaaaaaaaaa") :=
  nonempty_eq_some.mpr ⟨rfl, sign_ne_empty _ _⟩

@[irreducible] def signedRun (moves : List (Move Exn Nat)) : Pool Cmd Answer Exn Reply Store :=
  moves.foldl (fun P m => P.move (machine signingEnv) m) (start signingEnv 0 [raceUser] raceReqs)

theorem runs_signedRun (moves : List (Move Exn Nat)) : Runs (machine signingEnv) (fun _ _ => True)
    (start signingEnv 0 [raceUser] raceReqs) (signedRun moves) := by
  unfold signedRun
  exact runs_moves moves _

/-- The session has run out by the time its cookies are presented. -/
def lateMoves : List (Move Exn Nat) := List.replicate 15 (.go 0) ++ [.env 7200001]

theorem late_secret : secretOf (signedRun lateMoves).store "cccccccccc" = none := by
  decide +kernel

theorem late_refresh_uncaught : ¬ ∀ (env : Env) (expired : Nat → Nat → Prop) (reqs : Nat → Request) (clock : Nat)
    (users : List User) (P : Pool Cmd Answer Exn Reply Store) (cookies : Cookies), PyJwt env expired →
    Runs (machine env) (fun _ _ => True) (start env clock users reqs) P →
    GrantsExactly env expired P.store cookies := by
  intro hall
  have h := hall signingEnv _ raceReqs 0 [raceUser] _ ownCookies signingEnv_pyJwt (runs_signedRun lateMoves)
  obtain ⟨secret, payload, hs, -⟩ := ownToken_of_grantsExactly signingEnv_pyJwt h "cccccccccc" _
    (nonempty_eq_some.mpr ⟨rfl, by decide⟩) ownCookies_refresh
  rw [late_secret] at hs
  cases hs

def timelyMoves : List (Move Exn Nat) := List.replicate 15 (.go 0) ++ [.env 7000000]

theorem timely_secret : secretOf (signedRun timelyMoves).store "cccccccccc" = some "aaaaaaaaaa" := by
  decide +kernel

theorem grants_exactly_own : OwnToken signingEnv (signedRun timelyMoves).store ownCookies ∧
    GrantsExactly signingEnv (fun exp now => exp < now) (signedRun timelyMoves).store ownCookies := by
  have ho : OwnToken signingEnv (signedRun timelyMoves).store ownCookies := by
    intro k token hk ht
    obtain rfl := Option.some.inj (nonempty_eq_some.mp hk).1
    obtain rfl := Option.some.inj (ownCookies_refresh.symm.trans ht)
    exact ⟨"aaaaaaaaaa", ⟨"user@example.com", 7200, 0⟩, timely_secret, rfl⟩
  exact ⟨ho, (grants_exactly_iff signingEnv_pyJwt _ _).mpr ho⟩

end SignedTokens

end YoutubeRecords.RefreshGrants
