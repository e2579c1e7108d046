import YoutubeRecords.Outcomes
import YoutubeRecords.RequestEffects
import YoutubeRecords.SessionSoundness

namespace YoutubeRecords.MiddlewareAgreement

open CommandProgram ProgramPool PythonBasics AccountStore AccountViews SessionPromises SessionSoundness
  TokenVerification Outcomes

def exempt (path : String) : Prop := path ∈ authenticationPaths ∨ "admin".toList <:+: path.toList

def verification (k token : String) (secret : Option String) (payload : Payload) : History :=
  [⟨.decode token secret, .ok payload⟩, ⟨.get (k ++ "_access"), some token⟩, ⟨.get (k ++ "_secret"), secret⟩]

/-- The request has passed the middleware, which found this payload. -/
def Passed (k : String) (secret : Option String) (payload : Payload) (h : History) : Prop :=
  ∃ token, verification k token secret payload <:+ h

/-- The view runs as the user `u`, or the answer is an authentication error. -/
def Settled (u : String) : Except Exn Reply → Prop
  | .ok (.userView (some user)) => user.email = u
  | .error (.authenticationFailed _) => True
  | _ => False

def AsksUser (reqs : Nat → Request) (i : Nat) (k : String) : Prop :=
  ∃ path cookies, reqs i = .protectedView path cookies true ∧ ¬ exempt path ∧ cookies.jwt = some k

/-- Every request that has passed the middleware and has ended has ended as
the user of the payload, or with an authentication error. -/
def ViewsAgree (reqs : Nat → Request) (P : Pool Cmd Answer Exn Reply Store) : Prop :=
  ∀ i k secret payload, AsksUser reqs i k → Passed k secret payload (own i P.trace) →
    (∀ reply, P.procs i = .ret reply → Settled payload.id (.ok reply)) ∧
      ∀ e, P.procs i = .raise e → Settled payload.id (.error e)

def Made (t : Trace) (secret : Option String) (id token : String) : Prop :=
  ∃ s claims, secret = some s ∧ claims.id = id ∧ ⟨.encode claims s, token⟩ ∈ t.map Entry.call

structure Kept (k : String) (secret : Option String) (id : String) (e : Entry Cmd Answer Store) (older : Trace) :
    Prop where
  secretRead : e.call.cmd = .get (k ++ "_secret") → (e.before.live (k ++ "_secret")).map (·.value) = secret
  accessRead : e.call.cmd = .get (k ++ "_access") →
    ∃ x, e.before.live (k ++ "_access") = some x ∧ Made older secret id x.value
  unexpired : ∀ token s claims, e.call.cmd = .decode token secret → secret = some s → claims.id = id →
    ⟨.encode claims s, token⟩ ∈ older.map Entry.call → e.before.clock / 1000 < claims.exp

/-- While a request is in its view, its session stays as the middleware has
found it, up to a refresh of the access token. -/
def SessionKept (reqs : Nat → Request) (t : Trace) : Prop :=
  ∀ e older, e :: older <:+ t → ∀ k secret payload, AsksUser reqs e.pid k →
    Passed k secret payload (own e.pid older) → Kept k secret payload.id e older

variable {k : String} {secret : Option String} {payload : Payload} {h : History}

theorem Passed.suffix {h' : History} (hp : Passed k secret payload h) (hs : h <:+ h') :
    Passed k secret payload h' := by
  obtain ⟨token, ht⟩ := hp
  exact ⟨token, ht.trans hs⟩

theorem Passed.cons (hp : Passed k secret payload h) (x : Call Cmd Answer) : Passed k secret payload (x :: h) :=
  hp.suffix (List.suffix_cons x h)

theorem Passed.unique {k' : String} {secret' : Option String} {payload' : Payload} (hp : Passed k secret payload h)
    (hp' : Passed k' secret' payload' h) : payload' = payload := by
  obtain ⟨token, ht⟩ := hp
  obtain ⟨token', ht'⟩ := hp'
  have hs : verification k token secret payload <:+ verification k' token' secret' payload' :=
    List.suffix_of_suffix_length_le ht ht' le_rfl
  have he := (List.cons.inj (hs.eq_of_length rfl)).1
  cases he
  rfl

structure GoodAnswer (k : String) (secret : Option String) (id : String) (x : Call Cmd Answer) : Prop where
  secretRead : ∀ r, x = ⟨.get (k ++ "_secret"), r⟩ → r = secret ∧ ∃ s, secret = some s ∧ s ≠ ""
  accessRead : ∀ r, x = ⟨.get (k ++ "_access"), r⟩ → ∃ token, r = some token ∧ token ≠ ""
  decoded : ∀ token r, x = ⟨.decode token secret, r⟩ → ∃ claims, r = .ok claims ∧ claims.id = id
  found : ∀ r, x = ⟨.findUser (.str id), r⟩ → ∃ user, r = some user ∧ user.email = id

def goodAnswers (k : String) (h : History) (x : Call Cmd Answer) : Prop :=
  ∀ secret payload, Passed k secret payload h → GoodAnswer k secret payload.id x

def settled (k : String) (result : Except Exn Reply) (h : History) : Prop :=
  ∀ secret payload, Passed k secret payload h → Settled payload.id result

theorem getUser_ends (hp : Passed k secret payload h) :
    Ends (goodAnswers k) (settled k) (getUser (some k) >>= fun o => .ret (.userView o)) h := by
  simp only [getUser, getValue, ask, perform_bind]
  intro r hr
  obtain ⟨rfl, s, rfl, hs⟩ := (hr secret payload hp).secretRead r rfl
  intro r hr
  obtain ⟨token, rfl, ht⟩ := (hr _ payload (hp.cons _)).accessRead r rfl
  simp only [nonempty_eq_some.mpr ⟨rfl, hs⟩, nonempty_eq_some.mpr ⟨rfl, ht⟩]
  intro r hr
  obtain ⟨claims, rfl, hid⟩ := (hr _ payload ((hp.cons _).cons _)).decoded token r rfl
  intro r hr
  obtain ⟨user, rfl, hu⟩ := (hr _ payload (((hp.cons _).cons _).cons _)).found r (by rw [hid])
  intro secret' payload' hp'
  rw [((((hp.cons _).cons _).cons _).cons _).unique hp']
  exact hu

theorem not_passed {a b c : Call Cmd Answer} (ha : ∀ token secret payload, a ≠ ⟨.decode token secret, .ok payload⟩) :
    ¬ Passed k secret payload [a, b, c] := by
  rintro ⟨token, ht⟩
  have he := (List.cons.inj (ht.eq_of_length rfl)).1
  exact ha _ _ _ he.symm

theorem program_ends {path : String} {cookies : Cookies} (env : Env) (hx : ¬ exempt path)
    (hk : cookies.jwt = some k) :
    Ends (goodAnswers k) (settled k) ((Request.protectedView path cookies true).program env) [] := by
  have hpath : ¬ (path ∈ authenticationPaths ∨ "admin".toList <:+: path.toList) := hx
  simp only [Request.program, processRequest, if_neg hpath, hk, getValue, ask, perform_bind, call_bind, if_true]
  intro secret _ token _
  cases ht : nonempty token with
  | none =>
    simp only [ht]
    exact fun _ _ _ => trivial
  | some text =>
    obtain rfl : token = some text := (nonempty_eq_some.mp ht).1
    simp only [ht]
    intro claims _
    cases claims with
    | error e =>
      cases e with
      | expiredSignature => exact fun _ _ _ => trivial
      | decodeError | typeError => exact fun _ _ hp => absurd hp (not_passed (by simp))
    | ok payload => exact getUser_ends ⟨text, List.suffix_rfl⟩

variable {env : Env} {reqs : Nat → Request}

def UsersStay (s : Store) (t : Trace) : Prop :=
  ∀ e ∈ t, ∀ id user, e.call = ⟨.findUser id, some user⟩ → s.user user.email ≠ none

theorem user_of_find {s : Store} {p : User → Bool} {user : User} (h : s.users.find? p = some user) :
    s.user user.email ≠ none := by
  rw [Store.user, Ne, KeyedList.lookup_eq_none, not_not]
  exact List.mem_map_of_mem (List.mem_of_find?_eq_some h)

theorem usersStay_call {s : Store} {t : Trace} (h : UsersStay s t) (i : Nat) (c : Cmd) :
    UsersStay (exec env c s).2 (⟨i, ⟨c, (exec env c s).1⟩, s⟩ :: t) := by
  intro e he id user hc
  obtain rfl | he := List.mem_cons.mp he
  · obtain ⟨rfl, hr⟩ := Call.mk.inj hc
    exact user_of_find (eq_of_heq hr)
  · exact user_exec_ne_none (h e he id user hc)

def TokensAndUsers (env : Env) (reqs : Nat → Request) (s : Store) (t : Trace) : Prop :=
  (Genuine t → TokenOrigin env reqs t) ∧ UsersStay s t

theorem tokensAndUsers_of_runs {ok : Pool Cmd Answer Exn Reply Store → Move Exn Nat → Prop} {clock : Nat}
    {users : List User} {P : Pool Cmd Answer Exn Reply Store}
    (hr : Runs (machine env) ok (start env clock users reqs) P) :
    Chronicle (machine env) (fun i => promise env (reqs i)) (TokensAndUsers env reqs) P.store P.trace := by
  refine Chronicle.of_runs (start_lawful env clock users reqs) rfl ⟨fun _ => ⟨by simp, by simp⟩, by simp [UsersStay]⟩
    ?_ ?_ hr
  · intro s t i c h hp
    refine ⟨fun hg => tokenOrigin_cons (h.1 hg.1) hp hg, usersStay_call h.2 i c⟩
  · intro ms s t h
    exact h

section Answers

variable {clock : Nat} {users : List User} {P : Pool Cmd Answer Exn Reply Store} {e : Entry Cmd Answer Store}
  {older : Trace}

theorem mem_calls_of_own {i : Nat} {x : Call Cmd Answer} {t : Trace} (h : x ∈ own i t) : x ∈ t.map Entry.call := by
  obtain ⟨e, he, -, hc⟩ := mem_own.mp h
  exact List.mem_map.mpr ⟨e, he, hc⟩

/-- The secret behind a verification was drawn by a login of the payload's
user, who is still there. -/
theorem signer {i : Nat} {s : Store} (hs : Sound (older.map Entry.call)) (hI : TokensAndUsers env reqs s older)
    (hp : Passed k secret payload (own i older)) :
    ∃ text, secret = some text ∧ text ≠ "" ∧ s.user payload.id ≠ none := by
  obtain ⟨token, ht⟩ := hp
  have hm := mem_calls_of_own (ht.subset List.mem_cons_self)
  obtain ⟨text, hsec, he⟩ := hs.of_mem hm
  obtain ⟨y, hy, hcall⟩ := List.mem_map.mp he
  obtain ⟨login, draws, data, user, -, hdraw, ⟨hfound, -⟩, hid⟩ :=
    (hI.1 (genuine_of_sound hs)).made y hy _ _ _ hcall
  obtain ⟨z, hz, -, hzc⟩ := mem_own.mp hfound
  refine ⟨text, hsec, hdraw ▸ generateRandomKey_ne_empty _, ?_⟩
  rw [← hid]
  exact hI.2 z hz _ user hzc

theorem Made.mono {t u : Trace} {id token : String} (h : Made t secret id token) (ht : t ⊆ u) :
    Made u secret id token := by
  obtain ⟨s, claims, hs, hid, hm⟩ := h
  exact ⟨s, claims, hs, hid, List.map_subset _ ht hm⟩

/-- A token that is verified in the view was read there, after the middleware
had read its own. -/
theorem made_of_decode {token : String} {r : Except JwtError Payload}
    (hch : Chronicle (machine env) (fun i => promise env (reqs i)) (TokensAndUsers env reqs) P.store P.trace)
    (hkept : SessionKept reqs P.trace) (he : e :: older <:+ P.trace) (hk : AsksUser reqs e.pid k)
    (hp : Passed k secret payload (own e.pid older)) (hc : e.call = ⟨.decode token secret, r⟩) :
    Made older secret payload.id token := by
  obtain ⟨-, hpromise, -⟩ := hch.past e older he
  obtain ⟨path, cookies, hreq, hx, hjwt⟩ := id hk
  rw [hreq, hc] at hpromise
  obtain ⟨l, rest, hl, hown⟩ := hpromise
  obtain rfl : k = l := Option.some.inj (hjwt.symm.trans hl)
  have hp' : Passed k secret payload (⟨.get (k ++ "_secret"), secret⟩ :: rest) := by
    obtain ⟨word, hw⟩ := hp
    rw [hown] at hw
    refine ⟨word, (List.suffix_cons_iff.mp hw).resolve_left fun heq => ?_⟩
    cases (List.cons.inj heq).1
  obtain ⟨newer, a, past, rfl, -, hpid, hacall, hpast⟩ := own_eq_cons hown
  have ha : a :: past <:+ P.trace :=
    (List.suffix_append newer (a :: past)).trans ((List.suffix_cons e _).trans he)
  obtain ⟨x, hx, hmade⟩ := (hkept a past ha k secret payload (hpid ▸ hk) (by rw [hpid, hpast]; exact hp')).accessRead
    (by rw [hacall])
  have hvalue : token = x.value := by
    obtain ⟨-, -, hres⟩ := hch.past a past ha
    rw [hacall] at hres
    have hget : some token = (a.before.live (k ++ "_access")).map (·.value) := hres
    rw [hx] at hget
    exact Option.some.inj hget
  rw [hvalue]
  exact hmade.mono fun y hy => by simp [hy]

/-- The answers a request gets in its view, when its session is kept. -/
theorem goodAnswer_of_kept (hr : Runs (machine env) Unstopped (start env clock users reqs) P)
    (hh : Hs256 env (P.trace.map Entry.call)) (hkept : SessionKept reqs P.trace) (he : e :: older <:+ P.trace)
    (hk : AsksUser reqs e.pid k) (hp : Passed k secret payload (own e.pid older)) :
    GoodAnswer k secret payload.id e.call := by
  have hch : Chronicle (machine env) _ (TokensAndUsers env reqs) P.store P.trace := tokensAndUsers_of_runs hr
  obtain ⟨hI, -, hres⟩ := hch.past e older he
  have hcalls : older.map Entry.call <:+ P.trace.map Entry.call :=
    ((List.suffix_cons e older).trans he).map Entry.call
  have hK := hkept e older he k secret payload hk hp
  obtain ⟨text, rfl, htext, huser⟩ := signer (hh.sound.suffix hcalls) hI hp
  have hanswer : ∀ {c : Cmd} {r : Answer c}, e.call = ⟨c, r⟩ → r = (exec env c e.before).1 := by
    intro c r hc
    rw [hc] at hres
    exact hres
  constructor
  · intro r hc
    refine ⟨?_, text, rfl, htext⟩
    rw [hanswer hc]
    exact hK.secretRead (by rw [hc])
  · intro r hc
    obtain ⟨x, hx, s, claims, hs, -, hm⟩ := hK.accessRead (by rw [hc])
    refine ⟨x.value, ?_, (hh.complete _ _ _ (hcalls.subset hm)).1⟩
    rw [hanswer hc]
    exact congrArg (Option.map (·.value)) hx
  · intro token r hc
    obtain ⟨s, claims, hs, hid, hm⟩ := made_of_decode hch hkept he hk hp hc
    obtain rfl := Option.some.inj hs
    refine ⟨claims, ?_, hid⟩
    rw [hanswer hc]
    exact (hh.complete _ _ _ (hcalls.subset hm)).2 _ (hK.unexpired token _ claims (by rw [hc]) rfl hid hm)
  · intro r hc
    obtain ⟨user, hu⟩ := Option.ne_none_iff_exists'.mp huser
    refine ⟨user, ?_, KeyedList.key_of_lookup hu⟩
    rw [hanswer hc]
    exact (find_str env payload.id e.before).trans hu

/-- Where sessions are kept while their requests are in the view, the view and
the middleware agree on the user. -/
theorem views_agree (hr : Runs (machine env) Unstopped (start env clock users reqs) P)
    (hh : Hs256 env (P.trace.map Entry.call)) (hkept : SessionKept reqs P.trace) : ViewsAgree reqs P := by
  intro i k secret payload hk hp
  obtain ⟨path, cookies, hreq, hx, hjwt⟩ := id hk
  have hstart : Ends (goodAnswers k) (settled k) ((start env clock users reqs).procs i) [] := by
    simp only [start, hreq]
    exact program_ends env hx hjwt
  have hends := hstart.runs rfl hr fun x rest hsuf => by
    obtain ⟨e, past, he, rfl, rfl, rfl⟩ := own_suffix hsuf
    exact fun secret payload hp => goodAnswer_of_kept hr hh hkept he hk hp
  constructor
  · intro reply hret
    rw [hret] at hends
    exact hends secret payload hp
  · intro ex hraise
    rw [hraise] at hends
    exact hends secret payload hp

end Answers

section LogoutDuringRequest

def viewReqs : Nat → Request
  | 0 => .login ⟨drawA, [drawC]⟩ ⟨.str "user@example.com", .str "secret"⟩
  | 1 => .protectedView "/search/" ⟨some "cccccccccc", none⟩ true
  | 2 => .logout ⟨some "cccccccccc", none⟩
  | _ => .logout ⟨none, none⟩

@[irreducible] def viewRun (moves : List (Move Exn Nat)) : Pool Cmd Answer Exn Reply Store :=
  moves.foldl (fun P m => P.move (machine raceEnv) m) (start raceEnv 0 [raceUser] viewReqs)

def goesOn (_ : Pool Cmd Answer Exn Reply Store) : Move Exn Nat → Bool
  | .stop _ _ => false
  | _ => true

theorem unstopped_viewRun {moves : List (Move Exn Nat)}
    (h : checkMoves (machine raceEnv) goesOn moves (start raceEnv 0 [raceUser] viewReqs) = true) :
    Runs (machine raceEnv) Unstopped (start raceEnv 0 [raceUser] viewReqs) (viewRun moves) := by
  unfold viewRun
  apply runs_checked _ moves _ h
  intro Q m hm
  cases m with
  | stop i e => cases hm
  | go i | env t => trivial

def passedWith (k : String) (h : History) : Option (Option String × Payload) :=
  match h.drop (h.length - 3) with
  | [⟨.decode token secret, .ok payload⟩, ⟨.get ka, ra⟩, ⟨.get kb, rb⟩] =>
    if ka = k ++ "_access" ∧ kb = k ++ "_secret" ∧ ra = some token ∧ rb = secret then some (secret, payload)
    else none
  | _ => none

theorem passedWith_of_passed (hp : Passed k secret payload h) : passedWith k h = some (secret, payload) := by
  obtain ⟨token, ht⟩ := hp
  have hd := List.suffix_iff_eq_drop.mp ht
  rw [passedWith]
  change verification k token secret payload = h.drop (h.length - 3) at hd
  rw [← hd]
  simp [verification]

theorem passed_of_passedWith (hp : passedWith k h = some (secret, payload)) : Passed k secret payload h := by
  unfold passedWith at hp
  split at hp
  · next token secret' payload' ka ra kb rb hd =>
    split at hp
    · next hc =>
      obtain ⟨rfl, rfl, rfl, rfl⟩ := hc
      obtain ⟨rfl, rfl⟩ := Prod.mk.inj (Option.some.inj hp)
      refine ⟨token, ?_⟩
      rw [verification, ← hd]
      exact List.drop_suffix _ _
    · cases hp
  · cases hp

/-- The request's session is gone between the middleware and the view. -/
def logoutMoves : List (Move Exn Nat) :=
  List.flatten [List.replicate 15 (.go 0), List.replicate 3 (.go 1), List.replicate 2 (.go 2),
    List.replicate 2 (.go 1)]

def viewsNobody : Prog Reply → Bool
  | .ret (.userView none) => true
  | _ => false

theorem logout_checks : (checkMoves (machine raceEnv) goesOn logoutMoves (start raceEnv 0 [raceUser] viewReqs) &&
    Sound.check ((viewRun logoutMoves).trace.map Entry.call) &&
    ((viewRun logoutMoves).trace.map Entry.call).all (isRecorded raceTokens) &&
    (passedWith "cccccccccc" (own 1 (viewRun logoutMoves).trace)).isSome &&
    viewsNobody ((viewRun logoutMoves).procs 1)) = true := by
  decide +kernel

theorem asksUser_view : AsksUser viewReqs 1 "cccccccccc" :=
  ⟨"/search/", ⟨some "cccccccccc", none⟩, rfl, by simp [exempt, authenticationPaths]; decide, rfl⟩

theorem logged_out_view_goes_on : ¬ ∀ (env : Env) (reqs : Nat → Request) (clock : Nat) (users : List User)
    (P : Pool Cmd Answer Exn Reply Store), Runs (machine env) Unstopped (start env clock users reqs) P →
    Hs256 env (P.trace.map Entry.call) → ViewsAgree reqs P := by
  intro hall
  have hc := logout_checks
  simp only [Bool.and_eq_true] at hc
  obtain ⟨⟨⟨⟨hmoves, hs⟩, hrec⟩, hpass⟩, hview⟩ := hc
  obtain ⟨⟨secret, payload⟩, hpass⟩ := Option.isSome_iff_exists.mp hpass
  have h := (hall raceEnv viewReqs 0 [raceUser] _ (unstopped_viewRun hmoves) (hs256_recorded hs hrec) 1
    "cccccccccc" secret payload asksUser_view (passed_of_passedWith hpass)).1
  revert h hview
  generalize (viewRun logoutMoves).procs 1 = p
  intro hview h
  cases p with
  | ret reply =>
    have hr := h reply rfl
    cases reply with
    | userView user =>
      cases user with
      | none => exact hr
      | some user => cases hview
    | response r => cases hview
    | view => cases hview
  | raise e => cases hview
  | call c f => cases hview

def keptCheck (k : String) (secret : Option String) (id : String) (e : Entry Cmd Answer Store)
    (older : Trace) : Bool :=
  let made (token : String) : Bool := older.any fun y => match y.call with
    | ⟨.encode claims s, token'⟩ => decide (secret = some s ∧ claims.id = id ∧ token' = token)
    | _ => false
  let running : Bool := older.all fun y => match y.call with
    | ⟨.encode claims _, _⟩ => decide (e.before.clock / 1000 < claims.exp)
    | _ => true
  (e.before.live (k ++ "_secret")).map (·.value) == secret &&
    (e.before.live (k ++ "_access")).any (made ·.value) && running

def sessionKeptCheck (k : String) : Trace → Bool
  | [] => true
  | e :: older => sessionKeptCheck k older && (match passedWith k (own e.pid older) with
      | some (secret, payload) => keptCheck k secret payload.id e older
      | none => true)

theorem kept_of_check {e : Entry Cmd Answer Store} {older : Trace} {id : String}
    (h : keptCheck k secret id e older = true) : Kept k secret id e older := by
  simp only [keptCheck, Bool.and_eq_true, beq_iff_eq] at h
  obtain ⟨⟨hsecret, haccess⟩, hrunning⟩ := h
  refine ⟨fun _ => hsecret, fun _ => ?_, fun token s claims _ _ _ hmem => ?_⟩
  · obtain ⟨x, hx, hmade⟩ := (Option.any_eq_true _ _).mp haccess
    obtain ⟨y, hy, hmade⟩ := List.any_eq_true.mp hmade
    refine ⟨x, hx, ?_⟩
    split at hmade
    · next claims s token hc =>
      obtain ⟨hs, hid, htoken⟩ := of_decide_eq_true hmade
      subst htoken
      exact ⟨s, claims, hs, hid, hc ▸ List.mem_map_of_mem hy⟩
    · cases hmade
  · obtain ⟨y, hy, hc⟩ := List.mem_map.mp hmem
    have hr := List.all_eq_true.mp hrunning y hy
    rw [hc] at hr
    exact of_decide_eq_true hr

theorem sessionKept_of_check {reqs : Nat → Request} {t : Trace} (hk : ∀ i k', AsksUser reqs i k' → k' = k)
    (h : sessionKeptCheck k t = true) : SessionKept reqs t := by
  induction t with
  | nil =>
    intro e older hs
    cases List.suffix_nil.mp hs
  | cons x t ih =>
    obtain ⟨ht, hx⟩ := Bool.and_eq_true_iff.mp h
    intro e older hs k' secret payload hask hp
    obtain heq | hs := List.suffix_cons_iff.mp hs
    · obtain ⟨rfl, rfl⟩ := List.cons.inj heq
      obtain rfl := hk _ _ hask
      rw [passedWith_of_passed hp] at hx
      exact kept_of_check hx
    · exact ih ht e older hs k' secret payload hask hp

def calmMoves : List (Move Exn Nat) :=
  List.replicate 15 (.go 0) ++ List.replicate 7 (.go 1)

def viewsUser (email : String) : Prog Reply → Bool
  | .ret (.userView (some user)) => user.email == email
  | _ => false

theorem calm_checks : (checkMoves (machine raceEnv) goesOn calmMoves (start raceEnv 0 [raceUser] viewReqs) &&
    Sound.check ((viewRun calmMoves).trace.map Entry.call) &&
    ((viewRun calmMoves).trace.map Entry.call).all (isRecorded raceTokens) &&
    sessionKeptCheck "cccccccccc" (viewRun calmMoves).trace &&
    viewsUser "user@example.com" ((viewRun calmMoves).procs 1)) = true := by
  decide +kernel

theorem asksUser_viewReqs (i : Nat) (h : AsksUser viewReqs i k) : k = "cccccccccc" := by
  obtain ⟨path, cookies, hr, _, hj⟩ := h
  unfold viewReqs at hr
  split at hr
  all_goals cases hr
  exact (Option.some.inj hj).symm

theorem views_agree_calm : ViewsAgree viewReqs (viewRun calmMoves) ∧
    viewsUser "user@example.com" ((viewRun calmMoves).procs 1) = true := by
  have hc := calm_checks
  simp only [Bool.and_eq_true] at hc
  obtain ⟨⟨⟨⟨hmoves, hs⟩, hrec⟩, hkept⟩, hview⟩ := hc
  exact ⟨views_agree (unstopped_viewRun hmoves) (hs256_recorded hs hrec)
    (sessionKept_of_check (fun i _ h => asksUser_viewReqs i h) hkept), hview⟩

end LogoutDuringRequest

end YoutubeRecords.MiddlewareAgreement
