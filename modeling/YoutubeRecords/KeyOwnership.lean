import YoutubeRecords.SessionSoundness

namespace YoutubeRecords.KeyOwnership

open CommandProgram ProgramPool PythonBasics AccountStore AccountViews SessionPromises SessionSoundness

def LastBy (k : String) (i : Nat) : Trace → Prop :=
  Since (fun e => ∀ value, e.call.cmd ≠ .set (k ++ "_secret") value)
    (fun e => e.pid = i ∧ ∃ value, e.call.cmd = .set (k ++ "_secret") value)

def LiveFrom (s : Store) (t : Trace) (i : Nat) (k : String) : Prop :=
  s.live (k ++ "_secret") ≠ none ∧ LastBy k i t

/-- The request has written the secret, which has been live ever since. -/
def LiveLogin (s : Store) (t : Trace) (i : Nat) (k : String) : Prop :=
  s.live (k ++ "_secret") ≠ none ∧
    Since (fun e => e.before.live (k ++ "_secret") ≠ none)
      (fun e => e.pid = i ∧ ∃ value, e.call.cmd = .set (k ++ "_secret") value) t

def isLogin : Request → Bool
  | .login _ _ => true
  | _ => false

def touches (k : String) : Cmd → Prop
  | .set key _ | .expire key _ => key = k ++ "_access" ∨ key = k ++ "_secret"
  | _ => False

/-- No login writes the entries of a key while another login's secret is live
under it; so live logins have different keys, and the entries of a live login
are left alone by the others. -/
structure NoTakeover (env : Env) (reqs : Nat → Request) (s : Store) (t : Trace) : Prop where
  writes : ∀ e older, e :: older <:+ t → isLogin (reqs e.pid) → ∀ k value,
    e.call.cmd = .set (k ++ "_access") value ∨ e.call.cmd = .set (k ++ "_secret") value →
    ∀ j, j ≠ e.pid → ¬ LiveFrom e.before older j k
  distinct : ∀ i j k, LiveLogin s t i k → LiveLogin s t j k → i = j
  leaves : ∀ e older, e :: older <:+ t → isLogin (reqs e.pid) → ∀ j k, j ≠ e.pid →
    LiveFrom e.before older j k →
    (exec env e.call.cmd e.before).2.live (k ++ "_access") = e.before.live (k ++ "_access") ∧
      (exec env e.call.cmd e.before).2.live (k ++ "_secret") = e.before.live (k ++ "_secret")

/-- The request has found the key name unused, and has not yet set the expiry
of its secret. -/
def Claimed (k : String) (h : History) : Prop :=
  ∃ newer older, h = newer ++ ⟨.existsKey (k ++ "_secret"), false⟩ :: older ∧
    ∀ x ∈ newer, ∀ seconds, x.cmd ≠ .expire (k ++ "_secret") seconds

def Claiming (P : Pool Cmd Answer Exn Reply Store) (i : Nat) (k : String) : Prop :=
  (∃ c f, P.procs i = .call c f) ∧ Claimed k (own i P.trace)

def ExclusiveClaims (P : Pool Cmd Answer Exn Reply Store) : Prop :=
  ∀ i j k, Claiming P i k → Claiming P j k → i = j

section Claims

variable {k : String} {h : History}

theorem Claimed.cons (hc : Claimed k h) {x : Call Cmd Answer}
    (hx : ∀ seconds, x.cmd ≠ .expire (k ++ "_secret") seconds) : Claimed k (x :: h) := by
  obtain ⟨newer, older, rfl, hn⟩ := hc
  exact ⟨x :: newer, older, rfl, List.forall_mem_cons.mpr ⟨hx, hn⟩⟩

theorem claimed_cons {x : Call Cmd Answer} (hc : Claimed k (x :: h)) :
    x = ⟨.existsKey (k ++ "_secret"), false⟩ ∨
      (∀ seconds, x.cmd ≠ .expire (k ++ "_secret") seconds) ∧ Claimed k h := by
  obtain ⟨newer, older, he, hn⟩ := hc
  cases newer with
  | nil =>
    obtain ⟨rfl, rfl⟩ := List.cons.inj he
    exact .inl rfl
  | cons y newer =>
    obtain ⟨rfl, rfl⟩ := List.cons.inj he
    obtain ⟨hy, hn⟩ := List.forall_mem_cons.mp hn
    exact .inr ⟨hy, newer, older, rfl, hn⟩

def claimPromise (h : History) (x : Call Cmd Answer) : Prop := ∀ k, touches k x.cmd → Claimed k h

theorem touches_access {l : String} (hl : l ++ "_access" = k ++ "_access" ∨ l ++ "_access" = k ++ "_secret") :
    l = k := by
  obtain hl | hl := hl
  · exact key_inj.mp hl
  · exact absurd hl (accessKey_ne_secretKey l k)

theorem touches_secret {l : String} (hl : l ++ "_secret" = k ++ "_access" ∨ l ++ "_secret" = k ++ "_secret") :
    l = k := by
  obtain hl | hl := hl
  · exact absurd hl.symm (accessKey_ne_secretKey k l)
  · exact key_inj.mp hl

theorem drawKeyName_claims (keys : List KeyDraw) (h : History) :
    Obeys claimPromise (fun k h => Claimed k h) (drawKeyName keys) h := by
  induction keys generalizing h with
  | nil => trivial
  | cons draw keys ih =>
    simp only [drawKeyName, checkForExistence, ask, perform_bind, obeys_call]
    intro taken
    refine ⟨fun _ hk => hk.elim, ?_⟩
    cases taken with
    | true => exact ih _
    | false => exact ⟨[], h, rfl, by simp⟩

theorem token_claims (userId secret : String) (age : Nat) (h : History) :
    Obeys claimPromise (fun _ _ => True) (createToken userId secret age) h :=
  createToken_obeys _ _ _ _ (fun _ _ _ hk => hk.elim) fun _ _ _ _ _ => ⟨fun _ hk => hk.elim, trivial⟩

theorem startSession_claims (draws : Draws) (user : User) (h : History) :
    Obeys claimPromise (fun _ _ => True) (startSession draws user) h := by
  refine Obeys.bind (token_claims _ _ _ h) fun access h _ => ?_
  refine Obeys.bind (token_claims _ _ _ h) fun refresh h _ => ?_
  refine Obeys.bind (drawKeyName_claims _ h) fun k h hc => ?_
  have hset := hc.cons (x := ⟨.set (k ++ "_access") access, ()⟩) (by simp)
  have hexpire := hset.cons (x := ⟨.expire (k ++ "_access") (accessAgeMinutes * 60), ()⟩)
    fun n he => accessKey_ne_secretKey k k (Cmd.expire.inj he).1
  refine Obeys.bind (Q := fun _ h => Claimed k h) ?_ fun _ h hc => ?_
  · refine setValue_obeys _ _ _ _ (fun _ _ _ hk => hk.elim) ?_ ?_ fun r => hexpire.cons (by simp)
    · exact fun l hl => touches_access hl ▸ hc
    · exact fun l hl => touches_access hl ▸ hset
  · refine Obeys.bind (Q := fun _ _ => True) ?_ fun _ _ _ _ => ⟨fun _ hk => hk.elim, trivial⟩
    refine setValue_obeys _ _ _ _ (fun _ _ _ hk => hk.elim) ?_ ?_ fun _ => trivial
    · exact fun l hl => touches_secret hl ▸ hc
    · exact fun l hl => touches_secret hl ▸ hc.cons (by simp)

theorem login_claims (env : Env) (draws : Draws) (data : LoginData) :
    Obeys claimPromise (fun _ _ => True) (LoginView.post env draws data) [] :=
  loginView_obeys env draws data (fun _ _ hk => hk.elim) fun user _ => startSession_claims draws user _

def entryPromise (req : Request) (h : History) (x : Call Cmd Answer) : Prop :=
  isLogin req = true → claimPromise h x

theorem program_claims (env : Env) (req : Request) :
    Obeys (entryPromise req) (fun _ _ => True) (req.program env) [] := by
  cases req with
  | login draws data =>
    have hlogin : Obeys (entryPromise (.login draws data)) (fun _ _ => True) (LoginView.post env draws data) [] :=
      (login_claims env draws data).mono (fun _ _ hx _ => hx) (fun _ _ _ => trivial)
    exact hlogin.bind fun _ _ _ => trivial
  | register | refresh | logout | protectedView =>
    exact (program_obeys env _).mono (fun _ _ _ hl => by cases hl) (fun _ _ _ => trivial)

end Claims

variable {env : Env} {reqs : Nat → Request} {P : Pool Cmd Answer Exn Reply Store}

/-- A live secret under a claimed name is the claimer's own, and no login has
touched the entries of a key that was live from another one. -/
structure Held (env : Env) (reqs : Nat → Request) (P : Pool Cmd Answer Exn Reply Store) : Prop where
  lawful : Lawful (fun i => promise env (reqs i)) (fun i => reported (reqs i)) P
  claims : Lawful (fun i => entryPromise (reqs i)) (fun _ _ _ => True) P
  mine : ∀ i k, Claiming P i k → P.store.live (k ++ "_secret") ≠ none → LastBy k i P.trace
  alone : ∀ e older, e :: older <:+ P.trace → isLogin (reqs e.pid) → ∀ k, touches k e.call.cmd →
    ∀ j, j ≠ e.pid → ¬ LiveFrom e.before older j k

theorem lastBy_unique {k : String} {i j : Nat} {t : Trace} (hi : LastBy k i t) (hj : LastBy k j t) : i = j := by
  induction t with
  | nil => exact hi.elim
  | cons e t ih =>
    obtain ⟨rfl, value, hv⟩ | ⟨hn, hi⟩ := hi
    · obtain ⟨rfl, -⟩ | ⟨hn, -⟩ := hj
      · rfl
      · exact absurd hv (hn value)
    · obtain ⟨-, value, hv⟩ | ⟨-, hj⟩ := hj
      · exact absurd hv (hn value)
      · exact ih hi hj

theorem live_of_live_exec {c : Cmd} {s : Store} {key : String} (hs : ∀ value, c ≠ .set key value)
    (h : (exec env c s).2.live key ≠ none) : s.live key ≠ none := by
  by_cases he : ∃ seconds, c = .expire key seconds
  · obtain ⟨seconds, rfl⟩ := he
    obtain ⟨x, hx⟩ := Option.ne_none_iff_exists'.mp h
    obtain ⟨-, -, y, hy, -⟩ := ExpiringStore.live_expire_self hx
    exact Option.ne_none_iff_exists'.mpr ⟨y, hy⟩
  · rwa [live_exec env c s key hs fun n hn => he ⟨n, hn⟩] at h

/-- Only a login writes a secret, and it claims the name while it does. -/
theorem Held.writer (h : Held env reqs P) {i : Nat} {k value : String} {f : Answer (.set (k ++ "_secret") value) → _}
    (hp : P.procs i = .call (.set (k ++ "_secret") value) f) : Claiming P i k := by
  obtain ⟨draws, data, hreq, -⟩ := promise_set_secret (h.lawful.call (M := machine env) hp).1
  have hc := (h.claims.call (M := machine env) hp).1
  refine ⟨⟨_, _, hp⟩, hc ?_ k (.inr rfl)⟩
  rw [hreq]
  rfl

theorem Held.mine_call (h : Held env reqs P) (hx : ExclusiveClaims P) {i : Nat} {c : Cmd}
    {f : Answer c → Prog Reply} (hp : P.procs i = .call c f) (j : Nat) (k : String)
    (hj : Claiming (P.call (machine env) i c f) j k)
    (hl : (P.call (machine env) i c f).store.live (k ++ "_secret") ≠ none) :
    LastBy k j (P.call (machine env) i c f).trace := by
  by_cases hw : ∃ value, c = .set (k ++ "_secret") value
  · obtain ⟨value, rfl⟩ := hw
    by_cases hji : j = i
    · exact .inl ⟨hji.symm, value, rfl⟩
    · -- the writer claims the name too, so it is the only one
      have hj' : Claiming P j k := by
        simpa only [Claiming, Pool.call, Function.update_of_ne hji, own_cons_ne (Ne.symm hji)] using hj
      exact absurd (hx j i k hj' (h.writer hp)) hji
  · have hnot : ∀ value, c ≠ .set (k ++ "_secret") value := fun value hv => hw ⟨value, hv⟩
    have hl' : P.store.live (k ++ "_secret") ≠ none := live_of_live_exec hnot hl
    refine .inr ⟨hnot, h.mine j k ?_ hl'⟩
    by_cases hji : j = i
    · subst hji
      refine ⟨⟨c, f, hp⟩, ?_⟩
      have hc := hj.2
      simp only [Pool.call, own_cons_self] at hc
      obtain hfound | ⟨-, hc⟩ := claimed_cons hc
      · obtain ⟨rfl, hr⟩ := Call.mk.inj hfound
        have hnone : ExpiringStore.existsKey P.store.clock P.store.redis (k ++ "_secret") = false := eq_of_heq hr
        simp only [ExpiringStore.existsKey, Option.isSome_eq_false_iff, Option.isNone_iff_eq_none] at hnone
        exact absurd hnone hl'
      · exact hc
    · simpa only [Claiming, Pool.call, Function.update_of_ne hji, own_cons_ne (Ne.symm hji)] using hj

theorem Held.alone_call (h : Held env reqs P) {i : Nat} {c : Cmd} {f : Answer c → Prog Reply}
    (hp : P.procs i = .call c f) (hlogin : isLogin (reqs i)) {k : String} (ht : touches k c) (j : Nat) (hj : j ≠ i) :
    ¬ LiveFrom P.store P.trace j k := by
  rintro ⟨hl, hlast⟩
  have hc : Claimed k (own i P.trace) := (h.claims.call (M := machine env) hp).1 hlogin k ht
  exact hj (lastBy_unique hlast (h.mine i k ⟨⟨c, f, hp⟩, hc⟩ hl))

theorem held_runs {clock : Nat} {users : List User}
    (hr : Runs (machine env) (fun Q _ => ExclusiveClaims Q) (start env clock users reqs) P) : Held env reqs P := by
  refine hr.invariant (J := Held env reqs) ⟨start_lawful env clock users reqs,
    fun i => program_claims env (reqs i), ?_, ?_⟩ ?_ ?_ ?_
  · intro i k _ hl
    simp [start, Store.live, ExpiringStore.live] at hl
  · intro e older he
    simp [start] at he
  · intro Q i c f h hx hp
    refine ⟨(h.lawful.call hp).2, (h.claims.call hp).2, h.mine_call hx hp, ?_⟩
    intro e older he hlogin k ht j hj
    obtain he | he := List.suffix_cons_iff.mp he
    · obtain ⟨rfl, rfl⟩ := List.cons.inj he
      exact h.alone_call hp hlogin ht j hj
    · exact h.alone e older he hlogin k ht j hj
  · intro Q i e h
    refine ⟨h.lawful.stop i e, h.claims.stop i e, fun j k hj hl => h.mine j k ?_ hl, h.alone⟩
    obtain ⟨⟨c, f, hp⟩, hc⟩ := hj
    by_cases hji : j = i
    · subst hji
      simp [Pool.stop] at hp
    · exact ⟨⟨c, f, by simpa only [Pool.stop, Function.update_of_ne hji] using hp⟩, hc⟩
  · intro Q ms h
    refine ⟨h.lawful, h.claims, fun i k hi hl => h.mine i k hi ?_, h.alone⟩
    obtain ⟨x, hx⟩ := Option.ne_none_iff_exists'.mp hl
    exact Option.ne_none_iff_exists'.mpr ⟨x, ExpiringStore.live_of_later hx⟩

def Wrote (t : Trace) (i : Nat) (k : String) : Prop :=
  ∃ y ∈ t, y.pid = i ∧ ∃ value, y.call.cmd = .set (k ++ "_secret") value

theorem LastBy.wrote {k : String} {i : Nat} {t : Trace} (h : LastBy k i t) : Wrote t i k := by
  obtain ⟨newer, y, older, rfl, hy, -⟩ := since_iff.mp h
  exact ⟨y, by simp, hy⟩

theorem Wrote.lastBy {k : String} {i : Nat} {t : Trace} (h : Wrote t i k) : ∃ j, LastBy k j t := by
  obtain ⟨y, hy, -, hv⟩ := h
  induction t with
  | nil => cases hy
  | cons e t ih =>
    by_cases hw : ∃ value, e.call.cmd = .set (k ++ "_secret") value
    · exact ⟨e.pid, .inl ⟨rfl, hw⟩⟩
    · have hyt : y ∈ t := (List.mem_cons.mp hy).resolve_left fun he => hw (he ▸ hv)
      obtain ⟨j, hj⟩ := ih hyt
      exact ⟨j, .inr ⟨fun value hv => hw ⟨value, hv⟩, hj⟩⟩

/-- A secret is written by a login, which writes none but this. -/
theorem write_once {clock : Nat} {users : List User} {ok : Pool Cmd Answer Exn Reply Store → Move Exn Nat → Prop}
    (hr : Runs (machine env) ok (start env clock users reqs) P) {e : Entry Cmd Answer Store} {older : Trace}
    (he : e :: older <:+ P.trace) {k value : String} (hc : e.call.cmd = .set (k ++ "_secret") value) :
    isLogin (reqs e.pid) = true ∧ ¬ Wrote older e.pid k := by
  have hp := (start_lawful env clock users reqs).past rfl hr he
  obtain ⟨i, ⟨c, r⟩, s⟩ := e
  obtain rfl : c = .set (k ++ "_secret") value := hc
  obtain ⟨draws, data, hreq, -⟩ := promise_set_secret hp
  refine ⟨by rw [hreq]; rfl, ?_⟩
  rintro ⟨y, hy, hpid, v, hv⟩
  simp only [hreq] at hp
  obtain ⟨l, hl⟩ | ⟨l, user, -, -, -, hnone⟩ := hp
  · exact accessKey_ne_secretKey l k hl.symm
  · exact hnone y.call (mem_own.mpr ⟨y, hy, hpid, rfl⟩) k v hv

theorem live_logins_distinct {k : String} {t : Trace}
    (alone : ∀ e older, e :: older <:+ t → isLogin (reqs e.pid) → ∀ k, touches k e.call.cmd →
      ∀ j, j ≠ e.pid → ¬ LiveFrom e.before older j k)
    (once : ∀ e older, e :: older <:+ t → ∀ k value, e.call.cmd = .set (k ++ "_secret") value →
      isLogin (reqs e.pid) = true ∧ ¬ Wrote older e.pid k) {i j : Nat}
    (hi : Since (fun e => e.before.live (k ++ "_secret") ≠ none)
      (fun e => e.pid = i ∧ ∃ value, e.call.cmd = .set (k ++ "_secret") value) t)
    (hj : Since (fun e => e.before.live (k ++ "_secret") ≠ none)
      (fun e => e.pid = j ∧ ∃ value, e.call.cmd = .set (k ++ "_secret") value) t) : i = j := by
  -- whoever writes second finds the first secret live, which only its own could be
  have second : ∀ {e : Entry Cmd Answer Store} {older : Trace} {j : Nat}, e :: older <:+ t →
      (∃ value, e.call.cmd = .set (k ++ "_secret") value) → e.before.live (k ++ "_secret") ≠ none →
      ¬ Since (fun e => e.before.live (k ++ "_secret") ≠ none)
        (fun e => e.pid = j ∧ ∃ value, e.call.cmd = .set (k ++ "_secret") value) older := by
    intro e older j he ⟨value, hv⟩ hl hs
    obtain ⟨hlogin, hnot⟩ := once e older he k value hv
    obtain ⟨newer, y, rest, rfl, hy, -⟩ := since_iff.mp hs
    have hw : Wrote (newer ++ y :: rest) j k := ⟨y, by simp, hy⟩
    obtain ⟨l, hlast⟩ := hw.lastBy
    have htouch : touches k e.call.cmd := by
      rw [hv]
      exact .inr rfl
    by_cases hle : l = e.pid
    · subst hle
      exact hnot hlast.wrote
    · exact alone e _ he hlogin k htouch l hle ⟨hl, hlast⟩
  induction t with
  | nil => exact hi.elim
  | cons e t ih =>
    obtain ⟨rfl, hv⟩ | ⟨hl, hi⟩ := hi
    · obtain ⟨rfl, -⟩ | ⟨hl, hj⟩ := hj
      · rfl
      · exact absurd hj (second List.suffix_rfl hv hl)
    · obtain ⟨rfl, hv⟩ | ⟨-, hj⟩ := hj
      · exact absurd hi (second List.suffix_rfl hv hl)
      · have hsub : ∀ {u : Trace}, u <:+ t → u <:+ e :: t := fun hu => hu.trans (List.suffix_cons e t)
        exact ih (fun x o hx => alone x o (hsub hx)) (fun x o hx => once x o (hsub hx)) hi hj
          (fun hx => second (hsub hx))

theorem not_touches {k : String} {c : Cmd} (h : ¬ touches k c) (s : Store) :
    (exec env c s).2.live (k ++ "_access") = s.live (k ++ "_access") ∧
      (exec env c s).2.live (k ++ "_secret") = s.live (k ++ "_secret") := by
  constructor
  · apply live_exec
    · rintro value rfl
      exact h (.inl rfl)
    · rintro seconds rfl
      exact h (.inl rfl)
  · apply live_exec
    · rintro value rfl
      exact h (.inr rfl)
    · rintro seconds rfl
      exact h (.inr rfl)

/-- Where no two logins claim one key name at a time, no login takes over the
key of a live session. -/
theorem no_takeover {clock : Nat} {users : List User}
    (hr : Runs (machine env) (fun Q _ => ExclusiveClaims Q) (start env clock users reqs) P) :
    NoTakeover env reqs P.store P.trace := by
  have h := held_runs hr
  constructor
  · intro e older he hlogin k value hc
    apply h.alone e older he hlogin k
    obtain hc | hc := hc
    · rw [hc]
      exact .inl rfl
    · rw [hc]
      exact .inr rfl
  · intro i j k hi hj
    exact live_logins_distinct h.alone (fun e older he k value hc => write_once hr he hc) hi.2 hj.2
  · intro e older he hlogin j k hj hl
    exact not_touches (fun ht => h.alone e older he hlogin k ht j hj hl) e.before

section SameKeyName

def claimedKeys : History → List String
  | [] => []
  | x :: h => match x with
    | ⟨.existsKey key, false⟩ => key :: claimedKeys h
    | ⟨.expire key _, _⟩ => (claimedKeys h).filter (· ≠ key)
    | _ => claimedKeys h

theorem mem_claimedKeys {k : String} {h : History} (hc : Claimed k h) : k ++ "_secret" ∈ claimedKeys h := by
  induction h with
  | nil =>
    obtain ⟨newer, older, he, -⟩ := hc
    simp at he
  | cons x h ih =>
    obtain rfl | ⟨hx, hold⟩ := claimed_cons hc
    · exact List.mem_cons_self
    · have hm := ih hold
      unfold claimedKeys
      split
      · exact List.mem_cons_of_mem _ hm
      · next key seconds r =>
        have hne : k ++ "_secret" ≠ key := fun he => hx seconds (by rw [he])
        simpa [hne] using hm
      · exact hm

def claimsApart (Q : Pool Cmd Answer Exn Reply Store) (_ : Move Exn Nat) : Bool :=
  Q.trace.all (fun e => decide (e.pid < 2)) &&
    (claimedKeys (own 0 Q.trace)).all fun key => decide (key ∉ claimedKeys (own 1 Q.trace))

theorem exclusive_of_claimsApart (Q : Pool Cmd Answer Exn Reply Store) (m : Move Exn Nat)
    (h : claimsApart Q m = true) : ExclusiveClaims Q := by
  obtain ⟨hpids, hapart⟩ := Bool.and_eq_true_iff.mp h
  have apart : ∀ k, ¬ (Claimed k (own 0 Q.trace) ∧ Claimed k (own 1 Q.trace)) := fun k ⟨h0, h1⟩ =>
    of_decide_eq_true (List.all_eq_true.mp hapart _ (mem_claimedKeys h0)) (mem_claimedKeys h1)
  have two : ∀ i k, Claiming Q i k → i = 0 ∨ i = 1 := by
    rintro i k ⟨-, newer, older, ho, -⟩
    have hm : (⟨.existsKey (k ++ "_secret"), false⟩ : Call Cmd Answer) ∈ own i Q.trace := by simp [ho]
    obtain ⟨e, he, rfl, -⟩ := mem_own.mp hm
    have hlt : e.pid < 2 := of_decide_eq_true (List.all_eq_true.mp hpids e he)
    omega
  intro i j k hi hj
  obtain rfl | rfl := two i k hi <;> obtain rfl | rfl := two j k hj
  · rfl
  · exact absurd ⟨hi.2, hj.2⟩ (apart k)
  · exact absurd ⟨hj.2, hi.2⟩ (apart k)
  · rfl

/-- Two logins, the second of which first draws the key name of the first. -/
def turnReqs : Nat → Request
  | 0 => .login ⟨drawA, [drawC]⟩ ⟨.str "user@example.com", .str "secret"⟩
  | 1 => .login ⟨drawB, [drawC, drawD]⟩ ⟨.str "user@example.com", .str "secret"⟩
  | _ => .logout ⟨none, none⟩

/-- Login 1 looks for a key name when login 0 has written its secret and has
not yet set its expiry; from then on each of them claims a name. -/
def turnMoves : List (Move Exn Nat) :=
  List.flatten [List.replicate 8 (.go 0), List.replicate 7 (.go 1), List.replicate 4 (.go 0),
    List.replicate 2 (.go 1), [.go 0], List.replicate 4 (.go 1), List.replicate 2 (.go 0), List.replicate 3 (.go 1)]

@[irreducible] def turnRun : Pool Cmd Answer Exn Reply Store :=
  turnMoves.foldl (fun P m => P.move (machine raceEnv) m) (start raceEnv 0 [raceUser] turnReqs)

theorem turn_checks :
    checkMoves (machine raceEnv) claimsApart turnMoves (start raceEnv 0 [raceUser] turnReqs) = true ∧
      (turnRun.store.live "cccccccccc_secret").map (·.value) = some "aaaaaaaaaa" ∧
      (turnRun.store.live "dddddddddd_secret").map (·.value) = some "bbbbbbbbbb" := by
  decide +kernel

theorem no_takeover_in_turn : (turnRun.store.live "cccccccccc_secret").map (·.value) = some "aaaaaaaaaa" ∧
    (turnRun.store.live "dddddddddd_secret").map (·.value) = some "bbbbbbbbbb" ∧
    NoTakeover raceEnv turnReqs turnRun.store turnRun.trace := by
  obtain ⟨hmoves, hc, hd⟩ := turn_checks
  have hr : Runs (machine raceEnv) (fun Q _ => ExclusiveClaims Q) (start raceEnv 0 [raceUser] turnReqs) turnRun := by
    unfold turnRun
    exact runs_checked exclusive_of_claimsApart turnMoves _ hmoves
  exact ⟨hc, hd, no_takeover hr⟩

/-- Both logins find the name unused; login 1 writes its secret, and then
login 0 its access token. -/
def takeoverMoves : List (Move Exn Nat) :=
  List.flatten [List.replicate 8 (.go 1), List.replicate 8 (.go 0), List.replicate 4 (.go 1), [.go 0]]

def setsKey (key : String) : Cmd → Bool
  | .set k _ => decide (k = key)
  | _ => false

theorem exists_of_setsKey {key : String} {c : Cmd} (h : setsKey key c = true) : ∃ value, c = .set key value := by
  cases c with
  | set k value =>
    obtain rfl : k = key := of_decide_eq_true h
    exact ⟨value, rfl⟩
  | _ => cases h

def takeoverCheck : Trace → Bool
  | e :: w :: _ => e.pid == 0 && setsKey "cccccccccc_access" e.call.cmd && w.pid == 1 &&
      setsKey "cccccccccc_secret" w.call.cmd && (e.before.live "cccccccccc_secret").isSome
  | _ => false

theorem takeover_checks : takeoverCheck (raceRun takeoverMoves).trace = true := by
  decide +kernel

theorem racing_login_takes_key : ¬ ∀ (env : Env) (reqs : Nat → Request) (clock : Nat) (users : List User)
    (P : Pool Cmd Answer Exn Reply Store), Runs (machine env) (fun _ _ => True) (start env clock users reqs) P →
    NoTakeover env reqs P.store P.trace := by
  intro hall
  have h := (hall raceEnv raceReqs 0 [raceUser] _ (runs_raceRun takeoverMoves)).writes
  have hc := takeover_checks
  revert h hc
  generalize (raceRun takeoverMoves).trace = t
  intro h hc
  match t with
  | [] | [_] => cases hc
  | e :: w :: rest =>
    simp only [takeoverCheck, Bool.and_eq_true, beq_iff_eq] at hc
    obtain ⟨⟨⟨⟨he, hset⟩, hw⟩, hsecret⟩, hlive⟩ := hc
    obtain ⟨value, hset⟩ := exists_of_setsKey hset
    refine h e (w :: rest) List.suffix_rfl (by rw [he]; rfl) "cccccccccc" value (.inl hset) 1 (by rw [he]; decide)
      ⟨?_, .inl ⟨hw, exists_of_setsKey hsecret⟩⟩
    exact Option.isSome_iff_ne_none.mp hlive

end SameKeyName

end YoutubeRecords.KeyOwnership
