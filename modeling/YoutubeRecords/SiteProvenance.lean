import YoutubeRecords.MiddlewareAgreement
import YoutubeRecords.QueryUniqueness
import YoutubeRecords.SiteRefinement

namespace YoutubeRecords.SiteProvenance

open CommandProgram ProgramPool CommandEmbedding PythonBasics AccountViews VideoIngestion SearchViews
  IngestionPromises SiteStore SiteViews SiteRefinement
open MiddlewareAgreement (exempt Passed)

def Identified (h : SessionPromises.History) (email : String) : Prop :=
  ∃ token secret payload user, ⟨.decode token (some secret), .ok payload⟩ ∈ h ∧
    ⟨.findUser (.str payload.id), some user⟩ ∈ h ∧ user.email = email

theorem Identified.mono {email : String} {h h' : SessionPromises.History} (hi : Identified h email) (hh : h ⊆ h') :
    Identified h' email := by
  obtain ⟨token, secret, payload, user, hd, hf, he⟩ := hi
  exact ⟨token, secret, payload, user, hh hd, hh hf, he⟩

def CookiePassed (cookies : Cookies) (h : SessionPromises.History) : Prop :=
  ∃ k secret payload, cookies.jwt = some k ∧ Passed k secret payload h

theorem CookiePassed.suffix {cookies : Cookies} {h h' : SessionPromises.History} (hp : CookiePassed cookies h)
    (hs : h <:+ h') : CookiePassed cookies h' := by
  obtain ⟨k, secret, payload, hk, hp⟩ := hp
  exact ⟨k, secret, payload, hk, hp.suffix hs⟩

theorem processRequest_passes (path : String) (cookies : Cookies) :
    Obeys (fun _ _ => True) (fun _ h => exempt path ∨ CookiePassed cookies h) (processRequest path cookies) [] := by
  unfold processRequest
  split
  · next he => exact .inl he
  · split
    · trivial
    · next k hk =>
      simp only [getValue, AccountStore.ask, perform_bind, obeys_call]
      intro secret
      refine ⟨trivial, fun token => ⟨trivial, ?_⟩⟩
      split
      · trivial
      · next text ht =>
        obtain ⟨rfl, -⟩ := nonempty_eq_some.mp ht
        intro claims
        refine ⟨trivial, ?_⟩
        cases claims with
        | error e =>
          cases e with
          | expiredSignature | decodeError | typeError => trivial
        | ok payload => exact .inr ⟨k, secret, payload, hk, text, List.suffix_rfl⟩

theorem getUser_identifies (cookies : Cookies) (h : SessionPromises.History) :
    Obeys (fun _ _ => True) (fun found h' => ∀ user, found = some user → Identified h' user.email)
      (getUser cookies.jwt) h := by
  unfold getUser
  split
  · trivial
  · simp only [getValue, AccountStore.ask, perform_bind, obeys_call]
    intro secret
    refine ⟨trivial, fun token => ⟨trivial, ?_⟩⟩
    split
    · next text word hs ht =>
      intro claims
      refine ⟨trivial, ?_⟩
      cases claims with
      | error e =>
        cases e with
        | expiredSignature | decodeError | typeError => trivial
      | ok payload =>
        intro found
        refine ⟨trivial, fun user hu => ?_⟩
        subst hu
        exact ⟨word, text, payload, user, by simp, by simp, rfl⟩
    · intro user h
      cases h

def subject : VideoStore.Cmd → Option String
  | .findQuery _ user | .pageVideos _ user _ _ | .pageQueries _ user _ _ => some user
  | .insertQuery d => some d.user
  | .delay task => some task.user
  | .findVideo _ | .saveVideo _ | .index _ _ | .saveQuery _ _ => none

theorem user_of_subject {records : OrderedDict.Dict Value} {h : IngestionPromises.History}
    {x : Call VideoStore.Cmd VideoStore.Answer} {email : String} (hx : insertStep records h x)
    (he : subject x.cmd = some email) : text records "user" = .ok email := by
  obtain ⟨c, r⟩ := x
  obtain ⟨hi, hp⟩ := hx
  cases c with
  | findQuery query user =>
    obtain rfl := Option.some.inj he
    exact hp.2
  | insertQuery d =>
    obtain rfl := Option.some.inj he
    obtain ⟨rest, -, -, hu, -⟩ := hp
    exact hu
  | pageVideos | pageQueries | delay => cases hi
  | findVideo | saveVideo | index | saveQuery => cases he

def viewAsks (r : HttpRequest) (query : String) : View → Prop
  | .searching => r.q = some query
  | .topic => r.query = .str query
  | .bulk => query ∈ r.queries
  | .register | .login | .logout | .refresh | .dateFilter | .textSearch | .admin => False

def Asks (job : Job) (query : String) : Prop :=
  ∃ r view, job = .http r ∧ handler r = some view ∧ viewAsks r query view

/-- The job may save this query for this user: it names the query and has
identified the user, or it has taken a task of theirs from the queue. -/
def Entitled (job : Job) (h : SiteStore.History) (query email : String) : Prop :=
  (Asks job query ∧ Identified (accounts.own h) email) ∨
    ∃ task : VideoStore.Task, ⟨.takeTask, some task⟩ ∈ h ∧ task.query = query ∧ task.user = email

def Acting (h : SiteStore.History) (email : String) : Prop :=
  Identified (accounts.own h) email ∨ ∃ task : VideoStore.Task, ⟨.takeTask, some task⟩ ∈ h ∧ task.user = email

def Admitted : Job → SiteStore.History → Prop
  | .http r, h => CookiePassed r.cookies (accounts.own h)
  | .worker _ _, h => ∃ task, ⟨.takeTask, some task⟩ ∈ h

/-- What a job guarantees about its next call, whatever answers it has seen. -/
def sitePromise (job : Job) (h : SiteStore.History) : Call Cmd Answer → Prop
  | ⟨.account _, _⟩ => True
  | ⟨.takeTask, _⟩ => h = [] ∧ ∃ api now, job = .worker api now
  | ⟨.searchIndex _, _⟩ => Admitted job h
  | ⟨.video c, r⟩ => Admitted job h ∧ (∀ email, subject c = some email → Acting h email) ∧
      (∀ task, c = .delay task → Entitled job h task.query task.user) ∧
      promise (Entitled job h) (videos.own h) ⟨c, r⟩

section Jobs

variable {job : Job} {h h' : SiteStore.History}

theorem Entitled.suffix {query email : String} (he : Entitled job h query email) (hs : h <:+ h') :
    Entitled job h' query email := by
  obtain ⟨ha, hi⟩ | ⟨task, ht, hu⟩ := he
  · exact .inl ⟨ha, hi.mono (own_suffix accounts hs).subset⟩
  · exact .inr ⟨task, hs.subset ht, hu⟩

theorem Entitled.acting {query email : String} (he : Entitled job h query email) : Acting h email := by
  obtain ⟨-, hi⟩ | ⟨task, ht, -, hu⟩ := he
  · exact .inl hi
  · exact .inr ⟨task, ht, hu⟩

theorem Acting.suffix {email : String} (ha : Acting h email) (hs : h <:+ h') : Acting h' email := by
  obtain hi | ⟨task, ht, hu⟩ := ha
  · exact .inl (hi.mono (own_suffix accounts hs).subset)
  · exact .inr ⟨task, hs.subset ht, hu⟩

theorem Admitted.suffix (ha : Admitted job h) (hs : h <:+ h') : Admitted job h' := by
  cases job with
  | http r => exact CookiePassed.suffix ha (own_suffix accounts hs)
  | worker api now =>
    obtain ⟨task, ht⟩ := ha
    exact ⟨task, hs.subset ht⟩

theorem part_videos {x : Call Cmd Answer} {y : Call VideoStore.Cmd VideoStore.Answer}
    (h : videos.part x = some y) : x = ⟨.video y.cmd, y.res⟩ := by
  obtain ⟨c, r⟩ := x
  cases c with
  | video c =>
    obtain rfl := Option.some.inj h
    rfl
  | account | searchIndex | takeTask => cases h

theorem accounts_obeys {γ : Type} {body : AccountStore.Prog γ} {Q : γ → SessionPromises.History → Prop}
    (hb : Obeys (fun _ _ => True) Q body (accounts.own h)) :
    Obeys (sitePromise job) (fun a h' => Q a (accounts.own h') ∧ h <:+ h') (accounts.lift body) h := by
  refine (obeys_since List.suffix_rfl (obeys_lift accounts hb)).mono (fun _ x hx => ?_) fun _ _ hq => hq
  obtain ⟨⟨y, hy, -⟩, -⟩ := hx
  obtain ⟨c, r⟩ := x
  cases c with
  | account c => trivial
  | video | searchIndex | takeTask => cases hy

/-- A part of the video model that acts for one user, run by a job that is
entitled to. -/
theorem videos_obeys {γ : Type} {body : VideoStore.Prog γ} {Q : γ → IngestionPromises.History → Prop}
    {user : Option String} {asks : String → Prop} {source : OrderedDict.Dict Value → Prop} (ha : Admitted job h)
    (hn : ∀ email, user = some email → Acting h email)
    (hu : ∀ query email, asks query → user = some email → Entitled job h query email)
    (hr : ∀ records, source records → ∃ query email, asks query ∧ user = some email ∧
      text records "query" = .ok query ∧ text records "user" = .ok email)
    (hb : Obeys (Does user asks source) Q body (videos.own h)) :
    Obeys (sitePromise job) (fun _ _ => True) (videos.lift body) h := by
  refine (obeys_since List.suffix_rfl (obeys_lift videos hb)).mono (fun h' x hx => ?_) fun _ _ _ => trivial
  obtain ⟨⟨y, hy, hd⟩, hs⟩ := hx
  rw [part_videos hy]
  have hadmitted := ha.suffix hs
  cases hd with
  | pageVideos offset limit videos huser hq | pageQueries queries offset limit docs huser =>
    refine ⟨hadmitted, fun email he => ?_, nofun, read_promise trivial⟩
    obtain rfl := Option.some.inj he
    exact (hn _ huser).suffix hs
  | delay huser hq =>
    refine ⟨hadmitted, fun email he => ?_, fun task ht => ?_, read_promise trivial⟩
    · obtain rfl := Option.some.inj he
      exact (hn _ huser).suffix hs
    · obtain rfl := VideoStore.Cmd.delay.inj ht
      exact (hu _ _ hq huser).suffix hs
  | @insert records _ hsource hstep =>
    obtain ⟨query, owner, hq, huser, htq, htu⟩ := hr records hsource
    have hentitled := (hu query owner hq huser).suffix hs
    refine ⟨hadmitted, fun email he => ?_, fun task ht => ?_, records, hstep.2, fun query' email hquery hemail => ?_⟩
    · obtain rfl := Except.ok.inj (htu.symm.trans (user_of_subject hstep he))
      exact hentitled.acting
    · exact absurd hstep.1 (by simp [ht, inserting])
    · obtain rfl := Except.ok.inj (htq.symm.trans hquery)
      obtain rfl := Except.ok.inj (htu.symm.trans hemail)
      exact hentitled

theorem currentUser_obeys {asks : Bool} {cookies : Cookies} :
    Obeys (sitePromise job)
      (fun user h' => (∀ email, user = some email → Identified (accounts.own h') email) ∧ h <:+ h')
      (currentUser asks cookies) h := by
  cases asks with
  | false => exact ⟨nofun, List.suffix_rfl⟩
  | true =>
    refine (accounts_obeys (getUser_identifies cookies (accounts.own h))).bind fun found h' hf => ?_
    refine ⟨fun email he => ?_, hf.2⟩
    obtain ⟨user, rfl, rfl⟩ := Option.map_eq_some_iff.mp he
    exact hf.1 user rfl

theorem not_exempt {path : String} {view : View} (hr : resolve path = some view)
    (hv : view ∉ .admin :: accountViews) : ¬ exempt path := by
  obtain rfl | hm := mem_urlpatterns hr
  · exact absurd (by decide) hv
  · revert hv
    simp only [urlpatterns, List.mem_cons, Prod.mk.injEq, List.not_mem_nil, or_false] at hm
    obtain ⟨rfl, rfl⟩ | ⟨rfl, rfl⟩ | ⟨rfl, rfl⟩ | ⟨rfl, rfl⟩ | ⟨rfl, rfl⟩ | ⟨rfl, rfl⟩ | ⟨rfl, rfl⟩ |
      ⟨rfl, rfl⟩ | ⟨rfl, rfl⟩ := hm <;> unfold exempt <;> decide

theorem index_obeys {body : Prog IndexResponse} (ha : Admitted job h)
    (hb : ∀ h', h <:+ h' → Obeys (fun _ x => ∃ q, x.cmd = .searchIndex q) (fun _ _ => True) body h') :
    Obeys (sitePromise job) (fun _ _ => True) body h := by
  refine (obeys_since List.suffix_rfl (hb h List.suffix_rfl)).mono (fun h' x hx => ?_) fun _ _ _ => trivial
  obtain ⟨⟨q, hq⟩, hs⟩ := hx
  obtain ⟨c, r⟩ := x
  obtain rfl : c = .searchIndex q := hq
  exact ha.suffix hs

theorem textSearch_obeys (keyword : Option String) :
    Obeys (fun _ x => ∃ q, x.cmd = .searchIndex q) (fun _ _ => True) (textSearch.get keyword) h := by
  unfold textSearch.get
  split
  · exact fun _ => ⟨⟨_, rfl⟩, trivial⟩
  · trivial

theorem dateFilter_obeys (request : FilterRequest) :
    Obeys (fun _ x => ∃ q, x.cmd = .searchIndex q) (fun _ _ => True) (videosWithDateFilter.get request) h := by
  unfold videosWithDateFilter.get
  split
  · trivial
  · split
    · exact fun _ => ⟨⟨_, rfl⟩, trivial⟩
    · trivial

theorem searchView_obeys {γ : Type} {r : HttpRequest} {view : View} (hh : handler r = some view)
    (hv : view ∉ .admin :: accountViews) (hp : exempt r.path ∨ CookiePassed r.cookies (accounts.own h))
    {asksUser : Bool} {body : Option String → VideoStore.Prog γ} (reply : γ → SiteViews.Reply)
    {Q : Option String → γ → IngestionPromises.History → IngestionPromises.History → Prop}
    {asks : String → Prop} {source : Option String → OrderedDict.Dict Value → Prop}
    (hasks : ∀ query, asks query → viewAsks r query view)
    (hr : ∀ user records, source user records → ∃ query email, asks query ∧ user = some email ∧
      text records "query" = .ok query ∧ text records "user" = .ok email)
    (hb : ∀ user h', Obeys (Does user asks (source user)) (Q user · h' ·) (body user) h') :
    Obeys (sitePromise (.http r)) (fun _ _ => True)
      (currentUser asksUser r.cookies >>= fun user => videos.lift (body user) >>= fun a => .ret (reply a)) h := by
  have ha : Admitted (.http r) h := hp.resolve_left (not_exempt (Option.filter_eq_some_iff.mp hh).1 hv)
  refine currentUser_obeys.bind fun user h' hu => ?_
  refine Obeys.bind (Q := fun _ _ => True) ?_ fun _ _ _ => trivial
  refine videos_obeys (ha.suffix hu.2) (fun email huser => .inl (hu.1 email huser))
    (fun query email hask huser => ?_) (hr user) (hb user _)
  exact .inl ⟨⟨r, view, rfl, hh, hasks query hask⟩, hu.1 email huser⟩

theorem view_obeys (env : Env) {r : HttpRequest} {view : View} (hh : handler r = some view)
    (hp : exempt r.path ∨ CookiePassed r.cookies (accounts.own h)) :
    Obeys (sitePromise (.http r)) (fun _ _ => True) (view.program env r) h := by
  have hadmitted : view ∉ .admin :: accountViews → Admitted (.http r) h := fun hv =>
    hp.resolve_left (not_exempt (Option.filter_eq_some_iff.mp hh).1 hv)
  cases view with
  | register | login | logout | refresh =>
    exact (accounts_obeys (obeys_true _ _)).bind fun _ _ _ => trivial
  | searching =>
    refine searchView_obeys hh (by decide) hp _ (fun _ hq => hq) (fun user records hr => ?_) fun user h' =>
      searchingView_obeys r.api r.now ⟨r.q, user, r.offset, r.limit⟩
    obtain ⟨query, email, limit, hs, hr⟩ := hr
    exact ⟨query, email, hs.query, hs.user, text_fetchedRecords hr⟩
  | topic =>
    exact searchView_obeys hh (by decide) hp _ (fun _ hq => hq) (fun _ _ hr => hr.elim) fun user h' =>
      topicRegistration_obeys ⟨r.query, r.videosN, user⟩
  | bulk =>
    exact searchView_obeys hh (by decide) hp _ (fun _ hq => hq) (fun _ _ hr => hr.elim) fun user h' =>
      bulkRegistration_obeys ⟨r.queries, user, r.offset, r.limit⟩
  | dateFilter =>
    exact (index_obeys (hadmitted (by decide)) fun _ _ => dateFilter_obeys _).bind fun _ _ _ => trivial
  | textSearch =>
    exact (index_obeys (hadmitted (by decide)) fun _ _ => textSearch_obeys _).bind fun _ _ _ => trivial
  | admin => trivial

theorem job_obeys (env : Env) (job : Job) : Obeys (sitePromise job) (fun _ _ => True) (job.program env) [] := by
  cases job with
  | http r =>
    rw [Job.program, program_eq]
    refine (accounts_obeys (processRequest_passes r.path r.cookies)).bind fun _ h' hp => ?_
    cases hh : handler r with
    | none => trivial
    | some view => exact view_obeys env hh hp.1
  | worker api now =>
    refine fun task => ⟨⟨rfl, api, now, rfl⟩, ?_⟩
    cases task with
    | none => trivial
    | some task =>
      have ha : Admitted (.worker api now) [⟨.takeTask, some task⟩] := ⟨task, List.mem_cons_self⟩
      have hentitled : ∀ query email, query = task.query → some task.user = some email →
          Entitled (.worker api now) [⟨.takeTask, some task⟩] query email :=
        fun query email hq he => .inr ⟨task, List.mem_cons_self, hq.symm, Option.some.inj he⟩
      refine (videos_obeys ha (fun email he => (hentitled task.query email rfl he).acting) hentitled
        (fun records hr => ?_) (fetchYoutubeData_obeys api task.user task.n task.query now)).bind fun _ _ _ => trivial
      exact ⟨task.query, task.user, rfl, rfl, text_fetchedRecords hr⟩

theorem start_lawful (env : Env) (clock : Nat) (users : List AccountStore.User) (jobs : Nat → Job) :
    Lawful (fun i => sitePromise (jobs i)) (fun _ _ _ => True) (SiteViews.start env clock users jobs) :=
  fun i => job_obeys env (jobs i)

end Jobs

variable {env : Env} {ok : Pool Cmd Answer Exn SiteViews.Reply Store → Move Exn Event → Prop} {clock : Nat}
  {users : List AccountStore.User} {jobs : Nat → Job} {P : Pool Cmd Answer Exn SiteViews.Reply Store}

/-- Whatever its path, method and cookies, a request reaches the collections of
the videos, the index or the queue only after it has verified a token that
stood under the key of its own `jwt` cookie. -/
theorem data_needs_token (hr : Runs (machine env) ok (SiteViews.start env clock users jobs) P)
    (e : Entry Cmd Answer Store) (older : Trace) (he : e :: older <:+ P.trace) (r : HttpRequest)
    (hj : jobs e.pid = .http r) (hc : ∀ c, e.call.cmd ≠ .account c) :
    CookiePassed r.cookies (accounts.own (own e.pid older)) := by
  have hp := (start_lawful env clock users jobs).past rfl hr he
  obtain ⟨i, ⟨c, a⟩, s⟩ := e
  simp only [hj] at hp
  cases c with
  | account c => exact absurd rfl (hc c)
  | video c => exact hp.1
  | searchIndex q => exact hp
  | takeTask =>
    obtain ⟨-, api, now, hw⟩ := hp
    cases hw

def beyondAccounts : Cmd → Bool
  | .account _ => false
  | .video _ | .searchIndex _ | .takeTask => true

theorem topic_last : (demoRun topicMoves).trace.head?.any
    (fun e => decide (e.pid = 1) && beyondAccounts e.call.cmd) = true := by
  decide +kernel

theorem data_needs_token_topic : ∃ e older, (demoRun topicMoves).trace = e :: older ∧
    beyondAccounts e.call.cmd = true ∧ CookiePassed ⟨some "cccccccccc", none⟩ (accounts.own (own 1 older)) := by
  have hlast := topic_last
  cases ht : (demoRun topicMoves).trace with
  | nil =>
    rw [ht] at hlast
    cases hlast
  | cons e older =>
    rw [ht, List.head?_cons, Option.any_some, Bool.and_eq_true, decide_eq_true_eq] at hlast
    obtain ⟨hpid, hcmd⟩ := hlast
    refine ⟨e, older, rfl, hcmd, hpid ▸ data_needs_token (runs_demoRun topicMoves) e older ?_
      (blankRequest .post "/search/register") ?_ ?_⟩
    · rw [ht]
    · rw [hpid]
      rfl
    · intro c hc
      rw [hc] at hcmd
      cases hcmd

/-- The user is registered, and a request that names the query has verified a
token of theirs. -/
def Known (jobs : Nat → Job) (s : Store) (t : Trace) (query email : String) : Prop :=
  s.accounts.user email ≠ none ∧ ∃ e ∈ t, Asks (jobs e.pid) query ∧ ∃ token secret payload,
    e.call = ⟨.account (.decode token (some secret)), .ok payload⟩ ∧ payload.id = email

/-- Every queued task and every saved document goes back to such a request. -/
structure Owned (jobs : Nat → Job) (s : Store) (t : Trace) : Prop where
  found : ∀ e ∈ t, ∀ id user, e.call = ⟨.account (.findUser (.str id)), some user⟩ →
    user.email = id ∧ s.accounts.user id ≠ none
  taken : ∀ e ∈ t, ∀ task, e.call = ⟨.takeTask, some task⟩ → task ∈ s.videos.tasks
  tasks : ∀ task ∈ s.videos.tasks, Known jobs s t task.query task.user
  docs : ∀ x ∈ s.videos.queryModel.docs, Known jobs s t x.2.query x.2.user
  read : QueryUniqueness.ReadDocuments s.videos (t.filterMap (videos.entry Store.videos))

section Steps

variable {s s' : Store} {t : Trace} {query email : String}

theorem Known.cons (h : Known jobs s t query email)
    (hs : s.accounts.user email ≠ none → s'.accounts.user email ≠ none) (e : Entry Cmd Answer Store) :
    Known jobs s' (e :: t) query email := by
  obtain ⟨hu, x, hx, hd⟩ := h
  exact ⟨hs hu, x, List.mem_cons_of_mem e hx, hd⟩

theorem mem_of_accounts {i : Nat} {y : Call AccountStore.Cmd AccountStore.Answer}
    (h : y ∈ accounts.own (own i t)) : ∃ e ∈ t, e.pid = i ∧ e.call = ⟨.account y.cmd, y.res⟩ := by
  obtain ⟨⟨c, r⟩, hx, hy⟩ := List.mem_filterMap.mp h
  obtain ⟨e, he, hpid, hcall⟩ := mem_own.mp hx
  cases c with
  | account c =>
    obtain rfl := Option.some.inj hy
    exact ⟨e, he, hpid, hcall⟩
  | video | searchIndex | takeTask => cases hy

theorem Owned.known (h : Owned jobs s t) {i : Nat} (he : Entitled (jobs i) (own i t) query email) :
    Known jobs s t query email := by
  obtain ⟨hask, token, secret, payload, user, hd, hf, rfl⟩ | ⟨task, ht, rfl, rfl⟩ := he
  · obtain ⟨x, hx, rfl, hcall⟩ := mem_of_accounts hd
    obtain ⟨y, hy, -, hfound⟩ := mem_of_accounts hf
    obtain ⟨hemail, hreg⟩ := h.found y hy _ _ hfound
    rw [hemail]
    exact ⟨hreg, x, hx, hask, token, secret, payload, hcall, rfl⟩
  · obtain ⟨x, hx, -, hcall⟩ := mem_own.mp ht
    exact h.tasks task (h.taken x hx task hcall)

theorem owned_account {i : Nat} (h : Owned jobs s t) (c : AccountStore.Cmd) :
    Owned jobs (exec env (.account c) s).2 (⟨i, ⟨.account c, (exec env (.account c) s).1⟩, s⟩ :: t) := by
  have hu : ∀ email, s.accounts.user email ≠ none → (exec env (.account c) s).2.accounts.user email ≠ none :=
    fun _ hn => AccountStore.user_exec_ne_none hn
  refine ⟨List.forall_mem_cons.mpr ⟨fun id user hcall => ?_, fun x hx id user hcall => ?_⟩,
    List.forall_mem_cons.mpr ⟨nofun, h.taken⟩, fun task ht => (h.tasks task ht).cons (hu _) _,
    fun x hx => (h.docs x hx).cons (hu _) _, h.read⟩
  · obtain rfl : c = .findUser (.str id) := Cmd.account.inj (congrArg Call.cmd hcall)
    have hfind : (exec env (.account (.findUser (.str id))) s).1 = some user := by
      simp only [Call.mk.injEq, true_and, heq_eq_eq] at hcall
      exact hcall
    have hlookup : s.accounts.user id = some user := (AccountStore.find_str _ id s.accounts).symm.trans hfind
    exact ⟨KeyedList.key_of_lookup hlookup, hu id (by simp [hlookup])⟩
  · obtain ⟨hemail, hreg⟩ := h.found x hx id user hcall
    exact ⟨hemail, hu id hreg⟩

theorem tasks_cases (venv : VideoStore.Env) (c : VideoStore.Cmd) (v : VideoStore.Store) :
    (VideoStore.exec venv c v).2.tasks = v.tasks ∨
      ∃ task, c = .delay task ∧ (VideoStore.exec venv c v).2.tasks = v.tasks ++ [task] := by
  cases c with
  | delay task => exact .inr ⟨task, rfl, rfl⟩
  | saveVideo video => exact .inl (by by_cases ha : venv.acceptsVideo video <;> simp [VideoStore.exec, ha])
  | saveQuery oid d => exact .inl (by by_cases ha : venv.acceptsQuery d <;> simp [VideoStore.exec, ha])
  | insertQuery d => exact .inl (by by_cases ha : venv.acceptsQuery d <;> simp [VideoStore.exec, ha])
  | findVideo | index | findQuery | pageVideos | pageQueries => exact .inl rfl

/-- A document that a call leaves behind is for the query and the user of a
document that was there, or for ones that the job may act on. -/
theorem Owned.doc_known (h : Owned jobs s t) {i : Nat} {c : VideoStore.Cmd}
    (hp : sitePromise (jobs i) (own i t) ⟨.video c, (VideoStore.exec env.videos c s.videos).1⟩)
    {x : Nat × VideoStore.QueryDoc} (hx : x ∈ (VideoStore.exec env.videos c s.videos).2.queryModel.docs) :
    Known jobs s t x.2.query x.2.user := by
  obtain ⟨-, -, -, hvideo⟩ := hp
  have hv := hvideo
  rw [← own_entries videos Store.videos] at hv
  obtain he | ⟨oid, d, rfl, he⟩ | ⟨d, rfl, he⟩ := QueryUniqueness.queryModel_cases env.videos c s.videos
  · rw [he] at hx
    exact h.docs x hx
  · rw [he] at hx
    obtain rfl | hx := Documents.mem_of_mem_replace hx
    · obtain ⟨doc, hdoc, hq, hu⟩ := QueryUniqueness.saved_read h.read hv
      rw [← hq, ← hu]
      exact h.docs _ hdoc
    · exact h.docs x hx
  · rw [he] at hx
    obtain hx | rfl := Documents.mem_insert.mp hx
    · exact h.docs x hx
    · obtain ⟨records, ⟨rest, -, hq, hu, -⟩, hfor⟩ := hvideo
      exact h.known (hfor _ _ hq hu)

theorem owned_video {i : Nat} {c : VideoStore.Cmd} (h : Owned jobs s t)
    (hp : sitePromise (jobs i) (own i t) ⟨.video c, (VideoStore.exec env.videos c s.videos).1⟩) :
    Owned jobs (exec env (.video c) s).2 (⟨i, ⟨.video c, (exec env (.video c) s).1⟩, s⟩ :: t) := by
  have hsub : ∀ task ∈ s.videos.tasks, task ∈ (VideoStore.exec env.videos c s.videos).2.tasks := by
    intro task ht
    obtain he | ⟨task', -, he⟩ := tasks_cases env.videos c s.videos
    · rwa [he]
    · rw [he]
      exact List.mem_append_left _ ht
  refine ⟨List.forall_mem_cons.mpr ⟨nofun, h.found⟩,
    List.forall_mem_cons.mpr ⟨nofun, fun x hx task hcall => hsub _ (h.taken x hx task hcall)⟩,
    fun task ht => ?_, fun x hx => (h.doc_known hp hx).cons id _, ?_⟩
  · obtain he | ⟨task', rfl, he⟩ := tasks_cases env.videos c s.videos
    · exact (h.tasks task (he ▸ ht)).cons id _
    · obtain ht | ht := List.mem_append.mp (he ▸ ht)
      · exact (h.tasks task ht).cons id _
      · obtain rfl := List.mem_singleton.mp ht
        exact (h.known (hp.2.2.1 task rfl)).cons id _
  · have hv := hp.2.2.2
    rw [← own_entries videos Store.videos] at hv
    exact QueryUniqueness.readDocuments_call h.read hv

theorem owned_take (env : Env) {i : Nat} (h : Owned jobs s t) :
    Owned jobs (exec env .takeTask s).2 (⟨i, ⟨.takeTask, (exec env .takeTask s).1⟩, s⟩ :: t) := by
  obtain ⟨ha, hv⟩ := takeTask_parts env s
  have hu : ∀ email, s.accounts.user email ≠ none → (exec env .takeTask s).2.accounts.user email ≠ none :=
    fun _ hn => ha ▸ hn
  refine ⟨?_, ?_, ?_, ?_, ?_⟩
  · rw [ha]
    exact List.forall_mem_cons.mpr ⟨nofun, h.found⟩
  · rw [hv]
    refine List.forall_mem_cons.mpr ⟨fun task hcall => ?_, h.taken⟩
    have hres : (exec env .takeTask s).1 = some task := by
      simp only [Call.mk.injEq, true_and, heq_eq_eq] at hcall
      exact hcall
    simp only [exec] at hres
    split at hres
    · next task' htask =>
      obtain rfl := Option.some.inj hres
      exact List.mem_of_getElem? htask
    · cases hres
  · rw [hv]
    exact fun task ht => (h.tasks task ht).cons (hu _) _
  · rw [hv]
    exact fun x hx => (h.docs x hx).cons (hu _) _
  · rw [hv]
    exact h.read

theorem owned_search {i : Nat} (h : Owned jobs s t) (q : IndexQuery) :
    Owned jobs (exec env (.searchIndex q) s).2 (⟨i, ⟨.searchIndex q, (exec env (.searchIndex q) s).1⟩, s⟩ :: t) :=
  ⟨List.forall_mem_cons.mpr ⟨nofun, h.found⟩, List.forall_mem_cons.mpr ⟨nofun, h.taken⟩,
    fun task ht => (h.tasks task ht).cons id _, fun x hx => (h.docs x hx).cons id _, h.read⟩

end Steps

theorem owned_of_runs (hr : Runs (machine env) ok (SiteViews.start env clock users jobs) P) :
    Owned jobs P.store P.trace := by
  have hch : Chronicle (machine env) (fun i => sitePromise (jobs i)) (Owned jobs) P.store P.trace := by
    refine Chronicle.of_runs (start_lawful env clock users jobs) rfl ?_ ?_ ?_ hr
    · refine ⟨by simp, by simp, by simp [SiteViews.start, VideoStore.Store.empty], ?_,
        by simp [QueryUniqueness.ReadDocuments]⟩
      simp [SiteViews.start, VideoStore.Store.empty, Documents.empty]
    · intro s t i c h hp
      cases c with
      | account c => exact owned_account h c
      | video c => exact owned_video h hp
      | searchIndex q => exact owned_search h q
      | takeTask => exact owned_take env h
    · intro x s t h
      cases x with
      | tick ms => exact ⟨h.found, h.taken, h.tasks, h.docs, h.read⟩
      | refresh => exact ⟨h.found, h.taken, h.tasks, h.docs, h.read⟩
  exact hch.now

/-- Tokens that are made or verified go back to a login that accepted the
password of their user. -/
theorem tokenOrigin_of_runs {aenv : AccountStore.Env} {reqs : Nat → Request}
    {ok : Pool AccountStore.Cmd AccountStore.Answer Exn AccountViews.Reply AccountStore.Store → Move Exn Nat → Prop}
    {Q : Pool AccountStore.Cmd AccountStore.Answer Exn AccountViews.Reply AccountStore.Store}
    (hr : Runs (AccountStore.machine aenv) ok (SessionPromises.start aenv clock users reqs) Q)
    (hg : SessionSoundness.Genuine Q.trace) : SessionSoundness.TokenOrigin aenv reqs Q.trace := by
  have hch : Chronicle (AccountStore.machine aenv) (fun i => SessionPromises.promise aenv (reqs i))
      (fun _ t => SessionSoundness.Genuine t → SessionSoundness.TokenOrigin aenv reqs t) Q.store Q.trace := by
    refine Chronicle.of_runs (SessionPromises.start_lawful aenv clock users reqs) rfl ?_ ?_ ?_ hr
    · exact fun _ => ⟨by simp, by simp⟩
    · intro s t i c h hp hg
      exact SessionSoundness.tokenOrigin_cons (h hg.1) hp hg
    · exact fun _ _ _ h => h
  exact hch.now hg

def LoggedIn (env : Env) (jobs : Nat → Job) (t : Trace) (email : String) : Prop :=
  ∃ i r user, jobs i = .http r ∧ handler r = some .login ∧
    SessionPromises.Verified env.accounts r.loginData user (accounts.own (own i t)) ∧ user.email = email

theorem login_of_request {job : Job} {draws : Draws} {data : LoginData}
    (h : accountRequest job = .login draws data) :
    ∃ r, job = .http r ∧ handler r = some .login ∧ data = r.loginData := by
  cases job with
  | worker api now => cases h
  | http r =>
    change httpRequest r = .login draws data at h
    unfold httpRequest at h
    split at h
    · next view hh =>
      cases view with
      | login =>
        obtain ⟨-, rfl⟩ := Request.login.inj h
        exact ⟨r, rfl, hh, rfl⟩
      | register | logout | refresh | searching | topic | bulk | dateFilter | textSearch | admin => cases h
    · cases h

/-- Whatever requests and workers do, a task is queued or a document saved for
a query and a user only if the user is registered, has logged in, and has had
a token verified by a request that names the query. -/
theorem owners_asked (hr : Runs (machine env) ok (SiteViews.start env clock users jobs) P)
    (hg : SessionSoundness.Genuine (P.trace.filterMap (accounts.entry Store.accounts))) (query email : String)
    (hu : (∃ task ∈ P.store.videos.tasks, task.query = query ∧ task.user = email) ∨
      ∃ x ∈ P.store.videos.queryModel.docs, x.2.query = query ∧ x.2.user = email) :
    P.store.accounts.user email ≠ none ∧ LoggedIn env jobs P.trace email ∧
      ∃ e ∈ P.trace, Asks (jobs e.pid) query ∧ ∃ token secret payload,
        e.call = ⟨.account (.decode token (some secret)), .ok payload⟩ ∧ payload.id = email := by
  have hown := owned_of_runs hr
  have hk : Known jobs P.store P.trace query email := by
    obtain ⟨task, ht, rfl, rfl⟩ | ⟨x, hx, rfl, rfl⟩ := hu
    · exact hown.tasks task ht
    · exact hown.docs x hx
  obtain ⟨hreg, e, he, hask, token, secret, payload, hcall, rfl⟩ := hk
  refine ⟨hreg, ?_, e, he, hask, token, secret, payload, hcall, rfl⟩
  obtain ⟨Q, hQ, -, ht, -⟩ := accounts_run hr
  have horigin := tokenOrigin_of_runs hQ (ht ▸ hg)
  have hm : (⟨e.pid, ⟨.decode token (some secret), .ok payload⟩, e.before.accounts⟩ :
      Entry AccountStore.Cmd AccountStore.Answer AccountStore.Store) ∈ Q.trace := by
    rw [ht]
    exact List.mem_filterMap.mpr ⟨e, he, by rw [Embedding.entry, hcall]; rfl⟩
  obtain ⟨login, draws, data, user, hq, -, hv, hid⟩ := horigin.decoded _ hm token secret payload rfl
  obtain ⟨r, hjob, hh, rfl⟩ := login_of_request hq
  rw [ht, own_entries] at hv
  exact ⟨login, r, user, hjob, hh, hv, hid⟩

theorem worked_genuine : TokenVerification.Sound.check
    (((demoRun workedMoves).trace.filterMap (accounts.entry Store.accounts)).map Entry.call) = true := by
  decide +kernel

theorem owners_asked_topic : LoggedIn demoEnv demoJobs (demoRun workedMoves).trace "user@example.com" := by
  have hd := demo_documents
  have hx : ("celery videos", "user@example.com") ∈ (demoRun workedMoves).store.videos.queryModel.docs.map
      (fun x => (x.2.query, x.2.user)) := by
    rw [hd]
    exact List.mem_singleton.mpr rfl
  obtain ⟨x, hx, hxd⟩ := List.mem_map.mp hx
  obtain ⟨hq, hu⟩ := Prod.mk.inj hxd
  exact (owners_asked (runs_demoRun workedMoves) (SessionSoundness.genuine_of_check worked_genuine)
    "celery videos" "user@example.com" (.inr ⟨x, hx, hq, hu⟩)).2.1

end YoutubeRecords.SiteProvenance
