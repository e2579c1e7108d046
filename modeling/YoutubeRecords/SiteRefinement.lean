import YoutubeRecords.ElasticAgreement
import YoutubeRecords.Registration
import YoutubeRecords.SessionSoundness
import YoutubeRecords.SiteViews

namespace YoutubeRecords.SiteRefinement

open CommandProgram ProgramPool CommandEmbedding PythonBasics AccountViews VideoIngestion SearchViews
  IngestionPromises SiteStore SiteViews

def viewRequest (r : HttpRequest) : View → Request
  | .register => .register r.salt r.registerData
  | .login => .login r.draws r.loginData
  | .logout => .logout r.cookies
  | .refresh => .refresh r.cookies
  | .searching => .protectedView r.path r.cookies true
  | .topic => .protectedView r.path r.cookies (topicRegistration.asks r.query)
  | .bulk => .protectedView r.path r.cookies (bulkRegistration.asks r.queries r.offset r.limit)
  | .dateFilter | .textSearch | .admin => .protectedView r.path r.cookies false

def handler (r : HttpRequest) : Option View := (resolve r.path).filter (fun view => view.allows r.method)

def httpRequest (r : HttpRequest) : Request :=
  match handler r with
  | some view => viewRequest r view
  | none => .protectedView r.path r.cookies false

/-- What a job is in the account model. A worker issues no command there, like
a request that passes the middleware by its path. -/
def accountRequest : Job → Request
  | .http r => httpRequest r
  | .worker _ _ => .protectedView "/admin/" ⟨none, none⟩ false

def idle : Execution := .topic ⟨.null, .null, none⟩

def viewExecution (r : HttpRequest) (user : Option String) : View → Execution
  | .searching => .search r.api r.now ⟨r.q, user, r.offset, r.limit⟩
  | .topic => .topic ⟨r.query, r.videosN, user⟩
  | .bulk => .bulk ⟨r.queries, user, r.offset, r.limit⟩
  | .register | .login | .logout | .refresh | .dateFilter | .textSearch | .admin => idle

def httpExecution (r : HttpRequest) (user : Option String) : Execution :=
  match handler r with
  | some view => viewExecution r user view
  | none => idle

/-- The executions of the video model that a job may turn out to be: a worker
that has taken a task fetches for it. -/
def Plays : Job → SiteStore.History → Execution → Prop
  | .http r, _, e => ∃ user, e = httpExecution r user
  | .worker api now, h, e => e = idle ∨ ∃ task : VideoStore.Task, ⟨.takeTask, some task⟩ ∈ h ∧
      e = .fetch api task.user task.n task.query now

theorem foreign_video (d : VideoStore.Cmd) : accounts.Foreign (videos.cmd d) := fun _ => rfl

theorem foreign_account (d : AccountStore.Cmd) : videos.Foreign (accounts.cmd d) := fun _ => rfl

theorem mem_urlpatterns {path : String} {view : View} (h : resolve path = some view) :
    view = .admin ∨ (path, view) ∈ urlpatterns := by
  unfold resolve at h
  split at h
  · exact .inl (Option.some.inj h).symm
  · refine .inr ?_
    obtain ⟨l, m, hl, -⟩ := List.lookup_eq_some_iff.mp h
    rw [hl]
    simp

def accountViews : List View := [.register, .login, .logout, .refresh]

theorem path_of_accountView {path : String} {view : View} (h : resolve path = some view)
    (hv : view ∈ accountViews) : path ∈ authenticationPaths := by
  obtain rfl | hm := mem_urlpatterns h
  · exact absurd hv (by decide)
  · revert hv
    simp only [urlpatterns, List.mem_cons, Prod.mk.injEq, List.not_mem_nil, or_false] at hm
    obtain ⟨rfl, rfl⟩ | ⟨rfl, rfl⟩ | ⟨rfl, rfl⟩ | ⟨rfl, rfl⟩ | ⟨rfl, rfl⟩ | ⟨rfl, rfl⟩ | ⟨rfl, rfl⟩ |
      ⟨rfl, rfl⟩ | ⟨rfl, rfl⟩ := hm <;> decide

theorem program_eq (env : Env) (r : HttpRequest) : r.program env =
    (accounts.lift (processRequest r.path r.cookies) >>= fun _ =>
      match handler r with
      | some view => view.program env r
      | none => .ret (.refused (if (resolve r.path).isSome then 405 else 404))) := by
  unfold HttpRequest.program handler
  congr 1
  funext _
  cases hr : resolve r.path with
  | none => rfl
  | some view => cases ha : view.allows r.method <;> simp [Option.filter, ha]

def SameReply (reply : SiteViews.Reply) (p : AccountStore.Prog AccountViews.Reply) : Prop :=
  ∃ answer, p = .ret answer ∧ ∀ response, reply = .account response → answer = .response response

section Accounts

variable {env : Env} {r : HttpRequest}

theorem processRequest_exempt {path : String} (h : path ∈ authenticationPaths) (cookies : Cookies) :
    processRequest path cookies = .ret () := by
  unfold processRequest
  rw [if_pos (.inl h)]
  rfl

theorem accountView_shadows (post : AccountStore.Prog Response) :
    Shadows accounts SameReply (accounts.lift post >>= fun a => .ret (.account a))
      (post >>= fun a => .ret (.response a)) :=
  .lift_bind fun _ => .ret ⟨_, rfl, fun _ h => congrArg _ (Reply.account.inj h)⟩

/-- Behind the middleware, a search view asks the account model for its user
at most once, and issues no other command of it. -/
theorem searchView_shadows {γ : Type} (asks : Bool) (cookies : Cookies)
    (body : Option String → VideoStore.Prog γ) (reply : γ → SiteViews.Reply)
    (hr : ∀ a response, reply a ≠ .account response) :
    Shadows accounts SameReply
      (currentUser asks cookies >>= fun user => videos.lift (body user) >>= fun a => .ret (reply a))
      (if asks then getUser cookies.jwt >>= fun user => .ret (.userView user) else .ret .view) := by
  have hbody : ∀ user answer, Shadows accounts SameReply
      (videos.lift (body user) >>= fun a => .ret (reply a)) (.ret answer) := fun user answer =>
    .foreign_bind foreign_video fun a => .ret ⟨answer, rfl, fun response h => absurd h (hr a response)⟩
  cases asks with
  | false => exact hbody none .view
  | true =>
    simp only [currentUser, if_true, bind_bind]
    exact .lift_bind fun user => hbody _ _

end Accounts

section IndexViews

variable {C : Type} {R : C → Type} {α : Type} {ι : Embedding C R Cmd Answer}
  {End : SiteViews.Reply → Program C R Exn α → Prop} {p : Program C R Exn α}

theorem textSearch_shadows (hι : ∀ q, ι.Foreign (.searchIndex q)) (h : ∀ a, End (.index a) p)
    (keyword : Option String) :
    Shadows ι End (textSearch.get keyword >>= fun a => .ret (.index a)) p := by
  unfold textSearch.get
  split
  · exact .foreign (hι _) fun _ => .ret (h _)
  · exact .ret (h _)

theorem dateFilter_shadows (hι : ∀ q, ι.Foreign (.searchIndex q)) (h : ∀ a, End (.index a) p)
    (request : FilterRequest) :
    Shadows ι End (videosWithDateFilter.get request >>= fun a => .ret (.index a)) p := by
  unfold videosWithDateFilter.get
  split
  · exact .ret (h _)
  · split
    · exact .foreign (hι _) fun _ => .ret (h _)
    · exact .ret (h _)

end IndexViews

section Accounts

variable {env : Env} {r : HttpRequest}

theorem view_shadows {view : View} (hv : view ∉ accountViews) :
    Shadows accounts SameReply (accounts.lift (processRequest r.path r.cookies) >>= fun _ => view.program env r)
      ((viewRequest r view).program env.accounts) := by
  have hend : ∀ a, SameReply (.index a) (.ret .view) := fun a => ⟨_, rfl, nofun⟩
  have hι : ∀ q, accounts.Foreign (.searchIndex q) := fun q => foreign_accounts nofun
  cases view with
  | register | login | logout | refresh => exact absurd (by decide) hv
  | searching => exact .lift_bind fun _ => searchView_shadows true r.cookies _ _ nofun
  | topic => exact .lift_bind fun _ => searchView_shadows _ r.cookies _ _ nofun
  | bulk => exact .lift_bind fun _ => searchView_shadows _ r.cookies _ _ nofun
  | dateFilter => exact .lift_bind fun _ => dateFilter_shadows hι hend _
  | textSearch => exact .lift_bind fun _ => textSearch_shadows hι hend _
  | admin => exact .lift_bind fun _ => .ret ⟨_, rfl, nofun⟩

theorem accountView_program {view : View} (hv : view ∈ accountViews) :
    Shadows accounts SameReply (view.program env r) ((viewRequest r view).program env.accounts) := by
  cases view with
  | register | login | logout | refresh => exact accountView_shadows _
  | searching | topic | bulk | dateFilter | textSearch | admin => exact absurd hv (by decide)

theorem http_shadows (env : Env) (r : HttpRequest) :
    Shadows accounts SameReply (r.program env) ((httpRequest r).program env.accounts) := by
  rw [program_eq, httpRequest]
  cases hh : handler r with
  | none => exact .lift_bind fun _ => .ret ⟨_, rfl, nofun⟩
  | some view =>
    by_cases hv : view ∈ accountViews
    · have hres : resolve r.path = some view := (Option.filter_eq_some_iff.mp hh).1
      rw [processRequest_exempt (path_of_accountView hres hv)]
      exact accountView_program hv
    · exact view_shadows hv

theorem job_shadows (env : Env) (job : Job) :
    Shadows accounts SameReply (job.program env) ((accountRequest job).program env.accounts) := by
  cases job with
  | http r => exact http_shadows env r
  | worker api now =>
    have hreq : (accountRequest (.worker api now)).program env.accounts = .ret .view := by
      simp only [accountRequest, Request.program, processRequest]
      rw [if_pos (.inr (by decide))]
      rfl
    rw [hreq]
    refine .foreign (foreign_accounts nofun) fun task => ?_
    cases task with
    | none => exact .ret ⟨_, rfl, nofun⟩
    | some task => exact .foreign_bind foreign_video fun _ => .ret ⟨_, rfl, nofun⟩

/-- Seen from Redis and the users, every run of the site is a run of the
account model: the jobs as its requests, the same calls in the same order. -/
theorem accounts_run {ok : Pool Cmd Answer Exn SiteViews.Reply Store → Move Exn Event → Prop} {clock : Nat}
    {users : List AccountStore.User} {jobs : Nat → Job} {P : Pool Cmd Answer Exn SiteViews.Reply Store}
    (hr : Runs (machine env) ok (SiteViews.start env clock users jobs) P) :
    ∃ Q, Runs (AccountStore.machine env.accounts) (fun _ _ => True)
        (SessionPromises.start env.accounts clock users (fun i => accountRequest (jobs i))) Q ∧
      Q.store = P.store.accounts ∧ Q.trace = P.trace.filterMap (accounts.entry Store.accounts) ∧
      ∀ i reply, P.procs i = .ret reply → SameReply reply (Q.procs i) := by
  have hp : ∀ i, Becomes accounts SameReply (fun _ p => p = (accountRequest (jobs i)).program env.accounts) []
      ((SiteViews.start env clock users jobs).procs i) := fun i => .bound _ rfl (job_shadows env (jobs i))
  obtain ⟨ps, Q, hps, hQ, hs, ht, hend⟩ :=
    projects (accounts_component env) rfl (fun _ => standing_eq _) hp hr
  obtain rfl : ps = fun i => (accountRequest (jobs i)).program env.accounts := funext hps
  exact ⟨Q, hQ, hs, ht, hend⟩

end Accounts

section Videos

variable {env : Env} {r : HttpRequest}

def Ended (_ : SiteViews.Reply) (p : VideoStore.Prog Unit) : Prop := p = .ret ()

def IsExecution (job : Job) (h : SiteStore.History) (p : VideoStore.Prog Unit) : Prop :=
  ∃ e, Plays job h e ∧ p = e.program

theorem standing_isExecution (job : Job) : Standing (IsExecution job) := by
  constructor
  · intro h
    cases job with
    | http r => exact ⟨_, _, ⟨none, rfl⟩, rfl⟩
    | worker api now => exact ⟨_, idle, .inl rfl, rfl⟩
  · rintro h h' p ⟨e, he, hp⟩ hs
    refine ⟨e, ?_, hp⟩
    cases job with
    | http r => exact he
    | worker api now => exact he.imp_right fun ⟨task, ht, he⟩ => ⟨task, hs.subset ht, he⟩

variable {h : SiteStore.History}

theorem currentUser_becomes {job : Job} {asks : Bool} {cookies : Cookies}
    {f : Option String → Prog SiteViews.Reply} (hf : ∀ user h, Becomes videos Ended (IsExecution job) h (f user)) :
    Becomes videos Ended (IsExecution job) h (currentUser asks cookies >>= f) := by
  cases asks with
  | false => exact hf none h
  | true =>
    simp only [currentUser, if_true, bind_bind]
    exact .foreign_bind foreign_account (standing_isExecution job) fun user => hf _

theorem execution_becomes {job : Job} {e : Execution} {γ : Type} {body : VideoStore.Prog γ}
    (he : Plays job h e) (hp : e.program = body >>= fun _ => .ret ()) (reply : γ → SiteViews.Reply) :
    Becomes videos Ended (IsExecution job) h (videos.lift body >>= fun a => .ret (reply a)) := by
  refine .bound _ ⟨e, he, rfl⟩ ?_
  rw [hp]
  exact .lift_bind fun _ => .ret rfl

theorem idle_becomes {job : Job} {body : Prog SiteViews.Reply} (he : Plays job h idle)
    (hs : Shadows videos Ended body (.ret ())) : Becomes videos Ended (IsExecution job) h body :=
  .bound (.ret ()) ⟨idle, he, rfl⟩ hs

theorem view_becomes {view : View} (hh : handler r = some view) :
    Becomes videos Ended (IsExecution (.http r)) h (view.program env r) := by
  have hx : ∀ user h, Plays (.http r) h (viewExecution r user view) := fun user h => ⟨user, by
    rw [httpExecution, hh]⟩
  have hι : ∀ q, videos.Foreign (.searchIndex q) := fun q => foreign_videos nofun
  cases view with
  | register | login | logout | refresh =>
    exact idle_becomes (hx none h) (.foreign_bind foreign_account fun _ => .ret rfl)
  | searching => exact currentUser_becomes fun user h => execution_becomes (hx user h) rfl _
  | topic => exact currentUser_becomes fun user h => execution_becomes (hx user h) rfl _
  | bulk => exact currentUser_becomes fun user h => execution_becomes (hx user h) rfl _
  | dateFilter => exact idle_becomes (hx none h) (dateFilter_shadows hι (fun _ => rfl) _)
  | textSearch => exact idle_becomes (hx none h) (textSearch_shadows hι (fun _ => rfl) _)
  | admin => exact idle_becomes (hx none h) (.ret rfl)

theorem job_becomes (env : Env) (job : Job) :
    Becomes videos Ended (IsExecution job) [] (job.program env) := by
  cases job with
  | http r =>
    rw [Job.program, program_eq]
    refine .foreign_bind foreign_account (standing_isExecution _) fun _ h => ?_
    cases hh : handler r with
    | none => exact idle_becomes ⟨none, by rw [httpExecution, hh]⟩ (.ret rfl)
    | some view => exact view_becomes hh
  | worker api now =>
    refine .foreign (foreign_videos nofun) fun task => ?_
    cases task with
    | none => exact idle_becomes (.inl rfl) (.ret rfl)
    | some task =>
      have hplays : Plays (.worker api now) [⟨.takeTask, some task⟩]
          (.fetch api task.user task.n task.query now) := .inr ⟨task, List.mem_cons_self, rfl⟩
      exact execution_becomes hplays rfl _

/-- Seen from the collections of the videos, the index and the queue, every run
of the site is a run of the video model. -/
theorem videos_run {ok : Pool Cmd Answer Exn SiteViews.Reply Store → Move Exn Event → Prop} {clock : Nat}
    {users : List AccountStore.User} {jobs : Nat → Job} {P : Pool Cmd Answer Exn SiteViews.Reply Store}
    (hr : Runs (machine env) ok (SiteViews.start env clock users jobs) P) :
    ∃ execs Q, (∀ i, Plays (jobs i) (own i P.trace) (execs i)) ∧
      Runs (VideoStore.machine env.videos) (fun _ _ => True)
        (IngestionPromises.start VideoStore.Store.empty execs) Q ∧
      Q.store = P.store.videos ∧ Q.trace = P.trace.filterMap (videos.entry Store.videos) ∧
      ∀ i reply, P.procs i = .ret reply → Q.procs i = .ret () := by
  have hp : ∀ i, Becomes videos Ended (IsExecution (jobs i)) [] ((SiteViews.start env clock users jobs).procs i) :=
    fun i => job_becomes env (jobs i)
  obtain ⟨ps, Q, hps, hQ, hs, ht, hend⟩ :=
    projects (videos_component env) rfl (fun i => standing_isExecution (jobs i)) hp hr
  choose execs hplays hprogs using hps
  obtain rfl : ps = fun i => (execs i).program := funext hprogs
  exact ⟨execs, Q, hplays, hQ, hs, ht, hend⟩

end Videos

/-- Whatever the interleaving of requests, workers, ticks and refreshes, both
models describe the site: its account stores go through a run of the account
model, and its video stores through a run of the video model, with the calls
of the site in their order, and each job that has answered has ended in both,
an account view with the same response. -/
theorem site_refines {env : Env} {ok : Pool Cmd Answer Exn SiteViews.Reply Store → Move Exn Event → Prop}
    {clock : Nat} {users : List AccountStore.User} {jobs : Nat → Job}
    {P : Pool Cmd Answer Exn SiteViews.Reply Store}
    (hr : Runs (machine env) ok (SiteViews.start env clock users jobs) P) :
    (∃ Q, Runs (AccountStore.machine env.accounts) (fun _ _ => True)
        (SessionPromises.start env.accounts clock users (fun i => accountRequest (jobs i))) Q ∧
      Q.store = P.store.accounts ∧ Q.trace = P.trace.filterMap (accounts.entry Store.accounts) ∧
      ∀ i reply, P.procs i = .ret reply → ∃ answer, Q.procs i = .ret answer ∧
        ∀ response, reply = .account response → answer = .response response) ∧
    ∃ execs Q, (∀ i, Plays (jobs i) (own i P.trace) (execs i)) ∧
      Runs (VideoStore.machine env.videos) (fun _ _ => True)
        (IngestionPromises.start VideoStore.Store.empty execs) Q ∧
      Q.store = P.store.videos ∧ Q.trace = P.trace.filterMap (videos.entry Store.videos) ∧
      ∀ i reply, P.procs i = .ret reply → Q.procs i = .ret () :=
  ⟨accounts_run hr, videos_run hr⟩

section TopicSession

def demoEnv : Env := ⟨SessionSoundness.raceEnv, QueryUniqueness.acceptAll, fun _ _ => ⟨0, []⟩⟩

/-- A request without data, with the key that the login below gives out. -/
def blankRequest (method : Method) (path : String) : HttpRequest where
  method := method
  path := path
  cookies := ⟨some "cccccccccc", none⟩
  salt := Registration.salt
  registerData := ⟨.null, .null, .null⟩
  draws := ⟨SessionSoundness.drawA, [SessionSoundness.drawC]⟩
  loginData := ⟨.str "user@example.com", .str "secret"⟩
  q := none
  offset := none
  limit := none
  query := .str "celery videos"
  videosN := .null
  queries := []
  keyword := none
  filter := ⟨none, none, ElasticAgreement.someDate, ElasticAgreement.someDate⟩
  api := QueryUniqueness.oneVideo
  now := 0

/-- A login, the registration of a topic, and a worker for its task. -/
def demoJobs : Nat → Job
  | 0 => .http (blankRequest .post "/user/login")
  | 1 => .http (blankRequest .post "/search/register")
  | _ => .worker QueryUniqueness.oneVideo 0

@[irreducible] def siteRun (env : Env) (jobs : Nat → Job) (moves : List (Move Exn Event)) :
    Pool Cmd Answer Exn SiteViews.Reply Store :=
  moves.foldl (fun P m => P.move (machine env) m) (SiteViews.start env 0 [SessionSoundness.raceUser] jobs)

theorem runs_siteRun (env : Env) (jobs : Nat → Job) (moves : List (Move Exn Event)) :
    Runs (machine env) (fun _ _ => True) (SiteViews.start env 0 [SessionSoundness.raceUser] jobs)
      (siteRun env jobs moves) := by
  unfold siteRun
  exact runs_moves moves _

def demoRun (moves : List (Move Exn Event)) : Pool Cmd Answer Exn SiteViews.Reply Store :=
  siteRun demoEnv demoJobs moves

theorem runs_demoRun (moves : List (Move Exn Event)) : Runs (machine demoEnv) (fun _ _ => True)
    (SiteViews.start demoEnv 0 [SessionSoundness.raceUser] demoJobs) (demoRun moves) :=
  runs_siteRun demoEnv demoJobs moves

def topicMoves : List (Move Exn Event) := List.replicate 15 (.go 0) ++ List.replicate 8 (.go 1)

def workedMoves : List (Move Exn Event) := topicMoves ++ List.replicate 6 (.go 2)

theorem demo_documents : (demoRun workedMoves).store.videos.queryModel.docs.map
    (fun x => (x.2.query, x.2.user)) = [("celery videos", "user@example.com")] := by
  decide +kernel

theorem demo_returned : ((demoRun workedMoves).procs 1).returned = true := by
  decide +kernel

theorem site_refines_demo :
    (∃ Q answer, Runs (AccountStore.machine SessionSoundness.raceEnv) (fun _ _ => True)
        (SessionPromises.start SessionSoundness.raceEnv 0 [SessionSoundness.raceUser]
          (fun i => accountRequest (demoJobs i))) Q ∧
      Q.procs 1 = .ret answer) ∧
    ∃ execs Q, Plays (demoJobs 2) (own 2 (demoRun workedMoves).trace) (execs 2) ∧
      Runs (VideoStore.machine QueryUniqueness.acceptAll) (fun _ _ => True)
        (IngestionPromises.start VideoStore.Store.empty execs) Q ∧
      Q.store.queryModel.docs.map (fun x => (x.2.query, x.2.user)) = [("celery videos", "user@example.com")] := by
  obtain ⟨⟨Q, hQ, -, -, hend⟩, execs, Q', hplays, hQ', hs, -, -⟩ := site_refines (runs_demoRun workedMoves)
  obtain ⟨reply, hreply⟩ := exists_of_returned demo_returned
  obtain ⟨answer, ha, -⟩ := hend 1 reply hreply
  exact ⟨⟨Q, answer, hQ, ha⟩, execs, Q', hplays 2, hQ', by rw [hs]; exact demo_documents⟩

end TopicSession

end YoutubeRecords.SiteRefinement
