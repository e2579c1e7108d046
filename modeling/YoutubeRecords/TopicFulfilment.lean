import YoutubeRecords.AnswerOrigins
import YoutubeRecords.SiteProvenance

namespace YoutubeRecords.TopicFulfilment

open CommandProgram ProgramPool CommandEmbedding PythonBasics AccountViews VideoIngestion SearchViews
  SiteStore SiteViews SiteRefinement SiteProvenance AnswerOrigins
open IngestionPromises (FetchEnds TopicEnds BulkEnds search_of_none text_fetchedRecords fetchYoutubeData_obeys
  topicRegistration_obeys bulkRegistration_obeys)
open QueryUniqueness (hasDocument hasDocument_iff ReadDocuments document_kept readDocuments_call)

def shows : Call VideoStore.Cmd VideoStore.Answer → String × String → Prop
  | ⟨.findQuery query user, found⟩, k => (query, user) = k ∧ found ≠ none
  | ⟨.insertQuery d, saved⟩, k => (d.query, d.user) = k ∧ saved = true
  | ⟨.pageQueries _ user _ _, docs⟩, k => ∃ d ∈ docs, (d.query, user) = k
  | _, _ => False

def Finds (api : Api) (task : VideoStore.Task) : Prop :=
  api.search task.query task.n ≠ .ok none ∧ api.search task.query task.n ≠ .ok (some [])

section Executions

variable {h h' : IngestionPromises.History}

def Provided (h : IngestionPromises.History) (query user : String) : Prop :=
  (∃ x ∈ h, shows x (query, user)) ∨ ∃ n, ⟨.delay ⟨user, n, query⟩, ()⟩ ∈ h

theorem fetch_shows {api : Api} {task : VideoStore.Task} {d : OrderedDict.Dict Value} (hf : Finds api task)
    (he : FetchEnds api task.user task.n task.query h d h') : ∃ x ∈ h', shows x (task.query, task.user) := by
  cases he with
  | nothing hn =>
    obtain hn | hn := search_of_none hn
    · exact absurd hn hf.1
    · exact absurd hn hf.2
  | inserted hr hi =>
    obtain ⟨hq, hu⟩ := text_fetchedRecords hr
    obtain ⟨query, user, hq', hu', hdoc⟩ := hi.document
    obtain rfl := Except.ok.inj (hq.symm.trans hq')
    obtain rfl := Except.ok.inj (hu.symm.trans hu')
    obtain ⟨found, hm⟩ | ⟨d, hm, hdq, hdu⟩ := hdoc
    · exact ⟨_, hm, rfl, by simp⟩
    · exact ⟨_, hm, by rw [hdq, hdu], rfl⟩

theorem topic_provides {request : TopicRequest} {reply : SearchResponse} (he : TopicEnds request h reply h')
    (hr : reply = .message 201 "message" "done") {query : String} (hq : request.query = .str query) :
    ∃ user, request.currentUser = some user ∧ Provided h' query user := by
  cases he with
  | refused hs text => exact absurd (SearchResponse.message.inj hr).1 hs
  | queued n hq' hu =>
    obtain rfl := Json.str.inj (hq'.symm.trans hq)
    exact ⟨_, hu, .inr ⟨n, List.mem_cons_self⟩⟩

theorem bulk_provides {request : BulkRequest} {next : Option (Int × Int)} {page : List VideoStore.QueryDoc}
    (he : BulkEnds request h (.page next page) h') :
    ∃ user, request.currentUser = some user ∧ ∀ query ∈ request.queries, Provided h' query user := by
  cases he with
  | page hu hp _ hd =>
    refine ⟨_, hu, fun query hm => ?_⟩
    obtain hs | hmem := hd.missing query hm
    · obtain ⟨d, hmd, rfl⟩ := List.mem_map.mp hs
      obtain ⟨tasks, rfl⟩ := hd.tasks
      exact .inl ⟨_, List.mem_append_right _ List.mem_cons_self, d, hp hmd, rfl⟩
    · exact .inr ⟨_, hmem⟩

end Executions

def Accepts (r : HttpRequest) (reply : SiteViews.Reply) (query : String) : Prop :=
  (handler r = some .topic ∧ reply = .search (.message 201 "message" "done") ∧ r.query = .str query) ∨
    handler r = some .bulk ∧ (∃ next page, reply = .bulk (.page next page)) ∧ query ∈ r.queries

def Discharged (job : Job) (reply : SiteViews.Reply) (h : SiteStore.History) : Prop :=
  match job with
  | .http r => ∀ query, Accepts r reply query →
      ∃ email, Identified (accounts.own h) email ∧ Provided (videos.own h) query email
  | .worker api _ => ∀ task, [⟨.takeTask, some task⟩] <:+ h → Finds api task →
      ∃ x ∈ videos.own h, shows x (task.query, task.user)

section Jobs

variable {r : HttpRequest} {h : SiteStore.History}

/-- A view that asks who the user is and then acts for them. -/
theorem searchView_discharges {γ : Type} {asks : Bool} {cookies : Cookies}
    {body : Option String → VideoStore.Prog γ} {reply : γ → SiteViews.Reply}
    {G : Option String → IngestionPromises.History → Call VideoStore.Cmd VideoStore.Answer → Prop}
    {Q : Option String → IngestionPromises.History → γ → IngestionPromises.History → Prop}
    (hb : ∀ user h₀, Obeys (G user) (Q user h₀) (body user) h₀)
    (hq : ∀ user h₀ a h', Q user h₀ a h' → ∀ query, Accepts r (reply a) query →
      ∃ email, user = some email ∧ Provided h' query email) :
    Obeys (fun _ _ => True) (Discharged (.http r))
      (currentUser asks cookies >>= fun user => videos.lift (body user) >>= fun a => .ret (reply a)) h := by
  have hc : Obeys (sitePromise (.http r))
      (fun user h' => (∀ email, user = some email → Identified (accounts.own h') email) ∧ h <:+ h')
      (currentUser asks cookies) h := currentUser_obeys
  refine (hc.mono (fun _ _ _ => trivial) fun _ _ hu => hu).bind fun user h' hu => ?_
  have hbody : Obeys (fun _ _ => True) (Q user (videos.own h')) (body user) (videos.own h') :=
    (hb user _).mono (fun _ _ _ => trivial) fun _ _ hx => hx
  refine (obeys_lift_true videos hbody).bind fun a h'' hx query ha => ?_
  obtain ⟨email, he, hp⟩ := hq user _ a _ hx.1 query ha
  exact ⟨email, (hu.1 email he).mono (own_suffix accounts hx.2).subset, hp⟩

theorem discharged_other {reply : SiteViews.Reply} (hv : handler r ≠ some .topic ∧ handler r ≠ some .bulk) :
    Discharged (.http r) reply h := by
  intro query ha
  obtain ⟨ht, -⟩ | ⟨hb, -⟩ := ha
  · exact absurd ht hv.1
  · exact absurd hb hv.2

theorem http_discharges (env : Env) (r : HttpRequest) :
    Obeys (fun _ _ => True) (Discharged (.http r)) (r.program env) [] := by
  rw [program_eq]
  refine (obeys_true _ _).bind fun _ h _ => ?_
  cases hh : handler r with
  | none => exact discharged_other (by simp [hh])
  | some view =>
    cases view with
    | topic =>
      refine searchView_discharges (fun user _ => topicRegistration_obeys ⟨r.query, r.videosN, user⟩) ?_
      intro user h₀ a h' he query ha
      obtain ⟨-, hr, hq⟩ | ⟨hb, -⟩ := ha
      · exact topic_provides he (SiteViews.Reply.search.inj hr) hq
      · simp [hh] at hb
    | bulk =>
      refine searchView_discharges (fun user _ => bulkRegistration_obeys ⟨r.queries, user, r.offset, r.limit⟩) ?_
      intro user h₀ a h' he query ha
      obtain ⟨ht, -⟩ | ⟨-, ⟨next, page, hr⟩, hm⟩ := ha
      · simp [hh] at ht
      · obtain rfl := SiteViews.Reply.bulk.inj hr
        obtain ⟨email, hu, hall⟩ := bulk_provides he
        exact ⟨email, hu, hall query hm⟩
    | register | login | logout | refresh | searching | dateFilter | textSearch | admin =>
      exact (obeys_true _ _).mono (fun _ _ hx => hx) fun _ _ _ => discharged_other (by simp [hh])

theorem job_discharges (env : Env) (job : Job) :
    Obeys (fun _ _ => True) (Discharged job) (job.program env) [] := by
  cases job with
  | http r => exact http_discharges env r
  | worker api now =>
    refine fun task => ⟨trivial, ?_⟩
    cases task with
    | none =>
      intro task hs
      have he := hs.eq_of_length rfl
      simp at he
    | some task =>
      have hb : Obeys (fun _ _ => True)
          (fun _ h => Finds api task → ∃ x ∈ h, shows x (task.query, task.user))
          (fetchYoutubeData api task.user task.n task.query now) (videos.own [⟨.takeTask, some task⟩]) :=
        (fetchYoutubeData_obeys api task.user task.n task.query now).mono (fun _ _ _ => trivial)
          fun _ _ he hf => fetch_shows hf he
      refine (obeys_lift_true videos hb).bind fun _ h hx task' hs => ?_
      have he := (List.suffix_of_suffix_length_le hs hx.2 (by simp)).eq_of_length rfl
      simp only [List.cons.injEq, Call.mk.injEq, heq_eq_eq, Option.some.injEq, true_and, and_true] at he
      rw [he]
      exact hx.1

end Jobs

/-- Tasks stay in the queue, and the workers take them in its order. -/
structure Queued (s : Store) (t : Trace) : Prop where
  queued : ∀ e ∈ t, ∀ task, e.call = ⟨.video (.delay task), ()⟩ → task ∈ s.videos.tasks
  within : s.taken ≤ s.videos.tasks.length
  taken : ∀ task ∈ s.videos.tasks.take s.taken, ∃ e ∈ t, e.call = ⟨.takeTask, some task⟩

section Queue

variable {env : Env} {s s' : Store} {t : Trace} {i : Nat}

theorem Queued.taken_cons (h : Queued s t) (e : Entry Cmd Answer Store) :
    ∀ task ∈ s.videos.tasks.take s.taken, ∃ x ∈ e :: t, x.call = ⟨.takeTask, some task⟩ := by
  intro task hm
  obtain ⟨x, hx, hcall⟩ := h.taken task hm
  exact ⟨x, List.mem_cons_of_mem _ hx, hcall⟩

theorem Queued.cons (h : Queued s t) (hs : s'.videos.tasks = s.videos.tasks) (ht : s'.taken = s.taken)
    {x : Call Cmd Answer} (hx : ∀ task, x ≠ ⟨.video (.delay task), ()⟩) : Queued s' (⟨i, x, s⟩ :: t) := by
  refine ⟨?_, by rw [hs, ht]; exact h.within, ?_⟩
  · rw [hs]
    exact List.forall_mem_cons.mpr ⟨fun task hcall => absurd hcall (hx task), h.queued⟩
  · rw [hs, ht]
    exact h.taken_cons _

theorem Queued.delay (h : Queued s t) (task : VideoStore.Task) :
    Queued (exec env (.video (.delay task)) s).2 (⟨i, ⟨.video (.delay task), ()⟩, s⟩ :: t) := by
  have htasks : (exec env (.video (.delay task)) s).2.videos.tasks = s.videos.tasks ++ [task] := rfl
  have htaken : (exec env (.video (.delay task)) s).2.taken = s.taken := rfl
  refine ⟨?_, ?_, ?_⟩
  · rw [htasks]
    refine List.forall_mem_cons.mpr ⟨fun task' hcall => ?_, fun e he task' hcall => ?_⟩
    · simp only [Call.mk.injEq, Cmd.video.injEq, VideoStore.Cmd.delay.injEq] at hcall
      simp [hcall.1]
    · exact List.mem_append_left _ (h.queued e he task' hcall)
  · rw [htasks, htaken, List.length_append]
    exact Nat.le_add_right_of_le h.within
  · rw [htasks, htaken, List.take_append_of_le_length h.within]
    exact h.taken_cons _

theorem Queued.take (h : Queued s t) :
    Queued (exec env .takeTask s).2 (⟨i, ⟨.takeTask, (exec env .takeTask s).1⟩, s⟩ :: t) := by
  cases hn : s.videos.tasks[s.taken]? with
  | none =>
    have he : exec env .takeTask s = (none, s) := by simp only [exec, hn]
    rw [he]
    exact h.cons rfl rfl (by simp)
  | some task =>
    have he : exec env .takeTask s = (some task, { s with taken := s.taken + 1 }) := by simp only [exec, hn]
    rw [he]
    refine ⟨List.forall_mem_cons.mpr ⟨by simp, h.queued⟩, ?_, ?_⟩
    · exact (List.getElem?_eq_some_iff.mp hn).1
    · simp only [List.take_add_one, hn]
      intro task' hm
      obtain hm | hm := List.mem_append.mp hm
      · exact h.taken_cons _ task' hm
      · obtain rfl := List.mem_singleton.mp hm
        exact ⟨_, List.mem_cons_self, rfl⟩

theorem Queued.call (h : Queued s t) (c : Cmd) :
    Queued (exec env c s).2 (⟨i, ⟨c, (exec env c s).1⟩, s⟩ :: t) := by
  by_cases hd : ∃ task, c = .video (.delay task)
  · obtain ⟨task, rfl⟩ := hd
    exact h.delay task
  · have hcall : ∀ task, (⟨c, (exec env c s).1⟩ : Call Cmd Answer) ≠ ⟨.video (.delay task), ()⟩ :=
      fun task he => hd ⟨task, congrArg Call.cmd he⟩
    cases c with
    | takeTask => exact h.take
    | account | searchIndex => exact h.cons (by rfl) (by rfl) hcall
    | video c =>
      obtain he | ⟨task, rfl, -⟩ := tasks_cases env.videos c s.videos
      · exact h.cons (by exact he) (by rfl) hcall
      · exact absurd ⟨task, rfl⟩ hd

theorem queued_of_runs {ok : Pool Cmd Answer Exn SiteViews.Reply Store → Move Exn Event → Prop} {clock : Nat}
    {users : List AccountStore.User} {jobs : Nat → Job} {P : Pool Cmd Answer Exn SiteViews.Reply Store}
    (hr : Runs (machine env) ok (SiteViews.start env clock users jobs) P) : Queued P.store P.trace := by
  have hc := Chronicle.of_runs (I := Queued) (start_lawful env clock users jobs) rfl
    ⟨by simp, Nat.zero_le _, by simp [SiteViews.start]⟩ (fun _ _ _ c h _ => h.call c) ?_ hr
  · exact hc.now
  · intro x s t h
    cases x with
    | tick | refresh => exact ⟨h.queued, h.within, h.taken⟩

end Queue

structure Shown (s : VideoStore.Store) (t : List (Entry VideoStore.Cmd VideoStore.Answer VideoStore.Store)) :
    Prop where
  read : ReadDocuments s t
  shown : ∀ e ∈ t, ∀ k, shows e.call k → hasDocument s k

section Documents

variable {env : VideoStore.Env} {s : VideoStore.Store} {c : VideoStore.Cmd} {k : String × String}

theorem hasDocument_of_mem {oid : Nat} {d : VideoStore.QueryDoc} (hd : (oid, d) ∈ s.queryModel.docs)
    (hk : (d.query, d.user) = k) : hasDocument s k :=
  hasDocument_iff.mpr ⟨oid, d, hd, hk⟩

theorem hasDocument_shown (h : shows ⟨c, (VideoStore.exec env c s).1⟩ k) :
    hasDocument (VideoStore.exec env c s).2 k := by
  cases c with
  | findQuery query user =>
    obtain ⟨rfl, hn⟩ := h
    exact fun hm => hn (Documents.first_eq_none.mpr hm)
  | insertQuery d =>
    obtain ⟨hk, hs⟩ := h
    by_cases ha : env.acceptsQuery d
    · have he : (VideoStore.exec env (.insertQuery d) s).2.queryModel = Documents.insert s.queryModel d := by
        simp [VideoStore.exec, ha]
      have hd : (s.queryModel.next, d) ∈ (VideoStore.exec env (.insertQuery d) s).2.queryModel.docs := by
        rw [he]
        exact Documents.mem_insert.mpr (.inr rfl)
      exact hasDocument_of_mem hd hk
    · simp [VideoStore.exec, ha] at hs
  | pageQueries queries user offset limit =>
    obtain ⟨d, hd, rfl⟩ := h
    have hm := List.mem_of_mem_drop (List.mem_of_mem_take hd)
    rw [List.mem_insertionSort] at hm
    obtain ⟨⟨oid, hdoc⟩, hp⟩ := Documents.mem_matching.mp hm
    exact hasDocument_of_mem hdoc (by rw [(of_decide_eq_true hp).2])
  | findVideo | saveVideo | index | saveQuery | pageVideos | delay => cases h

theorem Shown.call {t : List (Entry VideoStore.Cmd VideoStore.Answer VideoStore.Store)}
    {target : String → String → Prop} (h : Shown s t) {i : Nat}
    (hp : IngestionPromises.promise target (own i t) ⟨c, (VideoStore.exec env c s).1⟩) :
    Shown (VideoStore.exec env c s).2 (⟨i, ⟨c, (VideoStore.exec env c s).1⟩, s⟩ :: t) := by
  refine ⟨readDocuments_call h.read hp, List.forall_mem_cons.mpr ⟨fun k => hasDocument_shown, ?_⟩⟩
  intro e he k hk
  obtain ⟨oid, doc, hd, hdk⟩ := hasDocument_iff.mp (h.shown e he k hk)
  obtain ⟨doc', hd', hq, hu⟩ := document_kept h.read hp hd
  exact hasDocument_of_mem hd' (by rw [hq, hu, hdk])

end Documents

section Site

variable {env : Env} {ok : Pool Cmd Answer Exn SiteViews.Reply Store → Move Exn Event → Prop} {clock : Nat}
  {users : List AccountStore.User} {jobs : Nat → Job} {P : Pool Cmd Answer Exn SiteViews.Reply Store}

theorem hasDocument_of_runs (hr : Runs (machine env) ok (SiteViews.start env clock users jobs) P) {i : Nat}
    {x : Call VideoStore.Cmd VideoStore.Answer} {k : String × String} (hx : x ∈ videos.own (own i P.trace))
    (hk : shows x k) : hasDocument P.store.videos k := by
  obtain ⟨execs, Q, -, hQ, hs, ht, -⟩ := videos_run hr
  have hc := Chronicle.of_runs (I := Shown) (IngestionPromises.start_lawful VideoStore.Store.empty execs) rfl
    ⟨by simp [ReadDocuments], by simp⟩ (fun _ _ _ _ h hp => h.call hp) (fun x => x.elim) hQ
  rw [← own_entries videos Store.videos, ← ht] at hx
  obtain ⟨e, he, -, rfl⟩ := mem_own.mp hx
  exact hs ▸ hc.now.shown e he k hk

theorem first_takes (hr : Runs (machine env) ok (SiteViews.start env clock users jobs) P)
    {e : Entry Cmd Answer Store} (he : e ∈ P.trace) {task : VideoStore.Task}
    (hcall : e.call = ⟨.takeTask, some task⟩) :
    (∃ api now, jobs e.pid = .worker api now) ∧ [⟨.takeTask, some task⟩] <:+ own e.pid P.trace := by
  obtain ⟨newer, older, ht⟩ := List.append_of_mem he
  have hs : e :: older <:+ P.trace := ⟨newer, ht.symm⟩
  have hp := (start_lawful env clock users jobs).past rfl hr hs
  rw [hcall] at hp
  refine ⟨hp.2, ?_⟩
  have hown := own_mono (i := e.pid) hs
  obtain ⟨pid, call, before⟩ := e
  obtain rfl := hcall
  rwa [own_cons_self, hp.1] at hown

/-- When the queue is worked off, every registration that was accepted has
been carried out: there is a saved query for each topic, and it belongs to the
user whose token the request had verified. -/
theorem accepted_topics_saved (hr : Runs (machine env) ok (SiteViews.start env clock users jobs) P)
    (hqueue : P.store.videos.tasks.length ≤ P.store.taken)
    (hdone : ∀ e ∈ P.trace, ∃ reply, P.procs e.pid = .ret reply)
    (hfind : ∀ e ∈ P.trace, ∀ task, e.call = ⟨.takeTask, some task⟩ → Finds (apiOf (jobs e.pid)) task)
    {i : Nat} {r : HttpRequest} {reply : SiteViews.Reply} {query : String} (hj : jobs i = .http r)
    (hi : P.procs i = .ret reply) (ha : Accepts r reply query) :
    ∃ email, Identified (accounts.own (own i P.trace)) email ∧ hasDocument P.store.videos (query, email) := by
  have hl : Lawful (fun _ _ _ => True) (fun i => Discharged (jobs i)) (SiteViews.start env clock users jobs) :=
    fun i => job_discharges env (jobs i)
  have hdischarged := hl.runs hr i
  rw [hi] at hdischarged
  simp only [hj] at hdischarged
  obtain ⟨email, hid, ⟨x, hx, hk⟩ | ⟨n, hd⟩⟩ := hdischarged query ha
  · exact ⟨email, hid, hasDocument_of_runs hr hx hk⟩
  · refine ⟨email, hid, ?_⟩
    have hq := queued_of_runs hr
    -- the task was queued, some worker has taken it, and that worker has returned
    obtain ⟨e, he, hcall⟩ : ∃ e ∈ P.trace, e.call = ⟨.video (.delay ⟨email, n, query⟩), ()⟩ := by
      obtain ⟨x, hx, hp⟩ := List.mem_filterMap.mp hd
      obtain ⟨e, he, -, hcall⟩ := mem_own.mp hx
      exact ⟨e, he, hcall.trans (part_videos hp)⟩
    have hm := hq.queued e he _ hcall
    rw [← List.take_of_length_le hqueue] at hm
    obtain ⟨e', he', htake⟩ := hq.taken _ hm
    obtain ⟨⟨api, now, hw⟩, hfirst⟩ := first_takes hr he' htake
    obtain ⟨reply', hret⟩ := hdone e' he'
    have hworker := hl.runs hr e'.pid
    have hf := hfind e' he' _ htake
    rw [hret] at hworker
    simp only [hw] at hworker hf
    obtain ⟨x, hx, hk⟩ := hworker _ hfirst hf
    exact hasDocument_of_runs hr hx hk

def topicAccepted : Prog SiteViews.Reply → Bool
  | .ret (.search (.message status key text)) => decide (status = 201 ∧ key = "message" ∧ text = "done")
  | _ => false

theorem ret_of_topicAccepted {p : Prog SiteViews.Reply} (h : topicAccepted p = true) :
    p = .ret (.search (.message 201 "message" "done")) := by
  unfold topicAccepted at h
  split at h
  · obtain ⟨rfl, rfl, rfl⟩ := of_decide_eq_true h
    rfl
  · cases h

theorem worked_off : (demoRun workedMoves).store.videos.tasks.length ≤ (demoRun workedMoves).store.taken ∧
    ((demoRun workedMoves).trace.all fun e => ((demoRun workedMoves).procs e.pid).returned) = true ∧
    topicAccepted ((demoRun workedMoves).procs 1) = true := by
  decide +kernel

theorem accepted_topics_saved_worked : ∃ email,
    Identified (accounts.own (own 1 (demoRun workedMoves).trace)) email ∧
      hasDocument (demoRun workedMoves).store.videos ("celery videos", email) := by
  obtain ⟨hqueue, hended, haccepted⟩ := worked_off
  refine accepted_topics_saved (runs_demoRun workedMoves) hqueue
    (fun e he => exists_of_returned (List.all_eq_true.mp hended e he)) ?_ rfl (ret_of_topicAccepted haccepted)
    (.inl ⟨by decide, rfl, rfl⟩)
  intro e _ task _
  rw [apiOf_demoJobs]
  exact ⟨by simp [QueryUniqueness.oneVideo], by simp [QueryUniqueness.oneVideo]⟩

end Site

end YoutubeRecords.TopicFulfilment
