import YoutubeRecords.AnswerOrigins

namespace YoutubeRecords.SearchAnswers

open CommandProgram ProgramPool CommandEmbedding PythonBasics OrderedDict VideoStore VideoIngestion SearchViews
  IngestionPromises SiteRefinement AnswerOrigins
open SiteStore (videos accounts)
open SiteViews (Job HttpRequest View)

/-- The items stand in one exchange about the query, which describes them so. -/
def Told (heard : Exchange → Prop) (query : String) (items : List (String × Value)) : Prop :=
  items = [] ∨ ∃ x, heard x ∧ x.query = query ∧ ∀ item ∈ items, ∃ r, item.2 = .video r ∧ x.about item.1 = some r

/-- What a search answers: a message, or videos that are `saved` for its query
or that the job has `heard` about for the query. -/
inductive Answered (heard : Exchange → Prop) (q : Option String) (saved : String → Video → Prop) :
    SearchResponse → Prop
  | message (status : Nat) (key text : String) : Answered heard q saved (.message status key text)
  | page {query : String} (hq : q = some query) {next : NextLink} {videos : List Video}
      (h : ∀ v ∈ videos, saved query v) : Answered heard q saved (.page next (videos.map .saved))
  | fetched {query : String} (hq : q = some query) {next : NextLink} {items : List (String × Value)}
      (h : Told heard query items) : Answered heard q saved (.page next (items.map fun x => .fetched x.2))
  | records {query : String} (hq : q = some query) {d : Dict Value} (h : Told heard query d.items) :
      Answered heard q saved (.records d)

theorem Answered.mono {heard heard' : Exchange → Prop} {q : Option String} {saved saved' : String → Video → Prop}
    {response : SearchResponse} (h : Answered heard q saved response) (hh : ∀ x, heard x → heard' x)
    (hs : ∀ query v, saved query v → saved' query v) : Answered heard' q saved' response := by
  have ht : ∀ {query items}, Told heard query items → Told heard' query items := fun h =>
    h.imp_right fun ⟨x, hx, hq, hi⟩ => ⟨x, hh x hx, hq, hi⟩
  cases h with
  | message status key text => exact .message status key text
  | page hq h => exact .page hq fun v hv => hs _ v (h v hv)
  | fetched hq h => exact .fetched hq (ht h)
  | records hq h => exact .records hq (ht h)

def Paged (h : IngestionPromises.History) (query : String) (v : Video) : Prop :=
  ∃ user offset limit videos, ⟨.pageVideos query user offset limit, videos⟩ ∈ h ∧ v ∈ videos

section View

variable {h h' : IngestionPromises.History}

theorem told_fetched {api : Api} {user query : String} {n : Json} {d : Dict Value}
    (he : FetchEnds api user n query h d h') : Told (fun x => x.With api ∧ x.n = n) query d.items := by
  cases he with
  | nothing => exact .inl rfl
  | inserted hf _ =>
    obtain ⟨x, hx, hq, hn, hs⟩ := supplied_fetched hf
    refine .inr ⟨x, ⟨hx, hn⟩, hq, fun item hi => hs.about item ?_⟩
    obtain ⟨hi, hquery⟩ := List.mem_filter.mp hi
    obtain ⟨hi, huser⟩ := List.mem_filter.mp hi
    refine List.mem_filter.mpr ⟨hi, ?_⟩
    simp only [decide_eq_true_eq] at hquery huser
    simp [skipped, hquery, huser]

theorem answered_search {r : HttpRequest} {user : Option String} {response : SearchResponse}
    {t : SiteStore.History} (hh : handler r = some .searching)
    (he : SearchEnds r.api ⟨r.q, user, r.offset, r.limit⟩ h response h') :
    Answered (Heard (.http r) t) r.q (Paged h') response := by
  have ht : ∀ {query : String} {email : String} {limit : Nat} {items : List (String × Value)},
      Searches ⟨r.q, user, r.offset, r.limit⟩ query email limit →
      Told (fun x => x.With r.api ∧ x.n = .num limit 0) query items → Told (Heard (.http r) t) query items :=
    fun hs h => h.imp_right fun ⟨x, hx, hq, hi⟩ =>
      ⟨x, ⟨hh, hx.1, hs.query.trans (congrArg some hq.symm), _, hs.limit, hx.2⟩, hq, hi⟩
  cases he with
  | message status key text => exact .message status key text
  | saved hs next offset videos =>
    exact .page hs.query fun v hv => ⟨_, _, _, _, List.mem_cons_self, List.mem_of_mem_take hv⟩
  | page hs next hf => exact .fetched hs.query (ht hs (told_fetched hf))
  | records hs hf => exact .records hs.query (ht hs (told_fetched hf))

end View

def SearchReply (job : Job) (reply : SiteViews.Reply) (h : SiteStore.History) : Prop :=
  ∀ r, job = .http r → handler r = some .searching →
    ∃ response, reply = .search response ∧ Answered (Heard job h) r.q (Paged (videos.own h)) response

theorem job_replies (env : SiteStore.Env) (job : Job) :
    Obeys (fun _ _ => True) (SearchReply job) (job.program env) [] := by
  by_cases hs : ∃ r, job = .http r ∧ handler r = some .searching
  · obtain ⟨r, rfl, hh⟩ := hs
    rw [Job.program, program_eq, hh]
    refine (obeys_true _ _).bind fun _ h _ => (obeys_true _ _).bind fun user h' _ => ?_
    have hb : Obeys (fun _ _ => True) (SearchEnds r.api ⟨r.q, user, r.offset, r.limit⟩ (videos.own h'))
        (searchingView.get r.api r.now ⟨r.q, user, r.offset, r.limit⟩) (videos.own h') :=
      (searchingView_obeys _ _ _).mono (fun _ _ _ => trivial) fun _ _ he => he
    refine (obeys_lift_true videos hb).bind fun response h'' hx r' he _ => ?_
    obtain rfl := Job.http.inj he
    exact ⟨response, rfl, answered_search hh hx.1⟩
  · exact (obeys_true _ _).mono (fun _ _ hx => hx) fun _ _ _ r hr hh => absurd ⟨r, hr, hh⟩ hs

variable {env : SiteStore.Env} {clock : Nat} {users : List AccountStore.User} {jobs : Nat → Job}
  {ok : Pool SiteStore.Cmd SiteStore.Answer Exn SiteViews.Reply SiteStore.Store → Move Exn SiteStore.Event → Prop}
  {P : Pool SiteStore.Cmd SiteStore.Answer Exn SiteViews.Reply SiteStore.Store}

/-- Whatever happens side by side, a search is answered with videos that an
API has listed for its query and described just so: fetched ones to the
request itself, and saved ones to the jobs that have saved the video and the
document that it stands in. -/
theorem search_answers_told (hr : Runs (SiteStore.machine env) ok (SiteViews.start env clock users jobs) P)
    {i : Nat} {r : HttpRequest} {reply : SiteViews.Reply} (hj : jobs i = .http r)
    (hh : handler r = some .searching) (hi : P.procs i = .ret reply) :
    ∃ response, reply = .search response ∧
      Answered (heardBy jobs P.trace i) r.q (SourcedFor (heardBy jobs P.trace) (videoCalls P.trace)) response := by
  have hl : Lawful (fun _ _ _ => True) (fun i => SearchReply (jobs i)) (SiteViews.start env clock users jobs) :=
    fun i => job_replies env (jobs i)
  have hp := hl.runs hr i
  rw [hi] at hp
  obtain ⟨response, he, ha⟩ := hp r hj hh
  refine ⟨response, he, ha.mono (fun _ hx => hx) fun query v hv => ?_⟩
  obtain ⟨user, offset, limit, vs, hm, hv⟩ := hv
  rw [← own_entries videos SiteStore.Store.videos] at hm
  obtain ⟨e, hem, -, hcall⟩ := mem_own.mp hm
  exact (origins_of_runs hr).paged e hem query user offset limit vs hcall v hv

section RepeatedSearch

def searchJobs : Nat → Job
  | 0 => .http (blankRequest .post "/user/login")
  | _ => .http { blankRequest .get "/search/" with q := some "celery videos", limit := some "1" }

def searchMoves : List (Move Exn SiteStore.Event) :=
  List.replicate 15 (Move.go 0) ++ List.replicate 13 (Move.go 1) ++ List.replicate 8 (Move.go 2)

def searchRun : Pool SiteStore.Cmd SiteStore.Answer Exn SiteViews.Reply SiteStore.Store :=
  siteRun demoEnv searchJobs searchMoves

theorem runs_searchRun : Runs (SiteStore.machine demoEnv) (fun _ _ => True)
    (SiteViews.start demoEnv 0 [SessionSoundness.raceUser] searchJobs) searchRun :=
  runs_siteRun demoEnv searchJobs searchMoves

def pageIds : SiteStore.Prog SiteViews.Reply → List String
  | .ret (.search (.page _ videos)) => videos.filterMap fun
    | .saved v => some v.video_id
    | .fetched _ => none
  | _ => []

theorem searched_ids : pageIds (searchRun.procs 2) = ["abcdefghijk"] ∧
    (searchRun.procs 2).returned = true := by
  decide +kernel

theorem search_answers_told_repeated : ∃ v : Video, v.video_id = "abcdefghijk" ∧
    SourcedFor (heardBy searchJobs searchRun.trace) (videoCalls searchRun.trace)
      "celery videos" v := by
  obtain ⟨hids, hended⟩ := searched_ids
  obtain ⟨reply, hi⟩ := exists_of_returned hended
  obtain ⟨response, rfl, ha⟩ := search_answers_told runs_searchRun rfl (by decide) hi
  rw [hi] at hids
  cases ha with
  | message | records => cases hids
  | @fetched _ _ next items =>
    have hnone : pageIds (.ret (.search (.page next (items.map fun x => .fetched x.2)))) = [] := by
      simp [pageIds, List.filterMap_map]
    rw [hnone] at hids
    cases hids
  | @page query hq next videos h =>
    have hmap : pageIds (.ret (.search (.page next (videos.map .saved)))) = videos.map Video.video_id := by
      simp [pageIds, List.filterMap_map]
    rw [hmap] at hids
    obtain ⟨v, hv, hid⟩ := List.mem_map.mp (hids ▸ List.mem_singleton.mpr rfl)
    obtain rfl := Option.some.inj hq
    exact ⟨v, hid, h v hv⟩

end RepeatedSearch

end YoutubeRecords.SearchAnswers
