import YoutubeRecords.AnswerAgreement
import YoutubeRecords.IngestionSchedules
import YoutubeRecords.SiteRefinement

namespace YoutubeRecords.AnswerOrigins

open CommandProgram ProgramPool PythonBasics Documents OrderedDict VideoStore VideoIngestion SearchViews
  IngestionPromises QueryUniqueness StoreCoherence IngestionSchedules FetchedAnswers SiteRefinement

/-- A question to the API, its answer to the search, and its answer to the
request for the videos that the search has found. -/
structure Exchange where
  query : String
  n : Json
  items : List SearchItem
  results : List VideoItem

structure Exchange.With (x : Exchange) (api : Api) : Prop where
  search : api.search x.query x.n = .ok (some x.items)
  videos : api.videos (String.intercalate "," (searched x.items)) = .ok (some x.results)

def Exchange.about (x : Exchange) (id : String) : Option VideoRecord := answerFor x.query x.items x.results id

/-- These are the ids that the search has found, but for those that are keys of
the dictionary. -/
def Exchange.Lists (x : Exchange) (ids : List String) : Prop :=
  ∀ id, id ∈ ids ↔ id ∈ searched x.items ∧ skipped id = false

structure Supplied (x : Exchange) (records : Dict Value) : Prop where
  query : text records "query" = .ok x.query
  about : ∀ item ∈ videoItems records.items, ∃ r, item.2 = .video r ∧ x.about item.1 = some r
  lists : x.Lists ((videoItems records.items).map Prod.fst)

theorem supplied_fetched {api : Api} {user query : String} {n : Json} {records : Dict Value}
    (h : fetchedRecords api user n query = .ok (some records)) :
    ∃ x : Exchange, x.With api ∧ x.query = query ∧ x.n = n ∧ Supplied x records := by
  obtain ⟨items, results, hs, -, hv, hn, rfl⟩ := records_of_fetched h
  refine ⟨⟨query, n, items, results⟩, ⟨hs, hv⟩, rfl, rfl, text_query _ _ _, fun item hi => ?_, fun id => ?_⟩
  · have hget := mem_videoItems_labelled hi
    rw [get_recordsOf hn] at hget
    obtain ⟨r, hr, he⟩ := Option.map_eq_some_iff.mp hget
    exact ⟨r, he.symm, hr⟩
  · rw [StableOrder.mem_congr (find_videoItems_labelled _ _ _), List.mem_filter, mem_keys_recordsOf hn,
      Bool.not_eq_true']

/-- The exchanges of a job with its API: a search asks for its query and its
limit, a worker for those of the task that it has taken. -/
def Heard (job : SiteViews.Job) (h : SiteStore.History) (x : Exchange) : Prop :=
  match job with
  | .http r => handler r = some .searching ∧ x.With r.api ∧ r.q = some x.query ∧
      ∃ limit : Nat, intOf (r.limit.getD "5") = .ok limit ∧ x.n = .num limit 0
  | .worker api _ => x.With api ∧ ∃ task : Task, ⟨.takeTask, some task⟩ ∈ h ∧ x.query = task.query ∧ x.n = task.n

theorem Heard.suffix {job : SiteViews.Job} {h h' : SiteStore.History} {x : Exchange} (hx : Heard job h x)
    (hs : h <:+ h') : Heard job h' x := by
  cases job with
  | http r => exact hx
  | worker api now =>
    obtain ⟨hw, task, ht, hq⟩ := hx
    exact ⟨hw, task, hs.subset ht, hq⟩

def SuppliedBy (heard : Exchange → Prop) (records : Dict Value) : Prop := ∃ x, heard x ∧ Supplied x records

theorem suppliedBy_source {job : SiteViews.Job} {h : SiteStore.History} {e : Execution} (he : Plays job h e)
    {records : Dict Value} (hr : e.source records) : SuppliedBy (Heard job h) records := by
  cases job with
  | worker api now =>
    obtain rfl | ⟨task, ht, rfl⟩ := he
    · exact hr.elim
    · obtain ⟨x, hx, hq, hn, hs⟩ := supplied_fetched hr
      exact ⟨x, ⟨hx, task, ht, hq, hn⟩, hs⟩
  | http r =>
    obtain ⟨user, rfl⟩ := he
    unfold httpExecution at hr
    cases hh : handler r with
    | none =>
      rw [hh] at hr
      exact hr.elim
    | some view =>
      rw [hh] at hr
      cases view with
      | searching =>
        obtain ⟨query, user, limit, hsearch, hr⟩ := hr
        obtain ⟨x, hx, rfl, hn, hs⟩ := supplied_fetched hr
        exact ⟨x, ⟨hh, hx, hsearch.query, limit, hsearch.limit, hn⟩, hs⟩
      | topic | bulk | register | login | logout | refresh | dateFilter | textSearch | admin => exact hr.elim

section Sources

variable (heard : Nat → Exchange → Prop) (calls : Nat → History)

/-- Some job has saved the video as an exchange of its own describes it. -/
def Sourced (v : Video) : Prop :=
  ∃ i x r, ⟨.saveVideo v, true⟩ ∈ calls i ∧ heard i x ∧ x.about v.video_id = some r ∧
    videoFields (.video r) = .ok v.fields

def SourcedBody (id : String) (body : Indexed) : Prop :=
  ∃ i x r, ⟨.index id body, ()⟩ ∈ calls i ∧ heard i x ∧ x.about id = some r ∧ indexed (.video r) = some body

def Saves (h : History) (d : QueryDoc) : Prop := ⟨.insertQuery d, true⟩ ∈ h ∨ ∃ oid, ⟨.saveQuery oid d, true⟩ ∈ h

/-- Some job has saved the document, with the videos that an exchange of its
own lists for the query. -/
def Listed (d : QueryDoc) : Prop :=
  ∃ i x, Saves (calls i) d ∧ heard i x ∧ x.query = d.query ∧ x.Lists (d.videos.map Video.video_id)

/-- The video has been saved, and has stood in a document that was saved for
the query. -/
def SourcedFor (query : String) (v : Video) : Prop :=
  Sourced heard calls v ∧ ∃ d, d.query = query ∧ v ∈ d.videos ∧ Listed heard calls d

structure SourcedDoc (s : Store) (d : QueryDoc) : Prop where
  videos : ∀ v ∈ d.videos, Sourced heard calls v ∧ s.youtubeData v.video_id ≠ none
  distinct : (d.videos.map Video.video_id).Nodup
  listed : Listed heard calls d

/-- Everything in the stores, and everything that was read from them, has such
a source. -/
structure Origins (s : Store) (t : List (Entry Cmd Answer Store)) : Prop where
  stored : ∀ id fields, s.youtubeData id = some fields → Sourced heard calls ⟨id, fields⟩
  index : ∀ id body, s.youtubevideos id = some body → SourcedBody heard calls id body ∧ s.youtubeData id ≠ none
  docs : ∀ x ∈ s.queryModel.docs, SourcedDoc heard calls s x.2
  read : ∀ e ∈ t, ∀ id fields, e.call = ⟨.findVideo id, some fields⟩ →
    Sourced heard calls ⟨id, fields⟩ ∧ s.youtubeData id ≠ none
  saved : ∀ e ∈ t, ∀ v, e.call = ⟨.saveVideo v, true⟩ → Sourced heard calls v ∧ s.youtubeData v.video_id ≠ none
  found : ∀ e ∈ t, ∀ query user oid doc, e.call = ⟨.findQuery query user, some (oid, doc)⟩ → doc.query = query
  paged : ∀ e ∈ t, ∀ query user offset limit videos, e.call = ⟨.pageVideos query user offset limit, videos⟩ →
    ∀ v ∈ videos, SourcedFor heard calls query v

end Sources

section Mono

variable {heard heard' : Nat → Exchange → Prop} {calls calls' : Nat → History}
  (hh : ∀ i x, heard i x → heard' i x) (hc : ∀ i, calls i ⊆ calls' i)

include hh hc

theorem Sourced.mono {v : Video} (h : Sourced heard calls v) : Sourced heard' calls' v := by
  obtain ⟨i, x, r, hs, hx, hr⟩ := h
  exact ⟨i, x, r, hc i hs, hh i x hx, hr⟩

theorem SourcedBody.mono {id : String} {body : Indexed} (h : SourcedBody heard calls id body) :
    SourcedBody heard' calls' id body := by
  obtain ⟨i, x, r, hs, hx, hr⟩ := h
  exact ⟨i, x, r, hc i hs, hh i x hx, hr⟩

theorem Listed.mono {d : QueryDoc} (h : Listed heard calls d) : Listed heard' calls' d := by
  obtain ⟨i, x, hs, hx, hd⟩ := h
  exact ⟨i, x, hs.imp (fun hm => hc i hm) fun ⟨oid, hm⟩ => ⟨oid, hc i hm⟩, hh i x hx, hd⟩

theorem SourcedFor.mono {query : String} {v : Video} (h : SourcedFor heard calls query v) :
    SourcedFor heard' calls' query v := by
  obtain ⟨hv, d, hq, hm, hd⟩ := h
  exact ⟨hv.mono hh hc, d, hq, hm, hd.mono hh hc⟩

end Mono

section Invariant

variable {heard : Nat → Exchange → Prop} {env : Env} {s : Store} {t : List (Entry Cmd Answer Store)} {i : Nat}
  {c : Cmd} {user : Option String} {asks : String → Prop}

theorem youtubeData_exec_ne_none {id : String} (h : s.youtubeData id ≠ none) :
    (exec env c s).2.youtubeData id ≠ none := by
  obtain he | ⟨fields, -, he⟩ := youtubeData_changed env c s id
  · rwa [he]
  · rw [he]
    exact Option.some_ne_none fields

/-- A document that was not there before is the one that was just saved. -/
theorem document_changed {x : Nat × QueryDoc} (hx : x ∈ (exec env c s).2.queryModel.docs) :
    x ∈ s.queryModel.docs ∨ Saves [⟨c, (exec env c s).1⟩] x.2 := by
  cases c with
  | saveQuery oid d =>
    by_cases ha : env.acceptsQuery d
    · simp only [exec, ha, if_true] at hx ⊢
      obtain rfl | hx := mem_of_mem_replace hx
      · exact .inr (.inr ⟨oid, List.mem_singleton.mpr rfl⟩)
      · exact .inl hx
    · exact .inl (by simpa [exec, ha] using hx)
  | insertQuery d =>
    by_cases ha : env.acceptsQuery d
    · simp only [exec, ha, if_true] at hx ⊢
      obtain hx | rfl := mem_insert.mp hx
      · exact .inl hx
      · exact .inr (.inl (List.mem_singleton.mpr rfl))
    · exact .inl (by simpa [exec, ha] using hx)
  | saveVideo v => exact .inl (by by_cases ha : env.acceptsVideo v <;> simpa [exec, ha] using hx)
  | findVideo | index | findQuery | pageVideos | pageQueries | delay => exact .inl hx

theorem Origins.later (h : Origins heard (own · t) s t) {t' : List (Entry Cmd Answer Store)} (ht : t <:+ t') :
    Origins heard (own · t') s t := by
  have hh : ∀ i x, heard i x → heard i x := fun _ _ hx => hx
  have hc : ∀ i, own i t ⊆ own i t' := fun i => (own_mono ht).subset
  refine ⟨fun id fields hf => (h.stored id fields hf).mono hh hc, fun id body hb => ?_, fun x hx => ?_,
    fun e he id fields hcall => ?_, fun e he v hcall => ?_, h.found, ?_⟩
  · exact ⟨(h.index id body hb).1.mono hh hc, (h.index id body hb).2⟩
  · obtain ⟨hvideos, hdistinct, hlisted⟩ := h.docs x hx
    exact ⟨fun v hv => ⟨(hvideos v hv).1.mono hh hc, (hvideos v hv).2⟩, hdistinct, hlisted.mono hh hc⟩
  · exact ⟨(h.read e he id fields hcall).1.mono hh hc, (h.read e he id fields hcall).2⟩
  · exact ⟨(h.saved e he v hcall).1.mono hh hc, (h.saved e he v hcall).2⟩
  · exact fun e he query user offset limit videos hcall v hv =>
      (h.paged e he query user offset limit videos hcall v hv).mono hh hc

section Step

variable {calls : Nat → History} (h : Origins heard calls s t)

include h

theorem Origins.seen {v : Video} (hv : Seen (own i t) v) :
    Sourced heard calls v ∧ s.youtubeData v.video_id ≠ none := by
  obtain hf | ⟨hs, -⟩ := hv
  · obtain ⟨e, he, -, hcall⟩ := mem_own.mp hf
    exact h.read e he _ _ hcall
  · obtain ⟨e, he, -, hcall⟩ := mem_own.mp hs
    exact h.saved e he v hcall

/-- A document with the videos that an insertion has gathered for its query. -/
theorem Origins.gathered {records : Dict Value} {d : QueryDoc} (hs : SuppliedBy (heard i) records)
    (hq : text records "query" = .ok d.query) (hg : Gathered records.items (own i t) d.videos)
    (hd : Saves (calls i) d) : SourcedDoc heard calls s d := by
  obtain ⟨x, hx, hs⟩ := hs
  refine ⟨fun v hv => h.seen (hg.seen v hv), gathered_nodup hg, i, x, hd, hx, ?_, fun id => ?_⟩
  · exact Except.ok.inj (hs.query.symm.trans hq)
  · exact hg.ids.mem_iff.trans (hs.lists id)

theorem Origins.doc {x : Call Cmd Answer} {d : QueryDoc}
    (hp : Does user asks (SuppliedBy (heard i)) (own i t) x) (hd : Saves [x] d) (hx : x ∈ calls i) :
    SourcedDoc heard calls s d := by
  obtain hm | ⟨oid, hm⟩ := hd
  · obtain rfl := List.mem_singleton.mp hm
    cases hp with
    | insert hr hstep =>
      obtain ⟨-, rest, -, hq, -, hg⟩ := hstep
      exact h.gathered hr hq hg (.inl hx)
  · obtain rfl := List.mem_singleton.mp hm
    cases hp with
    | insert hr hstep =>
      obtain ⟨-, query, user, doc, rest, hh, hq, -, hdoc, hg⟩ := hstep
      have hfind : ⟨.findQuery query user, some (oid, doc)⟩ ∈ own i t := by
        rw [hh]
        exact List.mem_cons_self
      obtain ⟨e, he, -, hcall⟩ := mem_own.mp hfind
      have hdq : d.query = query := by
        rw [hdoc]
        exact h.found e he query user oid doc hcall
      exact h.gathered hr (hdq ▸ hq) hg (.inr ⟨oid, hx⟩)

theorem Origins.page {query user : String} {offset limit : Nat} {v : Video}
    (hv : v ∈ s.page query user offset limit) : SourcedFor heard calls query v := by
  have hm := List.mem_of_mem_drop (List.mem_of_mem_take hv)
  rw [List.mem_insertionSort] at hm
  obtain ⟨d, hd, hvd⟩ := List.mem_flatMap.mp hm
  obtain ⟨⟨oid, hx⟩, hfor⟩ := mem_matching.mp hd
  obtain ⟨rfl, -⟩ := of_decide_eq_true hfor
  exact ⟨((h.docs _ hx).videos v hvd).1, d, rfl, hvd, (h.docs _ hx).listed⟩

end Step

theorem sourced_save {calls : Nat → History} {h : History} {v : Video}
    (hp : Does user asks (SuppliedBy (heard i)) h ⟨.saveVideo v, true⟩) (hx : ⟨.saveVideo v, true⟩ ∈ calls i) :
    Sourced heard calls v := by
  cases hp with
  | insert hr hstep =>
    obtain ⟨x, hheard, hs⟩ := hr
    obtain ⟨-, value, rest, hm, hf, -⟩ := hstep
    obtain ⟨r, rfl, hr⟩ := hs.about _ hm
    exact ⟨i, x, r, hx, hheard, hr, hf⟩

theorem sourcedBody_index {calls : Nat → History} {h : History} {id : String} {body : Indexed}
    (hp : Does user asks (SuppliedBy (heard i)) h ⟨.index id body, ()⟩) (hx : ⟨.index id body, ()⟩ ∈ calls i) :
    SourcedBody heard calls id body ∧ ∃ fields, ⟨.saveVideo ⟨id, fields⟩, true⟩ ∈ h := by
  cases hp with
  | insert hr hstep =>
    obtain ⟨x, hheard, hs⟩ := hr
    obtain ⟨-, value, fields, rest, hm, -, hi, rfl⟩ := hstep
    obtain ⟨r, rfl, hr⟩ := hs.about _ hm
    exact ⟨⟨i, x, r, hx, hheard, hr, hi⟩, fields, List.mem_cons_self⟩

theorem Origins.call (h : Origins heard (own · t) s t)
    (hp : Does user asks (SuppliedBy (heard i)) (own i t) ⟨c, (exec env c s).1⟩) :
    Origins heard (own · (⟨i, ⟨c, (exec env c s).1⟩, s⟩ :: t)) (exec env c s).2
      (⟨i, ⟨c, (exec env c s).1⟩, s⟩ :: t) := by
  have hx : ∀ {x}, (⟨c, (exec env c s).1⟩ : Call Cmd Answer) = x →
      x ∈ own i (⟨i, ⟨c, (exec env c s).1⟩, s⟩ :: t) := by
    rintro x rfl
    rw [own_cons_self]
    exact List.mem_cons_self
  have h := h.later (List.suffix_cons ⟨i, ⟨c, (exec env c s).1⟩, s⟩ t)
  have hdoc : ∀ {d}, SourcedDoc heard (own · (⟨i, ⟨c, (exec env c s).1⟩, s⟩ :: t)) s d →
      SourcedDoc heard (own · (⟨i, ⟨c, (exec env c s).1⟩, s⟩ :: t)) (exec env c s).2 d := fun hd =>
    ⟨fun v hv => ⟨(hd.videos v hv).1, youtubeData_exec_ne_none (hd.videos v hv).2⟩, hd.distinct, hd.listed⟩
  refine ⟨?_, ?_, fun x hm => hdoc ?_, ?_, ?_, ?_, ?_⟩
  · intro id fields hf
    obtain he | ⟨fields', hcall, he⟩ := youtubeData_changed env c s id
    · exact h.stored id fields (he.symm.trans hf)
    · obtain rfl := Option.some.inj (he.symm.trans hf)
      rw [hcall] at hp
      exact sourced_save hp (hx hcall)
  · intro id body hb
    obtain ⟨-, he⟩ | ⟨body', rfl, he⟩ := youtubevideos_changed env c s id
    · obtain ⟨hs, hn⟩ := h.index id body (he.symm.trans hb)
      exact ⟨hs, youtubeData_exec_ne_none hn⟩
    · obtain rfl := Option.some.inj (he.symm.trans hb)
      refine And.imp_right ?_ (sourcedBody_index hp (hx rfl))
      rintro ⟨fields, hsave⟩
      obtain ⟨e, he', -, hcall⟩ := mem_own.mp hsave
      exact youtubeData_exec_ne_none (h.saved e he' _ hcall).2
  · obtain hm | hsaves := document_changed hm
    · exact h.docs x hm
    · exact h.doc hp hsaves (hx rfl)
  · refine List.forall_mem_cons.mpr ⟨fun id fields hcall => ?_, fun e he id fields hcall => ?_⟩
    · have hf := youtubeData_found hcall
      exact ⟨h.stored id fields hf, youtubeData_exec_ne_none (by simp [hf])⟩
    · exact ⟨(h.read e he id fields hcall).1, youtubeData_exec_ne_none (h.read e he id fields hcall).2⟩
  · refine List.forall_mem_cons.mpr ⟨fun v hcall => ?_, fun e he v hcall => ?_⟩
    · have hcall : (⟨c, (exec env c s).1⟩ : Call Cmd Answer) = ⟨.saveVideo v, true⟩ := hcall
      have hstored := youtubeData_saved hcall
      rw [hcall] at hp
      exact ⟨sourced_save hp (hx hcall), by simp [hstored]⟩
    · exact ⟨(h.saved e he v hcall).1, youtubeData_exec_ne_none (h.saved e he v hcall).2⟩
  · refine List.forall_mem_cons.mpr ⟨fun query user oid doc hcall => ?_, h.found⟩
    obtain rfl : c = .findQuery query user := congrArg Call.cmd hcall
    simp only [Call.mk.injEq, true_and, heq_eq_eq] at hcall
    exact (of_decide_eq_true (first_eq_some hcall).2).1
  · refine List.forall_mem_cons.mpr ⟨fun query user offset limit videos hcall v hv => ?_, h.paged⟩
    obtain rfl : c = .pageVideos query user offset limit := congrArg Call.cmd hcall
    simp only [Call.mk.injEq, true_and, heq_eq_eq] at hcall
    exact h.page (hcall ▸ hv)

theorem origins_empty {calls : Nat → History} : Origins heard calls Store.empty [] := by
  refine ⟨?_, ?_, ?_, by simp, by simp, by simp, by simp⟩
  · intro id fields h
    cases h
  · intro id body h
    cases h
  · intro x hx
    cases hx

end Invariant

section Site

variable {env : SiteStore.Env} {clock : Nat} {users : List AccountStore.User} {jobs : Nat → SiteViews.Job}
  {ok : Pool SiteStore.Cmd SiteStore.Answer Exn SiteViews.Reply SiteStore.Store → Move Exn SiteStore.Event → Prop}
  {P : Pool SiteStore.Cmd SiteStore.Answer Exn SiteViews.Reply SiteStore.Store}

def heardBy (jobs : Nat → SiteViews.Job) (t : SiteStore.Trace) (i : Nat) : Exchange → Prop := Heard (jobs i) (own i t)

def videoCalls (t : SiteStore.Trace) (i : Nat) : History := SiteStore.videos.own (own i t)

theorem SourcedBody.later {t t' : SiteStore.Trace} (ht : t <:+ t') {id : String} {body : Indexed}
    (h : SourcedBody (heardBy jobs t) (videoCalls t) id body) : SourcedBody (heardBy jobs t') (videoCalls t') id body :=
  h.mono (fun _ _ hx => hx.suffix (own_mono ht))
    fun _ => (CommandEmbedding.own_suffix SiteStore.videos (own_mono ht)).subset

theorem execution_origin {job : SiteViews.Job} {h : SiteStore.History} {e : Execution} (he : Plays job h e) :
    Obeys (Does e.user e.asks (SuppliedBy (Heard job h))) (fun _ h' => AllIndexed h') e.program [] :=
  (execution_does e).mono (fun _ _ hx => hx.mono (fun _ hq => hq) fun _ hr => suppliedBy_source he hr)
    fun _ _ hi => hi allIndexed_nil

theorem origins_of_runs (hr : Runs (SiteStore.machine env) ok (SiteViews.start env clock users jobs) P) :
    Origins (heardBy jobs P.trace) (videoCalls P.trace) P.store.videos
      (P.trace.filterMap (SiteStore.videos.entry SiteStore.Store.videos)) := by
  obtain ⟨execs, Q, hplays, hQ, hs, ht, -⟩ := videos_run hr
  have hl : Lawful (fun i => Does (execs i).user (execs i).asks (SuppliedBy (heardBy jobs P.trace i)))
      (fun _ _ h => AllIndexed h) (start Store.empty execs) := fun i => execution_origin (hplays i)
  have hc := Chronicle.of_runs (I := fun s t => Origins (heardBy jobs P.trace) (own · t) s t) hl rfl origins_empty
    (fun _ _ _ _ h hp => h.call hp) (fun x => x.elim) hQ
  have hcalls : (own · Q.trace) = videoCalls P.trace := by
    rw [ht]
    exact funext fun i => CommandEmbedding.own_entries _ _ i P.trace
  rw [← hs, ← ht, ← hcalls]
  exact hc.now

/-- Whatever requests and workers do side by side, the site holds no data that
the API has not given to the job that saved it: in `YoutubeData`, in the index
and in the saved queries alike. What is indexed or in a saved query is also
stored. -/
theorem data_from_answers (hr : Runs (SiteStore.machine env) ok (SiteViews.start env clock users jobs) P) :
    (∀ id fields, P.store.videos.youtubeData id = some fields →
      Sourced (heardBy jobs P.trace) (videoCalls P.trace) ⟨id, fields⟩) ∧
    (∀ id body, P.store.videos.youtubevideos id = some body →
      SourcedBody (heardBy jobs P.trace) (videoCalls P.trace) id body ∧ P.store.videos.youtubeData id ≠ none) ∧
    ∀ x ∈ P.store.videos.queryModel.docs, ∀ v ∈ x.2.videos,
      Sourced (heardBy jobs P.trace) (videoCalls P.trace) v ∧ P.store.videos.youtubeData v.video_id ≠ none := by
  have h := origins_of_runs hr
  exact ⟨h.stored, h.index, fun x hx => (h.docs x hx).videos⟩

theorem worked_copies : ((demoRun workedMoves).store.videos.youtubeData "abcdefghijk").isSome = true ∧
    ((demoRun workedMoves).store.videos.youtubevideos "abcdefghijk").isSome = true := by
  decide +kernel

theorem data_from_answers_worked : ∃ fields,
    (demoRun workedMoves).store.videos.youtubeData "abcdefghijk" = some fields ∧
      Sourced (heardBy demoJobs (demoRun workedMoves).trace) (videoCalls (demoRun workedMoves).trace)
        ⟨"abcdefghijk", fields⟩ := by
  obtain ⟨fields, hf⟩ := Option.isSome_iff_exists.mp worked_copies.1
  exact ⟨fields, hf, (data_from_answers (runs_demoRun workedMoves)).1 _ _ hf⟩

/-- However fetches for one query overlap, the saved query never mixes their
answers: it holds the videos of one answer to the job that saved it, each once. -/
theorem documents_whole (hr : Runs (SiteStore.machine env) ok (SiteViews.start env clock users jobs) P)
    (x : Nat × QueryDoc) (hx : x ∈ P.store.videos.queryModel.docs) :
    (x.2.videos.map Video.video_id).Nodup ∧ Listed (heardBy jobs P.trace) (videoCalls P.trace) x.2 := by
  have h := origins_of_runs hr
  exact ⟨(h.docs x hx).distinct, (h.docs x hx).listed⟩

/-- A login, two registrations of one topic, and two workers that get different
answers. -/
def overlapJobs : Nat → SiteViews.Job
  | 0 => .http (blankRequest .post "/user/login")
  | 1 | 2 => .http (blankRequest .post "/search/register")
  | 3 => .worker oneVideo 0
  | _ => .worker SavedVideos.otherVideo 1

/-- Both workers have stored and indexed their videos before the first of them
saves the query. -/
def overlapMoves : List (Move Exn SiteStore.Event) :=
  List.replicate 15 (Move.go 0) ++ List.replicate 8 (Move.go 1) ++ List.replicate 8 (Move.go 2) ++
    (List.replicate 4 [Move.go 3, Move.go 4]).flatten ++ [Move.go 3, Move.go 3, Move.go 4, Move.go 4]

def overlapRun : Pool SiteStore.Cmd SiteStore.Answer Exn SiteViews.Reply SiteStore.Store :=
  siteRun demoEnv overlapJobs overlapMoves

theorem runs_overlapRun : Runs (SiteStore.machine demoEnv) (fun _ _ => True)
    (SiteViews.start demoEnv 0 [SessionSoundness.raceUser] overlapJobs) overlapRun :=
  runs_siteRun demoEnv overlapJobs overlapMoves

theorem overlapped_document : overlapRun.store.videos.queryModel.docs.map
    (fun x => (x.2.query, x.2.videos.map Video.video_id)) = [("celery videos", ["lmnopqrstuv"])] := by
  decide +kernel

theorem documents_whole_overlapped : ∃ x ∈ overlapRun.store.videos.queryModel.docs,
    x.2.query = "celery videos" ∧ x.2.videos.map Video.video_id = ["lmnopqrstuv"] ∧
      Listed (heardBy overlapJobs overlapRun.trace) (videoCalls overlapRun.trace) x.2 := by
  have hm : ("celery videos", ["lmnopqrstuv"]) ∈ overlapRun.store.videos.queryModel.docs.map
      (fun x => (x.2.query, x.2.videos.map Video.video_id)) := by
    rw [overlapped_document]
    exact List.mem_singleton.mpr rfl
  obtain ⟨x, hx, hxd⟩ := List.mem_map.mp hm
  obtain ⟨hq, hids⟩ := Prod.mk.inj hxd
  exact ⟨x, hx, hq, hids, (documents_whole runs_overlapRun x hx).2⟩

/-- The answers agree on what they say about a video. -/
def Agreeing (heard : Nat → Exchange → Prop) : Prop :=
  ∀ i j x y id r r', heard i x → heard j y → x.about id = some r → y.about id = some r' → r = r'

/-- A stored video and its document in the index, where an empty title is
stored as `no title`. -/
def SameVideo (fields : VideoFields) (body : Indexed) : Prop :=
  fields.published_date = body.published_date ∧ fields.title = orElse body.title "no title"

theorem sameVideo_of_told {r : VideoRecord} {fields : VideoFields} {body : Indexed}
    (hf : videoFields (.video r) = .ok fields) (hb : indexed (.video r) = some body) : SameVideo fields body := by
  have hs := AnswerAgreement.storedAs_of_videoFields hf
  obtain ⟨date, title, description, url⟩ := r
  cases date with
  | none => cases hb
  | some date =>
    cases title with
    | none => cases hb
    | some title =>
      obtain rfl := Option.some.inj hb
      exact ⟨(Option.some.inj hs.date).symm, (Option.some.inj hs.title).symm⟩

theorem videos_agree (hr : Runs (SiteStore.machine env) ok (SiteViews.start env clock users jobs) P)
    (ha : Agreeing (heardBy jobs P.trace)) (x : Nat × QueryDoc) (hx : x ∈ P.store.videos.queryModel.docs) (v : Video)
    (hv : v ∈ x.2.videos) : P.store.videos.youtubeData v.video_id = some v.fields := by
  have h := origins_of_runs hr
  obtain ⟨⟨i, y, r, -, hy, hr, hf⟩, hn⟩ := (h.docs x hx).videos v hv
  obtain ⟨fields, hfields⟩ := Option.ne_none_iff_exists'.mp hn
  obtain ⟨j, z, r', -, hz, hr', hf'⟩ := h.stored _ _ hfields
  obtain rfl := ha i j y z _ r r' hy hz hr hr'
  have he : fields = v.fields := Except.ok.inj (hf'.symm.trans hf)
  rw [hfields, he]

/-- If the answers agree, the copies of a video agree at every moment: what a
saved query holds is what `YoutubeData` holds, and so is what the index holds. -/
theorem copies_agree (hr : Runs (SiteStore.machine env) ok (SiteViews.start env clock users jobs) P)
    (ha : Agreeing (heardBy jobs P.trace)) :
    (∀ x ∈ P.store.videos.queryModel.docs, ∀ v ∈ x.2.videos,
      P.store.videos.youtubeData v.video_id = some v.fields) ∧
    ∀ id body, P.store.videos.youtubevideos id = some body →
      ∃ fields, P.store.videos.youtubeData id = some fields ∧ SameVideo fields body := by
  have h := origins_of_runs hr
  refine ⟨videos_agree hr ha, fun id body hb => ?_⟩
  obtain ⟨⟨i, y, r, -, hy, hr, hbody⟩, hn⟩ := h.index id body hb
  obtain ⟨fields, hfields⟩ := Option.ne_none_iff_exists'.mp hn
  obtain ⟨j, z, r', -, hz, hr', hf'⟩ := h.stored _ _ hfields
  obtain rfl := ha i j y z _ r r' hy hz hr hr'
  exact ⟨fields, hfields, sameVideo_of_told hf' hbody⟩

def apiOf : SiteViews.Job → Api
  | .http r => r.api
  | .worker api _ => api

def given (jobs : Nat → SiteViews.Job) (i : Nat) (x : Exchange) : Prop := x.With (apiOf (jobs i))

theorem given_of_heardBy {t : SiteStore.Trace} {i : Nat} {x : Exchange} (h : heardBy jobs t i x) : given jobs i x := by
  unfold heardBy at h
  unfold given
  cases hj : jobs i with
  | http r =>
    rw [hj] at h
    exact h.2.1
  | worker api now =>
    rw [hj] at h
    exact h.1

theorem Agreeing.heardBy (h : Agreeing (given jobs)) (t : SiteStore.Trace) : Agreeing (heardBy jobs t) :=
  fun i j x y id r r' hx hy => h i j x y id r r' (given_of_heardBy hx) (given_of_heardBy hy)

theorem about_oneVideo {x : Exchange} (h : x.With oneVideo) {id : String} {r : VideoRecord}
    (hr : x.about id = some r) : id = "abcdefghijk" ∧ r = ElasticAgreement.videoRecord := by
  obtain ⟨query, n, items, results⟩ := x
  obtain rfl := Option.some.inj (Except.ok.inj h.search)
  obtain rfl := Option.some.inj (Except.ok.inj h.videos)
  obtain ⟨item, hitem, rfl⟩ := Option.map_eq_some_iff.mp hr
  have hm := List.mem_of_find?_eq_some hitem
  have hid := List.find?_some hitem
  rw [List.reverse_singleton, List.mem_singleton] at hm
  subst hm
  obtain rfl := Option.some.inj (of_decide_eq_true hid)
  have hdate : (finalDate (.value "2021-05-01T10:00:00Z")).toOption = some ElasticAgreement.someDate := by
    decide +kernel
  refine ⟨rfl, ?_⟩
  simp only [itemRecord, hdate]
  rfl

theorem agreeing_oneVideo (h : ∀ i, apiOf (jobs i) = oneVideo) : Agreeing (given jobs) := by
  intro i j x y id r r' hx hy hr hr'
  rw [(about_oneVideo (h i ▸ hx) hr).2, (about_oneVideo (h j ▸ hy) hr').2]

theorem apiOf_demoJobs (i : Nat) : apiOf (demoJobs i) = oneVideo := by
  unfold demoJobs
  split <;> rfl

theorem copies_agree_worked : ∃ body fields,
    (demoRun workedMoves).store.videos.youtubevideos "abcdefghijk" = some body ∧
      (demoRun workedMoves).store.videos.youtubeData "abcdefghijk" = some fields ∧ SameVideo fields body := by
  obtain ⟨body, hb⟩ := Option.isSome_iff_exists.mp worked_copies.2
  obtain ⟨fields, hf, hs⟩ := (copies_agree (runs_demoRun workedMoves)
    ((agreeing_oneVideo apiOf_demoJobs).heardBy _)).2 _ _ hb
  exact ⟨body, fields, hb, hf, hs⟩

end Site

end YoutubeRecords.AnswerOrigins
