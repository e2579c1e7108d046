import Mathlib.Data.Set.Card
import YoutubeRecords.AnswerOrigins

namespace YoutubeRecords.IndexAnswers

open CommandProgram ProgramPool PythonBasics AccountViews VideoIngestion IngestionPromises FetchedAnswers
  SiteStore SiteViews SiteRefinement AnswerOrigins
open VideoStore (Date Indexed VideoFields Video)
open Calendar (toordinal minusDays)
open FilterDates (strptime Spells)

/-- The day that a bound of the filter names: the one its text spells, and
without a text the one that lies so many days before today. -/
def Bound (text : Option String) (today : Date) (days : Nat) (d : Date) : Prop :=
  (∃ t, nonempty text = some t ∧ Spells t d) ∨ nonempty text = none ∧ toordinal d + days = toordinal today

section Bounds

theorem toordinal_inj {d e : Date} (h : toordinal d = toordinal e) : d = e := by
  apply PublishedStamps.ordinal_inj
  exact Nat.le_antisymm ((Calendar.ordinal_le_iff d e).mpr h.le) ((Calendar.ordinal_le_iff e d).mpr h.ge)

theorem minusDays_eq_some {n : Nat} {d e : Date} : minusDays n d = some e ↔ toordinal e + n = toordinal d := by
  constructor
  · exact Calendar.toordinal_minusDays
  · intro h
    cases hm : minusDays n d with
    | none =>
      have hle := Calendar.minusDays_eq_none hm
      have hpos := Calendar.toordinal_pos e
      omega
    | some c =>
      have hc := Calendar.toordinal_minusDays hm
      exact congrArg some (toordinal_inj (by omega))

theorem toOption_eq_some {α : Type} {x : Except Exn α} {a : α} : x.toOption = some a ↔ x = .ok a := by
  cases x with
  | error e => simp [Except.toOption]
  | ok b => simp [Except.toOption]

theorem dateOf_eq_some {text : Option String} {today d : Date} {days : Nat} {default : Option Date}
    (h : default = minusDays days today) : dateOf text default = some d ↔ Bound text today days d := by
  unfold dateOf Bound
  cases nonempty text with
  | none => simp [h, minusDays_eq_some]
  | some t => simp [toOption_eq_some, FilterDates.strptime_eq_ok]

theorem range_eq_some {request : FilterRequest} {a b : Date} : request.range = some (a, b) ↔
    Bound request.startDate request.startNow 70 a ∧ Bound request.finalDate request.finalNow 0 b := by
  rw [← dateOf_eq_some rfl, ← dateOf_eq_some rfl]
  unfold FilterRequest.range
  constructor
  · intro h
    obtain ⟨start, hs, h⟩ := Option.bind_eq_some_iff.mp h
    obtain ⟨final, hf, h⟩ := Option.bind_eq_some_iff.mp h
    obtain ⟨rfl, rfl⟩ := Prod.mk.inj (Option.some.inj h)
    exact ⟨hs, hf⟩
  · rintro ⟨hs, hf⟩
    exact Option.bind_eq_some_iff.mpr ⟨a, hs, Option.bind_eq_some_iff.mpr ⟨b, hf, rfl⟩⟩

theorem range_eq_none {request : FilterRequest} : request.range = none ↔
    ¬ ∃ a b, Bound request.startDate request.startNow 70 a ∧ Bound request.finalDate request.finalNow 0 b := by
  simp only [← range_eq_some]
  cases request.range with
  | none => simp
  | some ab => exact iff_of_false (by simp) fun h => h ⟨ab.1, ab.2, rfl⟩

/-- The three ways the filter goes: it searches between the days that its
bounds name, or it answers with one of two messages. -/
theorem filter_cases (request : FilterRequest) :
    (∃ a b, Bound request.startDate request.startNow 70 a ∧ Bound request.finalDate request.finalNow 0 b ∧
      toordinal a ≤ toordinal b ∧ videosWithDateFilter.get request =
        .call (.searchIndex (.publishedWithin a b)) fun r => .ret (.result r)) ∨
    (∃ a b, Bound request.startDate request.startNow 70 a ∧ Bound request.finalDate request.finalNow 0 b ∧
      toordinal b < toordinal a ∧ videosWithDateFilter.get request =
        .ret (.message 400 "error" "final date cannt be greater than start date!!")) ∨
    (¬ ∃ a b, Bound request.startDate request.startNow 70 a ∧ Bound request.finalDate request.finalNow 0 b) ∧
      videosWithDateFilter.get request = .ret (.message 400 "message" "Date must be in yyyy-MM-dd format") := by
  unfold videosWithDateFilter.get
  cases hr : request.range with
  | none => exact .inr (.inr ⟨range_eq_none.mp hr, rfl⟩)
  | some ab =>
    obtain ⟨a, b⟩ := ab
    obtain ⟨ha, hb⟩ := range_eq_some.mp hr
    have hle := Calendar.ordinal_le_iff a b
    dsimp only
    split
    · next h => exact .inl ⟨a, b, ha, hb, hle.mp h, rfl⟩
    · next h => exact .inr (.inl ⟨a, b, ha, hb, Nat.lt_of_not_le fun hn => h (hle.mpr hn), rfl⟩)

end Bounds

section Hits

/-- The document is what the query asks for, where `analyze` cuts a text into
its terms. -/
def Matches (analyze : String → List String) : IndexQuery → Indexed → Prop
  | .matchTitle keyword, body => ∃ term ∈ analyze keyword, term ∈ analyze body.title
  | .publishedWithin gte lte, body =>
    toordinal gte ≤ toordinal body.published_date ∧ toordinal body.published_date ≤ toordinal lte

instance (analyze : String → List String) (query : IndexQuery) (body : Indexed) :
    Decidable (Matches analyze query body) :=
  match query with
  | .matchTitle keyword => inferInstanceAs (Decidable (∃ term ∈ analyze keyword, term ∈ analyze body.title))
  | .publishedWithin gte lte => inferInstanceAs (Decidable
      (toordinal gte ≤ toordinal body.published_date ∧ toordinal body.published_date ≤ toordinal lte))

def OnlyMatching (analyze : String → List String)
    (search : (String → Option Indexed) → IndexQuery → SearchResult) : Prop :=
  ∀ index query, ∀ x ∈ (search index query).hits, index x.id = some x.source ∧ Matches analyze query x.source

/-- Elasticsearch: the hits match, and they are all there are if they are fewer
than ten, the default size of an answer. -/
structure Elastic (analyze : String → List String)
    (search : (String → Option Indexed) → IndexQuery → SearchResult) : Prop where
  hit : OnlyMatching analyze search
  all : ∀ index query id body, (search index query).hits.length < 10 → index id = some body →
    Matches analyze query body → ⟨id, body⟩ ∈ (search index query).hits

variable {env : Env} {clock : Nat} {users : List AccountStore.User} {jobs : Nat → Job}
  {ok : Pool Cmd Answer Exn SiteViews.Reply Store → Move Exn Event → Prop}
  {P : Pool Cmd Answer Exn SiteViews.Reply Store} {analyze : String → List String}

theorem searchable_exec (c : Cmd) (s : Store) : (exec env c s).2.searchable = s.searchable := by
  cases c with
  | takeTask =>
    simp only [exec]
    split <;> rfl
  | account | video | searchIndex => rfl

theorem stored_exec {c : Cmd} {s : Store} {id : String} (h : s.videos.youtubeData id ≠ none) :
    (exec env c s).2.videos.youtubeData id ≠ none := by
  cases c with
  | takeTask => rwa [(takeTask_parts env s).2]
  | video c => exact youtubeData_exec_ne_none h
  | account | searchIndex => exact h

/-- What can be searched was told by an API and is stored. -/
theorem searchable_told (hr : Runs (machine env) ok (SiteViews.start env clock users jobs) P) {id : String}
    {body : Indexed} (h : P.store.searchable id = some body) :
    SourcedBody (heardBy jobs P.trace) (videoCalls P.trace) id body ∧ P.store.videos.youtubeData id ≠ none := by
  induction hr with
  | refl => cases h
  | @move Q hQ m _ ih =>
    obtain ⟨he, ht⟩ | ⟨i, c, he, ht⟩ | ⟨t, he, ht⟩ := move_cases (M := machine env) Q m
    · rw [he] at h ⊢
      rw [ht]
      exact ih h
    · rw [he] at h ⊢
      rw [ht]
      obtain ⟨hs, hn⟩ := ih ((congrFun (searchable_exec c Q.store) id).symm.trans h)
      exact ⟨hs.later (List.suffix_cons _ _), stored_exec hn⟩
    · rw [he] at h ⊢
      rw [ht]
      cases t with
      | tick ms => exact ih h
      | refresh =>
        have ho := origins_of_runs hQ
        exact ho.index id body h

def HitsStored (analyze : String → List String) (jobs : Nat → Job) (s : Store) (t : Trace) : Prop :=
  ∀ e ∈ t, ∀ query r, e.call = ⟨.searchIndex query, r⟩ → ∀ hit ∈ r.hits, Matches analyze query hit.source ∧
    SourcedBody (heardBy jobs t) (videoCalls t) hit.id hit.source ∧ s.videos.youtubeData hit.id ≠ none

theorem hits_stored (hE : OnlyMatching analyze env.search)
    (hr : Runs (machine env) ok (SiteViews.start env clock users jobs) P) :
    HitsStored analyze jobs P.store P.trace := by
  induction hr with
  | refl =>
    intro e he
    cases he
  | @move Q hQ m _ ih =>
    obtain ⟨hs, ht⟩ | ⟨i, c, hs, ht⟩ | ⟨t, hs, ht⟩ := move_cases (M := machine env) Q m
    · rw [hs, ht]
      exact ih
    · rw [hs, ht]
      refine List.forall_mem_cons.mpr ⟨fun query r hcall hit hh => ?_, fun e he query r hcall hit hh => ?_⟩
      · obtain rfl : c = .searchIndex query := congrArg Call.cmd hcall
        simp only [Call.mk.injEq, true_and, heq_eq_eq] at hcall
        obtain ⟨hindex, hmatch⟩ := hE _ _ hit (hcall ▸ hh)
        obtain ⟨htold, hstored⟩ := searchable_told hQ hindex
        exact ⟨hmatch, htold.later (List.suffix_cons _ _), hstored⟩
      · obtain ⟨hmatch, htold, hstored⟩ := ih e he query r hcall hit hh
        exact ⟨hmatch, htold.later (List.suffix_cons _ _), stored_exec hstored⟩
    · rw [hs, ht]
      cases t with
      | tick ms | refresh => exact ih

inductive Filters (request : FilterRequest) (found : IndexQuery → SearchResult → Prop) : IndexResponse → Prop
  | searched {a b : Date} {r : SearchResult} (ha : Bound request.startDate request.startNow 70 a)
      (hb : Bound request.finalDate request.finalNow 0 b) (h : toordinal a ≤ toordinal b)
      (hr : found (.publishedWithin a b) r) : Filters request found (.result r)
  | reversed {a b : Date} (ha : Bound request.startDate request.startNow 70 a)
      (hb : Bound request.finalDate request.finalNow 0 b) (h : toordinal b < toordinal a) :
      Filters request found (.message 400 "error" "final date cannt be greater than start date!!")
  | misspelt (h : ¬ ∃ a b, Bound request.startDate request.startNow 70 a ∧
        Bound request.finalDate request.finalNow 0 b) :
      Filters request found (.message 400 "message" "Date must be in yyyy-MM-dd format")

theorem dateFilter_obeys (r : HttpRequest) (h : SiteStore.History) :
    Obeys (fun _ _ => True)
      (fun reply h => ∃ response, reply = .index response ∧
        Filters r.filter (fun query x => ⟨.searchIndex query, x⟩ ∈ h) response)
      (View.program env r .dateFilter) h := by
  unfold View.program
  obtain ⟨a, b, ha, hb, hab, hp⟩ | ⟨a, b, ha, hb, hab, hp⟩ | ⟨hn, hp⟩ := filter_cases r.filter
  · rw [hp]
    exact fun x => ⟨trivial, _, rfl, .searched ha hb hab List.mem_cons_self⟩
  · rw [hp]
    exact ⟨_, rfl, .reversed ha hb hab⟩
  · rw [hp]
    exact ⟨_, rfl, .misspelt hn⟩

def Filtered (job : Job) (reply : SiteViews.Reply) (h : SiteStore.History) : Prop :=
  ∀ r, job = .http r → handler r = some .dateFilter →
    ∃ response, reply = .index response ∧
      Filters r.filter (fun query x => ⟨.searchIndex query, x⟩ ∈ h) response

theorem job_filters (env : Env) (job : Job) : Obeys (fun _ _ => True) (Filtered job) (job.program env) [] := by
  by_cases hf : ∃ r, job = .http r ∧ handler r = some .dateFilter
  · obtain ⟨r, rfl, hh⟩ := hf
    rw [Job.program, program_eq, hh]
    refine (CommandEmbedding.obeys_true _ _).bind fun _ h _ => ?_
    refine (dateFilter_obeys r h).mono (fun _ _ hx => hx) fun reply h' hend r' he _ => ?_
    obtain rfl := Job.http.inj he
    exact hend
  · exact (CommandEmbedding.obeys_true _ _).mono (fun _ _ hx => hx) fun _ _ _ r hr hh => absurd ⟨r, hr, hh⟩ hf

def Asked (r : HttpRequest) (query : IndexQuery) : Prop :=
  (handler r = some .dateFilter ∧ ∃ a b, Bound r.filter.startDate r.filter.startNow 70 a ∧
    Bound r.filter.finalDate r.filter.finalNow 0 b ∧ query = .publishedWithin a b) ∨
  handler r = some .textSearch ∧ ∃ keyword, r.keyword = some keyword ∧ query = .matchTitle keyword

def IndexReply (job : Job) (reply : SiteViews.Reply) (h : SiteStore.History) : Prop :=
  ∀ result, reply = .index (.result result) →
    ∃ r query, job = .http r ∧ Asked r query ∧ ⟨.searchIndex query, result⟩ ∈ h

theorem indexReply_other {job : Job} {reply : SiteViews.Reply} {h : SiteStore.History}
    (hr : ∀ response, reply ≠ .index response) : IndexReply job reply h := by
  intro result he
  exact absurd he (hr _)

theorem dateFilter_replies {r : HttpRequest} (hh : handler r = some .dateFilter) (h : SiteStore.History) :
    Obeys (fun _ _ => True) (IndexReply (.http r)) (View.program env r .dateFilter) h := by
  refine (dateFilter_obeys r h).mono (fun _ _ hx => hx) fun reply h' hf result he => ?_
  obtain ⟨response, rfl, hf⟩ := hf
  obtain rfl := SiteViews.Reply.index.inj he
  cases hf with
  | @searched a b _ ha hb _ hm => exact ⟨r, _, rfl, .inl ⟨hh, a, b, ha, hb, rfl⟩, hm⟩

theorem textSearch_replies {r : HttpRequest} (hh : handler r = some .textSearch) (h : SiteStore.History) :
    Obeys (fun _ _ => True) (IndexReply (.http r)) (View.program env r .textSearch) h := by
  unfold View.program textSearch.get
  cases hk : nonempty r.keyword with
  | none =>
    intro result he
    cases he
  | some keyword =>
    refine fun result => ⟨trivial, fun result' he => ?_⟩
    cases he
    exact ⟨r, _, rfl, .inr ⟨hh, keyword, (nonempty_eq_some.mp hk).1, rfl⟩, List.mem_cons_self⟩

theorem job_replies (env : Env) (job : Job) :
    Obeys (fun _ _ => True) (IndexReply job) (job.program env) [] := by
  have hother : ∀ {γ : Type} (p : Prog γ) (h : SiteStore.History) (reply : γ → SiteViews.Reply),
      (∀ a response, reply a ≠ .index response) →
      Obeys (fun _ _ => True) (IndexReply job) (p >>= fun a => .ret (reply a)) h := fun p h reply hr =>
    (CommandEmbedding.obeys_true p h).bind fun a _ _ => indexReply_other (hr a)
  cases job with
  | worker api now =>
    refine fun task => ⟨trivial, ?_⟩
    cases task with
    | none => exact indexReply_other (by simp)
    | some task => exact hother _ _ _ (by simp)
  | http r =>
    rw [Job.program, program_eq]
    refine (CommandEmbedding.obeys_true _ _).bind fun _ h _ => ?_
    cases hh : handler r with
    | none => exact indexReply_other (by simp)
    | some view =>
      cases view with
      | register | login | logout | refresh => exact hother _ _ _ (by simp)
      | searching | topic | bulk =>
        exact (CommandEmbedding.obeys_true _ _).bind fun _ _ _ => hother _ _ _ (by simp)
      | dateFilter => exact dateFilter_replies hh h
      | textSearch => exact textSearch_replies hh h
      | admin => exact indexReply_other (by simp)

/-- Whatever happens side by side, a request to the date filter that is
answered gets what the index has found between the two days that it names,
where a missing text stands for today or for the day ten weeks before, or the
message that its case has. -/
theorem filter_answers (hr : Runs (machine env) ok (SiteViews.start env clock users jobs) P) {i : Nat}
    {r : HttpRequest} {reply : SiteViews.Reply} (hjob : jobs i = .http r) (hh : handler r = some .dateFilter)
    (hi : P.procs i = .ret reply) :
    ∃ response, reply = .index response ∧
      Filters r.filter (fun query x => ∃ e ∈ P.trace, e.pid = i ∧ e.call = ⟨.searchIndex query, x⟩) response := by
  have hl : Lawful (fun _ _ _ => True) (fun i => Filtered (jobs i)) (SiteViews.start env clock users jobs) :=
    fun i => job_filters env (jobs i)
  have hp := hl.runs hr i
  rw [hi] at hp
  simpa only [mem_own] using hp r hjob hh

/-- Whatever happens side by side, a search or a filter request is answered
with hits that match what it asks for, that an API has described just so, and
that are stored in `YoutubeData`. -/
theorem search_replies_sound (hE : OnlyMatching analyze env.search)
    (hr : Runs (machine env) ok (SiteViews.start env clock users jobs) P) {i : Nat} {result : SearchResult}
    (hi : P.procs i = .ret (.index (.result result))) :
    ∃ r query, jobs i = .http r ∧ Asked r query ∧ ∀ hit ∈ result.hits, Matches analyze query hit.source ∧
      SourcedBody (heardBy jobs P.trace) (videoCalls P.trace) hit.id hit.source ∧
      P.store.videos.youtubeData hit.id ≠ none := by
  have hl : Lawful (fun _ _ _ => True) (fun i => IndexReply (jobs i)) (SiteViews.start env clock users jobs) :=
    fun i => job_replies env (jobs i)
  have hp := hl.runs hr i
  rw [hi] at hp
  obtain ⟨r, query, hjob, hask, hm⟩ := hp result rfl
  obtain ⟨e, he, -, hcall⟩ := mem_own.mp hm
  exact ⟨r, query, hjob, hask, fun hit hh => hits_stored hE hr e he query result hcall hit hh⟩

structure Ledger (s : VideoStore.Store) (t : List (Entry VideoStore.Cmd VideoStore.Answer VideoStore.Store)) :
    Prop where
  saved : ∀ id fields, s.youtubeData id = some fields → ∃ e ∈ t, e.call = ⟨.saveVideo ⟨id, fields⟩, true⟩
  written : ∀ e ∈ t, ∀ id body, e.call = ⟨.index id body, ()⟩ → s.youtubevideos id ≠ none

theorem Ledger.call {vs : VideoStore.Store} {t : List (Entry VideoStore.Cmd VideoStore.Answer VideoStore.Store)}
    (h : Ledger vs t) (env : VideoStore.Env) (i : Nat) (c : VideoStore.Cmd) :
    Ledger (VideoStore.exec env c vs).2 (⟨i, ⟨c, (VideoStore.exec env c vs).1⟩, vs⟩ :: t) := by
  constructor
  · intro id fields hf
    obtain he | ⟨fields', hcall, he⟩ := StoreCoherence.youtubeData_changed env c vs id
    · obtain ⟨e, hm, hcall⟩ := h.saved id fields (he.symm.trans hf)
      exact ⟨e, List.mem_cons_of_mem _ hm, hcall⟩
    · obtain rfl := Option.some.inj (he.symm.trans hf)
      exact ⟨_, List.mem_cons_self, hcall⟩
  · intro e hm id body hcall
    obtain ⟨hc, he⟩ | ⟨body', -, he⟩ := IngestionSchedules.youtubevideos_changed env c vs id
    · rw [he]
      obtain rfl | hm := List.mem_cons.mp hm
      · exact absurd (congrArg Call.cmd hcall) (hc body)
      · exact h.written e hm id body hcall
    · rw [he]
      exact Option.some_ne_none body'

theorem ledger_empty : Ledger VideoStore.Store.empty [] := by
  constructor
  · intro id fields h
    cases h
  · intro e he
    cases he

/-- Once each job that has made a call has returned, every stored video is in
the index. -/
theorem stored_indexed (hr : Runs (machine env) ok (SiteViews.start env clock users jobs) P)
    (hdone : ∀ e ∈ P.trace, ∃ reply, P.procs e.pid = .ret reply) {id : String} {fields : VideoFields}
    (h : P.store.videos.youtubeData id = some fields) : P.store.videos.youtubevideos id ≠ none := by
  obtain ⟨execs, Q, hplays, hQ, hs, ht, hend⟩ := videos_run hr
  have hl : Lawful (fun i => Does (execs i).user (execs i).asks (SuppliedBy (heardBy jobs P.trace i)))
      (fun _ _ h => AllIndexed h) (IngestionPromises.start VideoStore.Store.empty execs) :=
    fun i => execution_origin (hplays i)
  have hc := Chronicle.of_runs (I := Ledger) hl rfl ledger_empty (fun _ _ i c hI _ => hI.call env.videos i c)
    (fun x => x.elim) hQ
  rw [← hs] at h ⊢
  obtain ⟨e, he, hsave⟩ := hc.now.saved id fields h
  -- the execution that saved the video has returned, so it has indexed it
  rw [ht] at he
  obtain ⟨e', he', hentry⟩ := List.mem_filterMap.mp he
  obtain ⟨x, -, rfl⟩ := Option.map_eq_some_iff.mp hentry
  obtain ⟨reply, hp⟩ := hdone e' he'
  have hi := hl.runs hQ e'.pid
  rw [hend _ reply hp] at hi
  rw [← ht] at he
  obtain ⟨body, hb⟩ := hi ⟨id, fields⟩ (mem_own.mpr ⟨_, he, rfl, hsave⟩)
  obtain ⟨e'', he'', -, hcall⟩ := mem_own.mp hb
  exact hc.now.written e'' he'' id body hcall

def FixedDates (heard : Nat → Exchange → Prop) (date : String → Date) : Prop :=
  ∀ i x id r, heard i x → x.about id = some r → r.published_at = some (date id)

section Dates

variable {heard : Nat → Exchange → Prop} {calls : Nat → IngestionPromises.History} {date : String → Date}
  (hd : FixedDates heard date)

include hd

theorem sourced_date {v : Video} (h : Sourced heard calls v) : v.fields.published_date = date v.video_id := by
  obtain ⟨i, x, r, -, hx, hr, hf⟩ := h
  have hs := (AnswerAgreement.storedAs_of_videoFields hf).date
  rw [hd i x _ r hx hr] at hs
  exact (Option.some.inj hs).symm

theorem sourcedBody_date {id : String} {body : Indexed} (h : SourcedBody heard calls id body) :
    body.published_date = date id := by
  obtain ⟨i, x, r, -, hx, hr, hb⟩ := h
  have hdate := hd i x id r hx hr
  obtain ⟨date', title, description, url⟩ := r
  obtain rfl := hdate
  cases title with
  | none => cases hb
  | some title =>
    obtain rfl := Option.some.inj hb
    rfl

end Dates

def StoredWithin (s : VideoStore.Store) (a b : Date) (id : String) : Prop :=
  ∃ fields, s.youtubeData id = some fields ∧ toordinal a ≤ toordinal fields.published_date ∧
    toordinal fields.published_date ≤ toordinal b

/-- When the jobs have returned and the index is refreshed, the filter finds
all the stored videos of its range, and no others. -/
theorem date_filter_exact (hE : Elastic analyze env.search)
    (hr : Runs (machine env) ok (SiteViews.start env clock users jobs) P)
    (hdone : ∀ e ∈ P.trace, ∃ reply, P.procs e.pid = .ret reply) {date : String → Date}
    (hd : FixedDates (heardBy jobs P.trace) date) {request : FilterRequest} {result : SearchResult}
    (hres : (run (exec env) (videosWithDateFilter.get request) ((machine env).env .refresh P.store)).1 =
      .ok (.result result))
    (hfew : result.hits.length < 10) :
    ∃ a b, Bound request.startDate request.startNow 70 a ∧ Bound request.finalDate request.finalNow 0 b ∧
      ∀ id, id ∈ result.hits.map Hit.id ↔ StoredWithin P.store.videos a b id := by
  have ho := origins_of_runs hr
  obtain ⟨a, b, ha, hb, hab, hp⟩ | ⟨a, b, ha, hb, hab, hp⟩ | ⟨hn, hp⟩ := filter_cases request
  · rw [hp, run_call, run_ret] at hres
    obtain rfl := SiteViews.IndexResponse.result.inj (Except.ok.inj hres)
    refine ⟨a, b, ha, hb, fun id => ⟨fun hm => ?_, ?_⟩⟩
    · obtain ⟨hit, hh, rfl⟩ := List.mem_map.mp hm
      obtain ⟨hindex, hge, hle⟩ := hE.hit _ _ hit hh
      obtain ⟨hb, hn⟩ := ho.index _ _ hindex
      obtain ⟨fields, hfields⟩ := Option.ne_none_iff_exists'.mp hn
      refine ⟨fields, hfields, ?_⟩
      have hdate : fields.published_date = hit.source.published_date :=
        (sourced_date hd (ho.stored _ _ hfields)).trans (sourcedBody_date hd hb).symm
      rw [hdate]
      exact ⟨hge, hle⟩
    · rintro ⟨fields, hfields, hge, hle⟩
      obtain ⟨body, hbody⟩ := Option.ne_none_iff_exists'.mp (stored_indexed hr hdone hfields)
      have hdate : body.published_date = fields.published_date :=
        (sourcedBody_date hd (ho.index _ _ hbody).1).trans (sourced_date hd (ho.stored _ _ hfields)).symm
      rw [← hdate] at hge hle
      exact List.mem_map.mpr ⟨⟨id, body⟩, hE.all _ _ id body hfew hbody ⟨hge, hle⟩, rfl⟩
  · rw [hp] at hres
    cases hres
  · rw [hp] at hres
    cases hres

end Hits

section FilteredSession

theorem exists_some_or_all {α : Type} (S : Set α) (n : Nat) :
    ∃ l : List α, l.Nodup ∧ (∀ x ∈ l, x ∈ S) ∧ l.length ≤ n ∧ (l.length < n → ∀ x ∈ S, x ∈ l) := by
  induction n with
  | zero => exact ⟨[], by simp⟩
  | succ n ih =>
    obtain ⟨l, hnodup, hsub, hlen, hall⟩ := ih
    by_cases hx : ∀ x ∈ S, x ∈ l
    · exact ⟨l, hnodup, hsub, by omega, fun _ => hx⟩
    · push Not at hx
      obtain ⟨x, hS, hl⟩ := hx
      have hn : ¬ l.length < n := fun h => hl (hall h x hS)
      refine ⟨x :: l, List.nodup_cons.mpr ⟨hl, hnodup⟩, List.forall_mem_cons.mpr ⟨hS, hsub⟩, ?_⟩
      rw [List.length_cons]
      exact ⟨by omega, fun h => absurd h (by omega)⟩

def wholeTitle (text : String) : List String := [text]

def matchingHits (index : String → Option Indexed) (query : IndexQuery) : Set Hit :=
  fun x => index x.id = some x.source ∧ Matches wholeTitle query x.source

noncomputable def tenMatching (index : String → Option Indexed) (query : IndexQuery) : SearchResult :=
  ⟨(matchingHits index query).ncard, (exists_some_or_all (matchingHits index query) 10).choose⟩

theorem tenMatching_elastic : Elastic wholeTitle tenMatching where
  hit index query := (exists_some_or_all (matchingHits index query) 10).choose_spec.2.1
  all index query id body hlen hi hm :=
    (exists_some_or_all (matchingHits index query) 10).choose_spec.2.2.2 hlen ⟨id, body⟩ ⟨hi, hm⟩

def scan (ids : List String) (index : String → Option Indexed) (query : IndexQuery) : SearchResult :=
  let hits := ids.filterMap fun id => (index id).bind fun body =>
    if Matches wholeTitle query body then some ⟨id, body⟩ else none
  ⟨hits.length, hits⟩

theorem scan_onlyMatching (ids : List String) : OnlyMatching wholeTitle (scan ids) := by
  intro index query x hx
  obtain ⟨id, -, hid⟩ := List.mem_filterMap.mp hx
  obtain ⟨body, hbody, hm⟩ := Option.bind_eq_some_iff.mp hid
  obtain ⟨hmatches, hx⟩ := Option.ite_none_right_eq_some.mp hm
  obtain rfl := Option.some.inj hx
  exact ⟨hbody, hmatches⟩

def sinceJanuary : FilterRequest := ⟨some "2021-01-01", none, ElasticAgreement.someDate, ElasticAgreement.someDate⟩

def filterJobs : Nat → Job
  | 3 => .http { blankRequest .get "/search/_filter" with filter := sinceJanuary }
  | i => demoJobs i

def scanEnv : Env := { demoEnv with search := scan ["abcdefghijk"] }

def filteredMoves : List (Move Exn Event) := workedMoves ++ .env .refresh :: List.replicate 8 (.go 3)

def filteredRun : Pool Cmd Answer Exn SiteViews.Reply Store := siteRun scanEnv filterJobs filteredMoves

theorem runs_filteredRun : Runs (machine scanEnv) (fun _ _ => True)
    (SiteViews.start scanEnv 0 [SessionSoundness.raceUser] filterJobs) filteredRun :=
  runs_siteRun scanEnv filterJobs filteredMoves

def resultOf : Prog SiteViews.Reply → Option SearchResult
  | .ret (.index (.result r)) => some r
  | _ => none

theorem eq_of_resultOf {p : Prog SiteViews.Reply} {r : SearchResult} (h : resultOf p = some r) :
    p = .ret (.index (.result r)) := by
  unfold resultOf at h
  split at h
  · obtain rfl := Option.some.inj h
    rfl
  · cases h

theorem filtered_result : ∃ result, resultOf (filteredRun.procs 3) = some result ∧
    result.hits.map Hit.id = ["abcdefghijk"] := by
  have h : (resultOf (filteredRun.procs 3)).map (fun r => r.hits.map Hit.id) = some ["abcdefghijk"] := by
    decide +kernel
  exact Option.map_eq_some_iff.mp h

theorem filter_answers_sinceJanuary : ∃ result a b,
    filteredRun.procs 3 = .ret (.index (.result result)) ∧ result.hits.map Hit.id = ["abcdefghijk"] ∧
      Bound (some "2021-01-01") ElasticAgreement.someDate 70 a ∧ Bound none ElasticAgreement.someDate 0 b ∧
      ∃ e ∈ filteredRun.trace, e.pid = 3 ∧ e.call = ⟨.searchIndex (.publishedWithin a b), result⟩ := by
  obtain ⟨result, hresult, hids⟩ := filtered_result
  have hi := eq_of_resultOf hresult
  obtain ⟨response, he, hf⟩ := filter_answers runs_filteredRun (i := 3) rfl (by decide) hi
  obtain rfl := SiteViews.Reply.index.inj he
  cases hf with
  | @searched a b _ ha hb _ hm => exact ⟨result, a, b, hi, hids, ha, hb, hm⟩

theorem search_replies_sound_sinceJanuary : ∃ result query hit,
    filteredRun.procs 3 = .ret (.index (.result result)) ∧ hit ∈ result.hits ∧ hit.id = "abcdefghijk" ∧
      Matches wholeTitle query hit.source ∧
      SourcedBody (heardBy filterJobs filteredRun.trace) (videoCalls filteredRun.trace) hit.id hit.source ∧
      filteredRun.store.videos.youtubeData hit.id ≠ none := by
  obtain ⟨result, hresult, hids⟩ := filtered_result
  have hi := eq_of_resultOf hresult
  obtain ⟨hit, hm, hid⟩ := List.mem_map.mp (hids ▸ List.mem_singleton.mpr rfl)
  obtain ⟨r, query, -, -, hh⟩ := search_replies_sound (scan_onlyMatching _) runs_filteredRun hi
  exact ⟨result, query, hit, hi, hm, hid, hh hit hm⟩

noncomputable def indexEnv : Env := { demoEnv with search := tenMatching }

noncomputable def workedRun : Pool Cmd Answer Exn SiteViews.Reply Store := siteRun indexEnv filterJobs workedMoves

theorem runs_workedRun : Runs (machine indexEnv) (fun _ _ => True)
    (SiteViews.start indexEnv 0 [SessionSoundness.raceUser] filterJobs) workedRun :=
  runs_siteRun indexEnv filterJobs workedMoves

theorem apiOf_filterJobs (i : Nat) : apiOf (filterJobs i) = QueryUniqueness.oneVideo := by
  unfold filterJobs
  split
  · rfl
  · exact apiOf_demoJobs _

theorem about_filterJobs {t : Trace} {i : Nat} {x : Exchange} (hx : heardBy filterJobs t i x) {id : String}
    {r : VideoRecord} (hr : x.about id = some r) : id = "abcdefghijk" ∧ r = ElasticAgreement.videoRecord :=
  about_oneVideo (apiOf_filterJobs i ▸ given_of_heardBy hx) hr

theorem filterJobs_dates (t : Trace) : FixedDates (heardBy filterJobs t) fun _ => ElasticAgreement.someDate := by
  intro i x id r hx hr
  rw [(about_filterJobs hx hr).2]
  rfl

theorem workedRun_worked : (workedRun.store.videos.youtubeData "abcdefghijk").isSome = true ∧
    (workedRun.trace.all fun e => (workedRun.procs e.pid).returned) = true := by
  decide +kernel

theorem workedRun_done (e : Entry Cmd Answer Store) (he : e ∈ workedRun.trace) :
    ∃ reply, workedRun.procs e.pid = .ret reply :=
  exists_of_returned (List.all_eq_true.mp workedRun_worked.2 e he)

theorem sinceJanuary_covers {a b : Date} (ha : Bound sinceJanuary.startDate sinceJanuary.startNow 70 a)
    (hb : Bound sinceJanuary.finalDate sinceJanuary.finalNow 0 b) :
    toordinal a ≤ toordinal ElasticAgreement.someDate ∧ toordinal ElasticAgreement.someDate ≤ toordinal b := by
  have h : sinceJanuary.range.all (fun x => decide (toordinal x.1 ≤ toordinal ElasticAgreement.someDate ∧
      toordinal ElasticAgreement.someDate ≤ toordinal x.2)) = true := by decide +kernel
  rw [range_eq_some.mpr ⟨ha, hb⟩] at h
  exact of_decide_eq_true h

theorem tenMatching_few {index : String → Option Indexed} {id : String}
    (h : ∀ id' body, index id' = some body → id' = id) (query : IndexQuery) :
    (tenMatching index query).hits.length < 10 := by
  obtain ⟨hnodup, hsub, -, -⟩ := (exists_some_or_all (matchingHits index query) 10).choose_spec
  have hsame : ∀ x y : Hit, index x.id = some x.source → index y.id = some y.source → x = y := by
    rintro ⟨i, x⟩ ⟨j, y⟩ hx hy
    obtain rfl := h i x hx
    obtain rfl := h j y hy
    exact congrArg (Hit.mk j) (Option.some.inj (hx.symm.trans hy))
  unfold tenMatching
  cases hl : (exists_some_or_all (matchingHits index query) 10).choose with
  | nil => simp
  | cons x l =>
    cases l with
    | nil => simp
    | cons y l =>
      rw [hl] at hnodup hsub
      have hxy := hsame x y (hsub x (by simp)).1 (hsub y (by simp)).1
      simp [hxy] at hnodup

theorem workedRun_index {id : String} {body : Indexed}
    (h : workedRun.store.videos.youtubevideos id = some body) : id = "abcdefghijk" := by
  have ho := origins_of_runs runs_workedRun
  obtain ⟨⟨i, x, r, -, hx, hr, -⟩, -⟩ := ho.index id body h
  exact (about_filterJobs hx hr).1

theorem date_filter_exact_sinceJanuary : ∃ result,
    (run (exec indexEnv) (videosWithDateFilter.get sinceJanuary)
      ((machine indexEnv).env .refresh workedRun.store)).1 = .ok (.result result) ∧
    "abcdefghijk" ∈ result.hits.map Hit.id := by
  obtain ⟨a, b, -, -, -, hp⟩ | ⟨a, b, ha, hb, hab, -⟩ | ⟨hn, -⟩ := filter_cases sinceJanuary
  · have hres : (run (exec indexEnv) (videosWithDateFilter.get sinceJanuary)
        ((machine indexEnv).env .refresh workedRun.store)).1 =
        .ok (.result (tenMatching workedRun.store.videos.youtubevideos (.publishedWithin a b))) := by
      rw [hp, run_call, run_ret]
      rfl
    have hfew := tenMatching_few (fun _ _ => workedRun_index) (.publishedWithin a b)
    obtain ⟨a', b', ha, hb, hall⟩ := date_filter_exact tenMatching_elastic runs_workedRun
      workedRun_done (filterJobs_dates _) hres hfew
    refine ⟨_, hres, (hall _).mpr ?_⟩
    obtain ⟨fields, hf⟩ := Option.isSome_iff_exists.mp workedRun_worked.1
    have ho := origins_of_runs runs_workedRun
    refine ⟨fields, hf, ?_⟩
    have hdate : fields.published_date = ElasticAgreement.someDate :=
      sourced_date (filterJobs_dates _) (ho.stored _ _ hf)
    rw [hdate]
    exact sinceJanuary_covers ha hb
  · have h := sinceJanuary_covers ha hb
    omega
  · obtain ⟨ab, hab⟩ := Option.isSome_iff_exists.mp (show sinceJanuary.range.isSome = true by decide +kernel)
    exact absurd ⟨ab.1, ab.2, range_eq_some.mp hab⟩ hn

end FilteredSession

end YoutubeRecords.IndexAnswers
