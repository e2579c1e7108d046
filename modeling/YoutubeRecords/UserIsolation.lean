import YoutubeRecords.SiteProvenance

namespace YoutubeRecords.UserIsolation

open CommandProgram ProgramPool CommandEmbedding PythonBasics Documents VideoStore IngestionPromises
  QueryUniqueness SiteRefinement SiteProvenance
open SiteStore (videos accounts)

/-- What the executions have read of the saved queries: documents that are
still there, each for the query and the user that were asked for. -/
structure Met (s : Store) (t : List (Entry Cmd Answer Store)) : Prop where
  read : ReadDocuments s t
  found : ∀ e ∈ t, ∀ query user oid doc, e.call = ⟨.findQuery query user, some (oid, doc)⟩ →
    isFor query user doc = true

section Frame

variable {env : Env} {s : Store} {t : List (Entry Cmd Answer Store)} {target : String → String → Prop} {i : Nat}
  {c : Cmd}

theorem Met.call (h : Met s t) (hp : promise target (own i t) ⟨c, (exec env c s).1⟩) :
    Met (exec env c s).2 (⟨i, ⟨c, (exec env c s).1⟩, s⟩ :: t) := by
  refine ⟨readDocuments_call h.read hp, List.forall_mem_cons.mpr ⟨fun query user oid doc hcall => ?_, h.found⟩⟩
  obtain rfl : c = .findQuery query user := congrArg Call.cmd hcall
  simp only [Call.mk.injEq, true_and, heq_eq_eq] at hcall
  exact (first_eq_some hcall).2

/-- The document that an execution rewrites, with the query and the user that
it has asked for. -/
theorem Met.saved (h : Met s t) {oid : Nat} {d : QueryDoc} {r : Bool}
    (hp : promise target (own i t) ⟨.saveQuery oid d, r⟩) :
    ∃ doc, (oid, doc) ∈ s.queryModel.docs ∧ doc.query = d.query ∧ doc.user = d.user ∧ target d.query d.user := by
  obtain ⟨doc, hdoc, hq, hu⟩ := saved_read h.read hp
  refine ⟨doc, hdoc, hq, hu, ?_⟩
  obtain ⟨records, ⟨query, user, old, rest, hh, htq, htu, hd, -⟩, hfor⟩ := hp
  have hm : ⟨.findQuery query user, some (oid, old)⟩ ∈ own i t := by
    rw [hh]
    exact List.mem_cons_self
  obtain ⟨e, he, -, hcall⟩ := mem_own.mp hm
  obtain ⟨rfl, rfl⟩ := of_decide_eq_true (h.found e he query user oid old hcall)
  rw [hd]
  exact hfor _ _ htq htu

/-- The saved queries of one user do not change when an execution acts for
others. -/
theorem Met.frame (h : Met s t) (hp : promise target (own i t) ⟨c, (exec env c s).1⟩) {query user : String}
    (hn : ¬ target query user) :
    matching (exec env c s).2.queryModel (isFor query user) = matching s.queryModel (isFor query user) := by
  have hne : ∀ d : QueryDoc, target d.query d.user → isFor query user d = false := by
    intro d hd
    refine decide_eq_false ?_
    rintro ⟨rfl, rfl⟩
    exact hn hd
  obtain he | ⟨oid, d, rfl, he⟩ | ⟨d, rfl, he⟩ := queryModel_cases env c s
  · rw [he]
  · obtain ⟨doc, hdoc, hq, hu, htarget⟩ := h.saved hp
    rw [he]
    exact matching_replace_of_not hdoc (hne doc (by rwa [hq, hu])) (hne d htarget)
  · obtain ⟨records, ⟨rest, -, htq, htu, -⟩, hfor⟩ := hp
    rw [he, matching_insert, hne d (hfor _ _ htq htu)]
    simp

end Frame

variable {env : SiteStore.Env} {clock : Nat} {users : List AccountStore.User} {jobs : Nat → SiteViews.Job}
  {ok : Pool SiteStore.Cmd SiteStore.Answer Exn SiteViews.Reply SiteStore.Store → Move Exn SiteStore.Event → Prop}
  {P : Pool SiteStore.Cmd SiteStore.Answer Exn SiteViews.Reply SiteStore.Store}

/-- A command touches the saved queries or the tasks of a user: it names the
user, or it changes a document of theirs. -/
def Touches (env : Env) (s : Store) (c : Cmd) (email : String) : Prop :=
  subject c = some email ∨ ∃ query, matching (exec env c s).2.queryModel (isFor query email) ≠
    matching s.queryModel (isFor query email)

theorem met_of_runs (hr : Runs (SiteStore.machine env) ok (SiteViews.start env clock users jobs) P) :
    Chronicle (SiteStore.machine env) (fun i => sitePromise (jobs i))
      (fun s t => Met s.videos (t.filterMap (videos.entry SiteStore.Store.videos))) P.store P.trace := by
  refine Chronicle.of_runs (start_lawful env clock users jobs) rfl ⟨by simp [ReadDocuments], by simp⟩ ?_ ?_ hr
  · intro s t i c h hp
    cases c with
    | account c => exact h
    | searchIndex q => exact h
    | takeTask =>
      have hv := (SiteStore.takeTask_parts env s).2
      change Met (SiteStore.exec env .takeTask s).2.videos _
      rw [hv]
      exact h
    | video c =>
      have hv := hp.2.2.2
      rw [← own_entries videos SiteStore.Store.videos] at hv
      exact h.call hv
  · intro x s t h
    cases x with
    | tick | refresh => exact h

/-- Whatever the others do meanwhile, no job reads, changes or queues anything
for a user unless it has verified a token of theirs, or has taken a task of
theirs from the queue. -/
theorem touches_own_only (hr : Runs (SiteStore.machine env) ok (SiteViews.start env clock users jobs) P)
    (e : Entry SiteStore.Cmd SiteStore.Answer SiteStore.Store) (older : SiteStore.Trace)
    (he : e :: older <:+ P.trace) (c : Cmd) (hc : e.call.cmd = .video c) (email : String)
    (ht : Touches env.videos e.before.videos c email) : Acting (own e.pid older) email := by
  obtain ⟨hmet, hp, hres⟩ := (met_of_runs hr).past e older he
  obtain ⟨i, ⟨c', r⟩, s⟩ := e
  obtain rfl : c' = .video c := hc
  obtain rfl : r = (exec env.videos c s.videos).1 := hres
  obtain ⟨-, hnames, -, hv⟩ := hp
  obtain hs | ⟨query, hne⟩ := ht
  · exact hnames email hs
  · by_contra hn
    rw [← own_entries videos SiteStore.Store.videos] at hv
    exact hne (hmet.frame hv fun he => hn he.acting)

def delaysFor (email : String) : SiteStore.Cmd → Bool
  | .video (.delay task) => decide (task.user = email)
  | _ => false

theorem topic_delays : (demoRun topicMoves).trace.head?.any
    (fun e => decide (e.pid = 1) && delaysFor "user@example.com" e.call.cmd) = true := by
  decide +kernel

theorem touches_own_only_topic : ∃ e older, (demoRun topicMoves).trace = e :: older ∧
    delaysFor "user@example.com" e.call.cmd = true ∧ Acting (own 1 older) "user@example.com" := by
  have hlast := topic_delays
  cases ht : (demoRun topicMoves).trace with
  | nil =>
    rw [ht] at hlast
    cases hlast
  | cons e older =>
    rw [ht, List.head?_cons, Option.any_some, Bool.and_eq_true, decide_eq_true_eq] at hlast
    obtain ⟨hpid, hdelays⟩ := hlast
    refine ⟨e, older, rfl, hdelays, ?_⟩
    obtain ⟨task, hcmd, hu⟩ : ∃ task, e.call.cmd = .video (.delay task) ∧ task.user = "user@example.com" := by
      unfold delaysFor at hdelays
      split at hdelays
      · next task hcmd => exact ⟨task, hcmd, of_decide_eq_true hdelays⟩
      · cases hdelays
    rw [← hpid]
    refine touches_own_only (runs_demoRun topicMoves) e older ?_ (.delay task) hcmd _ (.inl ?_)
    · rw [ht]
    · exact congrArg some hu

end YoutubeRecords.UserIsolation
