import YoutubeRecords.IngestionEffects
import YoutubeRecords.StoreCoherence

namespace YoutubeRecords.SavedVideos

open CommandProgram ProgramPool PythonBasics Documents OrderedDict VideoStore VideoIngestion SearchViews
  IngestionPromises QueryUniqueness StoreCoherence IngestionEffects

def savedVideos (s : Store) (query user : String) : List Video :=
  match first s.queryModel (isFor query user) with
  | some (_, doc) => doc.videos
  | none => []

def savedIds (s : Store) (query user : String) : List String := (savedVideos s query user).map Video.video_id

def searchArgs (request : SearchRequest) : Option (String × String × Nat × Nat) :=
  match intOf (request.offset.getD "0"), intOf (request.limit.getD "5"),
    request.q.filter (fun q => decide (q ≠ "")), request.currentUser with
  | .ok offset, .ok limit, some query, some user =>
    if limit < 0 ∨ offset < 0 then none else some (query, user, offset.toNat, limit.toNat)
  | _, _, _, _ => none

def pageIsShort (s : Store) (query user : String) (offset limit : Nat) : Bool :=
  (s.page query user offset (limit + 1)).isEmpty || decide ((s.page query user offset (limit + 1)).length < limit)

def inserted (s : Store) : Execution → Option (Dict Value × Nat)
  | .insert records now => some (records, now)
  | .fetch api user n query now =>
    match fetchedRecords api user n query with
    | .ok (some records) => some (records, now)
    | _ => none
  | .search api now request =>
    match searchArgs request with
    | some (query, user, offset, limit) =>
      if pageIsShort s query user offset limit then
        match fetchedRecords api user (.num limit 0) query with
        | .ok (some records) => some (records, now)
        | _ => none
      else none
    | none => none
  | .topic _ | .bulk _ => none

variable {env : Env} {s : Store}

theorem queryModel_fetch (api : Api) (user : String) (n : Json) (query : String) (now : Nat) (s : Store) :
    (run (exec env) (fetchYoutubeData api user n query now) s).2.queryModel =
      match fetchedRecords api user n query with
      | .ok (some records) => (run (exec env) (insertIntoDatabase records now) s).2.queryModel
      | _ => s.queryModel := by
  unfold fetchYoutubeData
  split
  · next h => simp [h]
  · next h => simp [h]
  · next records h => simp [h, run_bind_ret]

theorem queryModel_searchVideos (api : Api) (now : Nat) (query user : String) (offset limit : Nat) (s : Store) :
    (run (exec env) (searchVideos api now query user offset limit) s).2.queryModel =
      if pageIsShort s query user offset limit then
        (run (exec env) (fetchYoutubeData api user (.num limit 0) query now) s).2.queryModel
      else s.queryModel := by
  change (run (exec env) (answerPage api now query user offset limit (s.page query user offset (limit + 1)))
    s).2.queryModel = _
  unfold pageIsShort
  generalize s.page query user offset (limit + 1) = videos
  unfold answerPage
  by_cases he : videos.isEmpty = true
  · simp [he, run_bind_ret]
  · by_cases hl : videos.length < limit
    · simp [he, hl, run_bind_ret]
    · simp [he, hl]

theorem queryModel_search (api : Api) (now : Nat) (request : SearchRequest) (s : Store) :
    (run (exec env) (searchingView.get api now request) s).2.queryModel =
      match searchArgs request with
      | some (query, user, offset, limit) =>
        (run (exec env) (searchVideos api now query user offset limit) s).2.queryModel
      | none => s.queryModel := by
  unfold searchingView.get searchArgs
  cases ho : intOf (request.offset.getD "0") with
  | error e => rfl
  | ok offset =>
    cases hl : intOf (request.limit.getD "5") with
    | error e => rfl
    | ok limit =>
      cases request.q.filter (fun q => decide (q ≠ "")) with
      | none =>
        by_cases hn : limit < 0 ∨ offset < 0
        · simp only [if_pos hn]
          rfl
        · simp only [if_neg hn]
          rfl
      | some query =>
        cases request.currentUser with
        | none =>
          by_cases hn : limit < 0 ∨ offset < 0
          · simp only [if_pos hn]
            rfl
          · simp only [if_neg hn]
            rfl
        | some user =>
          by_cases hn : limit < 0 ∨ offset < 0
          · simp only [if_pos hn]
            rfl
          · simp only [if_neg hn]

theorem queryModel_untargeted {e : Execution} (h : ∀ query user, ¬ e.IsFor query user) (s : Store) :
    (run (exec env) e.program s).2.queryModel = s.queryModel := by
  refine (execution_obeys e []).run_invariant (I := fun t : Store => t.queryModel = s.queryModel) rfl ?_
  intro h' c t ht hp
  obtain he | ⟨oid, d, rfl, -⟩ | ⟨d, rfl, -⟩ := queryModel_cases env c t
  · exact he.trans ht
  · obtain ⟨records, ⟨query, user, _, _, _, hq, hu, _⟩, hfor⟩ := hp
    exact absurd (hfor query user hq hu) (h query user)
  · obtain ⟨records, ⟨_, _, hq, hu, _⟩, hfor⟩ := hp
    exact absurd (hfor d.query d.user hq hu) (h d.query d.user)

/-- Only the insertion that an execution reaches can change saved queries. -/
theorem queryModel_run (e : Execution) (s : Store) :
    (run (exec env) e.program s).2.queryModel =
      match inserted s e with
      | some (records, now) => (run (exec env) (insertIntoDatabase records now) s).2.queryModel
      | none => s.queryModel := by
  cases e with
  | insert records now => rfl
  | fetch api user n query now =>
    simp only [Execution.program, pure_eq, run_bind_ret, queryModel_fetch, inserted]
    cases fetchedRecords api user n query with
    | error e => rfl
    | ok found => cases found <;> rfl
  | search api now request =>
    simp only [Execution.program, pure_eq, run_bind_ret, queryModel_search, inserted]
    cases searchArgs request with
    | none => rfl
    | some args =>
      obtain ⟨query, user, offset, limit⟩ := args
      simp only [queryModel_searchVideos, queryModel_fetch]
      split
      · cases fetchedRecords api user (.num limit 0) query with
        | error e => rfl
        | ok found => cases found <;> rfl
      · rfl
  | topic request => exact queryModel_untargeted (e := .topic request) (fun _ _ h => h) s
  | bulk request => exact queryModel_untargeted (e := .bulk request) (fun _ _ h => h) s

theorem savedVideos_congr {t : Store} (h : t.queryModel = s.queryModel) (query user : String) :
    savedVideos t query user = savedVideos s query user := by
  simp only [savedVideos, h]

theorem isFor_self (d : QueryDoc) : isFor d.query d.user d = true := by simp [isFor]

theorem savedVideos_saved {t : Store} {query user : String} {videos : List Video} {now : Nat}
    (ht : t.queryModel = savedModel s query user videos now) : savedVideos t query user = videos := by
  unfold savedVideos
  rw [ht, savedModel]
  cases hf : first s.queryModel (isFor query user) with
  | none =>
    have hd : isFor query user ⟨user, query, videos, now⟩ = true := isFor_self ⟨user, query, videos, now⟩
    simp only [first_insert, hf, hd, if_true, Option.none_or]
  | some found =>
    obtain ⟨oid, doc⟩ := found
    have hd : isFor query user { doc with videos := videos } = true := (first_eq_some hf).2
    simp only [first_replace_self hf hd]

theorem savedVideos_other {t : Store} {query user query' user' : String} {videos : List Video} {now : Nat}
    (ht : t.queryModel = savedModel s query user videos now) (hne : ¬ (query = query' ∧ user = user')) :
    savedVideos t query' user' = savedVideos s query' user' := by
  unfold savedVideos
  rw [ht, savedModel]
  cases hf : first s.queryModel (isFor query user) with
  | none =>
    have hd : isFor query' user' ⟨user, query, videos, now⟩ = false := decide_eq_false hne
    simp only [first_insert, hd, Bool.false_eq_true, if_false, Option.or_none]
  | some found =>
    obtain ⟨oid, doc⟩ := found
    obtain ⟨hm, hfor⟩ := first_eq_some hf
    obtain ⟨rfl, rfl⟩ := of_decide_eq_true hfor
    have hd : isFor query' user' doc = false := decide_eq_false hne
    have hd' : isFor query' user' { doc with videos := videos } = false := hd
    simp only [first_replace_of_not hm hd hd']

/-- Every video id saved for a query and a user is saved for them afterwards. -/
def KeepsSaved (env : Env) (s : Store) (e : Execution) : Prop :=
  ∀ query user, savedIds s query user ⊆ savedIds (run (exec env) e.program s).2 query user

/-- If the execution gets to save the result of a fetch, then the API has
returned every video that was saved for that query and user. -/
def ReturnedAgain (env : Env) (s : Store) (e : Execution) : Prop :=
  ∀ records now query user, inserted s e = some (records, now) → Completes env s records now query user →
    savedIds s query user ⊆ (videoItems records.items).map Prod.fst

theorem queryModel_completes {records : Dict Value} {now : Nat} {query user : String} {e : Execution}
    (hi : inserted s e = some (records, now)) (hc : Completes env s records now query user) :
    (run (exec env) e.program s).2.queryModel = savedModel s query user (collected s records) now := by
  rw [queryModel_run, hi]
  simp only [run_insertIntoDatabase hc]

theorem queryModel_not_completes {records : Dict Value} {now : Nat}
    (h : ∀ query user, ¬ Completes env s records now query user) :
    (run (exec env) (insertIntoDatabase records now) s).2.queryModel = s.queryModel := by
  obtain ⟨_, t, hrun, ht⟩ := run_insertIntoDatabase_error h
  rw [hrun]
  exact ht

theorem keeps_saved_iff (env : Env) (s : Store) (e : Execution) : KeepsSaved env s e ↔ ReturnedAgain env s e := by
  constructor
  · intro hk records now query user hi hc id hid
    have hm := hk query user hid
    rw [savedIds, savedVideos_saved (queryModel_completes hi hc)] at hm
    exact (mem_collected_ids hc.ingestible).mp hm
  · intro hr query' user' id hid
    by_cases hu : ∃ records now query user, inserted s e = some (records, now) ∧
        Completes env s records now query user
    · obtain ⟨records, now, query, user, hi, hc⟩ := hu
      have hm := queryModel_completes hi hc
      by_cases heq : query = query' ∧ user = user'
      · obtain ⟨rfl, rfl⟩ := heq
        rw [savedIds, savedVideos_saved hm]
        exact (mem_collected_ids hc.ingestible).mpr (hr records now query user hi hc hid)
      · rw [savedIds, savedVideos_other hm heq]
        exact hid
    · have hsame : (run (exec env) e.program s).2.queryModel = s.queryModel := by
        rw [queryModel_run]
        cases hi : inserted s e with
        | none => rfl
        | some found =>
          obtain ⟨records, now⟩ := found
          exact queryModel_not_completes fun query user hc => hu ⟨records, now, query, user, hi, hc⟩
      rw [savedIds, savedVideos_congr hsame]
      exact hid

section Refetch

def otherVideo : Api where
  search _ _ := .ok (some [⟨some "lmnopqrstuv", .value "2021-06-01T10:00:00Z", .value "celery videos",
    .value "a sequel"⟩])
  videos _ := .ok (some [⟨some "lmnopqrstuv", .null⟩])

def searchCelery (api : Api) (now : Nat) : Execution :=
  .search api now ⟨some "celery videos", some "user@example.com", none, none⟩

def afterSearch : Store := (run (exec acceptAll) (searchCelery oneVideo 1).program Store.empty).2

def afterSecondSearch : Store := (run (exec acceptAll) (searchCelery otherVideo 2).program afterSearch).2

theorem second_search_ids : savedIds afterSearch "celery videos" "user@example.com" = ["abcdefghijk"] ∧
    savedIds afterSecondSearch "celery videos" "user@example.com" = ["lmnopqrstuv"] := by
  decide +kernel

theorem saved_video_lost_by_search : ¬ ∀ (env : Env) (p : Prog Unit) (s : Store) (e : Execution),
    Reached env p s → KeepsSaved env s e := by
  intro hall
  obtain ⟨p, hp⟩ : ∃ p, Steps (exec acceptAll) (searchCelery oneVideo 1).program Store.empty p afterSearch :=
    steps_run _ _
  have h := hall acceptAll p afterSearch (searchCelery otherVideo 2) (reached_steps .refl hp)
    "celery videos" "user@example.com"
  change _ ⊆ savedIds afterSecondSearch _ _ at h
  rw [second_search_ids.1, second_search_ids.2] at h
  exact absurd h (by decide)

end Refetch

end YoutubeRecords.SavedVideos
