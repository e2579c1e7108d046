import YoutubeRecords.FetchedAnswers
import YoutubeRecords.SavedVideos

namespace YoutubeRecords.FailedFetches

open CommandProgram PythonBasics Documents OrderedDict VideoStore VideoIngestion IngestionPromises
  QueryUniqueness StoreCoherence IngestionEffects FetchedAnswers SavedVideos

/-- A fetch that returns has saved every searched video and listed it for the
user; one that raises has left the three stores as they were. -/
def Outcome (s : Store) (query user : String) (items : List SearchItem) :
    Except Exn (Dict Value) × Store → Prop
  | (.ok _, t) => ∀ id ∈ searched items, t.youtubeData id ≠ none ∧ id ∈ savedIds t query user
  | (.error _, t) => t.youtubeData = s.youtubeData ∧ t.youtubevideos = s.youtubevideos ∧
      t.queryModel = s.queryModel

def AllOrNothing (env : Env) (s : Store) (api : Api) (user : String) (n : Json) (query : String) (now : Nat)
    (items : List SearchItem) : Prop :=
  Outcome s query user items (run (exec env) (fetchYoutubeData api user n query now) s)

def isNew (s : Store) (id : String) : Bool := (s.youtubeData id).isNone

def Storable (env : Env) (query : String) (items : List SearchItem) (results : List VideoItem) (id : String) :
    Prop :=
  ∃ r fields, answerFor query items results id = some r ∧ videoFields (.video r) = .ok fields ∧
    env.acceptsVideo ⟨id, fields⟩ = true

def NothingFails (env : Env) (s : Store) (query user : String) (now : Nat) (items : List SearchItem)
    (results : List VideoItem) : Prop :=
  (∀ id ∈ searched items, isNew s id → Storable env query items results id) ∧
    env.acceptsQuery (savedDoc s query user
      (collected s (labelled (recordsOf query items results) query user)) now) = true

def FirstNewFails (env : Env) (s : Store) (query : String) (items : List SearchItem) (results : List VideoItem) :
    Prop :=
  ∀ id, (searched items).find? (isNew s) = some id → ¬ Storable env query items results id

variable {env : Env} {s : Store}

section Loop

variable {items : List (String × Value)}

def CanStore (env : Env) (x : String × Value) : Prop :=
  ∃ fields, videoFields x.2 = .ok fields ∧ env.acceptsVideo ⟨x.1, fields⟩ = true

def firstNew (s : Store) (items : List (String × Value)) : Option (String × Value) :=
  (videoItems items).find? (fun x => isNew s x.1)

theorem isNew_of_firstNew {x : String × Value} (h : firstNew s items = some x) : s.youtubeData x.1 = none := by
  have hx := List.find?_some h
  exact Option.isNone_iff_eq_none.mp hx

/-- If the first new video cannot be stored, the loop writes nothing. -/
theorem insertVideos_untouched (h : ∀ x, firstNew s items = some x → ¬ CanStore env x)
    (complete new : List Video) :
    (run (exec env) (insertVideos items complete new) s).2 = s := by
  induction items generalizing complete new with
  | nil => rfl
  | cons x items ih =>
    obtain ⟨key, value⟩ := x
    cases hk : skipped key with
    | true =>
      rw [firstNew, videoItems_skip hk] at h
      rw [run_insertVideos_skip hk]
      exact ih h complete new
    | false =>
      rw [firstNew, videoItems_cons hk] at h
      cases hf : s.youtubeData key with
      | some fields =>
        rw [run_insertVideos_found hk hf]
        refine ih (fun x hx => h x ?_) _ new
        rw [List.find?_cons_of_neg (by simp [isNew, hf])]
        exact hx
      | none =>
        rw [run_insertVideos_missing hk hf]
        have hx := h (key, value) (List.find?_cons_of_pos (by simp [isNew, hf]))
        have herr : ∀ fields, videoFields value = .ok fields → env.acceptsVideo ⟨key, fields⟩ = false := by
          intro fields hv
          by_contra ha
          exact hx ⟨fields, hv, by simpa using ha⟩
        obtain ⟨e, he⟩ := run_insertNewVideo_error (s := s) herr
        rw [run_bind_error _ he]

theorem youtubeData_kept (c : Cmd) (s : Store) (id : String) (h : s.youtubeData id ≠ none) :
    (exec env c s).2.youtubeData id ≠ none := by
  obtain hsame | ⟨_, -, hnew⟩ := youtubeData_changed env c s id
  · rwa [hsame]
  · rw [hnew]
    simp

/-- If the first new video can be stored, it is stored, however the loop ends. -/
theorem insertVideos_touched {x : String × Value} (hx : firstNew s items = some x) (hs : CanStore env x)
    (complete new : List Video) :
    (run (exec env) (insertVideos items complete new) s).2.youtubeData x.1 ≠ none := by
  induction items generalizing complete new with
  | nil => cases hx
  | cons y items ih =>
    obtain ⟨key, value⟩ := y
    cases hk : skipped key with
    | true =>
      rw [firstNew, videoItems_skip hk] at hx
      rw [run_insertVideos_skip hk]
      exact ih hx complete new
    | false =>
      rw [firstNew, videoItems_cons hk] at hx
      cases hf : s.youtubeData key with
      | some fields =>
        rw [List.find?_cons_of_neg (by simp [isNew, hf])] at hx
        rw [run_insertVideos_found hk hf]
        exact ih hx _ new
      | none =>
        rw [List.find?_cons_of_pos (by simp [isNew, hf])] at hx
        obtain rfl := Option.some.inj hx
        obtain ⟨fields, hv, ha⟩ := hs
        obtain ⟨body, hb, -⟩ := indexed_of_videoFields hv
        rw [run_insertVideos_missing hk hf, run_bind_ok _ (run_insertNewVideo_ok hv hb ha)]
        refine (always_of_keeps (fun c t => youtubeData_kept c t key) _ ?_).run
        simp [stored]

end Loop

theorem videos_insertIntoDatabase (env : Env) (records : Dict Value) (now : Nat) (s : Store) :
    (run (exec env) (insertIntoDatabase records now) s).2.youtubeData =
        (run (exec env) (insertVideos records.items [] []) s).2.youtubeData ∧
      (run (exec env) (insertIntoDatabase records now) s).2.youtubevideos =
        (run (exec env) (insertVideos records.items [] []) s).2.youtubevideos := by
  rw [insertIntoDatabase, run_bind]
  cases hr : run (exec env) (insertVideos records.items [] []) s with
  | mk result t =>
    cases result with
    | error e => exact ⟨rfl, rfl⟩
    | ok videos =>
      cases text records "query" with
      | error e => exact ⟨rfl, rfl⟩
      | ok query =>
        cases text records "user" with
        | error e => exact ⟨rfl, rfl⟩
        | ok user =>
          simp only [run_saveQuery]
          split <;> exact ⟨rfl, rfl⟩

section Answers

variable {api : Api} {n : Json} {query user : String} {items : List SearchItem} {results : List VideoItem}
  {now : Nat}

theorem canStore_iff (h : WellFormed api query n items results) {x : String × Value}
    (hx : x ∈ (recordsOf query items results).items) : CanStore env x ↔ Storable env query items results x.1 := by
  have hg : get (recordsOf query items results) x.1 = some x.2 := get_eq_some.mpr hx
  rw [get_recordsOf h.named] at hg
  obtain ⟨r, hr, hv⟩ := Option.map_eq_some_iff.mp hg
  simp only [CanStore, Storable, ← hv, hr]
  constructor
  · rintro ⟨fields, hf, ha⟩
    exact ⟨r, fields, rfl, hf, ha⟩
  · rintro ⟨r', fields, hr', hf, ha⟩
    obtain rfl := Option.some.inj hr'
    exact ⟨fields, hf, ha⟩

theorem videoItems_records (h : WellFormed api query n items results) (user : String) :
    videoItems (labelled (recordsOf query items results) query user).items = (recordsOf query items results).items :=
  videoItems_labelled (fun _ => not_skipped h) query user

theorem ingestible_iff (h : WellFormed api query n items results) (user : String) :
    Ingestible env s (labelled (recordsOf query items results) query user).items ↔
      ∀ id ∈ searched items, isNew s id → Storable env query items results id := by
  rw [Ingestible, videoItems_records h]
  constructor
  · intro hi id hid hnew
    obtain ⟨x, hx, rfl⟩ := List.mem_map.mp ((mem_keys_recordsOf h.named).mpr hid)
    exact (canStore_iff h hx).mp (hi x hx (Option.isNone_iff_eq_none.mp hnew))
  · intro hs x hx hnone
    have hid := (mem_keys_recordsOf h.named).mp (List.mem_map_of_mem hx)
    exact (canStore_iff h hx).mpr (hs x.1 hid (by simp [isNew, hnone]))

theorem firstNew_labelled (h : WellFormed api query n items results) (user : String) (s : Store) :
    (firstNew s (labelled (recordsOf query items results) query user).items).map Prod.fst =
      (searched items).find? (isNew s) := by
  rw [firstNew, videoItems_records h, ← find_keys_recordsOf h.named, keys, List.find?_map]
  rfl

theorem firstNewFails_iff (h : WellFormed api query n items results) (user : String) :
    FirstNewFails env s query items results ↔
      ∀ x, firstNew s (labelled (recordsOf query items results) query user).items = some x → ¬ CanStore env x := by
  have hmem : ∀ x, firstNew s (labelled (recordsOf query items results) query user).items = some x →
      x ∈ (recordsOf query items results).items := by
    intro x hx
    rw [firstNew, videoItems_records h] at hx
    exact List.mem_of_find?_eq_some hx
  rw [FirstNewFails, ← firstNew_labelled h user s]
  constructor
  · intro hf x hx hs
    exact hf x.1 (by rw [hx]; rfl) ((canStore_iff h (hmem x hx)).mp hs)
  · intro hf id hid hs
    obtain ⟨x, hx, rfl⟩ := Option.map_eq_some_iff.mp hid
    exact hf x hx ((canStore_iff h (hmem x hx)).mpr hs)

theorem completes_iff (h : WellFormed api query n items results) :
    Completes env s (labelled (recordsOf query items results) query user) now query user ↔
      NothingFails env s query user now items results := by
  constructor
  · intro hc
    exact ⟨(ingestible_iff h user).mp hc.ingestible, hc.accepted⟩
  · rintro ⟨hi, ha⟩
    exact ⟨text_query _ _ _, text_user _ _ _, (ingestible_iff h user).mpr hi, ha⟩

theorem run_fetch (h : WellFormed api query n items results) (hne : items ≠ []) (user : String) (now : Nat)
    (s : Store) :
    run (exec env) (fetchYoutubeData api user n query now) s =
      ((run (exec env) (insertIntoDatabase (labelled (recordsOf query items results) query user) now) s).1.map
        (fun _ => recordsOf query items results),
      (run (exec env) (insertIntoDatabase (labelled (recordsOf query items results) query user) now) s).2) := by
  rw [fetchYoutubeData, fetchedRecords_wellFormed h hne]
  simp only [pop_labelled (fun _ => not_skipped h)]
  exact run_bind_ret _ _ _ _

theorem allOrNothing_of_nothingFails (h : WellFormed api query n items results)
    (hf : NothingFails env s query user now items results) (hne : items ≠ []) :
    AllOrNothing env s api user n query now items := by
  have hc := (completes_iff h).mpr hf
  rw [AllOrNothing, run_fetch h hne, run_insertIntoDatabase hc]
  intro id hid
  obtain ⟨x, hx, rfl⟩ := List.mem_map.mp ((mem_keys_recordsOf h.named).mpr hid)
  have hx' : x ∈ videoItems (labelled (recordsOf query items results) query user).items := by
    rwa [videoItems_records h]
  constructor
  · cases hs : s.youtubeData x.1 with
    | none => exact (ingested_of_none hc.ingestible hx' hs (labelled _ query user).nodup).1
    | some fields =>
      have hy := (ingested_of_some (labelled (recordsOf query items results) query user).items hs).1
      simp [hy]
  · rw [savedIds, savedVideos_saved rfl, mem_collected_ids hc.ingestible]
    exact List.mem_map_of_mem hx'

/-- A fetch is all or nothing exactly if nothing stands in its way, or the
first video that it would have to store cannot be stored. -/
theorem all_or_nothing_iff (env : Env) (s : Store) (user : String) (now : Nat)
    (h : WellFormed api query n items results) :
    AllOrNothing env s api user n query now items ↔
      NothingFails env s query user now items results ∨ FirstNewFails env s query items results := by
  by_cases hne : items = []
  · subst hne
    have hr : fetchYoutubeData api user n query now = .ret OrderedDict.empty := by
      rw [fetchYoutubeData, fetchedRecords, h.search]
      rfl
    rw [AllOrNothing, hr]
    simp [Outcome, searched, FirstNewFails]
  by_cases hf : NothingFails env s query user now items results
  · exact ⟨fun _ => .inl hf, fun _ => allOrNothing_of_nothingFails h hf hne⟩
  have hnc : ∀ q u, ¬ Completes env s (labelled (recordsOf query items results) query user) now q u := by
    intro q u hc
    obtain rfl : query = q := Except.ok.inj ((text_query _ _ _).symm.trans hc.query_eq)
    obtain rfl : user = u := Except.ok.inj ((text_user _ _ _).symm.trans hc.user_eq)
    exact hf ((completes_iff h).mp hc)
  obtain ⟨e, t, he, ht⟩ := run_insertIntoDatabase_error hnc
  obtain ⟨hy, hv⟩ := videos_insertIntoDatabase env (labelled (recordsOf query items results) query user) now s
  rw [AllOrNothing, run_fetch h hne, he, or_iff_right hf, firstNewFails_iff h user]
  rw [he] at hy hv
  constructor
  · rintro ⟨hdata, -, -⟩ x hx hs
    refine insertVideos_touched hx hs [] [] ?_
    rw [← hy]
    change t.youtubeData x.1 = none
    rw [hdata]
    exact isNew_of_firstNew hx
  · intro hx
    have hsame := insertVideos_untouched hx [] []
    rw [hsame] at hy hv
    exact ⟨hy, hv, ht⟩

end Answers

section OmittedVideo

def twoItems : List SearchItem :=
  [⟨some "abcdefghijk", .value "2021-05-02T10:00:00Z", .value "celery videos", .value "an introduction"⟩,
    ⟨some "lmnopqrstuv", .value "2021-05-01T10:00:00Z", .value "celery tasks", .value "the next part"⟩]

/-- A search with two results, of which the second request gives only one. -/
def omitting (left : String) : Api where
  search _ _ := .ok (some twoItems)
  videos _ := .ok (some [⟨some left, .null⟩])

theorem wellFormed_omitting {left : String} (h : left = "abcdefghijk" ∨ left = "lmnopqrstuv") (query : String)
    (n : Json) : WellFormed (omitting left) query n twoItems [⟨some left, .null⟩] := by
  refine ⟨rfl, ?_, rfl, ?_, by simp⟩
  · intro item hitem
    simp only [twoItems, List.mem_cons, List.not_mem_nil, or_false] at hitem
    obtain rfl | rfl := hitem
    · exact ⟨⟨_, rfl, by decide⟩, ⟨⟨2021, 5, 2, by decide⟩, by decide +kernel⟩, by simp, by simp⟩
    · exact ⟨⟨_, rfl, by decide⟩, ⟨⟨2021, 5, 1, by decide⟩, by decide +kernel⟩, by simp, by simp⟩
  · obtain rfl | rfl := h
    · simp [twoItems]
    · simp [twoItems]

def afterOmitting (left : String) : Except Exn (Dict Value) × Store :=
  run (exec acceptAll) (fetchYoutubeData (omitting left) "user@example.com" (.num 10 0) "celery videos" 1) Store.empty

theorem afterOmitting_second : (afterOmitting "abcdefghijk").1.toBool = false ∧
    ((afterOmitting "abcdefghijk").2.youtubeData "abcdefghijk").isSome = true := by
  decide +kernel

theorem failed_fetch_leaves_video : ¬ ∀ (env : Env) (s : Store) (api : Api) (user : String) (n : Json)
    (query : String) (now : Nat) (items : List SearchItem) (results : List VideoItem),
    WellFormed api query n items results → AllOrNothing env s api user n query now items := by
  intro hall
  have h := hall acceptAll Store.empty (omitting "abcdefghijk") "user@example.com" (.num 10 0) "celery videos" 1
    twoItems _ (wellFormed_omitting (.inl rfl) _ _)
  change Outcome _ _ _ _ (afterOmitting "abcdefghijk") at h
  obtain ⟨hraised, hsaved⟩ := afterOmitting_second
  cases hr : afterOmitting "abcdefghijk" with
  | mk result t =>
    rw [hr] at h hraised hsaved
    cases result with
    | ok records => cases hraised
    | error e =>
      rw [h.1] at hsaved
      cases hsaved

theorem first_omitted_untouched :
    AllOrNothing acceptAll Store.empty (omitting "lmnopqrstuv") "user@example.com" (.num 10 0) "celery videos" 1
      twoItems := by
  refine (all_or_nothing_iff acceptAll Store.empty "user@example.com" 1
    (wellFormed_omitting (.inr rfl) "celery videos" (.num 10 0))).mpr (.inr ?_)
  rintro id hid ⟨r, fields, hr, hf, -⟩
  obtain rfl : "abcdefghijk" = id := Option.some.inj hid
  obtain rfl := Option.some.inj hr
  cases hf

end OmittedVideo

end YoutubeRecords.FailedFetches
