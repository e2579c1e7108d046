import YoutubeRecords.ElasticAgreement
import YoutubeRecords.FailedFetches
import YoutubeRecords.SavedPaging

namespace YoutubeRecords.AnswerAgreement

open CommandProgram PythonBasics Documents OrderedDict VideoStore VideoIngestion SearchViews IngestionPromises
  QueryUniqueness StoreCoherence IngestionEffects ElasticAgreement FetchedAnswers FailedFetches SavedVideos
  SavedPaging

/-- The user has no document for the query, and the API answers a fetch of `n`
videos with exactly that many, each of them also by its id. -/
structure FirstSearch (s : Store) (api : Api) (query user : String) (n : Nat) (items : List SearchItem)
    (results : List VideoItem) : Prop where
  unsaved : matching s.queryModel (isFor query user) = []
  asked : query ≠ ""
  positive : 1 ≤ n
  count : items.length = n
  distinct : (searched items).Nodup
  wellFormed : WellFormed api query (.num n 0) items results
  covered : ∀ id ∈ searched items, some id ∈ results.map VideoItem.id

structure Validated (env : Env) (s : Store) (query user : String) (now : Nat) (items : List SearchItem)
    (results : List VideoItem) : Prop where
  video : ∀ id ∈ searched items, ∀ r fields, answerFor query items results id = some r →
    videoFields (.video r) = .ok fields → env.acceptsVideo ⟨id, fields⟩ = true
  document : env.acceptsQuery (savedDoc s query user
    (collected s (labelled (recordsOf query items results) query user)) now) = true

def SameFields (r : VideoRecord) (f : VideoFields) : Prop :=
  r = ⟨some f.published_date, some f.title, some f.description, some f.actual_link⟩

/-- A fetched record is stored with its date, and with its texts, where an
empty one is replaced. -/
structure StoredAs (r : VideoRecord) (f : VideoFields) : Prop where
  date : r.published_at = some f.published_date
  title : r.title.map (orElse · "no title") = some f.title
  description : r.description.map (orElse · "no description") = some f.description
  link : r.url.map (orElse · noUrl) = some f.actual_link

/-- The second of two equal requests is answered from the saved document, with
the videos of the first answer. -/
def Repeated (env : Env) (query user : String) (n : Nat) (records : Dict Value) (t : Store)
    (shown : Video → VideoRecord → Prop) : Prop :=
  ∀ answer, ∃ videos : List Video,
    getPage env query user answer t 0 n = (.ok (.page .noMoreVideos (videos.map .saved)), t) ∧
    (videos.map Video.video_id).Perm (keys records) ∧
    ∀ v ∈ videos, ∃ r, get records v.video_id = some (.video r) ∧ shown v r

/-- A video that was stored before is shown as it was stored, a new one as it
was fetched, up to its empty texts. -/
structure ShownFrom (s : Store) (v : Video) (r : VideoRecord) : Prop where
  old : ∀ stored, s.youtubeData v.video_id = some stored → v.fields = stored
  new : s.youtubeData v.video_id = none → StoredAs r v.fields
  same : s.youtubeData v.video_id = none → r.title ≠ some "" → r.description ≠ some "" → r.url ≠ some "" →
    SameFields r v.fields

variable {env : Env} {s t : Store} {api : Api} {query user : String} {n now : Nat} {items : List SearchItem}
  {results : List VideoItem}

theorem storedAs_of_videoFields {r : VideoRecord} {f : VideoFields} (h : videoFields (.video r) = .ok f) :
    StoredAs r f := by
  obtain ⟨date, title, description, url⟩ := r
  cases date with
  | none => cases h
  | some date =>
    cases title with
    | none => cases h
    | some title =>
      cases description with
      | none => cases h
      | some description =>
        cases url with
        | none => cases h
        | some url =>
          obtain rfl := Except.ok.inj h
          exact ⟨rfl, rfl, rfl, rfl⟩

/-- Nothing but the empty texts is lost when a record is stored. -/
theorem StoredAs.sameFields {r : VideoRecord} {f : VideoFields} (h : StoredAs r f) (ht : r.title ≠ some "")
    (hd : r.description ≠ some "") (hu : r.url ≠ some "") : SameFields r f := by
  have key : ∀ {o : Option String} {default text : String}, o.map (orElse · default) = some text → o ≠ some "" →
      o = some text := by
    intro o default text ho hne
    obtain ⟨x, rfl, hx⟩ := Option.map_eq_some_iff.mp ho
    have hl : x.toList.length ≠ 0 := by
      intro hl
      apply hne
      rw [List.length_eq_zero_iff, String.toList_eq_nil_iff] at hl
      rw [hl]
    rw [orElse, if_pos hl] at hx
    rw [hx]
  obtain ⟨date, title, description, url⟩ := r
  simp only [SameFields, VideoRecord.mk.injEq]
  exact ⟨h.date, key h.title ht, key h.description hd, key h.link hu⟩

theorem rows_unsaved (h : matching s.queryModel (isFor query user) = []) : rows s query user = [] := by
  simp [rows, Store.unwound, h]

theorem length_searched (h : ∀ item ∈ items, WellFormedItem item) : (searched items).length = items.length := by
  induction items with
  | nil => rfl
  | cons item items ih =>
    obtain ⟨hitem, h⟩ := List.forall_mem_cons.mp h
    obtain ⟨id, hid, -⟩ := hitem.videoId
    simp only [searched, List.filterMap_cons, hid, List.length_cons]
    exact congrArg (· + 1) (ih h)

theorem FirstSearch.length_keys (h : FirstSearch s api query user n items results) :
    (keys (recordsOf query items results)).length = n := by
  have hp : (keys (recordsOf query items results)).Perm (searched items) := by
    rw [List.perm_ext_iff_of_nodup (nodup_keys _) h.distinct]
    intro id
    exact mem_keys_recordsOf h.wellFormed.named
  rw [hp.length_eq, length_searched h.wellFormed.item, h.count]

theorem nothingFails_of_valid (h : FirstSearch s api query user n items results)
    (hv : Validated env s query user now items results) :
    NothingFails env s query user now items results := by
  refine ⟨fun id hid _ => ?_, hv.document⟩
  obtain ⟨r, fields, hr, hf⟩ := answerFor_complete h.wellFormed hid (h.covered id hid)
  exact ⟨r, fields, hr, hf, hv.video id hid r fields hr hf⟩

theorem first_answer (h : FirstSearch s api query user n items results)
    (hv : Validated env s query user now items results) :
    getPage env query user (api, now) s 0 n = (.ok (.records (recordsOf query items results)),
      { ingested s (labelled (recordsOf query items results) query user).items with
        queryModel := savedModel s query user
          (collected s (labelled (recordsOf query items results) query user)) now }) := by
  have hne : items ≠ [] := by
    intro hnil
    have hn := h.count
    rw [hnil, List.length_nil] at hn
    exact absurd h.positive (by omega)
  have hpage : getPage env query user (api, now) s ((0 : Nat) : Int) n = run (exec env)
      (answerPage api now query user 0 n (((rows s query user).drop 0).take (n + 1))) s := getPage_eq h.asked
  have hc := (completes_iff h.wellFormed).mpr (nothingFails_of_valid h hv)
  rw [rows_unsaved h.unsaved] at hpage
  refine hpage.trans ((run_bind_ret _ _ _ _).trans ?_)
  rw [run_fetch h.wellFormed hne, run_insertIntoDatabase hc]
  rfl

theorem shownFrom_collected (h : FirstSearch s api query user n items results)
    {v : Video} (hv : v ∈ collected s (labelled (recordsOf query items results) query user)) :
    ∃ r, get (recordsOf query items results) v.video_id = some (.video r) ∧ ShownFrom s v r := by
  have key : ∀ x ∈ (recordsOf query items results).items, ∃ r, x.2 = .video r ∧
      get (recordsOf query items results) x.1 = some (.video r) := by
    intro x hx
    have hg : get (recordsOf query items results) x.1 = some x.2 := get_eq_some.mpr hx
    have ha := hg
    rw [get_recordsOf h.wellFormed.named] at ha
    obtain ⟨r, -, hr⟩ := Option.map_eq_some_iff.mp ha
    exact ⟨r, hr.symm, hr ▸ hg⟩
  rw [collected, existing, fresh, videoItems_records h.wellFormed] at hv
  obtain hv | hv := List.mem_append.mp hv
  · obtain ⟨x, hx, hf⟩ := List.mem_filterMap.mp hv
    obtain ⟨fields, hs, rfl⟩ := Option.map_eq_some_iff.mp hf
    obtain ⟨r, -, hg⟩ := key x hx
    have hnot : s.youtubeData x.1 ≠ none := by simp [hs]
    refine ⟨r, hg, fun stored hst => ?_, fun hn => absurd hn hnot, fun hn => absurd hn hnot⟩
    exact Option.some.inj (hs.symm.trans hst)
  · obtain ⟨x, hx, hf⟩ := List.mem_filterMap.mp hv
    obtain ⟨r, hr, hg⟩ := key x hx
    split at hf
    · next fields hn hvf =>
      obtain rfl := Option.some.inj hf
      rw [hr] at hvf
      have hstored := storedAs_of_videoFields hvf
      refine ⟨r, hg, fun stored hst => ?_, fun _ => hstored, fun _ => hstored.sameFields⟩
      rw [hn] at hst
      cases hst
    · cases hf

/-- A search that was answered by a fetch is answered from the saved document
when it is repeated: the same videos, the new ones as they were fetched, those
that were stored before as they were stored. -/
theorem answers_agree (h : FirstSearch s api query user n items results)
    (hv : Validated env s query user now items results) :
    ∃ records t, getPage env query user (api, now) s 0 n = (.ok (.records records), t) ∧
      Repeated env query user n records t (ShownFrom s) := by
  refine ⟨_, _, first_answer h hv, ?_⟩
  have hc := (completes_iff h.wellFormed).mpr (nothingFails_of_valid h hv)
  intro answer
  have hids := perm_collected_ids hc.ingestible
  rw [videoItems_records h.wellFormed] at hids
  generalize hvideos : collected s (labelled (recordsOf query items results) query user) = videos at hids
  have hnone : first s.queryModel (isFor query user) = none := first_eq_none.mpr h.unsaved
  have hrows : rows { ingested s (labelled (recordsOf query items results) query user).items with
      queryModel := savedModel s query user videos now } query user = videos.insertionSort newerFirst := by
    have hm : matching (savedModel s query user videos now) (isFor query user) = [⟨user, query, videos, now⟩] := by
      simp [savedModel, hnone, matching_insert, h.unsaved, isFor]
    simp [rows, Store.unwound, hm]
  have hlen : 0 + n = (rows { ingested s (labelled (recordsOf query items results) query user).items with
      queryModel := savedModel s query user videos now } query user).length := by
    have hl := hids.length_eq
    rw [List.length_map] at hl
    rw [hrows, List.length_insertionSort, hl, Nat.zero_add]
    exact h.length_keys.symm
  have hperm := List.perm_insertionSort newerFirst videos
  refine ⟨videos.insertionSort newerFirst, ?_, (hperm.map _).trans hids, fun v hv => ?_⟩
  · refine (getPage_last h.asked h.positive hlen).trans ?_
    rw [List.drop_zero, hrows]
  · apply shownFrom_collected h
    rw [hvideos]
    exact hperm.subset hv

section Retitled

def newTitle : SearchItem :=
  ⟨some "abcdefghijk", .value "2021-05-01T10:00:00Z", .value "celery videos, new cut", .value "an introduction"⟩

/-- The video of another user's earlier search, under a new title. -/
def retitled : Api where
  search _ _ := .ok (some [newTitle])
  videos _ := .ok (some [⟨some "abcdefghijk", .null⟩])

theorem firstSearch_retitled {s : Store} {query user : String}
    (hs : matching s.queryModel (isFor query user) = []) (hq : query ≠ "") :
    FirstSearch s retitled query user 1 [newTitle] [⟨some "abcdefghijk", .null⟩] := by
  refine ⟨hs, hq, le_rfl, rfl, List.nodup_singleton _, ⟨rfl, ?_, rfl, List.Sublist.refl _, ?_⟩, ?_⟩
  · intro item hitem
    obtain rfl := List.mem_singleton.mp hitem
    exact ⟨⟨_, rfl, by decide⟩, ⟨⟨2021, 5, 1, by decide⟩, by decide +kernel⟩, by simp [newTitle],
      by simp [newTitle]⟩
  · simp
  · intro id hid
    simpa [searched, newTitle] using hid

def titles : Except Exn SearchResponse → List (Option String)
  | .ok (.records records) => records.items.map fun x => match x.2 with
    | .video r => r.title
    | .text _ => none
  | .ok (.page _ videos) => videos.map fun v => match v with
    | .saved v => some v.fields.title
    | .fetched _ => none
  | _ => []

def firstTry : Except Exn SearchResponse × Store :=
  getPage acceptAll "celery videos" "other@example.com" (retitled, 2) afterSearch 0 1

def secondTry : Except Exn SearchResponse × Store :=
  getPage acceptAll "celery videos" "other@example.com" (retitled, 3) firstTry.2 0 1

theorem tries : matching afterSearch.queryModel (isFor "celery videos" "other@example.com") = [] ∧
    titles firstTry.1 = [some "celery videos, new cut"] ∧ titles secondTry.1 = [some "celery videos"] := by
  decide +kernel

theorem stored_title_differs : ¬ ∀ (env : Env) (p : Prog Unit) (s : Store) (api : Api) (query user : String)
    (n now : Nat) (items : List SearchItem) (results : List VideoItem), Reached env p s →
    FirstSearch s api query user n items results → Validated env s query user now items results →
    ∃ records t, getPage env query user (api, now) s 0 n = (.ok (.records records), t) ∧
      Repeated env query user n records t (fun v r => SameFields r v.fields) := by
  intro hall
  obtain ⟨hnone, hfirst, hsecond⟩ := tries
  obtain ⟨q, hq⟩ : ∃ q, Steps (exec acceptAll) (searchCelery oneVideo 1).program Store.empty q afterSearch :=
    steps_run _ _
  have hreached : Reached acceptAll q afterSearch := reached_steps .refl hq
  obtain ⟨records, t, hr, hrep⟩ := hall acceptAll q afterSearch retitled "celery videos" "other@example.com" 1 2
    [newTitle] _ hreached (firstSearch_retitled hnone (by decide)) ⟨fun _ _ _ _ _ _ => rfl, rfl⟩
  have hf : firstTry = (.ok (.records records), t) := hr
  obtain ⟨videos, hpage, -, hshown⟩ := hrep (retitled, 3)
  have hsec : secondTry = (.ok (.page .noMoreVideos (videos.map .saved)), t) := by
    rw [secondTry, hf]
    exact hpage
  rw [hsec] at hsecond
  obtain ⟨v, hv, htitle⟩ : ∃ v ∈ videos, v.fields.title = "celery videos" := by
    have hm : some "celery videos" ∈ titles (.ok (.page .noMoreVideos (videos.map .saved))) := by simp [hsecond]
    simp only [titles, List.mem_map] at hm
    obtain ⟨-, ⟨v, hv, rfl⟩, ht⟩ := hm
    exact ⟨v, hv, Option.some.inj ht⟩
  obtain ⟨r, hg, hsame⟩ := hshown v hv
  have hm : r.title ∈ titles firstTry.1 := by
    rw [hf]
    exact List.mem_map.mpr ⟨_, get_eq_some.mp hg, rfl⟩
  rw [hfirst, hsame, htitle] at hm
  simp at hm

theorem answers_agree_retitled : ∃ records t,
    getPage acceptAll "celery videos" "other@example.com" (retitled, 2) afterSearch 0 1 =
      (.ok (.records records), t) ∧
      Repeated acceptAll "celery videos" "other@example.com" 1 records t (ShownFrom afterSearch) :=
  answers_agree (firstSearch_retitled tries.1 (by decide)) ⟨fun _ _ _ _ _ _ => rfl, rfl⟩

end Retitled

end YoutubeRecords.AnswerAgreement
