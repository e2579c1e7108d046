import YoutubeRecords.AnswerAgreement
import YoutubeRecords.PublishedStamps

namespace YoutubeRecords.PageOrder

open CommandProgram PythonBasics Documents OrderedDict StableOrder VideoStore VideoIngestion SearchViews
  IngestionPromises QueryUniqueness IngestionEffects SavedVideos SavedPaging FetchedAnswers AnswerAgreement
  PublishedStamps

/-- One call of `fetch_youtube_data`, with the API and the clock it meets. -/
structure Fetch where
  api : Api
  user : String
  n : Json
  query : String
  now : Nat

def Fetch.program (f : Fetch) : Prog (Dict Value) := fetchYoutubeData f.api f.user f.n f.query f.now

def Fetch.items (f : Fetch) : List SearchItem :=
  match f.api.search f.query f.n with
  | .ok (some items) => items
  | _ => []

def Fetch.ids (f : Fetch) : List String := (searched f.items).filter (fun id => !skipped id)

def Fetch.saves (f : Fetch) (query user : String) : Bool :=
  !f.items.isEmpty && decide (f.query = query ∧ f.user = user)

/-- The store after fetches one after another; the latest one stands first. -/
def storeAfter (env : Env) (fetches : List Fetch) : Store :=
  fetches.foldr (fun f s => (run (exec env) f.program s).2) Store.empty

def completed (env : Env) : List Fetch → Bool
  | [] => true
  | f :: older => (run (exec env) f.program (storeAfter env older)).1.isOk && completed env older

def lastSave (query user : String) : List Fetch → Option (Fetch × List Fetch)
  | [] => none
  | f :: older => if f.saves query user then some (f, older) else lastSave query user older

def Stamped (stamp : String → Stamp) (f : Fetch) : Prop :=
  ∀ item ∈ f.items, ∀ id, item.videoId = some id → item.publishedAt = .value (stamp id).text

def LaterSameDay (a b : Stamp) : Prop := a.date = b.date ∧ b.time < a.time

instance (a b : Stamp) : Decidable (LaterSameDay a b) :=
  inferInstanceAs (Decidable (a.date = b.date ∧ b.time < a.time))

/-- Of two videos of one day, the later one is stored already and the other is
not, or it stands first in the answer and both or neither are stored. -/
def InOrder (stamp : String → Stamp) (s : Store) (f : Fetch) : Prop :=
  ∀ a ∈ f.ids, ∀ b ∈ f.ids, LaterSameDay (stamp a) (stamp b) →
    s.youtubeData a ≠ none ∧ s.youtubeData b = none ∨
      (s.youtubeData a = none ↔ s.youtubeData b = none) ∧ Precedes f.ids a b

instance (stamp : String → Stamp) (s : Store) (f : Fetch) : Decidable (InOrder stamp s f) :=
  inferInstanceAs (Decidable (∀ a ∈ f.ids, ∀ b ∈ f.ids, LaterSameDay (stamp a) (stamp b) →
    s.youtubeData a ≠ none ∧ s.youtubeData b = none ∨
      (s.youtubeData a = none ↔ s.youtubeData b = none) ∧ Precedes f.ids a b))

def noEarlier (stamp : String → Stamp) (a b : Video) : Prop :=
  (stamp b.video_id).moment ≤ (stamp a.video_id).moment

/-- Every page that is answered from the saved document lists its videos from
the latest to the earliest. -/
def LatestFirst (env : Env) (stamp : String → Stamp) (s : Store) (query user : String) : Prop :=
  ∀ (api : Api) (now : Nat) (offset limit : Option String) (nextLink : NextLink) (videos : List Video),
    (run (exec env) (searchingView.get api now ⟨some query, some user, offset, limit⟩) s).1 =
      .ok (.page nextLink (videos.map .saved)) →
    videos.Pairwise (noEarlier stamp)

section Pages

variable {env : Env} {s : Store} {api : Api} {now : Nat} {query user : String} {nextLink : NextLink}
  {videos : List Video}

theorem saved_injective : Function.Injective PageVideo.saved := fun _ _ h => PageVideo.saved.inj h

theorem sublist_of_answerPage {offset limit : Nat} {rows : List Video}
    (h : (run (exec env) (answerPage api now query user offset limit rows) s).1 =
      .ok (.page nextLink (videos.map .saved))) : videos.Sublist rows := by
  unfold answerPage at h
  split at h
  · simp only [pure_eq, run_bind_ret] at h
    obtain ⟨records, -, h⟩ := map_eq_ok.mp h
    cases h
  · dsimp only at h
    split at h
    · simp only [pure_eq, run_bind_ret] at h
      obtain ⟨records, -, h⟩ := map_eq_ok.mp h
      obtain ⟨-, hv⟩ := SearchResponse.page.inj h
      -- a fetched record is no saved video
      cases videos with
      | nil => exact List.nil_sublist _
      | cons v videos => cases hr : records.items <;> simp [hr] at hv
    · obtain ⟨-, hv⟩ := SearchResponse.page.inj (Except.ok.inj h)
      rw [← saved_injective.list_map hv]
      exact List.take_sublist _ _

theorem sublist_of_page {offset limit : Option String}
    (h : (run (exec env) (searchingView.get api now ⟨some query, some user, offset, limit⟩) s).1 =
      .ok (.page nextLink (videos.map .saved))) : query ≠ "" ∧ videos.Sublist (rows s query user) := by
  unfold searchingView.get at h
  split at h
  · cases h
  · cases h
  · split at h
    · cases h
    · split at h
      · cases h
      · cases h
      · next query' user' hq hu =>
        obtain ⟨hq, hne⟩ := Option.filter_eq_some_iff.mp hq
        obtain rfl := Option.some.inj hq
        obtain rfl := Option.some.inj hu
        refine ⟨of_decide_eq_true hne, ?_⟩
        have hsub : videos.Sublist (s.page query user _ _) := sublist_of_answerPage h
        exact hsub.trans ((List.take_sublist _ _).trans (List.drop_sublist _ _))

theorem latestFirst_iff_rows {stamp : String → Stamp} :
    LatestFirst env stamp s query user ↔ (query ≠ "" → (rows s query user).Pairwise (noEarlier stamp)) := by
  constructor
  · intro h hq
    cases hr : rows s query user with
    | nil => exact List.Pairwise.nil
    | cons v rest =>
      -- one page that has room for all the rows
      have hpage := @getPage_last env s query user (⟨fun _ _ => .ok none, fun _ => .ok none⟩, 0) 0
        (rows s query user).length hq (by simp [hr]) (Nat.zero_add _)
      rw [List.drop_zero] at hpage
      rw [← hr]
      exact h _ _ _ _ _ _ (congrArg Prod.fst hpage)
  · intro h api now offset limit nextLink videos hpage
    obtain ⟨hq, hsub⟩ := sublist_of_page hpage
    exact (h hq).sublist hsub

end Pages

structure FetchSaved (env : Env) (stamp : String → Stamp) (s t : Store) (f : Fetch) (records : Dict Value) : Prop where
  found : ∀ p, ((videoItems records.items).map Prod.fst).find? p = f.ids.find? p
  dated : ∀ x ∈ videoItems records.items, ∀ fields, videoFields x.2 = .ok fields →
    fields.published_date = (stamp x.1).date
  completes : Completes env s records f.now f.query f.user
  store : t = { ingested s records.items with
    queryModel := savedModel s f.query f.user (collected s records) f.now }

/-- What fetches one after another keep: a single document for each query and
user, and the dates of the videos. -/
structure SingleDated (stamp : String → Stamp) (s : Store) : Prop where
  single : ∀ query user, (matching s.queryModel (isFor query user)).length ≤ 1
  dated : ∀ id fields, s.youtubeData id = some fields → fields.published_date = (stamp id).date

variable {env : Env} {stamp : String → Stamp} {s t : Store} {f : Fetch} {records : Dict Value} {query user : String}

section Fetches

theorem published_answerFor {items : List SearchItem} {results : List VideoItem} {id : String} {r : VideoRecord}
    (h : ∀ item ∈ items, ∀ id, item.videoId = some id → item.publishedAt = .value (stamp id).text)
    (hr : answerFor query items results id = some r) : r.published_at = some (stamp id).date := by
  obtain ⟨item, hitem, rfl⟩ := Option.map_eq_some_iff.mp hr
  have hid : item.videoId = some id := by simpa using List.find?_some hitem
  have hm : item ∈ items := List.mem_reverse.mp (List.mem_of_find?_eq_some hitem)
  simp only [itemRecord, h item hm id hid, Stamp.finalDate_text]
  rfl

theorem items_of_search {items : List SearchItem} (h : f.api.search f.query f.n = .ok (some items)) :
    f.items = items := by
  simp only [Fetch.items, h]

theorem dated_recordsOf {results : List VideoItem} (hs : Stamped stamp f) (hn : Named f.items results) :
    ∀ x ∈ videoItems (labelled (recordsOf f.query f.items results) f.query f.user).items, ∀ fields,
      videoFields x.2 = .ok fields → fields.published_date = (stamp x.1).date := by
  intro x hx fields hv
  have hget := mem_videoItems_labelled hx
  rw [get_recordsOf hn] at hget
  obtain ⟨r, hr, hrx⟩ := Option.map_eq_some_iff.mp hget
  rw [← hrx] at hv
  have hdate := (storedAs_of_videoFields hv).date
  rw [published_answerFor hs hr] at hdate
  exact (Option.some.inj hdate).symm

theorem found_recordsOf {results : List VideoItem} (hn : Named f.items results) (p : String → Bool) :
    ((videoItems (labelled (recordsOf f.query f.items results) f.query f.user).items).map Prod.fst).find? p =
      f.ids.find? p := by
  rw [find_videoItems_labelled, Fetch.ids, List.find?_filter, List.find?_filter, find_keys_recordsOf hn]

theorem fetch_cases (hs : Stamped stamp f) (h : (run (exec env) f.program s).1.isOk = true) :
    f.items = [] ∧ (run (exec env) f.program s).2 = s ∨
      f.items ≠ [] ∧ ∃ records, FetchSaved env stamp s (run (exec env) f.program s).2 f records := by
  unfold Fetch.program fetchYoutubeData at h ⊢
  cases hf : fetchedRecords f.api f.user f.n f.query with
  | error e =>
    rw [hf] at h
    cases h
  | ok found =>
    cases found with
    | none =>
      left
      refine ⟨?_, rfl⟩
      obtain hnone | hnil := search_of_none hf
      · simp only [Fetch.items, hnone]
      · exact items_of_search hnil
    | some records =>
      right
      obtain ⟨items, results, hsearch, hne, -, hn, hr⟩ := records_of_fetched hf
      obtain rfl := items_of_search hsearch
      simp only [hf, pure_eq, run_bind_ret, isOk_map] at h ⊢
      obtain ⟨query, user, hc⟩ := completes_of_isOk h
      obtain ⟨hq, hu⟩ := text_fetchedRecords hf
      obtain rfl := Except.ok.inj (hq.symm.trans hc.query_eq)
      obtain rfl := Except.ok.inj (hu.symm.trans hc.user_eq)
      refine ⟨hne, records, ?_, ?_, hc, by rw [run_insertIntoDatabase hc]⟩
      · rw [hr]
        exact found_recordsOf hn
      · rw [hr]
        exact dated_recordsOf hs hn

theorem single_savedModel {videos : List Video} {now : Nat} {query' user' : String}
    (h : (matching s.queryModel (isFor query user)).length ≤ 1) :
    (matching (savedModel s query' user' videos now) (isFor query user)).length ≤ 1 := by
  unfold savedModel
  cases hf : first s.queryModel (isFor query' user') with
  | none =>
    refine length_matching_insert (fun hp => ?_) h
    obtain ⟨rfl, rfl⟩ := of_decide_eq_true hp
    exact first_eq_none.mp hf
  | some found =>
    obtain ⟨oid, doc⟩ := found
    have hlen := length_matching_replace (p := isFor query user) (d := { doc with videos := videos })
      (first_eq_some hf).1 (isFor_congr rfl rfl)
    exact hlen.trans_le h

theorem SingleDated.saved (hk : SingleDated stamp s) (h : FetchSaved env stamp s t f records) :
    SingleDated stamp t := by
  rw [h.store]
  constructor
  · intro query user
    exact single_savedModel (hk.single query user)
  · intro id fields hid
    obtain hs | ⟨value, hx, hv⟩ := youtubeData_ingested hid
    · exact hk.dated id fields hs
    · exact h.dated _ hx fields hv

theorem singleDated_empty : SingleDated stamp Store.empty :=
  ⟨fun _ _ => Nat.zero_le 1, fun _ _ h => by cases h⟩

theorem singleDated_storeAfter {fetches : List Fetch} (hc : completed env fetches = true)
    (hs : ∀ f ∈ fetches, Stamped stamp f) : SingleDated stamp (storeAfter env fetches) := by
  induction fetches with
  | nil => exact singleDated_empty
  | cons f older ih =>
    obtain ⟨hok, hc⟩ := Bool.and_eq_true_iff.mp hc
    obtain ⟨hf, hs⟩ := List.forall_mem_cons.mp hs
    have hk := ih hc hs
    change SingleDated stamp (run (exec env) f.program (storeAfter env older)).2
    obtain ⟨-, he⟩ | ⟨-, records, hsaved⟩ := fetch_cases hf hok
    · rw [he]
      exact hk
    · exact hk.saved hsaved

theorem SingleDated.rows_eq (hk : SingleDated stamp s) (query user : String) :
    rows s query user = (savedVideos s query user).insertionSort newerFirst := by
  have hl := hk.single query user
  unfold savedVideos
  cases hf : first s.queryModel (isFor query user) with
  | none => simp [rows, Store.unwound, first_eq_none.mp hf]
  | some found =>
    obtain ⟨oid, doc⟩ := found
    obtain ⟨hx, hp⟩ := first_eq_some hf
    have hm : doc ∈ matching s.queryModel (isFor query user) := mem_matching.mpr ⟨⟨oid, hx⟩, hp⟩
    obtain ⟨d, hd⟩ := List.length_eq_one_iff.mp (Nat.le_antisymm hl (List.length_pos_of_mem hm))
    obtain rfl : doc = d := by simpa [hd] using hm
    exact rows_of_one hd

end Fetches

section Order

instance : Std.Total newerFirst := ⟨fun _ _ => Nat.le_total _ _⟩

instance : IsTrans Video newerFirst := ⟨fun _ _ _ hab hbc => Nat.le_trans hbc hab⟩

theorem dated_collected (hk : SingleDated stamp s) (h : FetchSaved env stamp s t f records) {v : Video}
    (hv : v ∈ collected s records) : v.fields.published_date = (stamp v.video_id).date := by
  obtain hv | hv := List.mem_append.mp hv
  · obtain ⟨x, -, hx⟩ := List.mem_filterMap.mp hv
    obtain ⟨fields, hf, rfl⟩ := Option.map_eq_some_iff.mp hx
    exact hk.dated x.1 fields hf
  · obtain ⟨x, hm, hx⟩ := List.mem_filterMap.mp hv
    split at hx
    · next fields _ hf =>
      obtain rfl := Option.some.inj hx
      exact h.dated x hm fields hf
    · cases hx

/-- Between videos that the sort does not tell apart, the time of day decides. -/
theorem tie_iff {a b : Video} (ha : a.fields.published_date = (stamp a.video_id).date)
    (hb : b.fields.published_date = (stamp b.video_id).date) :
    (newerFirst a b → newerFirst b a → noEarlier stamp a b) ↔
      ¬ LaterSameDay (stamp b.video_id) (stamp a.video_id) := by
  unfold newerFirst noEarlier LaterSameDay
  rw [ha, hb]
  constructor
  · rintro h ⟨hd, ht⟩
    exact (Stamp.moment_le_iff hd.symm).mp (h (by rw [hd]) (by rw [hd])) ht
  · intro h h1 h2
    have hd := ordinal_inj (Nat.le_antisymm h1 h2)
    exact (Stamp.moment_le_iff hd.symm).mpr fun ht => h ⟨hd, ht⟩

theorem collected_pairwise_iff (hk : SingleDated stamp s) (h : FetchSaved env stamp s t f records) :
    ((collected s records).insertionSort newerFirst).Pairwise (noEarlier stamp) ↔
      ((collected s records).map Video.video_id).Pairwise (fun x y => ¬ LaterSameDay (stamp y) (stamp x)) := by
  have hsort : ∀ a ∈ collected s records, ∀ b ∈ collected s records, ¬ newerFirst b a → noEarlier stamp a b := by
    intro a ha b hb hn
    rw [newerFirst, dated_collected hk h ha, dated_collected hk h hb] at hn
    exact (Stamp.moment_lt (Nat.lt_of_not_le hn)).le
  rw [pairwise_insertionSort_iff hsort, List.pairwise_map]
  apply List.Pairwise.iff_of_mem
  intro a b ha hb
  exact tie_iff (dated_collected hk h ha) (dated_collected hk h hb)

theorem precedes_collected (h : FetchSaved env stamp s t f records) {a b : String} (ha : a ∈ f.ids) (hb : b ∈ f.ids)
    (hab : a ≠ b) : Precedes ((collected s records).map Video.video_id) a b ↔
      s.youtubeData a ≠ none ∧ s.youtubeData b = none ∨
        (s.youtubeData a = none ↔ s.youtubeData b = none) ∧ Precedes f.ids a b := by
  have ha := (mem_congr h.found).mpr ha
  have hb := (mem_congr h.found).mpr hb
  rw [ids_collected h.completes.ingestible, precedes_parts _ ha hb hab, precedes_congr h.found]
  cases s.youtubeData a with
  | none => cases s.youtubeData b <;> simp
  | some _ => cases s.youtubeData b <;> simp

/-- What a fetch has saved is listed in order if its answer was. -/
theorem ordered_iff (hk : SingleDated stamp s) (h : FetchSaved env stamp s t f records) :
    ((collected s records).insertionSort newerFirst).Pairwise (noEarlier stamp) ↔ InOrder stamp s f := by
  have hmem : ∀ id, id ∈ (collected s records).map Video.video_id ↔ id ∈ f.ids := fun id =>
    (mem_collected_ids h.completes.ingestible).trans (mem_congr h.found)
  have hnodup : ((collected s records).map Video.video_id).Nodup := by
    refine (perm_collected_ids h.completes.ingestible).nodup_iff.mpr ?_
    exact List.Nodup.sublist (List.Sublist.map _ List.filter_sublist) records.nodup
  have hne : ∀ a b, LaterSameDay (stamp a) (stamp b) → a ≠ b := by
    rintro a b hab rfl
    exact Nat.lt_irrefl _ hab.2
  rw [collected_pairwise_iff hk h, pairwise_not_iff_precedes hnodup]
  constructor
  · intro ho a ha b hb hab
    exact (precedes_collected h ha hb (hne a b hab)).mp (ho a ((hmem a).mpr ha) b ((hmem b).mpr hb) hab)
  · intro ho a ha b hb hab
    have ha := (hmem a).mp ha
    have hb := (hmem b).mp hb
    exact (precedes_collected h ha hb (hne a b hab)).mpr (ho a ha b hb hab)

theorem savedVideos_step (h : FetchSaved env stamp s t f records) (hne : f.items ≠ []) (query user : String) :
    savedVideos t query user =
      if f.saves query user then collected s records else savedVideos s query user := by
  have hm : t.queryModel = savedModel s f.query f.user (collected s records) f.now := by rw [h.store]
  by_cases hf : f.query = query ∧ f.user = user
  · obtain ⟨rfl, rfl⟩ := hf
    rw [if_pos (by simp [Fetch.saves, hne]), savedVideos_saved hm]
  · rw [if_neg (by simp [Fetch.saves, hf]), savedVideos_other hm hf]

theorem saved_ordered_iff {fetches : List Fetch} (hc : completed env fetches = true)
    (hs : ∀ f ∈ fetches, Stamped stamp f) (query user : String) :
    ((savedVideos (storeAfter env fetches) query user).insertionSort newerFirst).Pairwise (noEarlier stamp) ↔
      ∀ f older, lastSave query user fetches = some (f, older) → InOrder stamp (storeAfter env older) f := by
  induction fetches with
  | nil =>
    constructor
    · intro _ f older h
      cases h
    · intro _
      exact List.Pairwise.nil
  | cons f older ih =>
    obtain ⟨hok, hc⟩ := Bool.and_eq_true_iff.mp hc
    obtain ⟨hf, hs⟩ := List.forall_mem_cons.mp hs
    have hk := singleDated_storeAfter hc hs
    have ht : storeAfter env (f :: older) = (run (exec env) f.program (storeAfter env older)).2 := rfl
    rw [ht, lastSave]
    obtain ⟨hnil, he⟩ | ⟨hne, records, hsaved⟩ := fetch_cases hf hok
    · have hno : f.saves query user = false := by simp [Fetch.saves, hnil]
      rw [he, if_neg (by simp [hno])]
      exact ih hc hs
    · rw [savedVideos_step hsaved hne]
      by_cases hyes : f.saves query user = true
      · rw [if_pos hyes, if_pos hyes, ordered_iff hk hsaved]
        constructor
        · intro ho g before hg
          obtain ⟨rfl, rfl⟩ := Prod.mk.inj (Option.some.inj hg)
          exact ho
        · intro ho
          exact ho f older rfl
      · rw [if_neg hyes, if_neg hyes]
        exact ih hc hs

end Order

/-- After fetches one after another, the pages are in order if the fetch that
was the last to save for the query and the user met its videos in order. -/
theorem latest_first_iff (stamp : String → Stamp) {fetches : List Fetch} (hc : completed env fetches = true)
    (hs : ∀ f ∈ fetches, Stamped stamp f) (query user : String) :
    LatestFirst env stamp (storeAfter env fetches) query user ↔
      (query ≠ "" → ∀ f older, lastSave query user fetches = some (f, older) →
        InOrder stamp (storeAfter env older) f) := by
  rw [latestFirst_iff_rows, (singleDated_storeAfter hc hs).rows_eq, saved_ordered_iff hc hs]

section SameDay

def morning : Stamp := ⟨ElasticAgreement.someDate, 10, 0, 0, by decide⟩

def noon : Stamp := ⟨ElasticAgreement.someDate, 12, 0, 0, by decide⟩

def stampOf (id : String) : Stamp := if id = "abcdefghijk" then noon else morning

def atNoon : SearchItem :=
  ⟨some "abcdefghijk", .value "2021-05-01T12:00:00Z", .value "part two", .value "celery videos"⟩

def inTheMorning : SearchItem :=
  ⟨some "bcdefghijkl", .value "2021-05-01T10:00:00Z", .value "part one", .value "celery videos"⟩

def finding (items : List SearchItem) : Api where
  search _ _ := .ok (some items)
  videos _ := .ok (some (items.map (fun item => ⟨item.videoId, .null⟩)))

def fetching (query : String) (items : List SearchItem) : Fetch :=
  ⟨finding items, "user@example.com", .num 10 0, query, 0⟩

theorem stamped_fetching {query : String} {items : List SearchItem}
    (h : ∀ item ∈ items, item = atNoon ∨ item = inTheMorning) : Stamped stampOf (fetching query items) := by
  intro item hitem id hid
  obtain rfl | rfl := h item hitem
  · obtain rfl := Option.some.inj hid
    rfl
  · obtain rfl := Option.some.inj hid
    rfl

/-- The earlier video is stored already when both are found for another query;
the API answers both searches from the latest to the earliest. -/
def regrouped : List Fetch :=
  [fetching "celery videos" [atNoon, inTheMorning], fetching "python videos" [inTheMorning]]

theorem completed_regrouped : completed acceptAll regrouped = true := by
  decide +kernel

theorem rows_regrouped : (rows (storeAfter acceptAll regrouped) "celery videos" "user@example.com").map
    Video.video_id = ["bcdefghijkl", "abcdefghijk"] := by
  decide +kernel

theorem stored_video_listed_first : ¬ ∀ (env : Env) (stamp : String → Stamp) (fetches : List Fetch)
    (query user : String), completed env fetches = true → (∀ f ∈ fetches, Stamped stamp f) →
    LatestFirst env stamp (storeAfter env fetches) query user := by
  intro hall
  have hs : ∀ f ∈ regrouped, Stamped stampOf f := by
    intro f hf
    obtain rfl | rfl := List.mem_pair.mp hf
    · exact stamped_fetching fun item hitem => List.mem_pair.mp hitem
    · exact stamped_fetching fun item hitem => .inr (List.mem_singleton.mp hitem)
  have h := hall acceptAll stampOf regrouped "celery videos" "user@example.com" completed_regrouped hs
  have hrows := latestFirst_iff_rows.mp h (by decide)
  have hids : ["bcdefghijkl", "abcdefghijk"].Pairwise (fun x y => (stampOf y).moment ≤ (stampOf x).moment) := by
    rw [← rows_regrouped, List.pairwise_map]
    exact hrows
  exact absurd hids (by decide)

def bothNew : List Fetch := [fetching "celery videos" [atNoon, inTheMorning]]

theorem latest_first_both_new :
    (rows (storeAfter acceptAll bothNew) "celery videos" "user@example.com").map Video.video_id =
      ["abcdefghijk", "bcdefghijkl"] ∧
    LatestFirst acceptAll stampOf (storeAfter acceptAll bothNew) "celery videos" "user@example.com" := by
  have hs : ∀ f ∈ bothNew, Stamped stampOf f := by
    intro f hf
    obtain rfl := List.mem_singleton.mp hf
    exact stamped_fetching fun item hitem => List.mem_pair.mp hitem
  refine ⟨by decide +kernel, (latest_first_iff stampOf (by decide +kernel) hs _ _).mpr fun _ f older hlast => ?_⟩
  obtain ⟨rfl, rfl⟩ := Prod.mk.inj (Option.some.inj hlast)
  decide +kernel

end SameDay

end YoutubeRecords.PageOrder
