import YoutubeRecords.IngestionEffects
import YoutubeRecords.StableOrder

namespace YoutubeRecords.FetchedAnswers

open PythonBasics OrderedDict VideoStore VideoIngestion IngestionPromises

structure WellFormedItem (item : SearchItem) : Prop where
  videoId : ∃ id, item.videoId = some id ∧ skipped id = false
  publishedAt : ∃ date, finalDate item.publishedAt = .ok date
  title : item.title ≠ .missing
  description : item.description ≠ .missing

def searched (items : List SearchItem) : List String := items.filterMap SearchItem.videoId

/-- The answers to one fetch: well-formed search results, and videos for some
of the requested ids. -/
structure WellFormed (api : Api) (query : String) (n : Json) (items : List SearchItem)
    (results : List VideoItem) : Prop where
  search : api.search query n = .ok (some items)
  item : ∀ item ∈ items, WellFormedItem item
  videos : api.videos (String.intercalate "," (searched items)) = .ok (some results)
  listed : (results.map VideoItem.id).Sublist (items.map SearchItem.videoId)
  url : ∀ r ∈ results, r.url ≠ .missing

structure Named (items : List SearchItem) (results : List VideoItem) : Prop where
  item : ∀ item ∈ items, item.videoId ≠ none
  result : ∀ r ∈ results, r.id ≠ none

def itemRecord (query : String) (item : SearchItem) : VideoRecord :=
  ⟨(finalDate item.publishedAt).toOption, (defaulted "title" query item.title).toOption,
    (defaulted "description" query item.description).toOption, none⟩

def itemFor (items : List SearchItem) (id : String) : Option SearchItem :=
  items.reverse.find? (fun item => decide (item.videoId = some id))

def urlFor (results : List VideoItem) (id : String) : Option String :=
  (results.reverse.find? (fun r => decide (r.id = some id))).bind fun r => (defaulted "url" noUrl r.url).toOption

/-- What the two answers say about a video; of several results for one video
the last counts. -/
def answerFor (query : String) (items : List SearchItem) (results : List VideoItem) (id : String) :
    Option VideoRecord :=
  (itemFor items id).map fun item => { itemRecord query item with url := urlFor results id }

def addRecord (query : String) (d : Dict Value) (item : SearchItem) : Dict Value :=
  set d (item.videoId.getD "") (.video (itemRecord query item))

def setUrl (d : Dict Value) (r : VideoItem) : Dict Value :=
  match get d (r.id.getD "") with
  | some (.video v) => set d (r.id.getD "") (.video { v with url := (defaulted "url" noUrl r.url).toOption })
  | _ => d

def recordsOf (query : String) (items : List SearchItem) (results : List VideoItem) : Dict Value :=
  results.foldl setUrl (items.foldl (addRecord query) OrderedDict.empty)

variable {query user : String} {items : List SearchItem} {results : List VideoItem} {id : String}
  {d : Dict Value}

theorem addItem_wellFormed {item : SearchItem} (h : WellFormedItem item) (acc : List String × Dict Value) :
    addItem query acc item = .ok (acc.1 ++ [item.videoId.getD ""], addRecord query acc.2 item) := by
  obtain ⟨⟨id, hid, -⟩, ⟨date, hdate⟩, htitle, hdesc⟩ := h
  simp only [addItem, addRecord, itemRecord, hid, hdate]
  cases ht : item.title with
  | missing => exact absurd ht htitle
  | null | value t =>
    cases hd : item.description with
    | missing => exact absurd hd hdesc
    | null | value t => rfl

theorem foldlM_addItem (query : String) (h : ∀ item ∈ items, WellFormedItem item) (acc : List String × Dict Value) :
    items.foldlM (addItem query) acc = .ok (acc.1 ++ searched items, items.foldl (addRecord query) acc.2) := by
  induction items generalizing acc with
  | nil => simp [searched]; rfl
  | cons item items ih =>
    obtain ⟨hitem, h⟩ := List.forall_mem_cons.mp h
    obtain ⟨id, hid, -⟩ := hitem.videoId
    rw [List.foldlM_cons, addItem_wellFormed hitem]
    refine (ih h _).trans ?_
    simp [searched, hid]

theorem addItem_eq_ok {item : SearchItem} {acc acc' : List String × Dict Value}
    (h : addItem query acc item = .ok acc') :
    ∃ id, item.videoId = some id ∧ acc' = (acc.1 ++ [id], addRecord query acc.2 item) := by
  unfold addItem at h
  cases hid : item.videoId with
  | none =>
    rw [hid] at h
    cases h
  | some id =>
    simp only [hid] at h
    obtain ⟨date, hdate, h⟩ := bind_eq_ok.mp h
    obtain ⟨title, htitle, h⟩ := bind_eq_ok.mp h
    obtain ⟨description, hdescription, h⟩ := bind_eq_ok.mp h
    obtain rfl := Except.ok.inj h
    refine ⟨id, rfl, ?_⟩
    simp only [addRecord, itemRecord, hid, hdate, htitle, hdescription]
    rfl

theorem foldlM_addItem_eq_ok {acc acc' : List String × Dict Value}
    (h : items.foldlM (addItem query) acc = .ok acc') :
    (∀ item ∈ items, item.videoId ≠ none) ∧
      acc' = (acc.1 ++ searched items, items.foldl (addRecord query) acc.2) := by
  induction items generalizing acc with
  | nil =>
    obtain rfl := Except.ok.inj h
    exact ⟨by simp, by simp [searched]⟩
  | cons item items ih =>
    rw [List.foldlM_cons] at h
    obtain ⟨mid, hmid, h⟩ := bind_eq_ok.mp h
    obtain ⟨id, hid, rfl⟩ := addItem_eq_ok hmid
    obtain ⟨hids, rfl⟩ := ih h
    exact ⟨List.forall_mem_cons.mpr ⟨by simp [hid], hids⟩, by simp [searched, hid]⟩

theorem get_addRecords (items : List SearchItem) (d : Dict Value) (h : ∀ item ∈ items, item.videoId ≠ none)
    (id : String) :
    get (items.foldl (addRecord query) d) id =
      ((itemFor items id).map (fun item => .video (itemRecord query item))).or (get d id) := by
  induction items generalizing d with
  | nil => rfl
  | cons item items ih =>
    obtain ⟨hitem, h⟩ := List.forall_mem_cons.mp h
    obtain ⟨l, hl⟩ := Option.ne_none_iff_exists'.mp hitem
    rw [List.foldl_cons, ih _ h]
    have hi : itemFor (item :: items) id = (itemFor items id).or (itemFor [item] id) := by
      rw [itemFor, List.reverse_cons, List.find?_append]
      rfl
    rw [hi]
    cases itemFor items id with
    | some x => rfl
    | none =>
      by_cases hlid : l = id
      · subst hlid
        simp [itemFor, hl, addRecord, get_set_self]
      · simp [itemFor, hl, hlid, addRecord, get_set_of_ne hlid]

theorem find_keys_addRecords (items : List SearchItem) (d : Dict Value) (h : ∀ item ∈ items, item.videoId ≠ none)
    (p : String → Bool) :
    (keys (items.foldl (addRecord query) d)).find? p = (keys d ++ searched items).find? p := by
  induction items generalizing d with
  | nil => simp [searched]
  | cons item items ih =>
    obtain ⟨hitem, h⟩ := List.forall_mem_cons.mp h
    obtain ⟨l, hl⟩ := Option.ne_none_iff_exists'.mp hitem
    have hk : (keys (addRecord query d item)).find? p = (keys d ++ [l]).find? p := by
      simp only [addRecord, hl, Option.getD_some, find_keys_set]
    rw [List.foldl_cons, ih _ h, List.find?_append, hk, ← List.find?_append]
    simp [searched, hl]

def withUrl (url : Option String) : Value → Value
  | .video v => .video { v with url := url }
  | .text s => .text s

theorem get_setUrl (d : Dict Value) (r : VideoItem) (l : String) :
    get (setUrl d r) l = if r.id.getD "" = l then
      (get d l).map (withUrl (defaulted "url" noUrl r.url).toOption) else get d l := by
  unfold setUrl
  by_cases hl : r.id.getD "" = l
  · subst hl
    cases hg : get d (r.id.getD "") with
    | none => simp [hg]
    | some value =>
      cases value with
      | video v => simp [get_set_self, withUrl]
      | text t => simp [hg, withUrl]
  · rw [if_neg hl]
    split
    · exact get_set_of_ne hl
    · rfl

theorem keys_setUrl (d : Dict Value) (r : VideoItem) : keys (setUrl d r) = keys d := by
  unfold setUrl
  split
  · next v hg => rw [keys_set, if_pos (mem_keys.mpr ⟨_, hg⟩)]
  · rfl

theorem keys_setUrls (d : Dict Value) (results : List VideoItem) : keys (results.foldl setUrl d) = keys d := by
  induction results generalizing d with
  | nil => rfl
  | cons r results ih => rw [List.foldl_cons, ih, keys_setUrl]

def HasRecords (d : Dict Value) (results : List VideoItem) : Prop :=
  ∀ r ∈ results, ∃ id v, r.id = some id ∧ get d id = some (.video v)

theorem HasRecords.setUrl (h : HasRecords d results) (r : VideoItem) : HasRecords (setUrl d r) results := by
  intro r' hr'
  obtain ⟨id, v, hid, hv⟩ := h r' hr'
  refine ⟨id, ?_⟩
  rw [get_setUrl, hv]
  split
  · exact ⟨_, hid, rfl⟩
  · exact ⟨v, hid, rfl⟩

theorem addUrl_hasRecords {r : VideoItem} {v : VideoRecord} (hid : r.id = some id) (hv : get d id = some (.video v))
    (hu : r.url ≠ .missing) : addUrl d r = .ok (setUrl d r) := by
  simp only [addUrl, setUrl, hid, Option.getD_some, hv]
  cases h : r.url with
  | missing => exact absurd h hu
  | null | value t => rfl

theorem addUrl_eq_ok {r : VideoItem} {d' : Dict Value} (h : addUrl d r = .ok d') :
    r.id ≠ none ∧ d' = setUrl d r := by
  unfold addUrl at h
  cases hid : r.id with
  | none =>
    rw [hid] at h
    cases h
  | some id =>
    simp only [hid] at h
    obtain ⟨url, hurl, h⟩ := bind_eq_ok.mp h
    refine ⟨by simp, ?_⟩
    simp only [setUrl, hid, Option.getD_some, hurl]
    split at h
    · cases h
    · cases h
    · next v hv =>
      rw [hv]
      exact (Except.ok.inj h).symm

theorem foldlM_addUrl_eq_ok {d' : Dict Value} (h : results.foldlM addUrl d = .ok d') :
    (∀ r ∈ results, r.id ≠ none) ∧ d' = results.foldl setUrl d := by
  induction results generalizing d with
  | nil =>
    obtain rfl := Except.ok.inj h
    exact ⟨by simp, rfl⟩
  | cons r results ih =>
    rw [List.foldlM_cons] at h
    obtain ⟨mid, hmid, h⟩ := bind_eq_ok.mp h
    obtain ⟨hid, rfl⟩ := addUrl_eq_ok hmid
    obtain ⟨hids, hrest⟩ := ih h
    exact ⟨List.forall_mem_cons.mpr ⟨hid, hids⟩, hrest⟩

theorem foldlM_addUrl (h : HasRecords d results) (hu : ∀ r ∈ results, r.url ≠ .missing) :
    results.foldlM addUrl d = .ok (results.foldl setUrl d) := by
  induction results generalizing d with
  | nil => rfl
  | cons r results ih =>
    obtain ⟨⟨id, v, hid, hv⟩, h⟩ := List.forall_mem_cons.mp h
    obtain ⟨hr, hu⟩ := List.forall_mem_cons.mp hu
    rw [List.foldlM_cons, addUrl_hasRecords hid hv hr]
    exact ih (HasRecords.setUrl h r) hu

theorem get_setUrls (results : List VideoItem) (d : Dict Value) (hid : ∀ r ∈ results, r.id ≠ none) (l : String) :
    get (results.foldl setUrl d) l =
      match results.reverse.find? (fun r => decide (r.id = some l)) with
      | some r => (get d l).map (withUrl (defaulted "url" noUrl r.url).toOption)
      | none => get d l := by
  induction results generalizing d with
  | nil => rfl
  | cons r results ih =>
    obtain ⟨hr, hid⟩ := List.forall_mem_cons.mp hid
    obtain ⟨k, hk⟩ := Option.ne_none_iff_exists'.mp hr
    rw [List.foldl_cons, ih _ hid, get_setUrl, List.reverse_cons, List.find?_append, hk, Option.getD_some]
    cases results.reverse.find? (fun r => decide (r.id = some l)) with
    | none => by_cases hkl : k = l <;> simp [hk, hkl]
    | some r' =>
      by_cases hkl : k = l
      · cases get d l with
        | none => simp
        | some value => cases value <;> simp [hkl, withUrl]
      · simp [hkl]

section Answers

variable {api : Api} {n : Json}

theorem WellFormed.result_id (h : WellFormed api query n items results) {r : VideoItem} (hr : r ∈ results) :
    ∃ id item, r.id = some id ∧ item ∈ items ∧ item.videoId = some id := by
  have hm : r.id ∈ items.map SearchItem.videoId := h.listed.subset (List.mem_map_of_mem hr)
  obtain ⟨item, hitem, he⟩ := List.mem_map.mp hm
  obtain ⟨id, hid, -⟩ := (h.item item hitem).videoId
  exact ⟨id, item, he.symm.trans hid, hitem, hid⟩

theorem WellFormed.named (h : WellFormed api query n items results) : Named items results := by
  constructor
  · intro item hitem
    obtain ⟨id, hid, -⟩ := (h.item item hitem).videoId
    simp [hid]
  · intro r hr
    obtain ⟨id, -, hid, -⟩ := h.result_id hr
    simp [hid]

theorem itemFor_isSome {item : SearchItem} (hm : item ∈ items) (hid : item.videoId = some id) :
    ∃ x ∈ items, itemFor items id = some x := by
  cases hf : itemFor items id with
  | some x => exact ⟨x, List.mem_reverse.mp (List.mem_of_find?_eq_some hf), rfl⟩
  | none =>
    have hn := List.find?_eq_none.mp hf item (List.mem_reverse.mpr hm)
    simp [hid] at hn

theorem get_recordsOf (h : Named items results) (id : String) :
    get (recordsOf query items results) id = (answerFor query items results id).map .video := by
  have hempty : get (OrderedDict.empty : Dict Value) id = none := rfl
  rw [recordsOf, get_setUrls results _ h.result, get_addRecords items _ h.item, hempty, Option.or_none,
    answerFor, urlFor]
  cases itemFor items id with
  | none => split <;> rfl
  | some item =>
    cases results.reverse.find? (fun r => decide (r.id = some id)) with
    | none => rfl
    | some r => rfl

theorem find_keys_recordsOf (h : Named items results) (p : String → Bool) :
    (keys (recordsOf query items results)).find? p = (searched items).find? p := by
  rw [recordsOf, keys_setUrls, find_keys_addRecords items _ h.item]
  rfl

theorem mem_keys_recordsOf (h : Named items results) :
    id ∈ keys (recordsOf query items results) ↔ id ∈ searched items :=
  StableOrder.mem_congr (find_keys_recordsOf h)

theorem not_skipped (h : WellFormed api query n items results) (hid : id ∈ keys (recordsOf query items results)) :
    skipped id = false := by
  obtain ⟨item, hitem, he⟩ := List.mem_filterMap.mp ((mem_keys_recordsOf h.named).mp hid)
  obtain ⟨l, hl, hs⟩ := (h.item item hitem).videoId
  rw [he] at hl
  rwa [Option.some.inj hl]

theorem toOption_of_ne_missing {f : VideoIngestion.Field String} (h : f ≠ .missing) (key default : String) :
    ∃ text, (defaulted key default f).toOption = some text := by
  cases f with
  | missing => exact absurd rfl h
  | null => exact ⟨default, rfl⟩
  | value text => exact ⟨text, rfl⟩

theorem urlFor_isSome (h : WellFormed api query n items results) (hid : some id ∈ results.map VideoItem.id) :
    ∃ url, urlFor results id = some url := by
  obtain ⟨r, hr, hrid⟩ := List.mem_map.mp hid
  unfold urlFor
  cases hf : results.reverse.find? (fun r => decide (r.id = some id)) with
  | none =>
    have hn := List.find?_eq_none.mp hf r (List.mem_reverse.mpr hr)
    simp [hrid] at hn
  | some x =>
    exact toOption_of_ne_missing (h.url x (List.mem_reverse.mp (List.mem_of_find?_eq_some hf))) _ _

/-- A searched video that the second answer covers has all its fields. -/
theorem answerFor_complete (h : WellFormed api query n items results) (hid : id ∈ searched items)
    (hc : some id ∈ results.map VideoItem.id) :
    ∃ r fields, answerFor query items results id = some r ∧ videoFields (.video r) = .ok fields := by
  obtain ⟨item, hitem, he⟩ := List.mem_filterMap.mp hid
  obtain ⟨x, hx, hfor⟩ := itemFor_isSome hitem he
  obtain ⟨-, ⟨date, hdate⟩, htitle, hdescription⟩ := h.item x hx
  obtain ⟨title, ht⟩ := toOption_of_ne_missing htitle "title" query
  obtain ⟨description, hd⟩ := toOption_of_ne_missing hdescription "description" query
  obtain ⟨url, hu⟩ := urlFor_isSome h hc
  refine ⟨⟨some date, some title, some description, some url⟩, _, ?_, rfl⟩
  rw [answerFor, hfor, Option.map_some, itemRecord, hdate, ht, hd, hu]
  rfl

def labelled (d : Dict Value) (query user : String) : Dict Value :=
  set (set d "query" (.text query)) "user" (.text user)

theorem fetchedRecords_wellFormed (h : WellFormed api query n items results) (hne : items ≠ []) (user : String) :
    fetchedRecords api user n query = .ok (some (labelled (recordsOf query items results) query user)) := by
  obtain ⟨item, rest, rfl⟩ := List.exists_cons_of_ne_nil hne
  have hknown : HasRecords ((item :: rest).foldl (addRecord query) OrderedDict.empty) results := by
    intro r hr
    obtain ⟨id, x, hid, hx, hxid⟩ := h.result_id hr
    obtain ⟨y, -, hy⟩ := itemFor_isSome hx hxid
    exact ⟨id, itemRecord query y, hid, by rw [get_addRecords _ _ h.named.item, hy]; rfl⟩
  have hitems := foldlM_addItem query h.item ([], OrderedDict.empty)
  have hurls := foldlM_addUrl hknown h.url
  rw [List.nil_append] at hitems
  unfold fetchedRecords
  rw [h.search]
  change (List.foldlM (addItem query) ([], OrderedDict.empty) (item :: rest) >>= _) = _
  rw [hitems]
  change (api.videos (String.intercalate "," (searched (item :: rest))) >>= _) = _
  rw [h.videos]
  change (results.foldlM addUrl _ >>= _) = _
  rw [hurls]
  rfl

/-- Whatever a fetch reads to the end, it reads into these records. -/
theorem records_of_fetched {records : Dict Value} (h : fetchedRecords api user n query = .ok (some records)) :
    ∃ items results, api.search query n = .ok (some items) ∧ items ≠ [] ∧
      api.videos (String.intercalate "," (searched items)) = .ok (some results) ∧ Named items results ∧
      records = labelled (recordsOf query items results) query user := by
  obtain ⟨items, acc, results, d, hs, hne, hitems, hvideos, hurls, rfl⟩ := fetchedRecords_of_some h
  obtain ⟨hids, rfl⟩ := foldlM_addItem_eq_ok hitems
  obtain ⟨hrids, rfl⟩ := foldlM_addUrl_eq_ok hurls
  exact ⟨items, results, hs, hne, hvideos, ⟨hids, hrids⟩, rfl⟩

theorem get_labelled (hid : skipped id = false) (d : Dict Value) (query user : String) :
    get (labelled d query user) id = get d id := by
  have hs : id ≠ "user" ∧ id ≠ "query" := by simpa [skipped] using hid
  rw [labelled, get_set_of_ne hs.1.symm, get_set_of_ne hs.2.symm]

theorem mem_videoItems_labelled {x : String × Value} (h : x ∈ videoItems (labelled d query user).items) :
    get d x.1 = some x.2 := by
  obtain ⟨hx, hid⟩ := List.mem_filter.mp h
  have hget : get (labelled d query user) x.1 = some x.2 := get_eq_some.mpr hx
  rwa [get_labelled (by simpa using hid)] at hget

theorem find_videoItems_labelled (d : Dict Value) (query user : String) (p : String → Bool) :
    ((videoItems (labelled d query user).items).map Prod.fst).find? p =
      ((keys d).filter (fun id => !skipped id)).find? p := by
  have hm : (videoItems (labelled d query user).items).map Prod.fst =
      (keys (labelled d query user)).filter (fun id => !skipped id) := by
    rw [videoItems, keys, List.filter_map]
    rfl
  rw [hm, List.find?_filter, List.find?_filter, labelled, find_keys_set, List.find?_append, find_keys_set,
    List.find?_append]
  simp [skipped]

theorem items_labelled (h : ∀ id ∈ keys d, skipped id = false) (query user : String) :
    (labelled d query user).items = d.items ++ [("query", .text query), ("user", .text user)] := by
  have hq : "query" ∉ keys d := fun hm => by cases h _ hm
  have hu : "user" ∉ keys (set d "query" (.text query)) := by
    rw [keys_set, if_neg hq]
    intro hm
    obtain hm | hm := List.mem_append.mp hm
    · cases h _ hm
    · simp at hm
  rw [labelled, items_set_of_not_mem hu, items_set_of_not_mem hq, List.append_assoc]
  rfl

theorem videoItems_labelled (h : ∀ id ∈ keys d, skipped id = false) (query user : String) :
    videoItems (labelled d query user).items = d.items := by
  have hd : d.items.filter (fun x => !skipped x.1) = d.items := by
    rw [List.filter_eq_self]
    intro x hx
    rw [h x.1 (List.mem_map_of_mem hx)]
    rfl
  rw [items_labelled h, videoItems, List.filter_append, hd]
  simp [skipped]

theorem pop_labelled (h : ∀ id ∈ keys d, skipped id = false) (query user : String) :
    pop (pop (labelled d query user) "user") "query" = d := by
  have hd : ∀ x ∈ d.items, x.1 ≠ "user" ∧ x.1 ≠ "query" := by
    intro x hx
    have hs := h x.1 (List.mem_map_of_mem hx)
    simpa [skipped] using hs
  apply OrderedDict.ext
  simp only [pop, items_labelled h, List.filter_filter]
  rw [List.filter_append, List.filter_eq_self.mpr fun x hx => by simp [hd x hx]]
  simp

theorem text_query (d : Dict Value) (query user : String) : text (labelled d query user) "query" = .ok query := by
  rw [text, labelled, get_set_of_ne (by decide), get_set_self]

theorem text_user (d : Dict Value) (query user : String) : text (labelled d query user) "user" = .ok user := by
  rw [text, labelled, get_set_self]

end Answers

end YoutubeRecords.FetchedAnswers
