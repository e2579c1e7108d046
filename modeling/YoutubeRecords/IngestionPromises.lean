import YoutubeRecords.SearchViews

namespace YoutubeRecords.IngestionPromises

open CommandProgram ProgramPool PythonBasics OrderedDict VideoStore VideoIngestion SearchViews

abbrev History := List (Call Cmd Answer)

def videoItems (items : List (String × Value)) : List (String × Value) :=
  items.filter (fun x => !skipped x.1)

def indexed : Value → Option Indexed
  | .video ⟨some date, some title, _, _⟩ => some ⟨title, date⟩
  | _ => none

def Seen (h : History) (v : Video) : Prop :=
  ⟨.findVideo v.video_id, some v.fields⟩ ∈ h ∨
    (⟨.saveVideo v, true⟩ ∈ h ∧ ∃ body, ⟨.index v.video_id body, ()⟩ ∈ h)

structure Gathered (items : List (String × Value)) (h : History) (videos : List Video) : Prop where
  ids : (videos.map Video.video_id).Perm ((videoItems items).map Prod.fst)
  seen : ∀ v ∈ videos, Seen h v

/-- What an execution that inserts these records guarantees about each of its
calls, whatever answers it has seen. -/
def insertPromise (records : Dict Value) (h : History) : Call Cmd Answer → Prop
  | ⟨.saveVideo v, _⟩ => ∃ value rest, (v.video_id, value) ∈ videoItems records.items ∧
      videoFields value = .ok v.fields ∧ h = ⟨.findVideo v.video_id, none⟩ :: rest
  | ⟨.index id body, _⟩ => ∃ value fields rest, (id, value) ∈ videoItems records.items ∧
      videoFields value = .ok fields ∧ indexed value = some body ∧
      h = ⟨.saveVideo ⟨id, fields⟩, true⟩ :: ⟨.findVideo id, none⟩ :: rest
  | ⟨.saveQuery oid d, _⟩ => ∃ query user doc rest,
      h = ⟨.findQuery query user, some (oid, doc)⟩ :: rest ∧
      text records "query" = .ok query ∧ text records "user" = .ok user ∧
      d = { doc with videos := d.videos } ∧ Gathered records.items h d.videos
  | ⟨.insertQuery d, _⟩ => ∃ rest, h = ⟨.findQuery d.query d.user, none⟩ :: rest ∧
      text records "query" = .ok d.query ∧ text records "user" = .ok d.user ∧
      Gathered records.items h d.videos
  | ⟨.findQuery query user, _⟩ => text records "query" = .ok query ∧ text records "user" = .ok user
  | _ => True

def inserting : Cmd → Bool
  | .findVideo _ | .saveVideo _ | .index _ _ | .findQuery _ _ | .saveQuery _ _ | .insertQuery _ => true
  | .pageVideos _ _ _ _ | .pageQueries _ _ _ _ | .delay _ => false

def insertStep (records : Dict Value) (h : History) (x : Call Cmd Answer) : Prop :=
  inserting x.cmd = true ∧ insertPromise records h x

def AllIndexed (h : History) : Prop :=
  ∀ v, ⟨.saveVideo v, true⟩ ∈ h → ∃ body, ⟨.index v.video_id body, ()⟩ ∈ h

def writes : Call Cmd Answer → Bool
  | ⟨.saveQuery _ _, saved⟩ | ⟨.insertQuery _, saved⟩ => saved
  | _ => false

/-- What an insertion that returns has done since the calls `h₀`. -/
structure Finished (records : Dict Value) (h₀ h : History) : Prop where
  allIndexed : AllIndexed h₀ → AllIndexed h
  written : ∃ x ∈ h, writes x = true
  document : ∃ query user, text records "query" = .ok query ∧ text records "user" = .ok user ∧
    ((∃ found, ⟨.findQuery query user, some found⟩ ∈ h) ∨
      ∃ d, ⟨.insertQuery d, true⟩ ∈ h ∧ d.query = query ∧ d.user = user)

theorem Seen.mono {h h' : History} {v : Video} (hs : Seen h v) (hh : h ⊆ h') : Seen h' v := by
  obtain hf | ⟨hv, body, hi⟩ := hs
  · exact .inl (hh hf)
  · exact .inr ⟨hh hv, body, hh hi⟩

theorem Gathered.mono {items : List (String × Value)} {h h' : History} {videos : List Video}
    (hg : Gathered items h videos) (hh : h ⊆ h') : Gathered items h' videos :=
  ⟨hg.ids, fun v hv => (hg.seen v hv).mono hh⟩

theorem indexed_of_videoFields {value : Value} {fields : VideoFields} (h : videoFields value = .ok fields) :
    ∃ body, indexed value = some body ∧ ∀ id, insertIntoElastic value id = ask (.index id body) := by
  match value with
  | .text s => cases h
  | .video ⟨some date, some title, some description, some url⟩ =>
    exact ⟨⟨title, date⟩, rfl, fun _ => rfl⟩
  | .video ⟨none, _, _, _⟩ | .video ⟨some _, none, _, _⟩ | .video ⟨some _, some _, none, _⟩
  | .video ⟨some _, some _, some _, none⟩ => cases h

theorem allIndexed_nil : AllIndexed [] := by
  intro v hv
  cases hv

theorem AllIndexed.cons {h : History} (hh : AllIndexed h) {x : Call Cmd Answer}
    (hx : ∀ v, x ≠ ⟨.saveVideo v, true⟩) : AllIndexed (x :: h) := by
  intro v hv
  obtain heq | hv := List.mem_cons.mp hv
  · exact absurd heq.symm (hx v)
  · obtain ⟨body, hb⟩ := hh v hv
    exact ⟨body, List.mem_cons_of_mem x hb⟩

theorem AllIndexed.insert {h : History} (hh : AllIndexed h) (v : Video) (body : Indexed) :
    AllIndexed (⟨.index v.video_id body, ()⟩ :: ⟨.saveVideo v, true⟩ :: h) := by
  intro w hw
  obtain heq | hw := List.mem_cons.mp hw
  · cases heq
  · obtain heq | hw := List.mem_cons.mp hw
    · cases heq
      exact ⟨body, List.mem_cons_self⟩
    · obtain ⟨b, hb⟩ := hh w hw
      exact ⟨b, List.mem_cons_of_mem _ (List.mem_cons_of_mem _ hb)⟩

section Insert

variable {records : Dict Value} {h₀ : History}

theorem insertNewVideo_obeys {key : String} {value : Value} {rest : History}
    (hm : (key, value) ∈ videoItems records.items) :
    Obeys (insertStep records)
      (fun video h => video.video_id = key ∧ Seen h video ∧ (⟨.findVideo key, none⟩ :: rest) ⊆ h ∧
        (AllIndexed rest → AllIndexed h))
      (insertNewVideo key value) (⟨.findVideo key, none⟩ :: rest) := by
  unfold insertNewVideo
  cases hf : videoFields value with
  | error e => trivial
  | ok fields =>
    obtain ⟨body, hb, hi⟩ := indexed_of_videoFields hf
    simp only [ask, perform_bind, obeys_call]
    intro saved
    refine ⟨⟨rfl, value, rest, hm, hf, rfl⟩, ?_⟩
    cases saved with
    | false => trivial
    | true =>
      simp only [if_true, hi, ask, perform_bind, obeys_call]
      intro _
      refine ⟨⟨rfl, value, fields, rest, hm, hf, hb, rfl⟩, rfl, .inr ⟨by simp, body, by simp⟩, ?_, ?_⟩
      · intro x hx
        exact List.mem_cons_of_mem _ (List.mem_cons_of_mem _ hx)
      · exact fun hrest => (hrest.cons (by simp)).insert ⟨key, fields⟩ body

theorem Gathered.skip {done : List (String × Value)} {h : History} {videos : List Video}
    (hg : Gathered done h videos) {x : String × Value} (hx : skipped x.1 = true) :
    Gathered (done ++ [x]) h videos := by
  refine ⟨?_, hg.seen⟩
  have hv : videoItems (done ++ [x]) = videoItems done := by simp [videoItems, hx]
  rw [hv]
  exact hg.ids

theorem Gathered.add {done : List (String × Value)} {h h' : History} {complete new complete' new' : List Video}
    (hg : Gathered done h (complete ++ new)) (hh : h ⊆ h') {x : String × Value}
    (hx : skipped x.1 = false) {v : Video} (hv : v.video_id = x.1) (hs : Seen h' v)
    (hp : (complete' ++ new').Perm (v :: (complete ++ new))) :
    Gathered (done ++ [x]) h' (complete' ++ new') := by
  have hi : videoItems (done ++ [x]) = videoItems done ++ [x] := by simp [videoItems, hx]
  constructor
  · have hids : ((v :: (complete ++ new)).map Video.video_id).Perm (x.1 :: (videoItems done).map Prod.fst) := by
      rw [List.map_cons, hv]
      exact hg.ids.cons _
    have hlast : ((videoItems (done ++ [x])).map Prod.fst).Perm (x.1 :: (videoItems done).map Prod.fst) := by
      rw [hi, List.map_append]
      exact List.perm_append_singleton _ _
    exact (hp.map _).trans (hids.trans hlast.symm)
  · intro w hw
    obtain rfl | hw := List.mem_cons.mp (hp.subset hw)
    · exact hs
    · exact (hg.seen w hw).mono hh

theorem insertVideos_obeys (items done : List (String × Value)) (complete new : List Video) (h : History)
    (hitems : records.items = done ++ items) (hg : Gathered done h (complete ++ new))
    (ha : AllIndexed h₀ → AllIndexed h) :
    Obeys (insertStep records)
      (fun videos h => Gathered records.items h videos ∧ (AllIndexed h₀ → AllIndexed h))
      (insertVideos items complete new) h := by
  induction items generalizing done complete new h with
  | nil =>
    rw [hitems, List.append_nil]
    exact ⟨hg, ha⟩
  | cons x items ih =>
    obtain ⟨key, value⟩ := x
    have hitems' : records.items = (done ++ [(key, value)]) ++ items := by rw [hitems]; simp
    unfold insertVideos
    cases hk : skipped key with
    | true => exact ih _ _ _ _ hitems' (hg.skip hk) ha
    | false =>
      have hm : (key, value) ∈ videoItems records.items := by
        rw [hitems]
        simp [videoItems, hk]
      have hnew : ∀ rest : History, h ⊆ rest → (AllIndexed h₀ → AllIndexed rest) →
          Obeys (insertStep records)
          (fun videos h => Gathered records.items h videos ∧ (AllIndexed h₀ → AllIndexed h))
          (insertNewVideo key value >>= fun video => insertVideos items complete (new ++ [video]))
          (⟨.findVideo key, none⟩ :: rest) := by
        intro rest hrest ha'
        refine Obeys.bind (insertNewVideo_obeys hm) fun video h' hv => ?_
        obtain ⟨hid, hs, hh, hi⟩ := hv
        refine ih _ _ _ _ hitems' (hg.add ?_ hk hid hs ?_) fun h0 => hi (ha' h0)
        · exact fun y hy => hh (List.mem_cons_of_mem _ (hrest hy))
        · rw [← List.append_assoc]
          exact List.perm_append_singleton _ _
      simp only [Bool.false_eq_true, if_false, ask, perform_bind, obeys_call]
      intro found
      refine ⟨⟨rfl, trivial⟩, ?_⟩
      cases found with
      | none => exact hnew h (List.Subset.refl h) ha
      | some found =>
        rw [obeys_call]
        intro again
        refine ⟨⟨rfl, trivial⟩, ?_⟩
        cases again with
        | none => exact hnew _ (List.subset_cons_self _ _) fun h0 => (ha h0).cons (by simp)
        | some fields =>
          refine ih _ _ _ _ hitems' (hg.add ?_ hk (v := ⟨key, fields⟩) rfl (.inl (by simp)) ?_)
            fun h0 => ((ha h0).cons (by simp)).cons (by simp)
          · exact fun y hy => List.mem_cons_of_mem _ (List.mem_cons_of_mem _ hy)
          · rw [List.append_assoc]
            exact List.perm_middle

theorem saveQuery_obeys {query user : String} {videos : List Video} {h : History} (now : Nat)
    (hq : text records "query" = .ok query) (hu : text records "user" = .ok user)
    (hg : Gathered records.items h videos) (ha : AllIndexed h₀ → AllIndexed h) :
    Obeys (insertStep records) (fun _ h => Finished records h₀ h) (saveQuery query user videos now) h := by
  simp only [saveQuery, ask, perform_bind, obeys_call]
  intro found
  refine ⟨⟨rfl, hq, hu⟩, ?_⟩
  have hg' : ∀ x, Gathered records.items (x :: h) videos := fun x => hg.mono (List.subset_cons_self _ _)
  have hall : ∀ x y, (∀ v, x ≠ ⟨.saveVideo v, true⟩) → (∀ v, y ≠ ⟨.saveVideo v, true⟩) →
      AllIndexed h₀ → AllIndexed (y :: x :: h) := fun x y hx hy h0 => ((ha h0).cons hx).cons hy
  cases found with
  | none =>
    rw [obeys_call]
    intro saved
    refine ⟨⟨rfl, h, rfl, hq, hu, hg' _⟩, ?_⟩
    cases saved with
    | false => trivial
    | true =>
      refine ⟨hall _ _ (by simp) (by simp), ⟨_, List.mem_cons_self, rfl⟩, query, user, hq, hu, .inr ?_⟩
      exact ⟨_, List.mem_cons_self, rfl, rfl⟩
  | some found =>
    obtain ⟨oid, doc⟩ := found
    rw [obeys_call]
    intro saved
    refine ⟨⟨rfl, query, user, doc, h, rfl, hq, hu, rfl, hg' _⟩, ?_⟩
    cases saved with
    | false => trivial
    | true =>
      refine ⟨hall _ _ (by simp) (by simp), ⟨_, List.mem_cons_self, rfl⟩, query, user, hq, hu, .inl ?_⟩
      exact ⟨_, List.mem_cons_of_mem _ List.mem_cons_self⟩

theorem insertIntoDatabase_obeys (records : Dict Value) (now : Nat) (h : History) :
    Obeys (insertStep records) (fun _ h' => Finished records h h') (insertIntoDatabase records now) h := by
  refine Obeys.bind (insertVideos_obeys records.items [] [] [] h rfl ⟨.refl _, by simp⟩ id) ?_
  rintro videos h ⟨hg, ha⟩
  split
  · trivial
  · trivial
  · next query user hq hu => exact saveQuery_obeys now hq hu hg ha

end Insert

/-- Everything that reads or writes the stores: a task or a direct call of
the insertion, and the views. -/
inductive Execution where
  | insert (records : Dict Value) (now : Nat)
  | fetch (api : Api) (user : String) (n : Json) (query : String) (now : Nat)
  | search (api : Api) (now : Nat) (request : SearchRequest)
  | topic (request : TopicRequest)
  | bulk (request : BulkRequest)

def Execution.program : Execution → Prog Unit
  | .insert records now => insertIntoDatabase records now
  | .fetch api user n query now => do
    let _ ← fetchYoutubeData api user n query now
    return ()
  | .search api now request => do
    let _ ← searchingView.get api now request
    return ()
  | .topic request => do
    let _ ← topicRegistration.post request
    return ()
  | .bulk request => do
    let _ ← bulkRegistration.get request
    return ()

def Execution.IsFor : Execution → String → String → Prop
  | .insert records _, query, user => text records "query" = .ok query ∧ text records "user" = .ok user
  | .fetch _ user _ query _, query', user' => query' = query ∧ user' = user
  | .search _ _ request, query, user => request.q = some query ∧ request.currentUser = some user
  | .topic _, _, _ | .bulk _, _, _ => False

def promise (target : String → String → Prop) (h : History) (x : Call Cmd Answer) : Prop :=
  ∃ records, insertPromise records h x ∧
    ∀ query user, text records "query" = .ok query → text records "user" = .ok user → target query user

theorem search_of_none {api : Api} {user query : String} {n : Json}
    (h : fetchedRecords api user n query = .ok none) :
    api.search query n = .ok none ∨ api.search query n = .ok (some []) := by
  obtain ⟨found, hs, h⟩ := bind_eq_ok.mp h
  match found with
  | none => exact .inl hs
  | some [] => exact .inr hs
  | some (item :: items) =>
    obtain ⟨acc, -, h⟩ := bind_eq_ok.mp h
    obtain ⟨answer, -, h⟩ := bind_eq_ok.mp h
    cases answer with
    | none => cases h
    | some results =>
      obtain ⟨d, -, h⟩ := bind_eq_ok.mp h
      cases h

/-- A fetch with results has read both answers to their ends. -/
theorem fetchedRecords_of_some {api : Api} {user query : String} {n : Json} {records : Dict Value}
    (h : fetchedRecords api user n query = .ok (some records)) :
    ∃ items acc results d, api.search query n = .ok (some items) ∧ items ≠ [] ∧
      items.foldlM (addItem query) ([], OrderedDict.empty) = .ok acc ∧
      api.videos (String.intercalate "," acc.1) = .ok (some results) ∧ results.foldlM addUrl acc.2 = .ok d ∧
      records = set (set d "query" (.text query)) "user" (.text user) := by
  obtain ⟨found, hs, h⟩ := bind_eq_ok.mp h
  match found with
  | none | some [] => cases h
  | some (item :: items) =>
    obtain ⟨acc, hi, h⟩ := bind_eq_ok.mp h
    obtain ⟨answer, ha, h⟩ := bind_eq_ok.mp h
    cases answer with
    | none => cases h
    | some results =>
      obtain ⟨d, hu, h⟩ := bind_eq_ok.mp h
      exact ⟨item :: items, acc, results, d, hs, by simp, hi, ha, hu, (Option.some.inj (Except.ok.inj h)).symm⟩

theorem text_fetchedRecords {api : Api} {user query : String} {n : Json} {records : Dict Value}
    (h : fetchedRecords api user n query = .ok (some records)) :
    text records "query" = .ok query ∧ text records "user" = .ok user := by
  obtain ⟨_, _, _, d, -, -, -, -, -, rfl⟩ := fetchedRecords_of_some h
  constructor
  · rw [text, get_set_of_ne (by decide), get_set_self]
  · rw [text, get_set_self]

theorem AllIndexed.delays {h : History} (hh : AllIndexed h) (tasks : List Task) :
    AllIndexed (tasks.map (fun task => ⟨.delay task, ()⟩) ++ h) := by
  induction tasks with
  | nil => exact hh
  | cons task tasks ih => exact ih.cons (by simp)

/-- What an execution may do: read pages and queue tasks for its user and the
queries it asks for, and insert records of its source. -/
inductive Does (user : Option String) (asks : String → Prop) (source : Dict Value → Prop) (h : History) :
    Call Cmd Answer → Prop
  | pageVideos {query email : String} (offset limit : Nat) (videos : List Video) (hu : user = some email)
      (hq : asks query) : Does user asks source h ⟨.pageVideos query email offset limit, videos⟩
  | pageQueries {email : String} (queries : List String) (offset limit : Nat) (docs : List QueryDoc)
      (hu : user = some email) : Does user asks source h ⟨.pageQueries queries email offset limit, docs⟩
  | delay {task : Task} (hu : user = some task.user) (hq : asks task.query) :
      Does user asks source h ⟨.delay task, ()⟩
  | insert {records : Dict Value} {x : Call Cmd Answer} (hr : source records) (hx : insertStep records h x) :
      Does user asks source h x

section Views

variable {h : History}

theorem Does.mono {user : Option String} {asks asks' : String → Prop} {source source' : Dict Value → Prop}
    {x : Call Cmd Answer} (hd : Does user asks source h x) (ha : ∀ query, asks query → asks' query)
    (hs : ∀ records, source records → source' records) : Does user asks' source' h x := by
  cases hd with
  | pageVideos offset limit videos hu hq => exact .pageVideos offset limit videos hu (ha _ hq)
  | pageQueries queries offset limit docs hu => exact .pageQueries queries offset limit docs hu
  | delay hu hq => exact .delay hu (ha _ hq)
  | insert hr hx => exact .insert (hs _ hr) hx

inductive FetchEnds (api : Api) (user : String) (n : Json) (query : String) (h : History) :
    Dict Value → History → Prop
  | nothing (hf : fetchedRecords api user n query = .ok none) : FetchEnds api user n query h OrderedDict.empty h
  | inserted {records : Dict Value} {h' : History} (hf : fetchedRecords api user n query = .ok (some records))
      (hi : Finished records h h') : FetchEnds api user n query h (pop (pop records "user") "query") h'

theorem FetchEnds.allIndexed {api : Api} {user query : String} {n : Json} {d : Dict Value} {h' : History}
    (he : FetchEnds api user n query h d h') (hh : AllIndexed h) : AllIndexed h' := by
  cases he with
  | nothing => exact hh
  | inserted _ hi => exact hi.allIndexed hh

theorem fetchYoutubeData_obeys (api : Api) (user : String) (n : Json) (query : String) (now : Nat) :
    Obeys (Does (some user) (· = query) fun records => fetchedRecords api user n query = .ok (some records))
      (FetchEnds api user n query h) (fetchYoutubeData api user n query now) h := by
  unfold fetchYoutubeData
  split
  · trivial
  · next hf => exact .nothing hf
  · next records hf =>
    have hi : Obeys (Does (some user) (· = query) fun records => fetchedRecords api user n query = .ok (some records))
        (fun _ h' => Finished records h h') (insertIntoDatabase records now) h :=
      (insertIntoDatabase_obeys records now h).mono (fun _ _ hx => .insert hf hx) fun _ _ hfin => hfin
    exact hi.bind fun _ _ hfin => .inserted hf hfin

structure Searches (request : SearchRequest) (query user : String) (limit : Nat) : Prop where
  query : request.q = some query
  user : request.currentUser = some user
  limit : intOf (request.limit.getD "5") = .ok limit

def searchSource (api : Api) (request : SearchRequest) (records : Dict Value) : Prop :=
  ∃ query user limit, Searches request query user limit ∧
    fetchedRecords api user (.num limit 0) query = .ok (some records)

inductive SearchEnds (api : Api) (request : SearchRequest) (h : History) : SearchResponse → History → Prop
  | message (status : Nat) (key text : String) : SearchEnds api request h (.message status key text) h
  | saved {query user : String} {limit : Nat} (hs : Searches request query user limit) (next : NextLink)
      (offset : Nat) (videos : List Video) :
      SearchEnds api request h (.page next ((videos.take limit).map .saved))
        (⟨.pageVideos query user offset (limit + 1), videos⟩ :: h)
  | page {query user : String} {limit : Nat} (hs : Searches request query user limit) (next : NextLink)
      {offset : Nat} {videos : List Video} {d : Dict Value} {h' : History}
      (hf : FetchEnds api user (.num limit 0) query (⟨.pageVideos query user offset (limit + 1), videos⟩ :: h) d h') :
      SearchEnds api request h (.page next (d.items.map fun x => .fetched x.2)) h'
  | records {query user : String} {limit : Nat} (hs : Searches request query user limit) {offset : Nat}
      {videos : List Video} {d : Dict Value} {h' : History}
      (hf : FetchEnds api user (.num limit 0) query (⟨.pageVideos query user offset (limit + 1), videos⟩ :: h) d h') :
      SearchEnds api request h (.records d) h'

theorem SearchEnds.allIndexed {api : Api} {request : SearchRequest} {response : SearchResponse} {h' : History}
    (he : SearchEnds api request h response h') (hh : AllIndexed h) : AllIndexed h' := by
  cases he with
  | message => exact hh
  | saved => exact hh.cons (by simp)
  | page _ _ hf | records _ hf => exact hf.allIndexed (hh.cons (by simp))

theorem searchingView_obeys (api : Api) (now : Nat) (request : SearchRequest) :
    Obeys (Does request.currentUser (fun q => request.q = some q) (searchSource api request))
      (SearchEnds api request h) (searchingView.get api now request) h := by
  unfold searchingView.get
  split
  · trivial
  · trivial
  · next offset limit hoffset hlimit =>
    split
    · exact .message _ _ _
    · next hneg =>
      split
      · exact .message _ _ _
      · trivial
      · next query user hq hu =>
        have hs : Searches request query user limit.toNat := by
          refine ⟨(Option.filter_eq_some_iff.mp hq).1, hu, ?_⟩
          rw [hlimit, Int.toNat_of_nonneg (by omega)]
        have hfetch : ∀ h', Obeys
            (Does request.currentUser (fun q => request.q = some q) (searchSource api request))
            (FetchEnds api user (.num limit.toNat 0) query h')
            (fetchYoutubeData api user (.num limit.toNat 0) query now) h' := by
          intro h'
          have hf := fetchYoutubeData_obeys (h := h') api user (.num limit.toNat 0) query now
          rw [← hu] at hf
          have hq : ∀ q, q = query → request.q = some q := fun q he => he ▸ hs.query
          exact hf.mono (fun _ _ hx => hx.mono hq fun records hr => ⟨query, user, limit.toNat, hs, hr⟩)
            fun _ _ he => he
        simp only [searchVideos, ask, perform_bind, obeys_call]
        intro videos
        refine ⟨.pageVideos _ _ _ hu hs.query, ?_⟩
        unfold answerPage
        split
        · exact (hfetch _).bind fun _ _ he => .records hs he
        · dsimp only
          split
          · exact (hfetch _).bind fun _ _ he => .page hs _ he
          · exact .saved hs _ _ _

inductive TopicEnds (request : TopicRequest) (h : History) : SearchResponse → History → Prop
  | refused {status : Nat} (hs : status ≠ 201) (text : String) :
      TopicEnds request h (.message status "message" text) h
  | queued {query user : String} (n : Json) (hq : request.query = .str query)
      (hu : request.currentUser = some user) :
      TopicEnds request h (.message 201 "message" "done") (⟨.delay ⟨user, n, query⟩, ()⟩ :: h)

theorem topicRegistration_obeys (request : TopicRequest) :
    Obeys (Does request.currentUser (fun q => request.query = .str q) fun _ => False) (TopicEnds request h)
      (topicRegistration.post request) h := by
  unfold topicRegistration.post
  split
  · split
    · next query hq =>
      split
      · exact .refused (by decide) _
      · dsimp only
        split
        · next user hu => exact fun _ => ⟨.delay hu hq, .queued _ hq hu⟩
        · exact .refused (by decide) _
    · trivial
  · exact .refused (by decide) _

structure Delayed (user : String) (saved queries : List String) (h h' : History) : Prop where
  tasks : ∃ tasks : List Task, h' = tasks.map (fun task => ⟨.delay task, ()⟩) ++ h
  missing : ∀ query ∈ queries, query ∈ saved ∨ ⟨.delay ⟨user, .num 5 0, query⟩, ()⟩ ∈ h'

theorem delayMissing_obeys {asks : String → Prop} (user : String) (saved queries : List String)
    (hq : ∀ query ∈ queries, asks query) :
    Obeys (Does (some user) asks fun _ => False) (fun _ h' => Delayed user saved queries h h')
      (delayMissing user saved queries) h := by
  induction queries generalizing h with
  | nil => exact ⟨⟨[], rfl⟩, by simp⟩
  | cons query queries ih =>
    obtain ⟨hask, hq⟩ := List.forall_mem_cons.mp hq
    unfold delayMissing
    split
    · next hs =>
      refine (ih hq).mono (fun _ _ hx => hx) fun _ h' hd => ⟨hd.tasks, ?_⟩
      exact List.forall_mem_cons.mpr ⟨.inl hs, hd.missing⟩
    · refine fun _ => ⟨.delay rfl hask, (ih hq).mono (fun _ _ hx => hx) fun _ h' hd => ?_⟩
      obtain ⟨tasks, rfl⟩ := hd.tasks
      refine ⟨⟨tasks ++ [⟨user, .num 5 0, query⟩], by simp⟩, List.forall_mem_cons.mpr ⟨?_, hd.missing⟩⟩
      exact .inr (by simp)

inductive BulkEnds (request : BulkRequest) (h : History) : BulkResponse → History → Prop
  | message (status : Nat) (text : String) : BulkEnds request h (.message status text) h
  | page {user : String} {offset limit : Nat} {docs page : List QueryDoc} {h' : History}
      (hu : request.currentUser = some user) (hp : page ⊆ docs) (next : Option (Int × Int))
      (hd : Delayed user (page.map QueryDoc.query) request.queries
        (⟨.pageQueries request.queries user offset limit, docs⟩ :: h) h') :
      BulkEnds request h (.page next page) h'

theorem bulkRegistration_obeys (request : BulkRequest) :
    Obeys (Does request.currentUser (· ∈ request.queries) fun _ => False) (BulkEnds request h)
      (bulkRegistration.get request) h := by
  unfold bulkRegistration.get
  split
  · trivial
  · trivial
  · split
    · exact .message _ _
    · split
      · exact .message _ _
      · split
        · trivial
        · next user hu =>
          simp only [ask, perform_bind, obeys_call]
          intro docs
          refine ⟨.pageQueries _ _ _ _ hu, ?_⟩
          rw [hu]
          refine (delayMissing_obeys _ _ _ fun _ hm => hm).bind fun _ _ hd => .page hu ?_ _ hd
          split
          · exact List.take_subset _ _
          · exact List.Subset.refl _

end Views

def Execution.user : Execution → Option String
  | .insert records _ => (text records "user").toOption
  | .fetch _ user _ _ _ => some user
  | .search _ _ request => request.currentUser
  | .topic request => request.currentUser
  | .bulk request => request.currentUser

def Execution.asks : Execution → String → Prop
  | .insert _ _, _ => False
  | .fetch _ _ _ query _, query' => query' = query
  | .search _ _ request, query => request.q = some query
  | .topic request, query => request.query = .str query
  | .bulk request, query => query ∈ request.queries

def Execution.source : Execution → Dict Value → Prop
  | .insert records _, records' => records' = records
  | .fetch api user n query _, records => fetchedRecords api user n query = .ok (some records)
  | .search api _ request, records => searchSource api request records
  | .topic _, _ | .bulk _, _ => False

section Executions

variable {user : Option String} {asks : String → Prop} {source : Dict Value → Prop} {h : History}
  {x : Call Cmd Answer}

theorem read_promise {target : String → String → Prop} (hx : insertPromise OrderedDict.empty h x) :
    promise target h x := by
  refine ⟨OrderedDict.empty, hx, fun query user hq => ?_⟩
  cases hq

theorem Does.promise {target : String → String → Prop} (hd : Does user asks source h x)
    (ht : ∀ records query email, source records → text records "query" = .ok query →
      text records "user" = .ok email → target query email) : promise target h x := by
  cases hd with
  | pageVideos | pageQueries | delay => exact read_promise trivial
  | insert hr hx => exact ⟨_, hx.2, fun query email => ht _ query email hr⟩

theorem execution_does (e : Execution) :
    Obeys (Does e.user e.asks e.source) (fun _ h' => AllIndexed h → AllIndexed h') e.program h := by
  cases e with
  | insert records now =>
    exact (insertIntoDatabase_obeys records now h).mono (fun _ _ hx => .insert rfl hx) fun _ _ hi => hi.allIndexed
  | fetch api user n query now =>
    exact (fetchYoutubeData_obeys api user n query now).bind fun _ _ he => he.allIndexed
  | search api now request => exact (searchingView_obeys api now request).bind fun _ _ he => he.allIndexed
  | topic request =>
    refine (topicRegistration_obeys request).bind fun _ _ he hh => ?_
    cases he with
    | refused => exact hh
    | queued => exact hh.cons (by simp)
  | bulk request =>
    refine (bulkRegistration_obeys request).bind fun _ _ he hh => ?_
    cases he with
    | message => exact hh
    | page _ _ _ hd =>
      obtain ⟨tasks, rfl⟩ := hd.tasks
      exact (hh.cons (by simp)).delays tasks

theorem source_isFor {e : Execution} {records : Dict Value} {query email : String} (hr : e.source records)
    (hq : text records "query" = .ok query) (hu : text records "user" = .ok email) : e.IsFor query email := by
  cases e with
  | insert records' now =>
    obtain rfl := hr
    exact ⟨hq, hu⟩
  | fetch api user n query' now =>
    obtain ⟨hq', hu'⟩ := text_fetchedRecords hr
    exact ⟨Except.ok.inj (hq.symm.trans hq'), Except.ok.inj (hu.symm.trans hu')⟩
  | search api now request =>
    obtain ⟨query', user, limit, hs, hr⟩ := hr
    obtain ⟨hq', hu'⟩ := text_fetchedRecords hr
    obtain rfl := Except.ok.inj (hq.symm.trans hq')
    obtain rfl := Except.ok.inj (hu.symm.trans hu')
    exact ⟨hs.query, hs.user⟩
  | topic | bulk => exact hr.elim

theorem execution_obeys (e : Execution) (h : History) :
    Obeys (promise e.IsFor) (fun _ _ => True) e.program h :=
  (execution_does e).mono (fun _ _ hx => hx.promise fun _ _ _ => source_isFor) fun _ _ _ => trivial

end Executions

def start (s : Store) (execs : Nat → Execution) : Pool Cmd Answer Exn Unit Store :=
  ⟨fun i => (execs i).program, s, []⟩

theorem start_lawful (s : Store) (execs : Nat → Execution) :
    Lawful (fun i => promise (execs i).IsFor) (fun _ _ _ => True) (start s execs) :=
  fun i => execution_obeys (execs i) []

end YoutubeRecords.IngestionPromises
