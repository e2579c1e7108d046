import YoutubeRecords.FetchedAnswers
import YoutubeRecords.Lockstep

namespace YoutubeRecords.QueryRenaming

open CommandProgram ProgramPool PythonBasics Documents OrderedDict VideoStore VideoIngestion SearchViews Lockstep
  FetchedAnswers

section Definitions

variable (u : String) (ρ : String → String)

/-- The text of a query in the renamed run: only `u` keeps the texts as they
are. -/
def renamed (asker : Option String) (query : String) : String := if asker = some u then query else ρ query

def renDoc (d : QueryDoc) : QueryDoc := { d with query := renamed u ρ (some d.user) d.query }

def renTask (task : Task) : Task := { task with query := renamed u ρ (some task.user) task.query }

def renStore (s : Store) : Store :=
  { s with queryModel := map (renDoc u ρ) s.queryModel, tasks := s.tasks.map (renTask u ρ) }

def renCmd : Cmd → Cmd
  | .findQuery query user => .findQuery (renamed u ρ (some user) query) user
  | .saveQuery oid doc => .saveQuery oid (renDoc u ρ doc)
  | .insertQuery doc => .insertQuery (renDoc u ρ doc)
  | .pageVideos query user offset limit => .pageVideos (renamed u ρ (some user) query) user offset limit
  | .pageQueries queries user offset limit =>
    .pageQueries (queries.map (renamed u ρ (some user))) user offset limit
  | .delay task => .delay (renTask u ρ task)
  | .findVideo id => .findVideo id
  | .saveVideo video => .saveVideo video
  | .index id body => .index id body

def renAnswer : (c : Cmd) → Answer c → Answer (renCmd u ρ c)
  | .findQuery _ _, found => found.map (fun x => (x.1, renDoc u ρ x.2))
  | .pageQueries _ _ _ _, docs => docs.map (renDoc u ρ)
  | .saveQuery _ _, saved | .insertQuery _, saved | .saveVideo _, saved => saved
  | .pageVideos _ _ _ _, videos => videos
  | .findVideo _, found => found
  | .delay _, _ | .index _ _, _ => ()

def validAnswer : (c : Cmd) → Answer c → Prop
  | .pageQueries _ user _ _, docs => ∀ d ∈ docs, d.user = user
  | _, _ => True

def translation : Translation Cmd Answer := ⟨renCmd u ρ, renAnswer u ρ, validAnswer⟩

end Definitions

structure KeepsBlank (ρ : String → String) : Prop where
  empty : ∀ query, ρ query = "" ↔ query = ""
  blank : ∀ query, isspace (ρ query) = isspace query

/-- Validation looks at no more of a query than whether it is empty. -/
def TextBlind (env : Env) : Prop :=
  ∀ (d : QueryDoc) (query : String), (query = "" ↔ d.query = "") →
    env.acceptsQuery { d with query := query } = env.acceptsQuery d

variable {u : String} {ρ : String → String} {env : Env}

theorem renamed_self (query : String) : renamed u ρ (some u) query = query := if_pos rfl

theorem renDoc_self {d : QueryDoc} (h : d.user = u) : renDoc u ρ d = d := by
  subst h
  rw [renDoc, renamed_self]

theorem renamed_injective (hρ : Function.Injective ρ) (asker : Option String) :
    Function.Injective (renamed u ρ asker) := by
  intro p q h
  unfold renamed at h
  split at h
  · exact h
  · exact hρ h

theorem renamed_empty (hb : KeepsBlank ρ) (asker : Option String) (query : String) :
    renamed u ρ asker query = "" ↔ query = "" := by
  unfold renamed
  split
  · exact Iff.rfl
  · exact hb.empty query

theorem renamed_isspace (hb : KeepsBlank ρ) (asker : Option String) (query : String) :
    isspace (renamed u ρ asker query) = isspace query := by
  unfold renamed
  split
  · rfl
  · exact hb.blank query

section Stores

variable (hρ : Function.Injective ρ)

include hρ

theorem isFor_renDoc (query user : String) (d : QueryDoc) :
    isFor (renamed u ρ (some user) query) user (renDoc u ρ d) = isFor query user d := by
  unfold isFor
  rw [decide_eq_decide]
  constructor
  · rintro ⟨hq, rfl⟩
    exact ⟨renamed_injective hρ _ hq, rfl⟩
  · rintro ⟨rfl, rfl⟩
    exact ⟨rfl, rfl⟩

theorem isIn_renDoc (queries : List String) (user : String) (d : QueryDoc) :
    decide ((renDoc u ρ d).query ∈ queries.map (renamed u ρ (some user)) ∧ (renDoc u ρ d).user = user) =
      decide (d.query ∈ queries ∧ d.user = user) := by
  rw [decide_eq_decide]
  constructor
  · rintro ⟨hq, rfl⟩
    exact ⟨(List.mem_map_of_injective (renamed_injective hρ _)).mp hq, rfl⟩
  · rintro ⟨hq, rfl⟩
    exact ⟨List.mem_map_of_mem hq, rfl⟩

theorem unwound_renStore (s : Store) (query user : String) :
    (renStore u ρ s).unwound (renamed u ρ (some user) query) user = s.unwound query user := by
  rw [Store.unwound, renStore, matching_map (isFor_renDoc hρ query user), List.flatMap_map]
  rfl

theorem pageQueries_renStore (env : Env) (s : Store) (queries : List String) (user : String) (offset limit : Nat) :
    (exec env (.pageQueries (queries.map (renamed u ρ (some user))) user offset limit) (renStore u ρ s)).1 =
      (exec env (.pageQueries queries user offset limit) s).1.map (renDoc u ρ) := by
  have hsort : ∀ l : List QueryDoc, (l.map (renDoc u ρ)).insertionSort laterFirst =
      (l.insertionSort laterFirst).map (renDoc u ρ) :=
    fun l => (List.map_insertionSort laterFirst laterFirst (renDoc u ρ) l fun _ _ _ _ => Iff.rfl).symm
  have hm : matching (map (renDoc u ρ) s.queryModel)
      (fun d => decide (d.query ∈ queries.map (renamed u ρ (some user)) ∧ d.user = user)) =
      (matching s.queryModel (fun d => decide (d.query ∈ queries ∧ d.user = user))).map (renDoc u ρ) :=
    matching_map (isIn_renDoc hρ queries user)
  simp only [exec, renStore, hm, hsort, List.map_take, List.map_drop]

theorem translation_commutes (hb : KeepsBlank ρ) (he : TextBlind env) :
    Commutes (machine env) (translation u ρ) (renStore u ρ) := by
  have ha : ∀ d, env.acceptsQuery (renDoc u ρ d) = env.acceptsQuery d := fun d =>
    he d _ (renamed_empty hb _ d.query)
  refine ⟨fun c s => ?_, fun c s => ?_, fun t => t.elim⟩
  · cases c with
    | pageQueries queries user offset limit =>
      intro d hd
      have hm := (List.mem_insertionSort _).mp (List.mem_of_mem_drop (List.mem_of_mem_take hd))
      exact (of_decide_eq_true (mem_matching.mp hm).2).2
    | findVideo | saveVideo | index | findQuery | saveQuery | insertQuery | pageVideos | delay => trivial
  · cases c with
    | findVideo id => rfl
    | saveVideo v =>
      by_cases hv : env.acceptsVideo v <;> simp [machine, translation, renCmd, renAnswer, exec, hv, renStore]
    | index id body => rfl
    | findQuery query user => exact Prod.ext (first_map (isFor_renDoc hρ query user)) rfl
    | saveQuery oid d =>
      by_cases hd : env.acceptsQuery d
      · simp [machine, translation, renCmd, renAnswer, exec, ha, hd, renStore, map_replace]
      · simp [machine, translation, renCmd, renAnswer, exec, ha, hd]
    | insertQuery d =>
      by_cases hd : env.acceptsQuery d
      · simp [machine, translation, renCmd, renAnswer, exec, ha, hd, renStore, map_insert]
      · simp [machine, translation, renCmd, renAnswer, exec, ha, hd]
    | pageVideos query user offset limit =>
      refine Prod.ext ?_ rfl
      change (renStore u ρ s).page _ _ _ _ = s.page _ _ _ _
      rw [Store.page, Store.page, unwound_renStore hρ]
    | pageQueries queries user offset limit =>
      exact Prod.ext (pageQueries_renStore hρ env s queries user offset limit) rfl
    | delay task => exact Prod.ext rfl (by simp [machine, translation, renCmd, exec, renStore])

end Stores

def Alike (x y : String × Value) : Prop := x.1 = y.1 ∧ (skipped x.1 = false → x.2 = y.2)

theorem alike_refl (x : String × Value) : Alike x x := ⟨rfl, fun _ => rfl⟩

theorem alike_labelled (base : Dict Value) (query query' user : String) :
    List.Forall₂ Alike (labelled base query user).items (labelled base query' user).items := by
  have hkey : ∀ x y, Alike x y → x.1 = y.1 := fun _ _ h => h.1
  have hbase : List.Forall₂ Alike base.items base.items := List.forall₂_same.mpr fun x _ => alike_refl x
  have hquery : Alike ("query", .text query) ("query", .text query') := ⟨rfl, fun h => by cases h⟩
  exact KeyedList.forall₂_upsert hkey (KeyedList.forall₂_upsert hkey hbase hquery) (alike_refl _)

theorem filter_alike {l l' : List (String × Value)} (h : List.Forall₂ Alike l l') {p : String → Bool}
    (hp : ∀ key, p key = true → skipped key = false) : l.filter (fun x => p x.1) = l'.filter (fun x => p x.1) := by
  induction h with
  | nil => rfl
  | @cons x y l l' hxy _ ih =>
    obtain ⟨key, value⟩ := x
    obtain ⟨key', value'⟩ := y
    obtain ⟨rfl, hv⟩ := hxy
    by_cases hk : p key = true
    · obtain rfl : value = value' := hv (hp key hk)
      simp only [List.filter_cons, hk, if_true, ih]
    · simp only [List.filter_cons, hk, ih]
      rfl

theorem pop_alike (base : Dict Value) (query query' user : String) :
    pop (pop (labelled base query user) "user") "query" = pop (pop (labelled base query' user) "user") "query" := by
  apply OrderedDict.ext
  simp only [pop, List.filter_filter]
  refine filter_alike (p := fun key => decide (key ≠ "query") && decide (key ≠ "user"))
    (alike_labelled base query query' user) fun key hk => ?_
  simp only [Bool.and_eq_true, decide_eq_true_eq] at hk
  simp [skipped, hk]

section Fetches

theorem insertIntoElastic_follows (value : Value) (id : String) :
    Follows (translation u ρ) Eq (insertIntoElastic value id) (insertIntoElastic value id) := by
  unfold insertIntoElastic
  split
  · exact follows_raise rfl
  · split
    · exact follows_raise rfl
    · exact follows_raise rfl
    · exact follows_call fun _ _ => follows_ret rfl

theorem insertNewVideo_follows (key : String) (value : Value) :
    Follows (translation u ρ) Eq (insertNewVideo key value) (insertNewVideo key value) := by
  unfold insertNewVideo
  split
  · exact follows_raise rfl
  · refine follows_call fun saved _ => ?_
    cases saved with
    | false => exact follows_raise rfl
    | true => exact (insertIntoElastic_follows value key).bind_eq (fun _ => follows_ret rfl) fun _ => rfl

theorem insertVideos_follows {l l' : List (String × Value)} (h : List.Forall₂ Alike l l')
    (complete new : List Video) :
    Follows (translation u ρ) Eq (insertVideos l complete new) (insertVideos l' complete new) := by
  induction h generalizing complete new with
  | nil => exact follows_ret rfl
  | @cons x y l l' hxy _ ih =>
    obtain ⟨key, value⟩ := x
    obtain ⟨key', value'⟩ := y
    obtain ⟨rfl, hv⟩ := hxy
    cases hk : skipped key with
    | true =>
      simp only [insertVideos, hk, if_true]
      exact ih complete new
    | false =>
      obtain rfl : value = value' := hv hk
      have hnew : Follows (translation u ρ) Eq
          (insertNewVideo key value >>= fun video => insertVideos l complete (new ++ [video]))
          (insertNewVideo key value >>= fun video => insertVideos l' complete (new ++ [video])) :=
        (insertNewVideo_follows key value).bind_eq (fun _ => ih complete _) fun _ => rfl
      simp only [insertVideos, hk, Bool.false_eq_true, if_false]
      refine follows_call fun found _ => ?_
      cases found with
      | none => exact hnew
      | some fields =>
        refine follows_call fun found _ => ?_
        cases found with
        | none => exact hnew
        | some fields => exact ih _ new

theorem saveQuery_follows (query user : String) (videos : List Video) (now : Nat) :
    Follows (translation u ρ) Eq (saveQuery query user videos now)
      (saveQuery (renamed u ρ (some user) query) user videos now) := by
  have hend : ∀ saved : Bool, Follows (translation u ρ) Eq
      (if saved = true then .ret () else .raise .validationError : Prog Unit)
      (if saved = true then .ret () else .raise .validationError) := by
    intro saved
    cases saved with
    | true => exact follows_ret rfl
    | false => exact follows_raise rfl
  refine follows_call fun found _ => ?_
  cases found with
  | none => exact follows_call fun saved _ => hend saved
  | some found =>
    obtain ⟨oid, doc⟩ := found
    exact follows_call fun saved _ => hend saved

theorem insertIntoDatabase_follows (base : Dict Value) (query user : String) (now : Nat) :
    Follows (translation u ρ) Eq (insertIntoDatabase (labelled base query user) now)
      (insertIntoDatabase (labelled base (renamed u ρ (some user) query) user) now) := by
  refine (insertVideos_follows (alike_labelled base query _ user) [] []).bind_eq (fun videos => ?_) fun _ => rfl
  simp only [text_query, text_user]
  exact saveQuery_follows query user videos now

structure SameAnswers (u : String) (ρ : String → String) (asker : Option String) (query : String) (api api' : Api) :
    Prop where
  search : ∀ n, api'.search (renamed u ρ asker query) n = api.search query n
  videos : api'.videos = api.videos

def Titled (u : String) (asker : Option String) (query : String) (api : Api) : Prop :=
  asker ≠ some u → ∀ n items, api.search query n = .ok (some items) →
    ∀ item ∈ items, item.title ≠ .null ∧ item.description ≠ .null

theorem defaulted_congr {field : VideoIngestion.Field String} (h : field ≠ .null) (key default default' : String) :
    defaulted key default field = defaulted key default' field := by
  cases field with
  | null => exact absurd rfl h
  | missing | value a => rfl

theorem addItem_congr {item : SearchItem} (ht : item.title ≠ .null) (hd : item.description ≠ .null)
    (query query' : String) (acc : List String × Dict Value) : addItem query acc item = addItem query' acc item := by
  unfold addItem
  rw [defaulted_congr ht "title" query query', defaulted_congr hd "description" query query']

theorem foldlM_addItem_congr {items : List SearchItem} {query query' : String}
    (h : ∀ item ∈ items, ∀ acc, addItem query acc item = addItem query' acc item) (acc : List String × Dict Value) :
    items.foldlM (addItem query) acc = items.foldlM (addItem query') acc := by
  induction items generalizing acc with
  | nil => rfl
  | cons item items ih =>
    obtain ⟨hitem, hitems⟩ := List.forall_mem_cons.mp h
    rw [List.foldlM_cons, List.foldlM_cons, hitem acc]
    exact congrArg (addItem query' acc item >>= ·) (funext fun acc => ih hitems acc)

variable {user query : String} {api api' : Api}

theorem addItem_renamed (ht : Titled u (some user) query api) {n : Json} {items : List SearchItem}
    (hs : api.search query n = .ok (some items)) {item : SearchItem} (hi : item ∈ items)
    (acc : List String × Dict Value) :
    addItem query acc item = addItem (renamed u ρ (some user) query) acc item := by
  by_cases hu : some user = some u
  · rw [renamed, if_pos hu]
  · obtain ⟨htitle, hdescription⟩ := ht hu n items hs item hi
    exact addItem_congr htitle hdescription _ _ acc

/-- Corresponding fetches get the same records, but for the texts they are
labelled with. -/
theorem fetchedRecords_renamed (hs : SameAnswers u ρ (some user) query api api')
    (ht : Titled u (some user) query api) (n : Json) :
    (∃ e, fetchedRecords api user n query = .error e ∧
      fetchedRecords api' user n (renamed u ρ (some user) query) = .error e) ∨
    (fetchedRecords api user n query = .ok none ∧
      fetchedRecords api' user n (renamed u ρ (some user) query) = .ok none) ∨
    ∃ base, fetchedRecords api user n query = .ok (some (labelled base query user)) ∧
      fetchedRecords api' user n (renamed u ρ (some user) query) =
        .ok (some (labelled base (renamed u ρ (some user) query) user)) := by
  unfold fetchedRecords
  rw [hs.search, hs.videos]
  cases hsearch : api.search query n with
  | error e => exact .inl ⟨e, rfl, rfl⟩
  | ok found =>
    cases found with
    | none => exact .inr (.inl ⟨rfl, rfl⟩)
    | some items =>
      cases items with
      | nil => exact .inr (.inl ⟨rfl, rfl⟩)
      | cons item items =>
        have hf := foldlM_addItem_congr (fun x hx acc => addItem_renamed (ρ := ρ) ht hsearch hx acc)
          ([], OrderedDict.empty)
        simp only [bind, Except.bind, hf]
        cases (item :: items).foldlM (addItem (renamed u ρ (some user) query)) ([], OrderedDict.empty) with
        | error e => exact .inl ⟨e, rfl, rfl⟩
        | ok acc =>
          obtain ⟨ids, records⟩ := acc
          cases hvideos : api.videos (String.intercalate "," ids) with
          | error e => exact .inl ⟨e, by simp only [hvideos], by simp only [hvideos]⟩
          | ok found =>
            cases found with
            | none => exact .inl ⟨.keyError "items", by simp only [hvideos], by simp only [hvideos]⟩
            | some results =>
              simp only [hvideos]
              cases results.foldlM addUrl records with
              | error e => exact .inl ⟨e, rfl, rfl⟩
              | ok base => exact .inr (.inr ⟨base, rfl, rfl⟩)

theorem fetchYoutubeData_follows (hs : SameAnswers u ρ (some user) query api api')
    (ht : Titled u (some user) query api) (n : Json) (now : Nat) :
    Follows (translation u ρ) Eq (fetchYoutubeData api user n query now)
      (fetchYoutubeData api' user n (renamed u ρ (some user) query) now) := by
  unfold fetchYoutubeData
  obtain ⟨e, h, h'⟩ | ⟨h, h'⟩ | ⟨base, h, h'⟩ := fetchedRecords_renamed hs ht n
  all_goals rw [h, h']
  · exact follows_raise rfl
  · exact follows_ret rfl
  · refine (insertIntoDatabase_follows base query user now).bind_eq (fun _ => ?_) fun _ => rfl
    exact follows_ret (congrArg Except.ok (pop_alike base query _ user))

end Fetches

section Views

theorem answerPage_follows {user query : String} {api api' : Api} (hs : SameAnswers u ρ (some user) query api api')
    (ht : Titled u (some user) query api) (now offset limit : Nat) (videos : List Video) :
    Follows (translation u ρ) Eq (answerPage api now query user offset limit videos)
      (answerPage api' now (renamed u ρ (some user) query) user offset limit videos) := by
  have hfetch := fetchYoutubeData_follows hs ht (.num limit 0) now
  refine follows_ite (fun _ => ?_) fun _ => follows_ite (fun _ => ?_) fun _ => follows_ret rfl
  · exact hfetch.bind_eq (fun _ => follows_ret rfl) fun _ => rfl
  · exact hfetch.bind_eq (fun _ => follows_ret rfl) fun _ => rfl

def renSearch (u : String) (ρ : String → String) (request : SearchRequest) : SearchRequest :=
  { request with q := request.q.map (renamed u ρ request.currentUser) }

theorem search_follows (hb : KeepsBlank ρ) {request : SearchRequest} {api api' : Api}
    (hs : ∀ query, request.q = some query → SameAnswers u ρ request.currentUser query api api')
    (ht : ∀ query, request.q = some query → Titled u request.currentUser query api) (now : Nat) :
    Follows (translation u ρ) Eq (searchingView.get api now request)
      (searchingView.get api' now (renSearch u ρ request)) := by
  obtain ⟨q, asker, offset, limit⟩ := request
  simp only [searchingView.get, renSearch]
  split
  · exact follows_raise rfl
  · exact follows_raise rfl
  · split
    · exact follows_ret rfl
    · cases q with
      | none => exact follows_ret rfl
      | some query =>
        have hr := renamed_empty (u := u) hb asker query
        by_cases hq : query = ""
        · subst hq
          simp only [Option.map_some, Option.filter_some, hr.mpr rfl, ne_eq, not_true, decide_false,
            Bool.false_eq_true, if_false]
          exact follows_ret rfl
        · have hq' := mt hr.mp hq
          simp only [Option.map_some, Option.filter_some, hq, hq', ne_eq, not_false_eq_true, decide_true, if_true]
          cases asker with
          | none => exact follows_raise rfl
          | some user =>
            exact follows_call fun videos _ => answerPage_follows (hs query rfl) (ht query rfl) now _ _ videos

def renTopic (u : String) (ρ : String → String) (request : TopicRequest) : TopicRequest :=
  match request.query with
  | .str query => { request with query := .str (renamed u ρ request.currentUser query) }
  | _ => request

theorem topic_follows (hb : KeepsBlank ρ) (request : TopicRequest) :
    Follows (translation u ρ) Eq (topicRegistration.post request)
      (topicRegistration.post (renTopic u ρ request)) := by
  obtain ⟨query, n, asker⟩ := request
  cases query with
  | str query =>
    have hr := renamed_empty (u := u) hb asker query
    have hs := renamed_isspace (u := u) hb asker query
    have ht : (Json.str (renamed u ρ asker query)).truthy = (Json.str query).truthy := by
      simp only [Json.truthy, ne_eq, hr]
    simp only [topicRegistration.post, renTopic, ht, hs]
    refine follows_ite (fun _ => follows_ite (fun _ => follows_ret rfl) fun _ => ?_) fun _ => follows_ret rfl
    cases asker with
    | none => exact follows_ret rfl
    | some user => exact follows_call fun _ _ => follows_ret rfl
  | null | bool b | num m e | arr items | obj fields =>
    exact follows_ite (fun _ => follows_raise rfl) fun _ => follows_ret rfl

def renBulk (u : String) (ρ : String → String) (request : BulkRequest) : BulkRequest :=
  { request with queries := request.queries.map (renamed u ρ request.currentUser) }

theorem delayMissing_follows (hρ : Function.Injective ρ) (user : String) (saved queries : List String) :
    Follows (translation u ρ) Eq (delayMissing user saved queries)
      (delayMissing user (saved.map (renamed u ρ (some user))) (queries.map (renamed u ρ (some user)))) := by
  induction queries with
  | nil => exact follows_ret rfl
  | cons query queries ih =>
    have hm := List.mem_map_of_injective (a := query) (l := saved) (renamed_injective (u := u) hρ (some user))
    simp only [List.map_cons, delayMissing, hm]
    split
    · exact ih
    · exact follows_call fun _ _ => ih

def SameFor (u : String) {α : Type} (asker : Option String) (x y : Except Exn α) : Prop := asker = some u → x = y

theorem map_query_renDoc {docs : List QueryDoc} {user : String} (h : ∀ d ∈ docs, d.user = user) :
    (docs.map (renDoc u ρ)).map QueryDoc.query = (docs.map QueryDoc.query).map (renamed u ρ (some user)) := by
  rw [List.map_map, List.map_map]
  apply List.map_congr_left
  intro d hd
  rw [← h d hd]
  rfl

theorem map_renDoc_self {docs : List QueryDoc} (h : ∀ d ∈ docs, d.user = u) : docs.map (renDoc u ρ) = docs := by
  rw [List.map_congr_left fun d hd => renDoc_self (h d hd), List.map_id']

def bulkPage (limit : Nat) (docs : List QueryDoc) : List QueryDoc :=
  if docs.length = limit + 1 then docs.take limit else docs

theorem bulkPage_map (f : QueryDoc → QueryDoc) (limit : Nat) (docs : List QueryDoc) :
    bulkPage limit (docs.map f) = (bulkPage limit docs).map f := by
  unfold bulkPage
  rw [List.length_map]
  split
  · rw [List.map_take]
  · rfl

theorem mem_of_mem_bulkPage {limit : Nat} {docs : List QueryDoc} {d : QueryDoc} (h : d ∈ bulkPage limit docs) :
    d ∈ docs := by
  unfold bulkPage at h
  split at h
  · exact List.mem_of_mem_take h
  · exact h

theorem bulkAnswer_follows (hρ : Function.Injective ρ) {page : List QueryDoc} {user : String}
    (h : ∀ d ∈ page, d.user = user) (queries : List String) {next next' : Option (Int × Int)} (hn : next = next') :
    Follows (translation u ρ) (SameFor u (some user))
      (delayMissing user (page.map QueryDoc.query) queries >>= fun _ => .ret (BulkResponse.page next page))
      (delayMissing user ((page.map (renDoc u ρ)).map QueryDoc.query) (queries.map (renamed u ρ (some user))) >>=
        fun _ => .ret (BulkResponse.page next' (page.map (renDoc u ρ)))) := by
  rw [map_query_renDoc h, hn]
  refine (delayMissing_follows hρ user _ queries).bind_eq (fun _ => follows_ret fun hu => ?_) fun _ _ => rfl
  obtain rfl := Option.some.inj hu
  rw [map_renDoc_self h]

theorem bulk_follows (hρ : Function.Injective ρ) (request : BulkRequest) :
    Follows (translation u ρ) (SameFor u request.currentUser) (bulkRegistration.get request)
      (bulkRegistration.get (renBulk u ρ request)) := by
  obtain ⟨queries, asker, offset, limit⟩ := request
  simp only [bulkRegistration.get, renBulk]
  split
  · exact follows_raise fun _ => rfl
  · exact follows_raise fun _ => rfl
  · next limit offset _ _ =>
    simp only [List.map_eq_nil_iff]
    refine follows_ite (fun _ => follows_ret fun _ => rfl) fun _ =>
      follows_ite (fun _ => follows_ret fun _ => rfl) fun _ => ?_
    cases asker with
    | none => exact follows_raise fun _ => rfl
    | some user =>
      refine follows_call fun docs hd => ?_
      have hpage : ∀ d ∈ bulkPage limit.toNat docs, d.user = user := fun d h => hd d (mem_of_mem_bulkPage h)
      have hnext : (if docs.length = limit.toNat + 1 then some (offset + limit, limit) else none) =
          if (docs.map (renDoc u ρ)).length = limit.toNat + 1 then some (offset + limit, limit) else none := by
        rw [List.length_map]
      have hanswer := bulkAnswer_follows (u := u) hρ hpage queries hnext
      rw [← bulkPage_map] at hanswer
      exact hanswer

end Views

end YoutubeRecords.QueryRenaming
