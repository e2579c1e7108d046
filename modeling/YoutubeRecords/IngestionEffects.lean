import YoutubeRecords.IngestionPromises

namespace YoutubeRecords.IngestionEffects

open CommandProgram PythonBasics Documents OrderedDict VideoStore VideoIngestion IngestionPromises

def stored (s : Store) (id : String) (fields : VideoFields) (body : Indexed) : Store :=
  { s with
    youtubeData := Function.update s.youtubeData id (some fields)
    youtubevideos := Function.update s.youtubevideos id (some body) }

def ingestItem (s : Store) (x : String × Value) : Store :=
  if skipped x.1 then s
  else match s.youtubeData x.1, videoFields x.2, indexed x.2 with
    | none, .ok fields, some body => stored s x.1 fields body
    | _, _, _ => s

def ingested (s : Store) (items : List (String × Value)) : Store := items.foldl ingestItem s

def existing (s : Store) (items : List (String × Value)) : List Video :=
  (videoItems items).filterMap (fun x => (s.youtubeData x.1).map (fun fields => ⟨x.1, fields⟩))

def fresh (s : Store) (items : List (String × Value)) : List Video :=
  (videoItems items).filterMap (fun x =>
    match s.youtubeData x.1, videoFields x.2 with
    | none, .ok fields => some ⟨x.1, fields⟩
    | _, _ => none)

/-- Each item that is not there yet has all its fields and passes validation. -/
def Ingestible (env : Env) (s : Store) (items : List (String × Value)) : Prop :=
  ∀ x ∈ videoItems items, s.youtubeData x.1 = none →
    ∃ fields, videoFields x.2 = .ok fields ∧ env.acceptsVideo ⟨x.1, fields⟩ = true

variable {env : Env} {s : Store} {key : String} {value : Value} {rest : List (String × Value)}
  {complete new : List Video}

theorem run_insertVideos_skip (h : skipped key = true) :
    run (exec env) (insertVideos ((key, value) :: rest) complete new) s =
      run (exec env) (insertVideos rest complete new) s := by
  rw [insertVideos, if_pos h]

theorem run_insertVideos_found (h : skipped key = false) {fields : VideoFields}
    (hf : s.youtubeData key = some fields) :
    run (exec env) (insertVideos ((key, value) :: rest) complete new) s =
      run (exec env) (insertVideos rest (complete ++ [⟨key, fields⟩]) new) s := by
  have he : exec env (.findVideo key) s = (some fields, s) := by rw [exec, hf]
  rw [insertVideos, if_neg (by simp [h])]
  simp only [ask, perform_bind, run_call, he]

theorem run_insertNewVideo_ok {fields : VideoFields} {body : Indexed} (hv : videoFields value = .ok fields)
    (hb : indexed value = some body) (ha : env.acceptsVideo ⟨key, fields⟩ = true) :
    run (exec env) (insertNewVideo key value) s = (.ok ⟨key, fields⟩, stored s key fields body) := by
  obtain ⟨body', hb', hi⟩ := indexed_of_videoFields hv
  rw [hb] at hb'
  obtain rfl := Option.some.inj hb'
  simp [insertNewVideo, hv, hi, ask, exec, ha, stored]

theorem run_insertNewVideo_error (h : ∀ fields, videoFields value = .ok fields →
    env.acceptsVideo ⟨key, fields⟩ = false) :
    ∃ e, run (exec env) (insertNewVideo key value) s = (.error e, s) := by
  unfold insertNewVideo
  cases hv : videoFields value with
  | error e => exact ⟨e, rfl⟩
  | ok fields =>
    refine ⟨.validationError, ?_⟩
    simp [ask, exec, h fields hv]

theorem run_insertVideos_missing (h : skipped key = false) (hf : s.youtubeData key = none) :
    run (exec env) (insertVideos ((key, value) :: rest) complete new) s =
      run (exec env) (insertNewVideo key value >>= fun video =>
        insertVideos rest complete (new ++ [video])) s := by
  have he : exec env (.findVideo key) s = (none, s) := by rw [exec, hf]
  rw [insertVideos, if_neg (by simp [h])]
  simp only [ask, perform_bind, run_call, he]

section Agree

variable {t : Store} {items : List (String × Value)}

theorem mem_of_mem_videoItems {x : String × Value} (h : x ∈ videoItems items) : x ∈ items :=
  List.mem_of_mem_filter h

theorem existing_congr (h : ∀ x ∈ items, s.youtubeData x.1 = t.youtubeData x.1) :
    existing s items = existing t items := by
  apply List.filterMap_congr
  intro x hx
  rw [h x (mem_of_mem_videoItems hx)]

theorem fresh_congr (h : ∀ x ∈ items, s.youtubeData x.1 = t.youtubeData x.1) :
    fresh s items = fresh t items := by
  apply List.filterMap_congr
  intro x hx
  rw [h x (mem_of_mem_videoItems hx)]

theorem ingestible_congr (h : ∀ x ∈ items, s.youtubeData x.1 = t.youtubeData x.1) :
    Ingestible env s items ↔ Ingestible env t items := by
  have key : ∀ {s t : Store}, (∀ x ∈ items, s.youtubeData x.1 = t.youtubeData x.1) →
      Ingestible env s items → Ingestible env t items := by
    intro s t h hi x hx hn
    exact hi x hx ((h x (mem_of_mem_videoItems hx)).trans hn)
  exact ⟨key h, key fun x hx => (h x hx).symm⟩

theorem stored_agrees (s : Store) (fields : VideoFields) (body : Indexed) (h : key ∉ items.map Prod.fst) :
    ∀ x ∈ items, s.youtubeData x.1 = (stored s key fields body).youtubeData x.1 := by
  intro x hx
  have hne : x.1 ≠ key := fun he => h (he ▸ List.mem_map_of_mem hx)
  simp [stored, hne]

end Agree

theorem videoItems_skip (h : skipped key = true) : videoItems ((key, value) :: rest) = videoItems rest := by
  simp [videoItems, h]

theorem videoItems_cons (h : skipped key = false) :
    videoItems ((key, value) :: rest) = (key, value) :: videoItems rest := by
  simp [videoItems, h]

/-- The whole loop, when nothing stands in its way. -/
theorem run_insertVideos {items : List (String × Value)} (hn : (items.map Prod.fst).Nodup)
    (h : Ingestible env s items) (complete new : List Video) :
    run (exec env) (insertVideos items complete new) s =
      (.ok (complete ++ existing s items ++ (new ++ fresh s items)), ingested s items) := by
  induction items generalizing s complete new with
  | nil => simp [insertVideos, existing, fresh, ingested, videoItems]
  | cons x rest ih =>
    obtain ⟨key, value⟩ := x
    obtain ⟨hkey, hn⟩ := List.nodup_cons.mp hn
    cases hk : skipped key with
    | true =>
      have hi : ingested s ((key, value) :: rest) = ingested s rest := by simp [ingested, ingestItem, hk]
      have he : existing s ((key, value) :: rest) = existing s rest := by simp [existing, videoItems_skip hk]
      have hr : fresh s ((key, value) :: rest) = fresh s rest := by simp [fresh, videoItems_skip hk]
      rw [Ingestible, videoItems_skip hk] at h
      rw [run_insertVideos_skip hk, ih hn h, hi, he, hr]
    | false =>
      rw [Ingestible, videoItems_cons hk] at h
      obtain ⟨hx, h⟩ := List.forall_mem_cons.mp h
      cases hf : s.youtubeData key with
      | some fields =>
        have hi : ingested s ((key, value) :: rest) = ingested s rest := by
          simp [ingested, ingestItem, hk, hf]
        have he : existing s ((key, value) :: rest) = ⟨key, fields⟩ :: existing s rest := by
          simp [existing, videoItems_cons hk, hf]
        have hr : fresh s ((key, value) :: rest) = fresh s rest := by
          simp [fresh, videoItems_cons hk, hf]
        rw [run_insertVideos_found hk hf, ih hn h, hi, he, hr]
        simp
      | none =>
        obtain ⟨fields, hv, ha⟩ := hx hf
        obtain ⟨body, hb, -⟩ := indexed_of_videoFields hv
        have hagree := stored_agrees s fields body hkey
        have hi : ingested s ((key, value) :: rest) = ingested (stored s key fields body) rest := by
          simp [ingested, ingestItem, hk, hf, hv, hb]
        have he : existing s ((key, value) :: rest) = existing (stored s key fields body) rest := by
          rw [← existing_congr hagree]
          simp [existing, videoItems_cons hk, hf]
        have hr : fresh s ((key, value) :: rest) =
            ⟨key, fields⟩ :: fresh (stored s key fields body) rest := by
          rw [← fresh_congr hagree]
          simp [fresh, videoItems_cons hk, hf, hv]
        rw [run_insertVideos_missing hk hf, run_bind_ok _ (run_insertNewVideo_ok hv hb ha),
          ih hn ((ingestible_congr hagree).mp h), hi, he, hr]
        simp

/-- Otherwise the loop raises before any saved query is touched. -/
theorem run_insertVideos_error {items : List (String × Value)} (hn : (items.map Prod.fst).Nodup)
    (h : ¬ Ingestible env s items) (complete new : List Video) :
    ∃ e t, run (exec env) (insertVideos items complete new) s = (.error e, t) ∧
      t.queryModel = s.queryModel := by
  induction items generalizing s complete new with
  | nil => exact absurd (by simp [Ingestible, videoItems]) h
  | cons x rest ih =>
    obtain ⟨key, value⟩ := x
    obtain ⟨hkey, hn⟩ := List.nodup_cons.mp hn
    cases hk : skipped key with
    | true =>
      rw [Ingestible, videoItems_skip hk] at h
      rw [run_insertVideos_skip hk]
      exact ih hn h complete new
    | false =>
      rw [Ingestible, videoItems_cons hk, List.forall_mem_cons, not_and] at h
      cases hf : s.youtubeData key with
      | some fields =>
        rw [run_insertVideos_found hk hf]
        exact ih hn (h fun hnone => absurd (hf.symm.trans hnone) (by simp)) _ _
      | none =>
        rw [run_insertVideos_missing hk hf]
        by_cases hx : ∃ fields, videoFields value = .ok fields ∧ env.acceptsVideo ⟨key, fields⟩ = true
        · obtain ⟨fields, hv, ha⟩ := hx
          obtain ⟨body, hb, -⟩ := indexed_of_videoFields hv
          have hagree := stored_agrees s fields body hkey
          rw [run_bind_ok _ (run_insertNewVideo_ok hv hb ha)]
          have hrest : ¬ Ingestible env (stored s key fields body) rest := fun hi =>
            h (fun _ => ⟨fields, hv, ha⟩) ((ingestible_congr hagree).mpr hi)
          exact ih hn hrest complete _
        · have herr : ∀ fields, videoFields value = .ok fields → env.acceptsVideo ⟨key, fields⟩ = false := by
            intro fields hv
            by_contra ha
            exact hx ⟨fields, hv, by simpa using ha⟩
          obtain ⟨e, he⟩ := run_insertNewVideo_error (s := s) herr
          exact ⟨e, s, run_bind_error _ he, rfl⟩

theorem ingestItem_cases (s : Store) (x : String × Value) :
    ingestItem s x = s ∨ ∃ fields body, skipped x.1 = false ∧ s.youtubeData x.1 = none ∧
      videoFields x.2 = .ok fields ∧ indexed x.2 = some body ∧ ingestItem s x = stored s x.1 fields body := by
  unfold ingestItem
  split
  · exact .inl rfl
  · next hk =>
    split
    · next fields body hn hv hb => exact .inr ⟨fields, body, by simpa using hk, hn, hv, hb, rfl⟩
    · exact .inl rfl

theorem queryModel_ingested (s : Store) (items : List (String × Value)) :
    (ingested s items).queryModel = s.queryModel := by
  induction items generalizing s with
  | nil => rfl
  | cons x items ih =>
    have hx : (ingestItem s x).queryModel = s.queryModel := by
      obtain he | ⟨fields, body, -, -, -, -, he⟩ := ingestItem_cases s x
      · rw [he]
      · rw [he]
        rfl
    exact (ih (ingestItem s x)).trans hx

/-- A video that is there stays as it is, in both stores. -/
theorem ingested_of_some {fields : VideoFields} (items : List (String × Value))
    (h : s.youtubeData key = some fields) :
    (ingested s items).youtubeData key = some fields ∧
      (ingested s items).youtubevideos key = s.youtubevideos key := by
  induction items generalizing s with
  | nil => exact ⟨h, rfl⟩
  | cons x items ih =>
    obtain he | ⟨f, body, -, hn, -, -, he⟩ := ingestItem_cases s x
    · have hs : ingested s (x :: items) = ingested s items := congrArg (List.foldl ingestItem · items) he
      rw [hs]
      exact ih h
    · have hne : key ≠ x.1 := by
        rintro rfl
        rw [h] at hn
        cases hn
      have hs : ingested s (x :: items) = ingested (stored s x.1 f body) items :=
        congrArg (List.foldl ingestItem · items) he
      have hy : (stored s x.1 f body).youtubeData key = some fields := by simpa [stored, hne] using h
      have he' : (stored s x.1 f body).youtubevideos key = s.youtubevideos key := by simp [stored, hne]
      rw [hs]
      exact ⟨(ih hy).1, (ih hy).2.trans he'⟩

theorem youtubeData_ingested {fields : VideoFields} {items : List (String × Value)}
    (h : (ingested s items).youtubeData key = some fields) :
    s.youtubeData key = some fields ∨ ∃ value, (key, value) ∈ videoItems items ∧ videoFields value = .ok fields := by
  induction items generalizing s with
  | nil => exact .inl h
  | cons x items ih =>
    obtain hs | ⟨value, hm, hv⟩ := ih (s := ingestItem s x) h
    · obtain he | ⟨f, body, hk, -, hf, -, he⟩ := ingestItem_cases s x
      · rw [he] at hs
        exact .inl hs
      · rw [he] at hs
        by_cases hx : key = x.1
        · subst hx
          obtain rfl : f = fields := by simpa [stored] using hs
          exact .inr ⟨x.2, List.mem_filter.mpr ⟨List.mem_cons_self, by simp [hk]⟩, hf⟩
        · exact .inl (by simpa [stored, hx] using hs)
    · obtain ⟨hm, hk⟩ := List.mem_filter.mp hm
      exact .inr ⟨value, List.mem_filter.mpr ⟨List.mem_cons_of_mem x hm, hk⟩, hv⟩

/-- A video that was missing is in both stores afterwards. -/
theorem ingested_of_none {items : List (String × Value)} (hi : Ingestible env s items)
    {x : String × Value} (hx : x ∈ videoItems items) (hn : s.youtubeData x.1 = none)
    (hnodup : (items.map Prod.fst).Nodup) :
    (ingested s items).youtubeData x.1 ≠ none ∧ (ingested s items).youtubevideos x.1 ≠ none := by
  induction items generalizing s with
  | nil => cases hx
  | cons y items ih =>
    obtain ⟨hy, hnodup⟩ := List.nodup_cons.mp hnodup
    by_cases hxy : x = y
    · subst hxy
      have hk : skipped x.1 = false := by simpa using (List.mem_filter.mp hx).2
      obtain ⟨fields, hv, -⟩ := hi x hx hn
      obtain ⟨body, hb, -⟩ := indexed_of_videoFields hv
      have hs : ingested s (x :: items) = ingested (stored s x.1 fields body) items := by
        simp [ingested, ingestItem, hk, hn, hv, hb]
      have hself : (stored s x.1 fields body).youtubeData x.1 = some fields := by simp [stored]
      obtain ⟨h1, h2⟩ := ingested_of_some items hself
      rw [hs, h1, h2]
      simp [stored]
    · have hx' : x ∈ videoItems items := by
        have hm : x ∈ y :: items := mem_of_mem_videoItems hx
        have hk := (List.mem_filter.mp hx).2
        exact List.mem_filter.mpr ⟨(List.mem_cons.mp hm).resolve_left hxy, hk⟩
      have hne : x.1 ≠ y.1 := fun he => hy (he ▸ List.mem_map_of_mem (mem_of_mem_videoItems hx'))
      have hs : ingested s (y :: items) = ingested (ingestItem s y) items := rfl
      have hagree : ∀ z ∈ items, s.youtubeData z.1 = (ingestItem s y).youtubeData z.1 := by
        obtain he | ⟨fields, body, -, -, -, -, he⟩ := ingestItem_cases s y
        · rw [he]
          exact fun _ _ => rfl
        · rw [he]
          exact stored_agrees s fields body hy
      have hi' : Ingestible env s items := by
        intro z hz
        refine hi z (List.mem_filter.mpr ⟨List.mem_cons_of_mem y (mem_of_mem_videoItems hz), ?_⟩)
        exact (List.mem_filter.mp hz).2
      rw [hs]
      refine ih ((ingestible_congr hagree).mp hi') hx' ?_ hnodup
      rw [← hagree x (mem_of_mem_videoItems hx')]
      exact hn

def collected (s : Store) (records : Dict Value) : List Video :=
  existing s records.items ++ fresh s records.items

def savedDoc (s : Store) (query user : String) (videos : List Video) (now : Nat) : QueryDoc :=
  match first s.queryModel (isFor query user) with
  | some (_, doc) => { doc with videos := videos }
  | none => ⟨user, query, videos, now⟩

def savedModel (s : Store) (query user : String) (videos : List Video) (now : Nat) : Collection QueryDoc :=
  match first s.queryModel (isFor query user) with
  | some (oid, doc) => replace s.queryModel oid { doc with videos := videos }
  | none => insert s.queryModel ⟨user, query, videos, now⟩

theorem run_saveQuery (s : Store) (query user : String) (videos : List Video) (now : Nat) :
    run (exec env) (saveQuery query user videos now) s =
      if env.acceptsQuery (savedDoc s query user videos now) then
        (.ok (), { s with queryModel := savedModel s query user videos now })
      else (.error .validationError, s) := by
  have hf : exec env (.findQuery query user) s = (first s.queryModel (isFor query user), s) := rfl
  simp only [saveQuery, ask, perform_bind, run_call, hf]
  cases h : first s.queryModel (isFor query user) with
  | none =>
    by_cases ha : env.acceptsQuery ⟨user, query, videos, now⟩
    · simp [exec, savedDoc, savedModel, h, ha]
    · simp [exec, savedDoc, h, ha]
  | some found =>
    obtain ⟨oid, doc⟩ := found
    by_cases ha : env.acceptsQuery { doc with videos := videos }
    · simp [exec, savedDoc, savedModel, h, ha]
    · simp [exec, savedDoc, h, ha]

/-- The insertion of these records gets as far as its last write. -/
structure Completes (env : Env) (s : Store) (records : Dict Value) (now : Nat) (query user : String) :
    Prop where
  query_eq : text records "query" = .ok query
  user_eq : text records "user" = .ok user
  ingestible : Ingestible env s records.items
  accepted : env.acceptsQuery (savedDoc s query user (collected s records) now) = true

theorem run_insertIntoDatabase {records : Dict Value} {now : Nat} {query user : String}
    (h : Completes env s records now query user) :
    run (exec env) (insertIntoDatabase records now) s =
      (.ok (), { ingested s records.items with
        queryModel := savedModel s query user (collected s records) now }) := by
  have hd : savedDoc (ingested s records.items) query user (collected s records) now =
      savedDoc s query user (collected s records) now := by
    simp only [savedDoc, queryModel_ingested]
  have hm : savedModel (ingested s records.items) query user (collected s records) now =
      savedModel s query user (collected s records) now := by
    simp only [savedModel, queryModel_ingested]
  have hv := run_insertVideos records.nodup h.ingestible [] []
  rw [List.nil_append, List.nil_append] at hv
  unfold insertIntoDatabase
  rw [run_bind_ok _ hv]
  simp only [h.query_eq, h.user_eq]
  change run (exec env) (saveQuery query user (collected s records) now) _ = _
  rw [run_saveQuery, hd, if_pos h.accepted, hm]

theorem run_insertIntoDatabase_error {records : Dict Value} {now : Nat}
    (h : ∀ query user, ¬ Completes env s records now query user) :
    ∃ e t, run (exec env) (insertIntoDatabase records now) s = (.error e, t) ∧
      t.queryModel = s.queryModel := by
  unfold insertIntoDatabase
  by_cases hi : Ingestible env s records.items
  · have hv := run_insertVideos records.nodup hi [] []
    rw [List.nil_append, List.nil_append] at hv
    rw [run_bind_ok _ hv]
    cases hq : text records "query" with
    | error e => exact ⟨e, _, rfl, queryModel_ingested s _⟩
    | ok query =>
      cases hu : text records "user" with
      | error e => exact ⟨e, _, rfl, queryModel_ingested s _⟩
      | ok user =>
        have hd : savedDoc (ingested s records.items) query user (collected s records) now =
            savedDoc s query user (collected s records) now := by
          simp only [savedDoc, queryModel_ingested]
        have ha : ¬ env.acceptsQuery (savedDoc s query user (collected s records) now) = true :=
          fun ha => h query user ⟨hq, hu, hi, ha⟩
        refine ⟨.validationError, ingested s records.items, ?_, queryModel_ingested s _⟩
        change run (exec env) (saveQuery query user (collected s records) now) _ = _
        rw [run_saveQuery, hd, if_neg ha]
  · obtain ⟨e, t, hr, ht⟩ := run_insertVideos_error records.nodup hi [] []
    exact ⟨e, t, run_bind_error _ hr, ht⟩

theorem completes_of_isOk {records : Dict Value} {now : Nat}
    (h : (run (exec env) (insertIntoDatabase records now) s).1.isOk = true) :
    ∃ query user, Completes env s records now query user := by
  by_contra hn
  obtain ⟨e, t, hrun, -⟩ := run_insertIntoDatabase_error fun query user hc => hn ⟨query, user, hc⟩
  rw [hrun] at h
  cases h

/-- The videos that were there stand before the new ones, both in the order of
the items. -/
theorem ids_collected {records : Dict Value} (h : Ingestible env s records.items) :
    (collected s records).map Video.video_id =
      ((videoItems records.items).map Prod.fst).filter (fun id => (s.youtubeData id).isSome) ++
      ((videoItems records.items).map Prod.fst).filter (fun id => !(s.youtubeData id).isSome) := by
  unfold Ingestible at h
  rw [collected, existing, fresh, List.map_append]
  generalize videoItems records.items = l at h
  congr 1
  · induction l with
    | nil => rfl
    | cons x l ih =>
      obtain ⟨-, h⟩ := List.forall_mem_cons.mp h
      cases hf : s.youtubeData x.1 with
      | some fields => simpa [hf] using ih h
      | none => simpa [hf] using ih h
  · induction l with
    | nil => rfl
    | cons x l ih =>
      obtain ⟨hx, h⟩ := List.forall_mem_cons.mp h
      cases hf : s.youtubeData x.1 with
      | some fields => simpa [hf] using ih h
      | none =>
        obtain ⟨fields, hv, -⟩ := hx hf
        simpa [hf, hv] using ih h

theorem perm_collected_ids {records : Dict Value} (h : Ingestible env s records.items) :
    ((collected s records).map Video.video_id).Perm ((videoItems records.items).map Prod.fst) := by
  rw [ids_collected h]
  exact List.filter_append_perm _ _

theorem mem_collected_ids {records : Dict Value} (h : Ingestible env s records.items) {id : String} :
    id ∈ (collected s records).map Video.video_id ↔ id ∈ (videoItems records.items).map Prod.fst :=
  (perm_collected_ids h).mem_iff

end YoutubeRecords.IngestionEffects
