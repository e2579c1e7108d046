import YoutubeRecords.BulkFetches
import YoutubeRecords.SavedVideos

namespace YoutubeRecords.BulkPaging

open CommandProgram PythonBasics Documents VideoStore VideoIngestion SearchViews IngestionPromises IngestionEffects
  QueryUniqueness SavedVideos BulkFetches

/-- A worker takes a task from the queue; the API answers and the clock shows
what is given here. -/
structure Completion where
  slot : Nat
  api : Api
  now : Nat

def Completion.work (env : Env) (c : Completion) (s : Store) : Store :=
  match s.tasks[c.slot]? with
  | none => s
  | some task =>
    (run (exec env) (fetchYoutubeData c.api task.user task.n task.query c.now)
      { s with tasks := s.tasks.eraseIdx c.slot }).2

def background (env : Env) (cs : List Completion) (s : Store) : Store := cs.foldl (fun t c => c.work env t) s

structure Visit where
  store : Store
  offset : Int
  limit : Int

def getPage (env : Env) (queries : List String) (user : String) (v : Visit) : Except Exn BulkResponse × Store :=
  run (exec env)
    (bulkRegistration.get ⟨queries, some user, some (toString v.offset), some (toString v.limit)⟩) v.store

section Walk

variable (env : Env) (queries : List String) (user : String) (limit : Nat) (sched : Nat → List Completion)
  (s : Store)

/-- The walk along the links: the tasks of `sched k` complete between the
pages `k` and `k + 1`. -/
def visit : Nat → Option Visit
  | 0 => some ⟨s, 0, limit⟩
  | k + 1 =>
    match (visit k).map (getPage env queries user) with
    | some (.ok (.page (some (offset, limit)) _), t) => some ⟨background env (sched k) t, offset, limit⟩
    | _ => none

def page (k : Nat) : List QueryDoc :=
  match (visit env queries user limit sched s k).map (getPage env queries user) with
  | some (.ok (.page _ docs), _) => docs
  | _ => []

def isLast (k : Nat) : Bool :=
  match (visit env queries user limit sched s k).map (getPage env queries user) with
  | some (.ok (.page none _), _) => true
  | _ => false

/-- Each document that matches at the start is on exactly one page. -/
def ReturnedOnce : Prop :=
  ∀ d ∈ bulkRows s queries user, ∃! k, d.query ∈ (page env queries user limit sched s k).map QueryDoc.query

/-- The task finds a document for its query and user, unless the API has
nothing for it. -/
def findsDocument (s : Store) (api : Api) (task : Task) : Bool :=
  match fetchedRecords api task.user task.n task.query with
  | .ok (some _) => isSaved s task.user task.query
  | _ => true

def tasksSaved : List Completion → Store → Bool
  | [], _ => true
  | c :: cs, s => s.tasks[c.slot]?.all (findsDocument s c.api) && tasksSaved cs (c.work env s)

/-- The tasks that complete during the walk insert no documents. -/
def WorkIsSaved : Prop :=
  ∀ k v, visit env queries user limit sched s k = some v → isLast env queries user limit sched s k = false →
    tasksSaved env (sched k) (getPage env queries user v).2 = true

end Walk

/-- One document for each query and user, and no two of the same time. -/
structure Pageable (s : Store) : Prop where
  unique : ∀ query user, (matching s.queryModel (isFor query user)).length ≤ 1
  distinct : (s.queryModel.docs.map (fun x => x.2.query_lasttime)).Nodup

abbrev SaveStamp := String × String × Nat

def stamp (d : QueryDoc) : SaveStamp := (d.user, d.query, d.query_lasttime)

def stamps (s : Store) : List SaveStamp := s.queryModel.docs.map (fun x => stamp x.2)

variable {env : Env} {queries : List String} {user : String} {limit : Nat} {sched : Nat → List Completion}
  {s t : Store}

/-- A fetch leaves the saved queries alone, or saves its videos for its query
and user. -/
theorem queryModel_fetch_cases (env : Env) (api : Api) (user : String) (n : Json) (query : String) (now : Nat)
    (s : Store) :
    (run (exec env) (fetchYoutubeData api user n query now) s).2.queryModel = s.queryModel ∨
      ∃ videos, (run (exec env) (fetchYoutubeData api user n query now) s).2.queryModel =
        savedModel s query user videos now := by
  rw [queryModel_fetch]
  split
  · next records hf =>
    obtain ⟨hq, hu⟩ := text_fetchedRecords hf
    by_cases hc : Completes env s records now query user
    · exact .inr ⟨_, by rw [run_insertIntoDatabase hc]⟩
    · refine .inl (queryModel_not_completes fun query' user' hc' => hc ?_)
      obtain rfl := Except.ok.inj (hq.symm.trans hc'.query_eq)
      obtain rfl := Except.ok.inj (hu.symm.trans hc'.user_eq)
      exact hc'
  · exact .inl rfl

theorem stamps_savedModel {query : String} (h : isSaved s user query = true) (videos : List Video) (now : Nat)
    (ht : t.queryModel = savedModel s query user videos now) : stamps t = stamps s := by
  cases hf : first s.queryModel (isFor query user) with
  | none => exact absurd (first_eq_none.mp hf) (of_decide_eq_true h)
  | some found =>
    obtain ⟨oid, doc⟩ := found
    obtain ⟨l₁, l₂, hl, hr, -⟩ := replace_first hf { doc with videos := videos }
    simp only [stamps, ht, savedModel, hf, hr, hl, List.map_append, List.map_cons, stamp]

theorem stamps_fetch {api : Api} {task : Task} (h : findsDocument s api task = true) (now : Nat) :
    stamps (run (exec env) (fetchYoutubeData api task.user task.n task.query now) s).2 = stamps s := by
  unfold findsDocument at h
  split at h
  · obtain hs | ⟨videos, hs⟩ := queryModel_fetch_cases env api task.user task.n task.query now s
    · simp only [stamps, hs]
    · exact stamps_savedModel h videos now hs
  · next hf =>
    have hs : (run (exec env) (fetchYoutubeData api task.user task.n task.query now) s).2.queryModel = _ :=
      queryModel_fetch api task.user task.n task.query now s
    split at hs
    · next records hr => exact absurd hr (hf records)
    · simp only [stamps, hs]

theorem stamps_work {c : Completion} (h : s.tasks[c.slot]?.all (findsDocument s c.api) = true) :
    stamps (c.work env s) = stamps s := by
  unfold Completion.work
  cases htask : s.tasks[c.slot]? with
  | none => rfl
  | some task =>
    rw [htask] at h
    exact stamps_fetch (s := { s with tasks := s.tasks.eraseIdx c.slot }) h c.now

theorem stamps_background {cs : List Completion} (h : tasksSaved env cs s = true) :
    stamps (background env cs s) = stamps s := by
  induction cs generalizing s with
  | nil => rfl
  | cons c cs ih =>
    obtain ⟨hc, hcs⟩ := Bool.and_eq_true_iff.mp h
    exact (ih hcs).trans (stamps_work hc)

def rowStamps (stamps : List SaveStamp) (queries : List String) (user : String) : List SaveStamp :=
  (stamps.filter (fun x => decide (x.2.1 ∈ queries ∧ x.1 = user))).insertionSort (fun a b => b.2.2 ≤ a.2.2)

theorem stamp_bulkRows (s : Store) (queries : List String) (user : String) :
    (bulkRows s queries user).map stamp = rowStamps (stamps s) queries user := by
  have hm : (matching s.queryModel (fun d => decide (d.query ∈ queries ∧ d.user = user))).map stamp =
      (stamps s).filter (fun x => decide (x.2.1 ∈ queries ∧ x.1 = user)) := by
    simp only [matching, stamps, List.filter_map, List.map_map]
    rfl
  rw [bulkRows, rowStamps, ← hm]
  exact List.map_insertionSort _ _ _ _ fun _ _ _ _ => Iff.rfl

def rowQueries (s : Store) (queries : List String) (user : String) : List String :=
  (bulkRows s queries user).map QueryDoc.query

theorem rowQueries_congr (h : stamps t = stamps s) (queries : List String) (user : String) :
    rowQueries t queries user = rowQueries s queries user := by
  have hr : ∀ s, rowQueries s queries user = (rowStamps (stamps s) queries user).map (fun x => x.2.1) := by
    intro s
    rw [← stamp_bulkRows, List.map_map]
    rfl
  rw [hr, hr, h]

theorem nodup_rowQueries (h : Pageable s) : (rowQueries s queries user).Nodup := by
  have hp : (rowQueries s queries user).Perm
      ((matching s.queryModel (fun d => decide (d.query ∈ queries ∧ d.user = user))).map QueryDoc.query) :=
    (List.perm_insertionSort _ _).map _
  rw [hp.nodup_iff, List.nodup_iff_count_le_one]
  intro query
  refine le_trans ?_ (h.unique query user)
  simp only [List.count, matching, List.countP_map, List.countP_filter, ← List.countP_eq_length_filter]
  apply List.countP_mono_left
  intro d _ hd
  simp only [Function.comp_apply, Bool.and_eq_true, beq_iff_eq, decide_eq_true_eq] at hd
  exact decide_eq_true ⟨hd.1, hd.2.2⟩

theorem getPage_eq (env : Env) (hq : queries ≠ []) (user : String) (s : Store) (offset limit : Nat) :
    ∃ tasks, getPage env queries user ⟨s, (offset : Int), (limit : Int)⟩ =
      (.ok (.page (if offset + limit < (rowQueries s queries user).length then
        some (((offset + limit : Nat) : Int), (limit : Int)) else none) (served s queries user offset limit)),
        { s with tasks := tasks }) := by
  have ho : intOf ((some (toString (offset : Int))).getD "0") = .ok (offset : Int) := by
    rw [Option.getD_some, intOf, int_toString]
  have hl : intOf ((some (toString (limit : Int))).getD "1") = .ok (limit : Int) := by
    rw [Option.getD_some, intOf, int_toString]
  let request : BulkRequest := ⟨queries, some user, some (toString (offset : Int)), some (toString (limit : Int))⟩
  have hqueries : request.queries ≠ [] := hq
  have hrun := run_bulk env hqueries rfl ho hl s
  rw [getPage, hrun]
  simp only [rowQueries, List.length_map, Int.natCast_add, request]
  exact ⟨_, rfl⟩

section Pages

variable {k offset : Nat}

theorem visit_next (hq : queries ≠ [])
    (hv : visit env queries user limit sched s k = some ⟨t, (offset : Int), (limit : Int)⟩)
    (hn : offset + limit < (rowQueries t queries user).length) :
    isLast env queries user limit sched s k = false ∧
      ∃ tasks, (getPage env queries user ⟨t, (offset : Int), (limit : Int)⟩).2 = { t with tasks := tasks } ∧
        visit env queries user limit sched s (k + 1) =
          some ⟨background env (sched k) { t with tasks := tasks }, ((offset + limit : Nat) : Int),
            (limit : Int)⟩ := by
  obtain ⟨tasks, hpage⟩ := getPage_eq env hq user t offset limit
  rw [if_pos hn] at hpage
  refine ⟨?_, tasks, by rw [hpage], ?_⟩
  · simp only [isLast, hv, Option.map_some, hpage]
  · simp only [visit, hv, Option.map_some, hpage]

theorem visit_stop (hq : queries ≠ [])
    (hv : visit env queries user limit sched s k = some ⟨t, (offset : Int), (limit : Int)⟩)
    (hn : ¬ offset + limit < (rowQueries t queries user).length) :
    isLast env queries user limit sched s k = true ∧ visit env queries user limit sched s (k + 1) = none := by
  obtain ⟨tasks, hpage⟩ := getPage_eq env hq user t offset limit
  rw [if_neg hn] at hpage
  constructor
  · simp only [isLast, hv, Option.map_some, hpage]
  · simp only [visit, hv, Option.map_some, hpage]

theorem page_queries (hq : queries ≠ [])
    (hv : visit env queries user limit sched s k = some ⟨t, (offset : Int), (limit : Int)⟩) :
    (page env queries user limit sched s k).map QueryDoc.query =
      ((rowQueries t queries user).drop offset).take limit := by
  obtain ⟨tasks, hpage⟩ := getPage_eq env hq user t offset limit
  simp only [page, hv, Option.map_some, hpage, served, rowQueries, List.map_take, List.map_drop]

theorem visit_eq (hq : queries ≠ []) (h : WorkIsSaved env queries user limit sched s)
    (hk : k = 0 ∨ k * limit < (rowQueries s queries user).length) :
    ∃ t, visit env queries user limit sched s k = some ⟨t, ((k * limit : Nat) : Int), (limit : Int)⟩ ∧
      stamps t = stamps s := by
  induction k with
  | zero => exact ⟨s, by simp [visit], rfl⟩
  | succ k ih =>
    have hlt : k * limit + limit < (rowQueries s queries user).length := by
      rw [← Nat.succ_mul]
      exact hk.resolve_left (Nat.succ_ne_zero k)
    obtain ⟨t, hv, ht⟩ := ih (.inr (by omega))
    rw [← rowQueries_congr ht] at hlt
    obtain ⟨hlast, tasks, hstore, hnext⟩ := visit_next hq hv hlt
    have hsaved := h k _ hv hlast
    rw [hstore] at hsaved
    rw [Nat.succ_mul]
    exact ⟨_, hnext, (stamps_background hsaved).trans ht⟩

theorem visit_none (hq : queries ≠ []) (h : WorkIsSaved env queries user limit sched s)
    (hk : (rowQueries s queries user).length ≤ (k + 1) * limit) :
    visit env queries user limit sched s (k + 1) = none := by
  induction k with
  | zero =>
    obtain ⟨t, hv, ht⟩ := visit_eq (k := 0) hq h (.inl rfl)
    refine (visit_stop hq hv ?_).2
    rw [rowQueries_congr ht]
    omega
  | succ k ih =>
    by_cases hlt : (k + 1) * limit < (rowQueries s queries user).length
    · obtain ⟨t, hv, ht⟩ := visit_eq hq h (.inr hlt)
      refine (visit_stop hq hv ?_).2
      rw [rowQueries_congr ht, ← Nat.succ_mul]
      exact Nat.not_lt.mpr hk
    · rw [visit, ih (by omega)]
      rfl

/-- A list without repetitions, cut into windows of one size, has each of its
elements in exactly one of them. -/
theorem existsUnique_window {α : Type} {l : List α} (hl : l.Nodup) {a : α} (ha : a ∈ l) (hpos : 0 < limit) :
    ∃! k, a ∈ (l.drop (k * limit)).take limit := by
  have hmem : ∀ k, a ∈ (l.drop (k * limit)).take limit ↔ ∃ i < limit, l[k * limit + i]? = some a := by
    intro k
    simp only [List.mem_iff_getElem?, List.getElem?_take, List.getElem?_drop]
    constructor
    · rintro ⟨i, hi⟩
      by_cases hlt : i < limit
      · exact ⟨i, hlt, by rwa [if_pos hlt] at hi⟩
      · rw [if_neg hlt] at hi
        cases hi
    · rintro ⟨i, hlt, hi⟩
      exact ⟨i, by rwa [if_pos hlt]⟩
  obtain ⟨j, hj⟩ := List.mem_iff_getElem?.mp ha
  refine ⟨j / limit, (hmem _).mpr ⟨j % limit, Nat.mod_lt j hpos, ?_⟩, fun k hk => ?_⟩
  · rwa [Nat.mul_comm, Nat.div_add_mod]
  · obtain ⟨i, hi, hget⟩ := (hmem k).mp hk
    have hlen : j < l.length := (List.getElem?_eq_some_iff.mp hj).1
    obtain rfl : j = k * limit + i := (List.getElem?_inj hlen hl).mp (hj.trans hget.symm)
    rw [Nat.mul_comm, Nat.mul_add_div hpos, Nat.div_eq_of_lt hi, Nat.add_zero]

theorem exists_last_window (n : Nat) (hpos : 0 < limit) : ∃ k, (k = 0 ∨ k * limit < n) ∧ n ≤ k * limit + limit := by
  refine ⟨(n - 1) / limit, ?_, ?_⟩
  · cases n with
    | zero => exact .inl (Nat.zero_div limit)
    | succ n => exact .inr (Nat.lt_succ_of_le (Nat.div_mul_le_self n limit))
  · have hlt := Nat.lt_mul_div_succ (n - 1) hpos
    rw [Nat.mul_comm, Nat.succ_mul] at hlt
    omega

end Pages

/-- While only tasks for saved queries complete during a walk, the walk ends
and returns each document once. -/
theorem walk_returns_once (hq : queries ≠ []) (hl : 1 ≤ limit) (hs : Pageable s)
    (hsaved : WorkIsSaved env queries user limit sched s) :
    (∃ k, isLast env queries user limit sched s k = true) ∧ ReturnedOnce env queries user limit sched s := by
  have hpage : ∀ k, (page env queries user limit sched s k).map QueryDoc.query =
      ((rowQueries s queries user).drop (k * limit)).take limit := by
    intro k
    by_cases hk : k = 0 ∨ k * limit < (rowQueries s queries user).length
    · obtain ⟨t, hv, ht⟩ := visit_eq hq hsaved hk
      rw [page_queries hq hv, rowQueries_congr ht]
    · obtain ⟨hne, hle⟩ := not_or.mp hk
      obtain ⟨j, rfl⟩ := Nat.exists_eq_succ_of_ne_zero hne
      rw [page, visit_none hq hsaved (Nat.not_lt.mp hle), List.drop_eq_nil_of_le (Nat.not_lt.mp hle),
        List.take_nil]
      rfl
  constructor
  · obtain ⟨k, hk, hle⟩ := exists_last_window (rowQueries s queries user).length hl
    obtain ⟨t, hv, ht⟩ := visit_eq hq hsaved hk
    refine ⟨k, (visit_stop hq hv ?_).1⟩
    rw [rowQueries_congr ht]
    exact Nat.not_lt.mpr hle
  · intro d hd
    simp only [hpage]
    exact existsUnique_window (nodup_rowQueries hs) (List.mem_map_of_mem hd) hl

section ThreeQueries

def threeQueries : List String := ["django videos", "celery videos", "flask videos"]

/-- After the first page, the task in this slot of the queue completes. -/
def afterFirstPage (slot : Nat) : Nat → List Completion
  | 0 => [⟨slot, oneVideo, 3⟩]
  | _ + 1 => []

theorem twoSaved_docs : twoSaved.queryModel.docs =
    [(0, savedQuery "celery videos" 1), (1, savedQuery "django videos" 2)] := rfl

theorem twoSaved_pageable : Pageable twoSaved := by
  constructor
  · intro query user
    simp only [matching, twoSaved_docs, List.map_cons, List.map_nil, List.filter_cons, List.filter_nil, isFor,
      savedQuery, decide_eq_true_eq]
    split
    · next h =>
      have hne : "django videos" ≠ query := by
        rw [← h.1]
        decide
      simp [hne]
    · split <;> simp
  · rw [twoSaved_docs]
    decide

theorem flask_checks :
    ((page acceptAll threeQueries "user@example.com" 1 (afterFirstPage 1) twoSaved 0).map QueryDoc.query =
      ["django videos"] ∧
    (page acceptAll threeQueries "user@example.com" 1 (afterFirstPage 1) twoSaved 1).map QueryDoc.query =
      ["django videos"]) ∧
    isLast acceptAll threeQueries "user@example.com" 1 (afterFirstPage 1) twoSaved 2 = true := by
  decide +kernel

theorem bulk_page_repeats : ¬ ∀ (env : Env) (queries : List String) (user : String) (limit : Nat)
    (sched : Nat → List Completion) (s : Store), queries ≠ [] → 1 ≤ limit → Pageable s →
    (∃ k, isLast env queries user limit sched s k = true) → ReturnedOnce env queries user limit sched s := by
  intro hall
  obtain ⟨⟨hfirst, hsecond⟩, hlast⟩ := flask_checks
  have hd : savedQuery "django videos" 2 ∈ bulkRows twoSaved threeQueries "user@example.com" :=
    mem_bulkRows.mpr ⟨⟨1, by simp [twoSaved_docs]⟩, by decide, rfl⟩
  obtain ⟨k, -, hk⟩ := hall acceptAll threeQueries "user@example.com" 1 (afterFirstPage 1) twoSaved (by decide)
    le_rfl twoSaved_pageable ⟨2, hlast⟩ _ hd
  have h0 := hk 0 (by simp only [hfirst]; decide)
  have h1 := hk 1 (by simp only [hsecond]; decide)
  omega

theorem celery_saved : tasksSaved acceptAll (afterFirstPage 0 0)
    (getPage acceptAll threeQueries "user@example.com" ⟨twoSaved, 0, 1⟩).2 = true := by
  decide +kernel

theorem returned_once_rewritten :
    (∃ k, isLast acceptAll threeQueries "user@example.com" 1 (afterFirstPage 0) twoSaved k = true) ∧
      ReturnedOnce acceptAll threeQueries "user@example.com" 1 (afterFirstPage 0) twoSaved := by
  refine walk_returns_once (by decide) le_rfl twoSaved_pageable ?_
  intro k v hv _
  cases k with
  | zero =>
    obtain rfl := Option.some.inj hv
    exact celery_saved
  | succ k => rfl

end ThreeQueries

end YoutubeRecords.BulkPaging
