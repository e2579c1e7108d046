import Mathlib.Data.List.Dedup
import Mathlib.Data.List.Perm.Basic
import YoutubeRecords.SearchViews

namespace YoutubeRecords.BulkFetches

open CommandProgram PythonBasics Documents VideoStore VideoIngestion SearchViews

def bulkRows (s : Store) (queries : List String) (user : String) : List QueryDoc :=
  (matching s.queryModel (fun d => decide (d.query ∈ queries ∧ d.user = user))).insertionSort laterFirst

def served (s : Store) (queries : List String) (user : String) (offset limit : Nat) : List QueryDoc :=
  ((bulkRows s queries user).drop offset).take limit

def fetchTask (user query : String) : Task := ⟨user, .num 5 0, query⟩

def isSaved (s : Store) (user query : String) : Bool := decide (matching s.queryModel (isFor query user) ≠ [])

variable {env : Env} {request : BulkRequest} {user : String} {offset limit : Nat} {s : Store}
  {queries : List String}

theorem run_delayMissing (user : String) (saved queries : List String) (s : Store) :
    run (exec env) (delayMissing user saved queries) s = (.ok (), { s with
      tasks := s.tasks ++ (queries.filter (fun q => decide (q ∉ saved))).map (fetchTask user) }) := by
  induction queries generalizing s with
  | nil => simp [delayMissing]
  | cons query queries ih =>
    by_cases hq : query ∈ saved
    · simp only [delayMissing, hq, if_true, ih]
      simp [hq]
    · simp only [delayMissing, hq, if_false, ask, perform_bind, run_call, exec, ih]
      simp [hq, fetchTask]

theorem page_eq_served (s : Store) (queries : List String) (user : String) (offset limit : Nat) :
    (if (((bulkRows s queries user).drop offset).take (limit + 1)).length = limit + 1 then
      (((bulkRows s queries user).drop offset).take (limit + 1)).take limit
      else ((bulkRows s queries user).drop offset).take (limit + 1)) = served s queries user offset limit := by
  split
  · rw [List.take_take, served]
    congr 1
    omega
  · next h =>
    have hl : ((bulkRows s queries user).drop offset).length ≤ limit := by
      rw [List.length_take] at h
      omega
    rw [served, List.take_of_length_le (by omega), List.take_of_length_le hl]

/-- One page of a bulk request: its rows, the link to the next page, and the
tasks it leaves in the queue. -/
theorem run_bulk (env : Env) (hq : request.queries ≠ []) (hu : request.currentUser = some user)
    (ho : intOf (request.offset.getD "0") = .ok (offset : Int))
    (hl : intOf (request.limit.getD "1") = .ok (limit : Int)) (s : Store) :
    run (exec env) (bulkRegistration.get request) s =
      (.ok (.page
          (if offset + limit < (bulkRows s request.queries user).length then
            some ((offset : Int) + limit, (limit : Int)) else none)
          (served s request.queries user offset limit)),
        { s with tasks := s.tasks ++ (request.queries.filter (fun q =>
          decide (q ∉ (served s request.queries user offset limit).map QueryDoc.query))).map (fetchTask user) }) := by
  have hneg : ¬ ((limit : Int) < 0 ∨ (offset : Int) < 0) := by omega
  have hx : exec env (.pageQueries request.queries user offset (limit + 1)) s =
      (((bulkRows s request.queries user).drop offset).take (limit + 1), s) := rfl
  have hn : (((bulkRows s request.queries user).drop offset).take (limit + 1)).length = limit + 1 ↔
      offset + limit < (bulkRows s request.queries user).length := by
    rw [List.length_take, List.length_drop]
    omega
  simp only [bulkRegistration.get, ho, hl, hneg, hq, hu, if_false, Int.toNat_natCast, ask, perform_bind,
    run_call, hx, page_eq_served]
  rw [run_bind_ok _ (run_delayMissing _ _ _ _)]
  simp only [hn]
  rfl

theorem mem_bulkRows {d : QueryDoc} : d ∈ bulkRows s queries user ↔
    (∃ id, (id, d) ∈ s.queryModel.docs) ∧ d.query ∈ queries ∧ d.user = user := by
  rw [bulkRows, List.mem_insertionSort, mem_matching, decide_eq_true_eq]

theorem isSaved_of_served {q : String} (h : q ∈ (served s queries user offset limit).map QueryDoc.query) :
    isSaved s user q = true := by
  obtain ⟨d, hd, rfl⟩ := List.mem_map.mp h
  have hrow : d ∈ bulkRows s queries user := List.mem_of_mem_drop (List.mem_of_mem_take hd)
  obtain ⟨hdoc, -, hu⟩ := mem_bulkRows.mp hrow
  have hm : d ∈ matching s.queryModel (isFor d.query user) :=
    mem_matching.mpr ⟨hdoc, by simp [isFor, hu]⟩
  exact decide_eq_true (List.ne_nil_of_mem hm)

/-- The tasks a bulk request queues are one fetch for each requested query
that the user has no document for. -/
def FetchesMissing (env : Env) (request : BulkRequest) (user : String) (s : Store) : Prop :=
  ∃ new, (run (exec env) (bulkRegistration.get request) s).2.tasks = s.tasks ++ new ∧
    new.Perm ((request.queries.dedup.filter (fun q => !isSaved s user q)).map (fetchTask user))

theorem fetchTask_injective (user : String) : Function.Injective (fetchTask user) := by
  intro q q' h
  simpa [fetchTask] using h

theorem filter_unserved (h : ∀ q ∈ queries, isSaved s user q →
    q ∈ (served s queries user offset limit).map QueryDoc.query) :
    queries.filter (fun q => decide (q ∉ (served s queries user offset limit).map QueryDoc.query)) =
      queries.filter (fun q => !isSaved s user q) := by
  apply List.filter_congr
  intro q hq
  cases hs : isSaved s user q with
  | true => simpa using h q hq hs
  | false =>
    refine decide_eq_true fun hm => ?_
    rw [isSaved_of_served hm] at hs
    cases hs

/-- A bulk request fetches exactly what is missing if its page shows every
requested query that is saved, and no missing query is listed twice. -/
theorem fetches_missing_iff (env : Env) (s : Store) (hq : request.queries ≠ [])
    (hu : request.currentUser = some user) (ho : intOf (request.offset.getD "0") = .ok (offset : Int))
    (hl : intOf (request.limit.getD "1") = .ok (limit : Int)) :
    FetchesMissing env request user s ↔
      (∀ q ∈ request.queries, isSaved s user q →
        q ∈ (served s request.queries user offset limit).map QueryDoc.query) ∧
      (request.queries.filter (fun q => !isSaved s user q)).Nodup := by
  have hrun := run_bulk env hq hu ho hl s
  constructor
  · rintro ⟨new, hnew, hperm⟩
    rw [hrun] at hnew
    obtain rfl := List.append_cancel_left hnew
    rw [List.map_perm_map_iff (fetchTask_injective user)] at hperm
    have hshown : ∀ q ∈ request.queries, isSaved s user q →
        q ∈ (served s request.queries user offset limit).map QueryDoc.query := by
      intro q hm hs
      by_contra hns
      have hmem := hperm.subset (List.mem_filter.mpr ⟨hm, decide_eq_true hns⟩)
      have hf := (List.mem_filter.mp hmem).2
      rw [hs] at hf
      cases hf
    refine ⟨hshown, ?_⟩
    rw [filter_unserved hshown] at hperm
    exact hperm.nodup_iff.mpr ((List.nodup_dedup _).filter _)
  · rintro ⟨hshown, hnodup⟩
    refine ⟨_, by rw [hrun], ?_⟩
    rw [filter_unserved hshown]
    apply List.Perm.map
    rw [List.perm_ext_iff_of_nodup hnodup ((List.nodup_dedup _).filter _)]
    intro q
    simp

section TwoSavedQueries

def tutorial : Video := ⟨"abcdefghijk", ⟨2021, 4, 30, by decide⟩, "a tutorial", "for beginners", noUrl⟩

def savedQuery (query : String) (time : Nat) : QueryDoc := ⟨"user@example.com", query, [tutorial], time⟩

def twoSaved : Store :=
  { Store.empty with
    youtubeData := Function.update (fun _ => none) "abcdefghijk" (some tutorial.fields)
    youtubevideos := Function.update (fun _ => none) "abcdefghijk" (some ⟨"a tutorial", tutorial.fields.published_date⟩)
    queryModel := insert (insert Documents.empty (savedQuery "celery videos" 1)) (savedQuery "django videos" 2) }

def bothQueries : BulkRequest := ⟨["celery videos", "django videos"], some "user@example.com", none, none⟩

theorem default_offset : intOf ((none : Option String).getD "0") = .ok ((0 : Nat) : Int) := rfl

theorem default_limit : intOf ((none : Option String).getD "1") = .ok ((1 : Nat) : Int) := rfl

theorem twoSaved_served :
    (served twoSaved bothQueries.queries "user@example.com" 0 1).map QueryDoc.query = ["django videos"] ∧
      bothQueries.queries.all (isSaved twoSaved "user@example.com") = true := by
  decide +kernel

theorem saved_query_fetched_again : ¬ ∀ (env : Env) (request : BulkRequest) (user : String) (offset limit : Nat)
    (s : Store), request.queries ≠ [] → request.currentUser = some user →
    intOf (request.offset.getD "0") = .ok (offset : Int) → intOf (request.limit.getD "1") = .ok (limit : Int) →
    FetchesMissing env request user s := by
  intro hall
  have hq : bothQueries.queries ≠ [] := by simp [bothQueries]
  obtain ⟨hpage, hsaved⟩ := twoSaved_served
  obtain ⟨new, hnew, hperm⟩ := hall ⟨fun _ => true, fun _ => true⟩ bothQueries "user@example.com" 0 1 twoSaved
    hq rfl default_offset default_limit
  rw [run_bulk _ hq rfl default_offset default_limit, hpage] at hnew
  obtain rfl := List.append_cancel_left hnew
  have hm : fetchTask "user@example.com" "celery videos" ∈ (bothQueries.queries.filter
      (fun q => decide (q ∉ ["django videos"]))).map (fetchTask "user@example.com") :=
    List.mem_map_of_mem (by decide)
  obtain ⟨q, hmem, -⟩ := List.mem_map.mp (hperm.subset hm)
  obtain ⟨hin, hns⟩ := List.mem_filter.mp hmem
  rw [List.all_eq_true.mp hsaved q (List.mem_dedup.mp hin)] at hns
  cases hns

def oneMissing : BulkRequest := ⟨["django videos", "flask videos"], some "user@example.com", none, none⟩

theorem oneMissing_served :
    (oneMissing.queries.all fun q => !isSaved twoSaved "user@example.com" q ||
      decide (q ∈ (served twoSaved oneMissing.queries "user@example.com" 0 1).map QueryDoc.query)) = true ∧
      oneMissing.queries.filter (fun q => !isSaved twoSaved "user@example.com" q) = ["flask videos"] := by
  decide +kernel

theorem fetches_one_missing :
    FetchesMissing ⟨fun _ => true, fun _ => true⟩ oneMissing "user@example.com" twoSaved := by
  obtain ⟨hshown, hmissing⟩ := oneMissing_served
  refine (fetches_missing_iff _ twoSaved (by simp [oneMissing]) rfl default_offset default_limit).mpr ⟨?_, ?_⟩
  · intro q hq hs
    have h := List.all_eq_true.mp hshown q hq
    rw [hs] at h
    exact of_decide_eq_true h
  · rw [hmissing]
    exact List.nodup_singleton _

end TwoSavedQueries

end YoutubeRecords.BulkFetches
