import YoutubeRecords.IngestionEffects
import YoutubeRecords.StoreCoherence

namespace YoutubeRecords.ElasticAgreement

open CommandProgram PythonBasics OrderedDict VideoStore VideoIngestion IngestionPromises QueryUniqueness
  StoreCoherence IngestionEffects

def InBothStores (s : Store) (id : String) : Prop :=
  s.youtubeData id ≠ none ∧ s.youtubevideos id ≠ none

variable {env : Env}

/-- After an insertion that returns, its videos are in both stores exactly if
those it found in `YoutubeData` had been indexed before. -/
theorem in_both_stores_iff (records : Dict Value) (now : Nat) : ∀ s t,
    run (exec env) (insertIntoDatabase records now) s = (.ok (), t) →
    ∀ x ∈ videoItems records.items,
      InBothStores t x.1 ↔ (s.youtubeData x.1 ≠ none → s.youtubevideos x.1 ≠ none) := by
  intro s t hr x hx
  have hok : (run (exec env) (insertIntoDatabase records now) s).1.isOk = true := by
    rw [hr]
    rfl
  obtain ⟨query, user, hc⟩ := completes_of_isOk hok
  rw [run_insertIntoDatabase hc] at hr
  obtain rfl := (Prod.mk.inj hr).2
  change ((ingested s records.items).youtubeData x.1 ≠ none ∧
    (ingested s records.items).youtubevideos x.1 ≠ none) ↔ _
  cases hs : s.youtubeData x.1 with
  | none =>
    obtain ⟨hy, he⟩ := ingested_of_none hc.ingestible hx hs records.nodup
    exact ⟨fun _ hn => absurd rfl hn, fun _ => ⟨hy, he⟩⟩
  | some fields =>
    obtain ⟨hy, he⟩ := ingested_of_some records.items hs
    rw [hy, he]
    constructor
    · exact fun h _ => h.2
    · exact fun h => ⟨by simp, h (by simp)⟩

section FailedIndexing

def someDate : Date := ⟨2021, 5, 1, by decide⟩

def videoRecord : VideoRecord := ⟨some someDate, some "celery videos", some "an introduction", some noUrl⟩

def oneRecord : Dict Value where
  items := [("abcdefghijk", .video videoRecord), ("query", .text "celery videos"),
    ("user", .text "user@example.com")]
  nodup := by decide

/-- The first insertion fails in `elastic_instance.index`. -/
def afterFailure : Prog Unit × Store :=
  advance (exec acceptAll) 2 (Execution.insert oneRecord 1).program Store.empty

def afterRetry : Except Exn Unit × Store :=
  run (exec acceptAll) (insertIntoDatabase oneRecord 2) afterFailure.2

theorem reached_afterFailure : Reached acceptAll afterFailure.1 afterFailure.2 :=
  reached_steps (e := .insert oneRecord 1) .refl (steps_advance _ 2 _ _)

theorem afterRetry_stores : afterRetry.1.toBool = true ∧ afterRetry.2.youtubevideos "abcdefghijk" = none := by
  decide +kernel

theorem eq_ok_of_toBool {x : Except Exn Unit × Store} (h : x.1.toBool = true) : x = (.ok (), x.2) := by
  obtain ⟨r, t⟩ := x
  cases r with
  | error e => cases h
  | ok u => rfl

theorem retry_leaves_video_unindexed : ¬ ∀ (env : Env) (p : Prog Unit) (s t : Store) (records : Dict Value)
    (now : Nat), Reached env p s → run (exec env) (insertIntoDatabase records now) s = (.ok (), t) →
    ∀ x ∈ videoItems records.items, InBothStores t x.1 := by
  intro hall
  have h := hall acceptAll _ _ _ oneRecord 2 reached_afterFailure (eq_ok_of_toBool afterRetry_stores.1)
    ("abcdefghijk", .video videoRecord) (by decide +kernel)
  exact h.2 afterRetry_stores.2

def afterInsert : Store := (run (exec acceptAll) (insertIntoDatabase oneRecord 1) Store.empty).2

def insertedAgain : Except Exn Unit × Store := run (exec acceptAll) (insertIntoDatabase oneRecord 2) afterInsert

theorem insertedAgain_checks : (afterInsert.youtubeData "abcdefghijk").isSome = true ∧
    (afterInsert.youtubevideos "abcdefghijk").isSome = true ∧ insertedAgain.1.toBool = true := by
  decide +kernel

theorem in_both_stores_inserted_again : afterInsert.youtubeData "abcdefghijk" ≠ none ∧
    InBothStores insertedAgain.2 "abcdefghijk" := by
  obtain ⟨hy, he, hok⟩ := insertedAgain_checks
  refine ⟨Option.isSome_iff_ne_none.mp hy, ?_⟩
  exact (in_both_stores_iff oneRecord 2 afterInsert _ (eq_ok_of_toBool hok) ("abcdefghijk", .video videoRecord)
    (by decide +kernel)).mpr fun _ => Option.isSome_iff_ne_none.mp he

end FailedIndexing

end YoutubeRecords.ElasticAgreement
