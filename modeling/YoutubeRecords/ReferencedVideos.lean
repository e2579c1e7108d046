import YoutubeRecords.DataRefinement
import YoutubeRecords.SearchAnswers

namespace YoutubeRecords.ReferencedVideos

open CommandProgram ProgramPool DataRefinement PythonBasics Documents SiteRefinement AnswerOrigins
open VideoStore (Video VideoFields QueryDoc isFor newerFirst laterFirst)
open SiteStore (Cmd Answer Env Event Store)

def nothing : VideoFields := ⟨⟨1, 1, 1, by decide⟩, "", "", ""⟩

def reference (d : QueryDoc) : QueryDoc := { d with videos := d.videos.map fun v => ⟨v.video_id, nothing⟩ }

def dereference (youtubeData : String → Option VideoFields) (d : QueryDoc) : QueryDoc :=
  { d with videos := d.videos.filterMap fun v => (youtubeData v.video_id).map (Video.mk v.video_id) }

def documents (s : VideoStore.Store) (p : QueryDoc → Bool) : List QueryDoc :=
  (matching s.queryModel p).map (dereference s.youtubeData)

/-- The commands where saved queries only refer to their videos, so that each
video is stored in one place. -/
def execVideo (env : VideoStore.Env) :
    (c : VideoStore.Cmd) → VideoStore.Store → VideoStore.Answer c × VideoStore.Store
  | .findQuery query user, s =>
    ((first s.queryModel (isFor query user)).map fun x => (x.1, dereference s.youtubeData x.2), s)
  | .saveQuery oid d, s =>
    if env.acceptsQuery d then (true, { s with queryModel := replace s.queryModel oid (reference d) })
    else (false, s)
  | .insertQuery d, s =>
    if env.acceptsQuery d then (true, { s with queryModel := insert s.queryModel (reference d) }) else (false, s)
  | .pageVideos query user offset limit, s =>
    (((((documents s (isFor query user)).flatMap QueryDoc.videos).insertionSort newerFirst).drop offset).take
      limit, s)
  | .pageQueries queries user offset limit, s =>
    ((((documents s fun d => decide (d.query ∈ queries ∧ d.user = user)).insertionSort laterFirst).drop
      offset).take limit, s)
  | .findVideo id, s => VideoStore.exec env (.findVideo id) s
  | .saveVideo v, s => VideoStore.exec env (.saveVideo v) s
  | .index id body, s => VideoStore.exec env (.index id body) s
  | .delay task, s => VideoStore.exec env (.delay task) s

def exec (env : Env) : (c : Cmd) → Store → Answer c × Store
  | .video c, s => ((execVideo env.videos c s.videos).1, { s with videos := (execVideo env.videos c s.videos).2 })
  | .account c, s => SiteStore.exec env (.account c) s
  | .searchIndex query, s => SiteStore.exec env (.searchIndex query) s
  | .takeTask, s => SiteStore.exec env .takeTask s

def machine (env : Env) : Machine Cmd Answer Store Event := ⟨exec env, (SiteStore.machine env).env⟩

def referVideos (s : VideoStore.Store) : VideoStore.Store :=
  { s with queryModel := Documents.map reference s.queryModel }

def refer (s : Store) : Store := { s with videos := referVideos s.videos }

def Copied (s : VideoStore.Store) : Prop :=
  ∀ x ∈ s.queryModel.docs, ∀ v ∈ x.2.videos, s.youtubeData v.video_id = some v.fields

section Commands

variable {s : VideoStore.Store}

theorem dereference_reference {d : QueryDoc} (h : ∀ v ∈ d.videos, s.youtubeData v.video_id = some v.fields) :
    dereference s.youtubeData (reference d) = d := by
  have hv : (d.videos.map fun v => (⟨v.video_id, nothing⟩ : Video)).filterMap
      (fun v => (s.youtubeData v.video_id).map (Video.mk v.video_id)) = d.videos := by
    rw [List.filterMap_map]
    refine (List.filterMap_congr fun v hm => ?_).trans List.filterMap_some
    simp [h v hm]
  unfold dereference reference
  rw [hv]

theorem documents_refer (hc : Copied s) {p : QueryDoc → Bool} (hp : ∀ d, p (reference d) = p d) :
    documents (referVideos s) p = matching s.queryModel p := by
  unfold documents referVideos
  rw [matching_map hp, List.map_map]
  refine (List.map_congr_left fun d hd => ?_).trans (List.map_id _)
  obtain ⟨⟨oid, hm⟩, -⟩ := mem_matching.mp hd
  exact dereference_reference fun v hv => hc _ hm v hv

/-- Where the copies are right, references give the same answers. -/
theorem execVideo_refer (hc : Copied s) (env : VideoStore.Env) (c : VideoStore.Cmd) :
    execVideo env c (referVideos s) = ((VideoStore.exec env c s).1, referVideos (VideoStore.exec env c s).2) := by
  cases c with
  | findVideo | index | delay => rfl
  | saveVideo v =>
    by_cases ha : env.acceptsVideo v <;> simp [execVideo, VideoStore.exec, ha, referVideos]
  | saveQuery oid d =>
    by_cases ha : env.acceptsQuery d <;> simp [execVideo, VideoStore.exec, ha, referVideos, map_replace]
  | insertQuery d =>
    by_cases ha : env.acceptsQuery d <;> simp [execVideo, VideoStore.exec, ha, referVideos, map_insert]
  | findQuery query user =>
    have hf : first (referVideos s).queryModel (isFor query user) =
        (first s.queryModel (isFor query user)).map fun x => (x.1, reference x.2) := first_map fun _ => rfl
    simp only [execVideo, hf, Option.map_map]
    refine Prod.ext ((Option.map_congr fun x hx => ?_).trans Option.map_id') rfl
    obtain ⟨oid, d⟩ := x
    exact congrArg (Prod.mk oid) (dereference_reference fun v hv => hc _ (first_eq_some hx).1 v hv)
  | pageVideos query user offset limit =>
    simp only [execVideo, documents_refer hc (p := isFor query user) fun _ => rfl]
    rfl
  | pageQueries queries user offset limit =>
    have hd := documents_refer hc (p := fun d => decide (d.query ∈ queries ∧ d.user = user)) fun _ => rfl
    simp only [execVideo, hd]
    rfl

end Commands

theorem machine_imitates {env : Env} {s : Store} (hc : Copied s.videos) :
    Imitates (SiteStore.machine env) (machine env) refer s where
  exec c := by
    cases c with
    | account | searchIndex => rfl
    | takeTask =>
      change SiteStore.exec env .takeTask (refer s) =
        ((SiteStore.exec env .takeTask s).1, refer (SiteStore.exec env .takeTask s).2)
      have htasks : (refer s).videos.tasks[(refer s).taken]? = s.videos.tasks[s.taken]? := rfl
      simp only [SiteStore.exec, htasks]
      cases s.videos.tasks[s.taken]? with
      | none | some => rfl
    | video c =>
      change ((execVideo env.videos c (referVideos s.videos)).1,
          ({ s with videos := (execVideo env.videos c (referVideos s.videos)).2 } : Store)) =
        ((VideoStore.exec env.videos c s.videos).1,
          { s with videos := referVideos (VideoStore.exec env.videos c s.videos).2 })
      rw [execVideo_refer hc env.videos c]
  env t := by
    cases t with
    | tick | refresh => rfl

variable {env : Env} {clock : Nat} {users : List AccountStore.User} {jobs : Nat → SiteViews.Job}

def played (M : Machine Cmd Answer Store Event) (env : Env) (clock : Nat) (users : List AccountStore.User)
    (jobs : Nat → SiteViews.Job) (moves : List (Move Exn Event)) : Pool Cmd Answer Exn SiteViews.Reply Store :=
  moves.foldl (fun P m => P.move M m) (SiteViews.start env clock users jobs)

/-- If the APIs agree on what they say about a video, nobody can tell whether
the saved queries hold copies of their videos or refer to them: under every
schedule, every job makes the same calls, gets the same answers and replies
the same. -/
theorem references_suffice (ha : Agreeing (given jobs)) (moves : List (Move Exn Event)) :
    (played (machine env) env clock users jobs moves).procs =
        (played (SiteStore.machine env) env clock users jobs moves).procs ∧
      (played (machine env) env clock users jobs moves).trace.map (fun e => (e.pid, e.call)) =
        (played (SiteStore.machine env) env clock users jobs moves).trace.map (fun e => (e.pid, e.call)) ∧
      (played (machine env) env clock users jobs moves).store =
        refer (played (SiteStore.machine env) env clock users jobs moves).store := by
  have hstart : image refer (SiteViews.start env clock users jobs) = SiteViews.start env clock users jobs := rfl
  have h : played (machine env) env clock users jobs moves =
      image refer (played (SiteStore.machine env) env clock users jobs moves) := by
    have hm : moves.foldl (fun P m => P.move (machine env) m) (image refer (SiteViews.start env clock users jobs)) =
        image refer (played (SiteStore.machine env) env clock users jobs moves) :=
      image_moves moves fun Q hQ => machine_imitates (videos_agree hQ (ha.heardBy _))
    rwa [hstart] at hm
  rw [h]
  exact ⟨rfl, by simp [image, Function.comp_def], rfl⟩

theorem apiOf_searchJobs (i : Nat) : apiOf (SearchAnswers.searchJobs i) = QueryUniqueness.oneVideo := by
  unfold SearchAnswers.searchJobs
  split <;> rfl

theorem referred_ids : SearchAnswers.pageIds ((played (machine demoEnv) demoEnv 0 [SessionSoundness.raceUser]
    SearchAnswers.searchJobs SearchAnswers.searchMoves).procs 2) = ["abcdefghijk"] := by
  decide +kernel

/-- The second search is answered from the saved query, which only refers to
its video. -/
theorem references_suffice_searched :
    (played (machine demoEnv) demoEnv 0 [SessionSoundness.raceUser] SearchAnswers.searchJobs
        SearchAnswers.searchMoves).procs =
      (played (SiteStore.machine demoEnv) demoEnv 0 [SessionSoundness.raceUser] SearchAnswers.searchJobs
        SearchAnswers.searchMoves).procs ∧
    SearchAnswers.pageIds ((played (SiteStore.machine demoEnv) demoEnv 0 [SessionSoundness.raceUser]
      SearchAnswers.searchJobs SearchAnswers.searchMoves).procs 2) = ["abcdefghijk"] := by
  have h : (played (machine demoEnv) demoEnv 0 [SessionSoundness.raceUser] SearchAnswers.searchJobs
        SearchAnswers.searchMoves).procs =
      (played (SiteStore.machine demoEnv) demoEnv 0 [SessionSoundness.raceUser] SearchAnswers.searchJobs
        SearchAnswers.searchMoves).procs :=
    (references_suffice (agreeing_oneVideo apiOf_searchJobs) SearchAnswers.searchMoves).1
  exact ⟨h, h ▸ referred_ids⟩

end YoutubeRecords.ReferencedVideos
