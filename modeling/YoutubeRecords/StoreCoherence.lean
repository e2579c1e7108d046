import Mathlib.Logic.Relation
import YoutubeRecords.QueryUniqueness

namespace YoutubeRecords.StoreCoherence

open CommandProgram ProgramPool PythonBasics Documents OrderedDict VideoStore VideoIngestion
  IngestionPromises QueryUniqueness

/-- The system when executions do not overlap: the current one issues its next
command, or the next one begins, wherever the current one has got to. -/
inductive Step (env : Env) : Prog Unit × Store → Prog Unit × Store → Prop
  | call (c : Cmd) (k : Answer c → Prog Unit) (s : Store) :
      Step env (.call c k, s) (k (exec env c s).1, (exec env c s).2)
  | begin (p : Prog Unit) (s : Store) (e : Execution) : Step env (p, s) (e.program, s)

def Reached (env : Env) (p : Prog Unit) (s : Store) : Prop :=
  Relation.ReflTransGen (Step env) (.ret (), Store.empty) (p, s)

/-- Every embedded video has its document in `YoutubeData`, and no video is
embedded twice in one document. -/
structure Coherent (s : Store) : Prop where
  embedded : ∀ x ∈ s.queryModel.docs, ∀ v ∈ x.2.videos, s.youtubeData v.video_id = some v.fields
  distinct : ∀ x ∈ s.queryModel.docs, (x.2.videos.map Video.video_id).Nodup

def LastKnown (s : Store) : Call Cmd Answer → Prop
  | ⟨.findVideo id, found⟩ => s.youtubeData id = found
  | ⟨.findQuery query user, found⟩ => first s.queryModel (isFor query user) = found
  | _ => True

structure Informed (s : Store) (h : History) : Prop where
  found : ∀ id fields, ⟨.findVideo id, some fields⟩ ∈ h → s.youtubeData id = some fields
  saved : ∀ v, ⟨.saveVideo v, true⟩ ∈ h → s.youtubeData v.video_id = some v.fields
  last : ∀ x rest, h = x :: rest → LastKnown s x

def Keeps (s t : Store) : Prop := ∀ id fields, s.youtubeData id = some fields → t.youtubeData id = some fields

variable {env : Env} {s t : Store} {h : History} {target : String → String → Prop}

theorem informed_nil (s : Store) : Informed s [] := ⟨by simp, by simp, by simp⟩

theorem Informed.seen (hi : Informed s h) {v : Video} (hs : Seen h v) :
    s.youtubeData v.video_id = some v.fields := by
  obtain hf | ⟨hv, -⟩ := hs
  · exact hi.found _ _ hf
  · exact hi.saved v hv

/-- What a command can do to a video. -/
theorem youtubeData_changed (env : Env) (c : Cmd) (s : Store) (id : String) :
    (exec env c s).2.youtubeData id = s.youtubeData id ∨
      ∃ fields, (⟨c, (exec env c s).1⟩ : Call Cmd Answer) = ⟨.saveVideo ⟨id, fields⟩, true⟩ ∧
        (exec env c s).2.youtubeData id = some fields := by
  cases c with
  | saveVideo v =>
    by_cases hacc : env.acceptsVideo v
    · by_cases hne : id = v.video_id
      · subst hne
        exact .inr ⟨v.fields, by simp [exec, hacc], by simp [exec, hacc]⟩
      · exact .inl (by simp [exec, hacc, hne])
    · exact .inl (by simp [exec, hacc])
  | saveQuery oid d => exact .inl (by by_cases h : env.acceptsQuery d <;> simp [exec, h])
  | insertQuery d => exact .inl (by by_cases h : env.acceptsQuery d <;> simp [exec, h])
  | findVideo | index | findQuery | pageVideos | pageQueries | delay => exact .inl rfl

theorem youtubeData_found {env : Env} {c : Cmd} {s : Store} {id : String} {found : Option VideoFields}
    (h : (⟨c, (exec env c s).1⟩ : Call Cmd Answer) = ⟨.findVideo id, found⟩) : s.youtubeData id = found := by
  obtain rfl : c = .findVideo id := congrArg Call.cmd h
  simp only [Call.mk.injEq, true_and, heq_eq_eq] at h
  exact h

theorem youtubeData_saved {env : Env} {c : Cmd} {s : Store} {v : Video}
    (h : (⟨c, (exec env c s).1⟩ : Call Cmd Answer) = ⟨.saveVideo v, true⟩) :
    (exec env c s).2.youtubeData v.video_id = some v.fields := by
  obtain rfl : c = .saveVideo v := congrArg Call.cmd h
  simp only [Call.mk.injEq, true_and, heq_eq_eq] at h
  by_cases ha : env.acceptsVideo v
  · simp [exec, ha]
  · simp [exec, ha] at h

/-- A video is saved right after it was found missing. -/
theorem Informed.save_absent (hi : Informed s h) {v : Video} {r : Bool}
    (hp : promise target h ⟨.saveVideo v, r⟩) : s.youtubeData v.video_id = none := by
  obtain ⟨records, ⟨value, rest, -, -, hh⟩, -⟩ := hp
  exact hi.last _ rest hh

theorem keeps_exec (hi : Informed s h) {c : Cmd} (hp : promise target h ⟨c, (exec env c s).1⟩) :
    Keeps s (exec env c s).2 := by
  intro id fields hid
  obtain hsame | ⟨_, hcall, -⟩ := youtubeData_changed env c s id
  · rw [hsame]
    exact hid
  · rw [hcall] at hp
    have hn := hi.save_absent hp
    exact absurd (hid.symm.trans hn) (by simp)

theorem lastKnown_exec (c : Cmd) (s : Store) : LastKnown (exec env c s).2 ⟨c, (exec env c s).1⟩ := by
  cases c with
  | findVideo | findQuery => rfl
  | saveVideo | index | saveQuery | insertQuery | pageVideos | pageQueries | delay => trivial

theorem Informed.call (hi : Informed s h) {c : Cmd} (hp : promise target h ⟨c, (exec env c s).1⟩) :
    Informed (exec env c s).2 (⟨c, (exec env c s).1⟩ :: h) := by
  have hk := keeps_exec hi hp
  constructor
  · intro id fields hm
    obtain heq | hm := List.mem_cons.mp hm
    · exact hk _ _ (youtubeData_found heq.symm)
    · exact hk _ _ (hi.found id fields hm)
  · intro v hm
    obtain heq | hm := List.mem_cons.mp hm
    · exact youtubeData_saved heq.symm
    · exact hk _ _ (hi.saved v hm)
  · intro x rest hx
    obtain ⟨rfl, -⟩ := List.cons.inj hx
    exact lastKnown_exec c s

theorem Coherent.keep (hc : Coherent s) (hk : Keeps s t) (hd : t.queryModel = s.queryModel) :
    Coherent t := by
  constructor
  · intro x hx v hv
    rw [hd] at hx
    exact hk _ _ (hc.embedded x hx v hv)
  · intro x hx
    rw [hd] at hx
    exact hc.distinct x hx

theorem Coherent.add (hc : Coherent s) (hk : Keeps s t) {d : QueryDoc}
    (hd : ∀ x ∈ t.queryModel.docs, x.2 = d ∨ x ∈ s.queryModel.docs)
    (hv : ∀ v ∈ d.videos, s.youtubeData v.video_id = some v.fields)
    (hn : (d.videos.map Video.video_id).Nodup) : Coherent t := by
  constructor
  · intro x hx v hm
    obtain rfl | hx := hd x hx
    · exact hk _ _ (hv v hm)
    · exact hk _ _ (hc.embedded x hx v hm)
  · intro x hx
    obtain rfl | hx := hd x hx
    · exact hn
    · exact hc.distinct x hx

theorem Coherent.call (hc : Coherent s) (hi : Informed s h) {c : Cmd}
    (hp : promise target h ⟨c, (exec env c s).1⟩) : Coherent (exec env c s).2 := by
  have hk := keeps_exec hi hp
  obtain he | ⟨oid, d, rfl, he⟩ | ⟨d, rfl, he⟩ := queryModel_cases env c s
  · exact hc.keep hk he
  · obtain ⟨records, ⟨_, _, _, _, _, _, _, _, hg⟩, -⟩ := hp
    refine hc.add hk ?_ (fun v hv => hi.seen (hg.seen v hv)) (gathered_nodup hg)
    intro x hx
    rw [he] at hx
    exact (mem_of_mem_replace hx).imp (fun hx => by rw [hx]) id
  · obtain ⟨records, ⟨_, _, _, _, hg⟩, -⟩ := hp
    refine hc.add hk ?_ (fun v hv => hi.seen (hg.seen v hv)) (gathered_nodup hg)
    intro x hx
    rw [he] at hx
    exact (mem_insert.mp hx).symm.imp (fun hx => by rw [hx]) id

/-- The current execution keeps to its promise in what is left of it, and the
stores are coherent. -/
def Faithful (x : Prog Unit × Store) : Prop :=
  ∃ target h, Obeys (promise target) (fun _ _ => True) x.1 h ∧ Informed x.2 h ∧ Coherent x.2

theorem Faithful.step {x y : Prog Unit × Store} (hx : Faithful x) (hs : Step env x y) :
    Faithful y ∧ Keeps x.2 y.2 := by
  obtain ⟨target, h, ho, hi, hc⟩ := hx
  cases hs with
  | call c k s =>
    obtain ⟨hp, ho'⟩ := ho (exec env c s).1
    exact ⟨⟨target, _, ho', hi.call hp, hc.call hi hp⟩, keeps_exec hi hp⟩
  | begin p s e =>
    exact ⟨⟨e.IsFor, [], execution_obeys e [], informed_nil s, hc⟩, fun _ _ hid => hid⟩

theorem Faithful.steps {x y : Prog Unit × Store} (hx : Faithful x) (hs : Relation.ReflTransGen (Step env) x y) :
    Faithful y ∧ Keeps x.2 y.2 := by
  induction hs with
  | refl => exact ⟨hx, fun _ _ hid => hid⟩
  | tail _ hstep ih =>
    obtain ⟨hy, hk⟩ := ih.1.step hstep
    exact ⟨hy, fun id fields hid => hk id fields (ih.2 id fields hid)⟩

theorem faithful_start : Faithful (.ret (), Store.empty) :=
  ⟨fun _ _ => False, [], trivial, informed_nil _, by simp [Store.empty, Documents.empty],
    by simp [Store.empty, Documents.empty]⟩

theorem matching_exec (hi : Informed s h) {c : Cmd} (hp : promise target h ⟨c, (exec env c s).1⟩)
    {query user : String} (hn : ¬ target query user) :
    matching (exec env c s).2.queryModel (isFor query user) = matching s.queryModel (isFor query user) := by
  have other : ∀ d : QueryDoc, target d.query d.user → isFor query user d = false := by
    intro d ht
    apply decide_eq_false
    rintro ⟨rfl, rfl⟩
    exact hn ht
  obtain he | ⟨oid, d, rfl, he⟩ | ⟨d, rfl, he⟩ := queryModel_cases env c s
  · rw [he]
  · obtain ⟨records, ⟨q, u, doc, rest, hh, hq, hu, hd, -⟩, ht⟩ := hp
    have hf : first s.queryModel (isFor q u) = some (oid, doc) := hi.last _ rest hh
    obtain ⟨hm, hfor⟩ := first_eq_some hf
    obtain ⟨rfl, rfl⟩ := of_decide_eq_true hfor
    have hdoc := other doc (ht _ _ hq hu)
    rw [he]
    refine matching_replace_of_not hm hdoc ?_
    rw [hd]
    exact hdoc
  · obtain ⟨records, ⟨_, _, hq, hu, _⟩, ht⟩ := hp
    rw [he, matching_insert, other d (ht _ _ hq hu)]
    simp

/-- Store coherence at a reached point of the system: (a) what `YoutubeData`
says about a video never changes, (b) embedded videos agree with it, (c) no
document embeds a video twice, (d) an execution changes only the documents
for its own query and user, however far it gets. -/
structure CoherentFrom (env : Env) (p : Prog Unit) (s : Store) : Prop where
  immutable : ∀ q t, Relation.ReflTransGen (Step env) (p, s) (q, t) → Keeps s t
  embedded : ∀ x ∈ s.queryModel.docs, ∀ v ∈ x.2.videos, s.youtubeData v.video_id = some v.fields
  distinct : ∀ x ∈ s.queryModel.docs, (x.2.videos.map Video.video_id).Nodup
  frame : ∀ (e : Execution) q t, Steps (exec env) e.program s q t → ∀ query user, ¬ e.IsFor query user →
    matching t.queryModel (isFor query user) = matching s.queryModel (isFor query user)

theorem store_coherent {p : Prog Unit} (h : Reached env p s) : CoherentFrom env p s := by
  obtain ⟨hs, -⟩ := faithful_start.steps h
  have hc : Coherent s := by
    obtain ⟨_, _, -, -, hc⟩ := hs
    exact hc
  refine ⟨fun q t ht => (hs.steps ht).2, hc.embedded, hc.distinct, ?_⟩
  intro e q t ht query user hn
  have hI := (execution_obeys e []).steps (s := s) (I := fun t h => Informed t h ∧
    matching t.queryModel (isFor query user) = matching s.queryModel (isFor query user))
    ⟨informed_nil s, rfl⟩ ?_ ht
  · obtain ⟨_, -, -, heq⟩ := hI
    exact heq
  · rintro s' h' c ⟨hi, heq⟩ hp
    exact ⟨hi.call hp, (matching_exec hi hp hn).trans heq⟩

theorem reflTransGen_of_steps {p q : Prog Unit} (hs : Steps (exec env) p s q t) :
    Relation.ReflTransGen (Step env) (p, s) (q, t) := by
  induction hs with
  | refl => exact .refl
  | call _ ih => exact .head (.call _ _ _) ih

theorem reached_steps {p q : Prog Unit} {e : Execution} (h : Reached env p s)
    (hs : Steps (exec env) e.program s q t) : Reached env q t :=
  .trans (h.tail (.begin p s e)) (reflTransGen_of_steps hs)

section OverlappingFetches

def twoTitles : Api where
  search _ _ := .ok (some [
    ⟨some "abcdefghijk", .value "2021-05-01T10:00:00Z", .value "celery videos, new cut", .value "an introduction"⟩,
    ⟨some "lmnopqrstuv", .value "2021-05-02T10:00:00Z", .value "python videos", .value "a tutorial"⟩])
  videos _ := .ok (some [⟨some "abcdefghijk", .null⟩, ⟨some "lmnopqrstuv", .null⟩])

def afterFirstFetch : Store := (run (exec acceptAll) (sameTopic 0).program Store.empty).2

def overlapping : Execution := .fetch twoTitles "other@example.com" (.num 10 0) "python videos" 2

def afterBoth : Store := (run (exec acceptAll) overlapping.program afterFirstFetch).2

theorem afterBoth_titles :
    (afterBoth.unwound "celery videos" "user@example.com").map (fun v => v.fields.title) = ["celery videos"] ∧
      (afterBoth.unwound "python videos" "other@example.com").map (fun v => v.fields.title) =
        ["celery videos", "python videos"] := by
  decide +kernel

theorem store_coherent_after_both :
    ((afterBoth.unwound "celery videos" "user@example.com").map (fun v => v.fields.title) = ["celery videos"] ∧
      (afterBoth.unwound "python videos" "other@example.com").map (fun v => v.fields.title) =
        ["celery videos", "python videos"]) ∧
      ∃ p, CoherentFrom acceptAll p afterBoth := by
  obtain ⟨q, hq⟩ : ∃ q, Steps (exec acceptAll) (sameTopic 0).program Store.empty q afterFirstFetch := steps_run _ _
  obtain ⟨q', hq'⟩ : ∃ q, Steps (exec acceptAll) overlapping.program afterFirstFetch q afterBoth := steps_run _ _
  exact ⟨afterBoth_titles, q', store_coherent (reached_steps (reached_steps .refl hq) hq')⟩

end OverlappingFetches

end YoutubeRecords.StoreCoherence
