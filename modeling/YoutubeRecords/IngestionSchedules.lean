import YoutubeRecords.ElasticAgreement

namespace YoutubeRecords.IngestionSchedules

open CommandProgram ProgramPool PythonBasics Documents OrderedDict VideoStore VideoIngestion
  IngestionPromises QueryUniqueness StoreCoherence IngestionEffects ElasticAgreement

structure Job where
  records : Dict Value
  now : Nat

def Job.program (job : Job) : Prog Unit := insertIntoDatabase job.records job.now

def Job.IsFor (job : Job) (query user : String) : Prop :=
  text job.records "query" = .ok query ∧ text job.records "user" = .ok user

def process (jobs : List Job) (i : Nat) : Prog Unit :=
  match jobs[i]? with
  | some job => job.program
  | none => .ret ()

def together (s : Store) (jobs : List Job) : Pool Cmd Answer Exn Unit Store := ⟨process jobs, s, []⟩

def oneByOne (env : Env) : List Job → Store → Option Store
  | [], s => some s
  | job :: jobs, s =>
    match run (exec env) job.program s with
    | (.ok (), t) => oneByOne env jobs t
    | (.error _, _) => none

def HasRecord (jobs : List Job) (id : String) (value : Value) : Prop :=
  ∃ job ∈ jobs, (id, value) ∈ videoItems job.records.items

def Agree (jobs : List Job) : Prop := ∀ id v w, HasRecord jobs id v → HasRecord jobs id w → v = w

def Apart (a b : Job) : Prop := ∀ query user, a.IsFor query user → ¬ b.IsFor query user

/-- The stores hold the same videos, the same index and, for each query and
user, the same saved videos in some order. -/
structure Same (s t : Store) : Prop where
  youtubeData : s.youtubeData = t.youtubeData
  youtubevideos : s.youtubevideos = t.youtubevideos
  saved : ∀ query user, (s.unwound query user).Perm (t.unwound query user)

structure Aftermath (jobs : List Job) (s₀ s : Store) : Prop where
  oldVideo : ∀ id, (s₀.youtubeData id ≠ none ∨ ∀ value, ¬ HasRecord jobs id value) →
    s.youtubeData id = s₀.youtubeData id
  newVideo : ∀ id value, s₀.youtubeData id = none → HasRecord jobs id value →
    ∃ fields, videoFields value = .ok fields ∧ s.youtubeData id = some fields
  oldIndex : ∀ id, (s₀.youtubeData id ≠ none ∨ ∀ value, ¬ HasRecord jobs id value) →
    s.youtubevideos id = s₀.youtubevideos id
  newIndex : ∀ id value, s₀.youtubeData id = none → HasRecord jobs id value →
    ∃ body, indexed value = some body ∧ s.youtubevideos id = some body
  saved : ∀ job ∈ jobs, ∀ query user, job.IsFor query user → ∃ d,
    matching s.queryModel (isFor query user) = d :: (matching s₀.queryModel (isFor query user)).tail ∧
    (d.videos.map Video.video_id).Perm ((videoItems job.records.items).map Prod.fst) ∧
    ∀ v ∈ d.videos, s.youtubeData v.video_id = some v.fields
  others : ∀ query user, (∀ job ∈ jobs, ¬ job.IsFor query user) →
    matching s.queryModel (isFor query user) = matching s₀.queryModel (isFor query user)

section Unique

variable {jobs : List Job} {s₀ s t : Store}

theorem Aftermath.perm {order : List Job} (h : Aftermath jobs s₀ s) (ho : order.Perm jobs) : Aftermath order s₀ s := by
  have hi : ∀ id value, HasRecord order id value ↔ HasRecord jobs id value := by
    intro id value
    simp only [HasRecord, ho.mem_iff]
  constructor
  · simpa only [hi] using h.oldVideo
  · simpa only [hi] using h.newVideo
  · simpa only [hi] using h.oldIndex
  · simpa only [hi] using h.newIndex
  · simpa only [ho.mem_iff] using h.saved
  · simpa only [ho.mem_iff] using h.others

theorem old_or_new (jobs : List Job) (s₀ : Store) (id : String) :
    (s₀.youtubeData id ≠ none ∨ ∀ value, ¬ HasRecord jobs id value) ∨
      s₀.youtubeData id = none ∧ ∃ value, HasRecord jobs id value := by
  by_cases hn : s₀.youtubeData id = none
  · by_cases hi : ∃ value, HasRecord jobs id value
    · exact .inr ⟨hn, hi⟩
    · exact .inl (.inr (not_exists.mp hi))
  · exact .inl (.inl hn)

theorem Aftermath.youtubeData_eq (h : Aftermath jobs s₀ s) (h' : Aftermath jobs s₀ t) :
    s.youtubeData = t.youtubeData := by
  funext id
  obtain ho | ⟨hn, value, hv⟩ := old_or_new jobs s₀ id
  · rw [h.oldVideo id ho, h'.oldVideo id ho]
  · obtain ⟨fields, hf, hs⟩ := h.newVideo id value hn hv
    obtain ⟨fields', hf', ht⟩ := h'.newVideo id value hn hv
    rw [hs, ht, Except.ok.inj (hf.symm.trans hf')]

theorem Aftermath.youtubevideos_eq (h : Aftermath jobs s₀ s) (h' : Aftermath jobs s₀ t) :
    s.youtubevideos = t.youtubevideos := by
  funext id
  obtain ho | ⟨hn, value, hv⟩ := old_or_new jobs s₀ id
  · rw [h.oldIndex id ho, h'.oldIndex id ho]
  · obtain ⟨body, hb, hs⟩ := h.newIndex id value hn hv
    obtain ⟨body', hb', ht⟩ := h'.newIndex id value hn hv
    rw [hs, ht, Option.some.inj (hb.symm.trans hb')]

theorem videos_of_ids {youtubeData : String → Option VideoFields} {videos : List Video}
    (h : ∀ v ∈ videos, youtubeData v.video_id = some v.fields) :
    (videos.map Video.video_id).filterMap (fun id => (youtubeData id).map (fun fields => ⟨id, fields⟩)) =
      videos := by
  induction videos with
  | nil => rfl
  | cons v videos ih =>
    obtain ⟨hv, hrest⟩ := List.forall_mem_cons.mp h
    rw [List.map_cons, List.filterMap_cons, hv, ih hrest]
    rfl

theorem Aftermath.saved_perm (h : Aftermath jobs s₀ s) (h' : Aftermath jobs s₀ t) (query user : String) :
    (s.unwound query user).Perm (t.unwound query user) := by
  unfold Store.unwound
  by_cases hj : ∃ job ∈ jobs, job.IsFor query user
  · obtain ⟨job, hm, hfor⟩ := hj
    obtain ⟨d, hs, hids, hv⟩ := h.saved job hm query user hfor
    obtain ⟨d', ht, hids', hv'⟩ := h'.saved job hm query user hfor
    rw [hs, ht, List.flatMap_cons, List.flatMap_cons]
    refine List.Perm.append_right _ ?_
    rw [← videos_of_ids hv, ← videos_of_ids hv', h.youtubeData_eq h']
    exact (hids.trans hids'.symm).filterMap _
  · have hn : ∀ job ∈ jobs, ¬ job.IsFor query user := fun job hm hfor => hj ⟨job, hm, hfor⟩
    rw [h.others query user hn, h'.others query user hn]

theorem Aftermath.same (h : Aftermath jobs s₀ s) (h' : Aftermath jobs s₀ t) : Same s t :=
  ⟨h.youtubeData_eq h', h.youtubevideos_eq h', h.saved_perm h'⟩

end Unique

def guarantee (jobs : List Job) (i : Nat) (h : History) (x : Call Cmd Answer) : Prop :=
  ∃ job, jobs[i]? = some job ∧ insertPromise job.records h x

theorem together_lawful (s : Store) (jobs : List Job) :
    Lawful (guarantee jobs)
      (fun i _ h => AllIndexed h ∧ ∀ job, jobs[i]? = some job → Finished job.records [] h)
      (together s jobs) := by
  intro i
  cases hj : jobs[i]? with
  | none => simp [together, process, hj, allIndexed_nil]
  | some job =>
    simp only [together, process, hj, own_nil]
    refine (insertIntoDatabase_obeys job.records job.now []).mono (fun h x hx => ⟨job, hj, hx.2⟩) ?_
    rintro _ h hf
    refine ⟨hf.allIndexed allIndexed_nil, fun job' hj' => ?_⟩
    obtain rfl := Option.some.inj hj'
    exact hf

section Videos

structure Videos (jobs : List Job) (s₀ s : Store) (t : List (Entry Cmd Answer Store)) : Prop where
  stored : ∀ id, s.youtubeData id = s₀.youtubeData id ∨
    ∃ e ∈ t, ∃ fields, e.call = ⟨.saveVideo ⟨id, fields⟩, true⟩ ∧ s.youtubeData id = some fields
  missing : ∀ e ∈ t, ∀ id, e.call = ⟨.findVideo id, none⟩ → s₀.youtubeData id = none
  read : ∀ e ∈ t, ∀ id fields, e.call = ⟨.findVideo id, some fields⟩ → s.youtubeData id = some fields
  written : ∀ e ∈ t, ∀ v, e.call = ⟨.saveVideo v, true⟩ → s.youtubeData v.video_id = some v.fields ∧
    s₀.youtubeData v.video_id = none ∧ ∃ value, HasRecord jobs v.video_id value ∧ videoFields value = .ok v.fields
  index : ∀ id, s.youtubevideos id = s₀.youtubevideos id ∧ (∀ e ∈ t, ∀ body, e.call ≠ ⟨.index id body, ()⟩) ∨
    s₀.youtubeData id = none ∧ ∃ value body, HasRecord jobs id value ∧ indexed value = some body ∧
      s.youtubevideos id = some body

variable {env : Env} {jobs : List Job} {s₀ s : Store} {t : List (Entry Cmd Answer Store)} {i : Nat} {c : Cmd}

theorem Videos.missing_own (hv : Videos jobs s₀ s t) {id : String}
    (h : (⟨.findVideo id, none⟩ : Call Cmd Answer) ∈ own i t) : s₀.youtubeData id = none := by
  obtain ⟨e, he, -, hc⟩ := mem_own.mp h
  exact hv.missing e he id hc

/-- A job saves a video only if it was missing at first, and with the fields
of its record. -/
theorem Videos.save_new (hv : Videos jobs s₀ s t) {v : Video} {r : Bool}
    (hG : guarantee jobs i (own i t) ⟨.saveVideo v, r⟩) :
    s₀.youtubeData v.video_id = none ∧ ∃ value, HasRecord jobs v.video_id value ∧ videoFields value = .ok v.fields := by
  obtain ⟨job, hj, value, rest, hm, hf, hh⟩ := hG
  refine ⟨hv.missing_own (i := i) (by rw [hh]; simp), value, ⟨job, List.mem_of_getElem? hj, hm⟩, hf⟩

theorem Videos.keeps (hv : Videos jobs s₀ s t) (ha : Agree jobs)
    (hG : guarantee jobs i (own i t) ⟨c, (exec env c s).1⟩) : Keeps s (exec env c s).2 := by
  intro id fields hid
  obtain hsame | ⟨fields', hcall, hnew⟩ := youtubeData_changed env c s id
  · rw [hsame]
    exact hid
  · rw [hcall] at hG
    obtain ⟨hn, value, hi, hf⟩ := hv.save_new hG
    obtain hs | ⟨e, he, fields'', hcall', hs⟩ := hv.stored id
    · exact absurd (hid.symm.trans (hs.trans hn)) (by simp)
    · -- the two items for the video agree, so they have the same fields
      obtain ⟨-, -, value', hi', hf'⟩ := hv.written e he _ hcall'
      obtain rfl := ha id value value' hi hi'
      obtain rfl : fields' = fields'' := Except.ok.inj (hf.symm.trans hf')
      rw [hnew, ← hs, hid]

theorem youtubevideos_changed (env : Env) (c : Cmd) (s : Store) (id : String) :
    (∀ body, c ≠ .index id body) ∧ (exec env c s).2.youtubevideos id = s.youtubevideos id ∨
      ∃ body, c = .index id body ∧ (exec env c s).2.youtubevideos id = some body := by
  cases c with
  | index id' body =>
    by_cases hid : id = id'
    · subst hid
      exact .inr ⟨body, rfl, Function.update_self _ _ _⟩
    · exact .inl ⟨by simp [Ne.symm hid], Function.update_of_ne hid _ _⟩
  | saveVideo v => exact .inl ⟨by simp, by by_cases h : env.acceptsVideo v <;> simp [exec, h]⟩
  | saveQuery oid d => exact .inl ⟨by simp, by by_cases h : env.acceptsQuery d <;> simp [exec, h]⟩
  | insertQuery d => exact .inl ⟨by simp, by by_cases h : env.acceptsQuery d <;> simp [exec, h]⟩
  | findVideo | findQuery | pageVideos | pageQueries | delay => exact .inl ⟨by simp, rfl⟩

theorem Videos.stored_none (hv : Videos jobs s₀ s t) {id : String} (h : s.youtubeData id = none) :
    s₀.youtubeData id = none := by
  obtain hs | ⟨_, _, fields, -, hs⟩ := hv.stored id
  · rw [← hs, h]
  · rw [h] at hs
    cases hs

theorem Videos.stored_call (hv : Videos jobs s₀ s t) (id : String) :
    (exec env c s).2.youtubeData id = s₀.youtubeData id ∨
      ∃ e ∈ (⟨i, ⟨c, (exec env c s).1⟩, s⟩ : Entry Cmd Answer Store) :: t, ∃ fields,
        e.call = ⟨.saveVideo ⟨id, fields⟩, true⟩ ∧ (exec env c s).2.youtubeData id = some fields := by
  obtain hsame | ⟨fields, hcall, hnew⟩ := youtubeData_changed env c s id
  · rw [hsame]
    refine (hv.stored id).imp_right ?_
    rintro ⟨e, he, fields, h⟩
    exact ⟨e, List.mem_cons_of_mem _ he, fields, h⟩
  · exact .inr ⟨_, List.mem_cons_self, fields, hcall, hnew⟩

theorem Videos.index_call (hv : Videos jobs s₀ s t) (hG : guarantee jobs i (own i t) ⟨c, (exec env c s).1⟩)
    (id : String) :
    (exec env c s).2.youtubevideos id = s₀.youtubevideos id ∧
      (∀ e ∈ (⟨i, ⟨c, (exec env c s).1⟩, s⟩ : Entry Cmd Answer Store) :: t, ∀ body,
        e.call ≠ ⟨.index id body, ()⟩) ∨
    s₀.youtubeData id = none ∧ ∃ value body, HasRecord jobs id value ∧ indexed value = some body ∧
      (exec env c s).2.youtubevideos id = some body := by
  obtain ⟨hc, hsame⟩ | ⟨body, rfl, hnew⟩ := youtubevideos_changed env c s id
  · rw [hsame]
    refine (hv.index id).imp_left fun ⟨hs, hn⟩ => ⟨hs, List.forall_mem_cons.mpr ⟨?_, hn⟩⟩
    intro body he
    exact hc body (congrArg Call.cmd he)
  · obtain ⟨job, hj, value, fields, rest, hm, -, hb, hh⟩ := hG
    have hmissing : s₀.youtubeData id = none := hv.missing_own (i := i) (by rw [hh]; simp)
    exact .inr ⟨hmissing, value, body, ⟨job, List.mem_of_getElem? hj, hm⟩, hb, hnew⟩

theorem Videos.call (hv : Videos jobs s₀ s t) (ha : Agree jobs)
    (hG : guarantee jobs i (own i t) ⟨c, (exec env c s).1⟩) :
    Videos jobs s₀ (exec env c s).2 (⟨i, ⟨c, (exec env c s).1⟩, s⟩ :: t) := by
  have hk := hv.keeps ha hG
  refine ⟨hv.stored_call, ?_, ?_, ?_, hv.index_call hG⟩
  · refine List.forall_mem_cons.mpr ⟨?_, hv.missing⟩
    exact fun id hcall => hv.stored_none (youtubeData_found hcall)
  · refine List.forall_mem_cons.mpr ⟨?_, fun e he id fields h => hk _ _ (hv.read e he id fields h)⟩
    exact fun id fields hcall => hk _ _ (youtubeData_found hcall)
  · refine List.forall_mem_cons.mpr ⟨?_, fun e he v h => (hv.written e he v h).imp_left (hk _ _)⟩
    intro v hcall
    refine ⟨youtubeData_saved hcall, ?_⟩
    obtain rfl : c = .saveVideo v := congrArg Call.cmd hcall
    exact hv.save_new hG

end Videos

section Saved

/-- What the calls so far have done to the saved queries. A document changes
only through the job for its query and user, so that what this job has read
last is still so. -/
structure Saved (jobs : List Job) (s₀ s : Store) (t : List (Entry Cmd Answer Store)) : Prop where
  asked : ∀ e ∈ t, ∀ query user found, e.call = ⟨.findQuery query user, found⟩ →
    ∃ job, jobs[e.pid]? = some job ∧ job.IsFor query user
  last : ∀ i query user found rest, own i t = ⟨.findQuery query user, found⟩ :: rest →
    first s.queryModel (isFor query user) = found
  docs : ∀ i job query user, jobs[i]? = some job → job.IsFor query user →
    (matching s.queryModel (isFor query user) = matching s₀.queryModel (isFor query user) ∧
      ∀ x ∈ own i t, writes x = false) ∨
    ∃ d, matching s.queryModel (isFor query user) = d :: (matching s₀.queryModel (isFor query user)).tail ∧
      Gathered job.records.items (own i t) d.videos
  others : ∀ query user, (∀ job ∈ jobs, ¬ job.IsFor query user) →
    matching s.queryModel (isFor query user) = matching s₀.queryModel (isFor query user)

variable {env : Env} {jobs : List Job} {s₀ s : Store} {t : List (Entry Cmd Answer Store)} {i : Nat} {c : Cmd}

theorem isFor_ne {query user query' user' : String} (h : ¬ (query' = query ∧ user' = user)) {d : QueryDoc}
    (hd : isFor query' user' d = true) : isFor query user d = false := by
  obtain ⟨rfl, rfl⟩ := of_decide_eq_true hd
  exact decide_eq_false h

/-- The documents for one query and user do not change when a job for another
one makes a call. -/
theorem Saved.frame (hs : Saved jobs s₀ s t) (hG : guarantee jobs i (own i t) ⟨c, (exec env c s).1⟩)
    {query user : String} (hn : ∀ job, jobs[i]? = some job → ¬ job.IsFor query user) :
    first (exec env c s).2.queryModel (isFor query user) = first s.queryModel (isFor query user) ∧
      matching (exec env c s).2.queryModel (isFor query user) = matching s.queryModel (isFor query user) := by
  obtain ⟨job, hj, hp⟩ := hG
  obtain he | ⟨oid, d, rfl, he⟩ | ⟨d, rfl, he⟩ := queryModel_cases env c s
  · rw [he]
    exact ⟨rfl, rfl⟩
  · obtain ⟨query', user', doc, rest, hh, hq, hu, hd, -⟩ := hp
    have hne : ¬ (query' = query ∧ user' = user) := by
      rintro ⟨rfl, rfl⟩
      exact hn job hj ⟨hq, hu⟩
    obtain ⟨hm, hdoc⟩ := first_eq_some (hs.last i _ _ _ _ hh)
    have hd' : isFor query' user' d = true := by rw [hd]; exact hdoc
    rw [he]
    exact ⟨first_replace_of_not hm (isFor_ne hne hdoc) (isFor_ne hne hd'),
      matching_replace_of_not hm (isFor_ne hne hdoc) (isFor_ne hne hd')⟩
  · obtain ⟨rest, hh, hq, hu, -⟩ := hp
    have hd : isFor query user d = false := by
      refine decide_eq_false ?_
      rintro ⟨rfl, rfl⟩
      exact hn job hj ⟨hq, hu⟩
    rw [he]
    exact ⟨by simp [first_insert, hd], by simp [matching_insert, hd]⟩

theorem Job.IsFor.unique {job : Job} {query user query' user' : String} (h : job.IsFor query user)
    (h' : job.IsFor query' user') : query = query' ∧ user = user' :=
  ⟨Except.ok.inj (h.1.symm.trans h'.1), Except.ok.inj (h.2.symm.trans h'.2)⟩

/-- A job that saves replaces the first document, or adds one if there is
none. -/
theorem Saved.write (hs : Saved jobs s₀ s t) {job : Job} {query user : String} (hj : jobs[i]? = some job)
    (hfor : job.IsFor query user) (hp : insertPromise job.records (own i t) ⟨c, (exec env c s).1⟩)
    (hw : writes ⟨c, (exec env c s).1⟩ = true) :
    ∃ d, matching (exec env c s).2.queryModel (isFor query user) =
        d :: (matching s₀.queryModel (isFor query user)).tail ∧ Gathered job.records.items (own i t) d.videos := by
  have htail : (matching s.queryModel (isFor query user)).tail =
      (matching s₀.queryModel (isFor query user)).tail := by
    obtain ⟨h, -⟩ | ⟨d, h, -⟩ := hs.docs i job query user hj hfor
    · rw [h]
    · rw [h, List.tail_cons]
  cases c with
  | saveQuery oid d =>
    obtain ⟨query', user', doc, rest, hh, hq, hu, hd, hg⟩ := hp
    obtain ⟨rfl, rfl⟩ := hfor.unique ⟨hq, hu⟩
    have hf := hs.last i _ _ _ _ hh
    have hd' : isFor query user d = true := by rw [hd]; exact (first_eq_some hf).2
    have hacc : env.acceptsQuery d = true := by
      by_contra hacc
      simp [exec, hacc, writes] at hw
    have he : (exec env (.saveQuery oid d) s).2.queryModel = replace s.queryModel oid d := by simp [exec, hacc]
    exact ⟨d, by rw [he, matching_replace_self hf hd', htail], hg⟩
  | insertQuery d =>
    obtain ⟨rest, hh, hq, hu, hg⟩ := hp
    obtain ⟨rfl, rfl⟩ := hfor.unique ⟨hq, hu⟩
    have hnil := first_eq_none.mp (hs.last i _ _ _ _ hh)
    have hd' : isFor d.query d.user d = true := by simp [isFor]
    have hacc : env.acceptsQuery d = true := by
      by_contra hacc
      simp [exec, hacc, writes] at hw
    have he : (exec env (.insertQuery d) s).2.queryModel = insert s.queryModel d := by simp [exec, hacc]
    refine ⟨d, ?_, hg⟩
    rw [he, matching_insert, ← htail, hnil, hd']
    rfl
  | findVideo | saveVideo | index | findQuery | pageVideos | pageQueries | delay => cases hw

theorem queryModel_of_not_writes (h : writes ⟨c, (exec env c s).1⟩ = false) :
    (exec env c s).2.queryModel = s.queryModel := by
  obtain he | ⟨oid, d, rfl, -⟩ | ⟨d, rfl, -⟩ := queryModel_cases env c s
  · exact he
  · by_cases hacc : env.acceptsQuery d
    · simp [exec, hacc, writes] at h
    · simp [exec, hacc]
  · by_cases hacc : env.acceptsQuery d
    · simp [exec, hacc, writes] at h
    · simp [exec, hacc]

theorem Saved.docs_own (hs : Saved jobs s₀ s t) {job : Job} {query user : String} (hj : jobs[i]? = some job)
    (hfor : job.IsFor query user) (hp : insertPromise job.records (own i t) ⟨c, (exec env c s).1⟩) :
    (matching (exec env c s).2.queryModel (isFor query user) = matching s₀.queryModel (isFor query user) ∧
      ∀ x ∈ ⟨c, (exec env c s).1⟩ :: own i t, writes x = false) ∨
    ∃ d, matching (exec env c s).2.queryModel (isFor query user) =
        d :: (matching s₀.queryModel (isFor query user)).tail ∧
      Gathered job.records.items (⟨c, (exec env c s).1⟩ :: own i t) d.videos := by
  cases hw : writes ⟨c, (exec env c s).1⟩ with
  | true =>
    obtain ⟨d, hd, hg⟩ := hs.write hj hfor hp hw
    exact .inr ⟨d, hd, hg.mono (List.subset_cons_self _ _)⟩
  | false =>
    rw [queryModel_of_not_writes hw]
    refine (hs.docs i job query user hj hfor).imp ?_ ?_
    · exact fun ⟨hm, hn⟩ => ⟨hm, List.forall_mem_cons.mpr ⟨hw, hn⟩⟩
    · exact fun ⟨d, hm, hg⟩ => ⟨d, hm, hg.mono (List.subset_cons_self _ _)⟩

theorem apart_of_ne (ha : jobs.Pairwise Apart) {j : Nat} {a b : Job} (hi : jobs[i]? = some a)
    (hj : jobs[j]? = some b) (hne : i ≠ j) : Apart a b := by
  obtain ⟨hi', rfl⟩ := List.getElem?_eq_some_iff.mp hi
  obtain ⟨hj', rfl⟩ := List.getElem?_eq_some_iff.mp hj
  have hp := List.pairwise_iff_getElem.mp ha
  obtain h | h := Nat.lt_or_gt_of_ne hne
  · exact hp i j hi' hj' h
  · exact fun query user h1 h2 => hp j i hj' hi' h query user h2 h1

theorem Saved.call (hs : Saved jobs s₀ s t) (ha : jobs.Pairwise Apart)
    (hG : guarantee jobs i (own i t) ⟨c, (exec env c s).1⟩) :
    Saved jobs s₀ (exec env c s).2 (⟨i, ⟨c, (exec env c s).1⟩, s⟩ :: t) := by
  -- a job other than `i` finds its own documents as they were
  have hother : ∀ j job query user, jobs[j]? = some job → job.IsFor query user → i ≠ j →
      first (exec env c s).2.queryModel (isFor query user) = first s.queryModel (isFor query user) ∧
        matching (exec env c s).2.queryModel (isFor query user) = matching s.queryModel (isFor query user) :=
    fun j job query user hj hfor hne =>
      hs.frame hG fun job' hi hfor' => apart_of_ne ha hi hj hne query user hfor' hfor
  constructor
  · refine List.forall_mem_cons.mpr ⟨?_, hs.asked⟩
    intro query user found hcall
    obtain rfl : c = .findQuery query user := congrArg Call.cmd hcall
    obtain ⟨job, hj, hp⟩ := hG
    exact ⟨job, hj, hp⟩
  · intro j query user found rest hown
    by_cases hij : i = j
    · subst hij
      rw [own_cons_self] at hown
      obtain ⟨hcall, -⟩ := List.cons.inj hown
      obtain rfl : c = .findQuery query user := congrArg Call.cmd hcall
      simp only [Call.mk.injEq, true_and, heq_eq_eq] at hcall
      exact hcall
    · rw [own_cons_ne hij] at hown
      obtain ⟨e, he, rfl, hcall⟩ := mem_own.mp (show _ ∈ own j t from hown ▸ List.mem_cons_self)
      obtain ⟨job, hj, hfor⟩ := hs.asked e he query user found hcall
      rw [(hother e.pid job query user hj hfor hij).1]
      exact hs.last e.pid query user found rest hown
  · intro j job query user hj hfor
    by_cases hij : i = j
    · subst hij
      rw [own_cons_self]
      obtain ⟨job', hj', hp⟩ := hG
      obtain rfl := Option.some.inj (hj.symm.trans hj')
      exact hs.docs_own hj hfor hp
    · rw [own_cons_ne hij, (hother j job query user hj hfor hij).2]
      exact hs.docs j job query user hj hfor
  · intro query user hn
    have hf := hs.frame hG fun job hj => hn job (List.mem_of_getElem? hj)
    rw [hf.2]
    exact hs.others query user hn

end Saved

section Finish

variable {env : Env} {jobs : List Job} {s₀ s : Store} {t : List (Entry Cmd Answer Store)}
  {P : Pool Cmd Answer Exn Unit Store}

theorem videos_and_saved (ha : Agree jobs) (hap : jobs.Pairwise Apart)
    (hr : Runs (machine env) (fun _ _ => True) (together s₀ jobs) P) :
    Videos jobs s₀ P.store P.trace ∧ Saved jobs s₀ P.store P.trace := by
  have hc := Chronicle.of_runs (I := fun s t => Videos jobs s₀ s t ∧ Saved jobs s₀ s t)
    (together_lawful s₀ jobs) rfl ?_ ?_ (fun x => x.elim) hr
  · exact hc.now
  · constructor
    · exact ⟨fun _ => .inl rfl, by simp, by simp, by simp, fun _ => .inl ⟨rfl, by simp⟩⟩
    · exact ⟨by simp, by simp, fun _ _ _ _ _ _ => .inl ⟨rfl, by simp⟩, fun _ _ _ => rfl⟩
  · rintro s t i c ⟨hv, hs⟩ hG
    exact ⟨hv.call ha hG, hs.call hap hG⟩

theorem Videos.seen (hv : Videos jobs s₀ s t) {i : Nat} {v : Video} (h : Seen (own i t) v) :
    s.youtubeData v.video_id = some v.fields := by
  obtain hf | ⟨hw, -⟩ := h
  · obtain ⟨e, he, -, hc⟩ := mem_own.mp hf
    exact hv.read e he _ _ hc
  · obtain ⟨e, he, -, hc⟩ := mem_own.mp hw
    exact (hv.written e he v hc).1

theorem Saved.finished (hs : Saved jobs s₀ s t) {i : Nat} {job : Job} (hj : jobs[i]? = some job)
    (hf : Finished job.records [] (own i t)) {query user : String} (hfor : job.IsFor query user) :
    ∃ d, matching s.queryModel (isFor query user) = d :: (matching s₀.queryModel (isFor query user)).tail ∧
      Gathered job.records.items (own i t) d.videos := by
  obtain ⟨-, hn⟩ | hd := hs.docs i job query user hj hfor
  · obtain ⟨x, hx, hw⟩ := hf.written
    rw [hn x hx] at hw
    cases hw
  · exact hd

/-- A video that was not there at first has been saved by some job. -/
theorem new_stored (hv : Videos jobs s₀ s t) (hs : Saved jobs s₀ s t)
    (hf : ∀ i job, jobs[i]? = some job → Finished job.records [] (own i t)) {id : String} {value : Value}
    (hn : s₀.youtubeData id = none) (hi : HasRecord jobs id value) :
    ∃ e ∈ t, ∃ fields, e.call = ⟨.saveVideo ⟨id, fields⟩, true⟩ ∧ s.youtubeData id = some fields := by
  obtain ⟨job, hm, hitem⟩ := hi
  obtain ⟨i, hj⟩ := List.mem_iff_getElem?.mp hm
  obtain ⟨query, user, hq, hu, -⟩ := (hf i job hj).document
  obtain ⟨d, -, hg⟩ := hs.finished hj (hf i job hj) ⟨hq, hu⟩
  have hid : id ∈ d.videos.map Video.video_id := hg.ids.mem_iff.mpr (List.mem_map_of_mem hitem)
  obtain ⟨v, hvm, rfl⟩ := List.mem_map.mp hid
  have hseen := hv.seen (hg.seen v hvm)
  obtain hold | hnew := hv.stored v.video_id
  · rw [hseen, hn] at hold
    cases hold
  · exact hnew

theorem aftermath_of_finished (ha : Agree jobs) (hv : Videos jobs s₀ s t) (hs : Saved jobs s₀ s t)
    (hall : ∀ i, AllIndexed (own i t))
    (hf : ∀ i job, jobs[i]? = some job → Finished job.records [] (own i t)) : Aftermath jobs s₀ s := by
  constructor
  · intro id hold
    obtain h | ⟨e, he, fields, hc, -⟩ := hv.stored id
    · exact h
    · obtain ⟨-, hn, value, hi, -⟩ := hv.written e he _ hc
      exact absurd hold (not_or.mpr ⟨not_not.mpr hn, fun h => h value hi⟩)
  · intro id value hn hi
    obtain ⟨e, he, fields, hc, hst⟩ := new_stored hv hs hf hn hi
    obtain ⟨-, -, value', hi', hfields⟩ := hv.written e he _ hc
    obtain rfl := ha id value value' hi hi'
    exact ⟨fields, hfields, hst⟩
  · intro id hold
    obtain h | ⟨hn, value, body, hi, -, -⟩ := hv.index id
    · exact h.1
    · exact absurd hold (not_or.mpr ⟨not_not.mpr hn, fun h => h value hi⟩)
  · intro id value hn hi
    obtain ⟨e, he, fields, hc, -⟩ := new_stored hv hs hf hn hi
    obtain ⟨body, hb⟩ := hall e.pid ⟨id, fields⟩ (mem_own.mpr ⟨e, he, rfl, hc⟩)
    obtain ⟨e', he', -, hc'⟩ := mem_own.mp hb
    obtain ⟨-, hno⟩ | ⟨-, value', body', hi', hb', hst⟩ := hv.index id
    · exact absurd hc' (hno e' he' body)
    · obtain rfl := ha id value value' hi hi'
      exact ⟨body', hb', hst⟩
  · intro job hm query user hfor
    obtain ⟨i, hj⟩ := List.mem_iff_getElem?.mp hm
    obtain ⟨d, hd, hg⟩ := hs.finished hj (hf i job hj) hfor
    exact ⟨d, hd, hg.ids, fun v hvm => hv.seen (hg.seen v hvm)⟩
  · exact hs.others

theorem aftermath_of_runs (ha : Agree jobs) (hap : jobs.Pairwise Apart)
    (hr : Runs (machine env) (fun _ _ => True) (together s₀ jobs) P) (hdone : ∀ i, P.procs i = .ret ()) :
    Aftermath jobs s₀ P.store := by
  obtain ⟨hv, hs⟩ := videos_and_saved ha hap hr
  have hq : ∀ i, AllIndexed (own i P.trace) ∧
      ∀ job, jobs[i]? = some job → Finished job.records [] (own i P.trace) := by
    intro i
    have hl := (together_lawful s₀ jobs).runs hr i
    rw [hdone i] at hl
    exact hl
  exact aftermath_of_finished ha hv hs (fun i => (hq i).1) fun i => (hq i).2

/-- Running the jobs one by one is one way to interleave them. -/
theorem runs_oneByOne (done rest : List Job)
    (hP : ∀ i, P.procs i = if i < done.length then .ret () else process (done ++ rest) i)
    (h : oneByOne env rest P.store = some s) :
    ∃ P', Runs (machine env) (fun _ _ => True) P P' ∧ P'.store = s ∧ ∀ i, P'.procs i = .ret () := by
  induction rest generalizing done P with
  | nil =>
    refine ⟨P, .refl, Option.some.inj h, fun i => ?_⟩
    rw [hP i]
    split
    · rfl
    · next hi =>
      have hnone : (done ++ [])[i]? = none := List.getElem?_eq_none (by simpa using hi)
      simp only [process, hnone]
  | cons job rest ih =>
    have hproc : P.procs done.length = job.program := by
      rw [hP, if_neg (Nat.lt_irrefl _)]
      simp [process]
    unfold oneByOne at h
    split at h
    · next t hrun =>
      obtain ⟨P', hr, hst, hprocs⟩ := runs_alone (M := machine env) (P := P) (i := done.length)
        (a := ()) (s := t) (by rw [hproc]; exact hrun)
      have hP' : ∀ i, P'.procs i = if i < (done ++ [job]).length then .ret () else
          process ((done ++ [job]) ++ rest) i := by
        intro i
        rw [hprocs, List.append_assoc, List.singleton_append, List.length_append, List.length_singleton]
        by_cases hi : i = done.length
        · subst hi
          simp
        · have hiff : i < done.length ↔ i < done.length + 1 := by omega
          simp only [Function.update_of_ne hi, hP i, hiff]
      obtain ⟨P'', hr', hst', hdone⟩ := ih (done ++ [job]) hP' (by rw [hst]; exact h)
      exact ⟨P'', hr.trans hr', hst', hdone⟩
    · cases h

theorem aftermath_of_oneByOne (ha : Agree jobs) (hap : jobs.Pairwise Apart) (h : oneByOne env jobs s₀ = some s) :
    Aftermath jobs s₀ s := by
  obtain ⟨P, hr, hst, hdone⟩ := runs_oneByOne (P := together s₀ jobs) [] jobs (fun i => rfl) h
  rw [← hst]
  exact aftermath_of_runs ha hap hr hdone

structure Job.Complete (job : Job) : Prop where
  texts : ∃ query user, job.IsFor query user
  fields : ∀ x ∈ videoItems job.records.items, ∃ date title description url,
    x.2 = .video ⟨some date, some title, some description, some url⟩

structure NoneFails (env : Env) : Prop where
  video : ∀ v, env.acceptsVideo v = true
  query : ∀ d, env.acceptsQuery d = true

theorem Job.Complete.completes {job : Job} (h : job.Complete) (hn : NoneFails env) (s : Store) :
    ∃ query user, Completes env s job.records job.now query user := by
  obtain ⟨query, user, hq, hu⟩ := h.texts
  refine ⟨query, user, hq, hu, fun x hx _ => ?_, hn.query _⟩
  obtain ⟨date, title, description, url, hv⟩ := h.fields x hx
  rw [hv]
  exact ⟨_, rfl, hn.video _⟩

theorem oneByOne_isSome (hn : NoneFails env) (hc : ∀ job ∈ jobs, job.Complete) (s : Store) :
    ∃ t, oneByOne env jobs s = some t := by
  induction jobs generalizing s with
  | nil => exact ⟨s, rfl⟩
  | cons job jobs ih =>
    obtain ⟨hjob, hjobs⟩ := List.forall_mem_cons.mp hc
    obtain ⟨query, user, hcomp⟩ := hjob.completes hn s
    rw [oneByOne, Job.program, run_insertIntoDatabase hcomp]
    exact ih hjobs _

theorem schedules_agree {order : List Job} (hc : ∀ job ∈ jobs, job.Complete) (ha : Agree jobs)
    (hap : jobs.Pairwise Apart) (hr : Runs (machine env) (fun _ _ => True) (together s₀ jobs) P)
    (hdone : ∀ i, P.procs i = .ret ()) (ho : order.Perm jobs) :
    (∀ t, oneByOne env order s₀ = some t → Same P.store t) ∧
      (NoneFails env → ∃ t, oneByOne env order s₀ = some t) := by
  have hout := (aftermath_of_runs ha hap hr hdone).perm ho
  have ha' : Agree order := by
    intro id v w hv hw
    simp only [HasRecord, ho.mem_iff] at hv hw
    exact ha id v w hv hw
  have hap' : order.Pairwise Apart :=
    (ho.pairwise_iff fun h query user h1 h2 => h query user h2 h1).mpr hap
  constructor
  · intro t ht
    exact hout.same (aftermath_of_oneByOne ha' hap' ht)
  · intro hn
    exact oneByOne_isSome hn (fun job hm => hc job (ho.mem_iff.mp hm)) s₀

end Finish

section SharedVideo

def otherQuery : Dict Value where
  items := [("abcdefghijk", .video videoRecord), ("query", .text "celery beat"),
    ("user", .text "user@example.com")]
  nodup := by decide

def sharing : List Job := [⟨oneRecord, 1⟩, ⟨otherQuery, 2⟩]

/-- Both jobs find the video missing, and both save it. -/
def raced : Pool Cmd Answer Exn Unit Store :=
  [0, 1, 0, 1, 0, 1, 0, 1, 0, 1].foldl (fun P i => P.move (machine acceptAll) (.go i))
    (together Store.empty sharing)

def returned : Prog Unit → Bool
  | .ret () => true
  | _ => false

theorem eq_ret_of_returned {p : Prog Unit} (h : returned p = true) : p = .ret () := by
  cases p with
  | ret u => rfl
  | raise e => cases h
  | call c k => cases h

theorem raced_returned : returned (raced.procs 0) = true ∧ returned (raced.procs 1) = true := by
  decide +kernel

theorem raced_done (i : Nat) : raced.procs i = .ret () := by
  match i with
  | 0 => exact eq_ret_of_returned raced_returned.1
  | 1 => exact eq_ret_of_returned raced_returned.2
  | i + 2 => exact procs_go_of_not_mem (by simp) _

theorem sharing_items {job : Job} (h : job ∈ sharing) :
    videoItems job.records.items = [("abcdefghijk", .video videoRecord)] := by
  obtain rfl | h := List.mem_cons.mp h
  · decide +kernel
  · obtain rfl := List.mem_singleton.mp h
    decide +kernel

theorem sharing_complete {job : Job} (h : job ∈ sharing) : job.Complete := by
  constructor
  · obtain rfl | h := List.mem_cons.mp h
    · exact ⟨"celery videos", "user@example.com", by decide, by decide⟩
    · obtain rfl := List.mem_singleton.mp h
      exact ⟨"celery beat", "user@example.com", by decide, by decide⟩
  · intro x hx
    rw [sharing_items h, List.mem_singleton] at hx
    rw [hx]
    exact ⟨someDate, "celery videos", "an introduction", noUrl, rfl⟩

theorem sharing_agree : Agree sharing := by
  have hitem : ∀ id v, HasRecord sharing id v → v = .video videoRecord := by
    rintro id v ⟨job, hm, hv⟩
    rw [sharing_items hm, List.mem_singleton] at hv
    exact congrArg Prod.snd hv
  intro id v w hv hw
  rw [hitem id v hv, hitem id w hw]

theorem sharing_apart : sharing.Pairwise Apart := by
  refine List.pairwise_pair.mpr fun query user h h' => ?_
  have hq : text oneRecord "query" = text otherQuery "query" := h.1.trans h'.1.symm
  exact absurd hq (by decide)

theorem raced_like_one_by_one :
    ∃ t, oneByOne acceptAll sharing.reverse Store.empty = some t ∧ Same raced.store t := by
  have hr : Runs (machine acceptAll) (fun _ _ => True) (together Store.empty sharing) raced :=
    runs_moves ([0, 1, 0, 1, 0, 1, 0, 1, 0, 1].map .go) _
  obtain ⟨hsame, hsome⟩ := schedules_agree (fun _ h => sharing_complete h) sharing_agree sharing_apart hr raced_done
    (List.reverse_perm sharing)
  obtain ⟨t, ht⟩ := hsome ⟨fun _ => rfl, fun _ => rfl⟩
  exact ⟨t, ht, hsame t ht⟩

end SharedVideo

end YoutubeRecords.IngestionSchedules
