import YoutubeRecords.CheckThenAct
import YoutubeRecords.IngestionPromises

namespace YoutubeRecords.QueryUniqueness

open CommandProgram ProgramPool CheckThenAct PythonBasics Documents OrderedDict VideoStore VideoIngestion
  IngestionPromises

/-- At most one document for each query and user, and no video twice in what
a search unwinds. -/
def OneDocument (s : Store) : Prop :=
  ∀ query user, (matching s.queryModel (isFor query user)).length ≤ 1 ∧
    ((s.unwound query user).map Video.video_id).Nodup

def inserts : Cmd → String × String → Prop
  | .insertQuery d, k => (d.query, d.user) = k
  | _, _ => False

def foundNone : Call Cmd Answer → String × String → Prop
  | ⟨.findQuery query user, found⟩, k => (query, user) = k ∧ found = none
  | _, _ => False

def hasDocument (s : Store) (k : String × String) : Prop := matching s.queryModel (isFor k.1 k.2) ≠ []

def ReadDocuments (s : Store) (t : List (Entry Cmd Answer Store)) : Prop :=
  ∀ e ∈ t, ∀ query user oid doc, e.call = ⟨.findQuery query user, some (oid, doc)⟩ →
    ∃ doc', (oid, doc') ∈ s.queryModel.docs ∧ doc'.query = doc.query ∧ doc'.user = doc.user

variable {env : Env} {s : Store} {t : List (Entry Cmd Answer Store)} {target : String → String → Prop}

theorem inserts_iff {c : Cmd} {k : String × String} :
    inserts c k ↔ ∃ d, c = .insertQuery d ∧ (d.query, d.user) = k := by
  cases c <;> simp [inserts]

theorem foundNone_iff {x : Call Cmd Answer} {k : String × String} :
    foundNone x k ↔ x = ⟨.findQuery k.1 k.2, none⟩ := by
  obtain ⟨c, r⟩ := x
  cases c with
  | findQuery query user =>
    constructor
    · rintro ⟨rfl, rfl⟩
      rfl
    · intro h
      cases h
      exact ⟨rfl, rfl⟩
  | findVideo | saveVideo | index | saveQuery | insertQuery | pageVideos | pageQueries | delay =>
    simp [foundNone]

theorem queryModel_cases (env : Env) (c : Cmd) (s : Store) :
    (exec env c s).2.queryModel = s.queryModel ∨
      (∃ oid d, c = .saveQuery oid d ∧ (exec env c s).2.queryModel = replace s.queryModel oid d) ∨
      ∃ d, c = .insertQuery d ∧ (exec env c s).2.queryModel = insert s.queryModel d := by
  cases c with
  | saveQuery oid d =>
    by_cases h : env.acceptsQuery d
    · exact .inr (.inl ⟨oid, d, rfl, by simp [exec, h]⟩)
    · exact .inl (by simp [exec, h])
  | insertQuery d =>
    by_cases h : env.acceptsQuery d
    · exact .inr (.inr ⟨d, rfl, by simp [exec, h]⟩)
    · exact .inl (by simp [exec, h])
  | saveVideo v => exact .inl (by by_cases h : env.acceptsVideo v <;> simp [exec, h])
  | findVideo | index | findQuery | pageVideos | pageQueries | delay => exact .inl rfl

/-- The last call before a save read a document for the same query and user
under the same identifier. -/
theorem saved_read {i : Nat} {oid : Nat} {d : QueryDoc} {r : Bool}
    (h : ReadDocuments s t) (hp : promise target (own i t) ⟨.saveQuery oid d, r⟩) :
    ∃ doc, (oid, doc) ∈ s.queryModel.docs ∧ doc.query = d.query ∧ doc.user = d.user := by
  obtain ⟨records, ⟨query, user, doc, rest, hh, -, -, hd, -⟩, -⟩ := hp
  have hm : (⟨.findQuery query user, some (oid, doc)⟩ : Call Cmd Answer) ∈ own i t := by rw [hh]; simp
  obtain ⟨e, he, -, hcall⟩ := mem_own.mp hm
  obtain ⟨doc', hdoc, hq, hu⟩ := h e he query user oid doc hcall
  rw [hd]
  exact ⟨doc', hdoc, hq, hu⟩

theorem isFor_congr {query user : String} {d e : QueryDoc} (hq : d.query = e.query) (hu : d.user = e.user) :
    isFor query user d = isFor query user e := by
  simp only [isFor, hq, hu]

/-- A document stays under its identifier, for the same query and user. -/
theorem document_kept {i : Nat} {c : Cmd} (h : ReadDocuments s t)
    (hp : promise target (own i t) ⟨c, (exec env c s).1⟩) {oid : Nat} {doc : QueryDoc}
    (hd : (oid, doc) ∈ s.queryModel.docs) :
    ∃ doc', (oid, doc') ∈ (exec env c s).2.queryModel.docs ∧ doc'.query = doc.query ∧ doc'.user = doc.user := by
  obtain he | ⟨oid', d, rfl, he⟩ | ⟨d, rfl, he⟩ := queryModel_cases env c s
  · rw [he]
    exact ⟨doc, hd, rfl, rfl⟩
  · obtain ⟨e, hm, hq, hu⟩ := saved_read h hp
    rw [he]
    by_cases ho : oid = oid'
    · subst ho
      have hde : doc = e := by
        have h1 := KeyedList.lookup_of_mem s.queryModel.nodup hd
        have h2 := KeyedList.lookup_of_mem s.queryModel.nodup hm
        exact (Prod.mk.inj (Option.some.inj (h1.symm.trans h2))).2
      rw [hde]
      exact ⟨d, mem_replace_self hm, hq.symm, hu.symm⟩
    · exact ⟨doc, mem_replace_of_ne hd ho hm, rfl, rfl⟩
  · rw [he]
    exact ⟨doc, mem_insert.mpr (.inl hd), rfl, rfl⟩

theorem readDocuments_call {i : Nat} {c : Cmd} (h : ReadDocuments s t)
    (hp : promise target (own i t) ⟨c, (exec env c s).1⟩) :
    ReadDocuments (exec env c s).2 (⟨i, ⟨c, (exec env c s).1⟩, s⟩ :: t) := by
  refine List.forall_mem_cons.mpr ⟨?_, ?_⟩
  · intro query user oid doc hcall
    obtain rfl : c = .findQuery query user := congrArg Call.cmd hcall
    have hf : first s.queryModel (isFor query user) = some (oid, doc) := by
      simp only [Call.mk.injEq, true_and, heq_eq_eq] at hcall
      exact hcall
    exact ⟨doc, (first_eq_some hf).1, rfl, rfl⟩
  · intro e he query user oid doc hcall
    obtain ⟨doc', hd, hq, hu⟩ := h e he query user oid doc hcall
    obtain ⟨doc'', hd', hq', hu'⟩ := document_kept h hp hd
    exact ⟨doc'', hd', hq'.trans hq, hu'.trans hu⟩

theorem hasDocument_iff {k : String × String} :
    hasDocument s k ↔ ∃ oid doc, (oid, doc) ∈ s.queryModel.docs ∧ (doc.query, doc.user) = k := by
  constructor
  · intro h
    obtain ⟨doc, hd⟩ := List.exists_mem_of_ne_nil _ h
    obtain ⟨⟨oid, hm⟩, hp⟩ := mem_matching.mp hd
    obtain ⟨hq, hu⟩ := of_decide_eq_true hp
    exact ⟨oid, doc, hm, by rw [hq, hu]⟩
  · rintro ⟨oid, doc, hm, rfl⟩ hn
    have hd : doc ∈ matching s.queryModel (isFor doc.query doc.user) :=
      mem_matching.mpr ⟨⟨oid, hm⟩, by simp [isFor]⟩
    rw [hn] at hd
    cases hd

theorem protocol (env : Env) (execs : Nat → Execution) :
    Protocol (machine env) (fun i => promise (execs i).IsFor) ReadDocuments inserts foundNone hasDocument where
  guarded := by
    rintro i h ⟨c, r⟩ k hp ha
    obtain ⟨d, rfl, rfl⟩ := inserts_iff.mp ha
    obtain ⟨records, ⟨rest, hh, -⟩, -⟩ := hp
    exact ⟨_, rest, hh, foundNone_iff.mpr rfl⟩
  truthful := by
    intro c s k hc
    have hx := foundNone_iff.mp hc
    obtain rfl : c = .findQuery k.1 k.2 := congrArg Call.cmd hx
    have hr : first s.queryModel (isFor k.1 k.2) = none := by
      simp only [Call.mk.injEq, true_and, heq_eq_eq] at hx
      exact hx
    exact not_not.mpr (first_eq_none.mp hr)
  readOnly := by
    intro c r k hc ha
    obtain ⟨d, rfl, -⟩ := inserts_iff.mp ha
    exact hc
  created := by
    intro s t i c k hJ hp h
    obtain ⟨oid, doc, hm, hk⟩ := hasDocument_iff.mp h
    change (oid, doc) ∈ (exec env c s).2.queryModel.docs at hm
    obtain he | ⟨oid', d, rfl, he⟩ | ⟨d, rfl, he⟩ := queryModel_cases env c s
    · rw [he] at hm
      exact .inl (hasDocument_iff.mpr ⟨oid, doc, hm, hk⟩)
    · rw [he] at hm
      obtain heq | hm := mem_of_mem_replace hm
      · obtain ⟨rfl, rfl⟩ := Prod.mk.inj heq
        obtain ⟨e, hme, hq, hu⟩ := saved_read hJ hp
        exact .inl (hasDocument_iff.mpr ⟨oid, e, hme, by rw [hq, hu, hk]⟩)
      · exact .inl (hasDocument_iff.mpr ⟨oid, doc, hm, hk⟩)
    · rw [he] at hm
      obtain hm | heq := mem_insert.mp hm
      · exact .inl (hasDocument_iff.mpr ⟨oid, doc, hm, hk⟩)
      · obtain ⟨rfl, rfl⟩ := Prod.mk.inj heq
        exact .inr hk
  kept := fun _ _ _ _ hJ hp => readDocuments_call hJ hp
  env := fun x => x.elim
  envKept := fun x => x.elim

structure Tidy (s : Store) : Prop where
  single : ∀ query user, (matching s.queryModel (isFor query user)).length ≤ 1
  distinct : ∀ x ∈ s.queryModel.docs, (x.2.videos.map Video.video_id).Nodup

theorem gathered_nodup {records : Dict Value} {h : History} {videos : List Video}
    (hg : Gathered records.items h videos) : (videos.map Video.video_id).Nodup := by
  refine hg.ids.nodup_iff.mpr ?_
  exact List.Nodup.sublist (List.Sublist.map _ List.filter_sublist) records.nodup

theorem tidy_insert {d : QueryDoc} (h : Tidy s) (hd : (d.videos.map Video.video_id).Nodup)
    (hn : ¬ hasDocument s (d.query, d.user))
    (hs : (exec env (.insertQuery d) s).2.queryModel = insert s.queryModel d) :
    Tidy (exec env (.insertQuery d) s).2 := by
  constructor
  · intro query user
    rw [hs]
    refine length_matching_insert (fun hp => ?_) (h.single query user)
    obtain ⟨rfl, rfl⟩ := of_decide_eq_true hp
    exact not_not.mp hn
  · intro x hx
    rw [hs] at hx
    obtain hx | rfl := mem_insert.mp hx
    · exact h.distinct x hx
    · exact hd

theorem tidy_replace {oid : Nat} {d e : QueryDoc} (h : Tidy s) (hd : (d.videos.map Video.video_id).Nodup)
    (he : (oid, e) ∈ s.queryModel.docs) (hq : e.query = d.query) (hu : e.user = d.user)
    (hs : (exec env (.saveQuery oid d) s).2.queryModel = replace s.queryModel oid d) :
    Tidy (exec env (.saveQuery oid d) s).2 := by
  constructor
  · intro query user
    rw [hs, length_matching_replace he (isFor_congr hq hu)]
    exact h.single query user
  · intro x hx
    rw [hs] at hx
    obtain rfl | hx := mem_of_mem_replace hx
    · exact hd
    · exact h.distinct x hx

theorem Tidy.congr {s' : Store} (h : Tidy s) (hs : s'.queryModel = s.queryModel) : Tidy s' := by
  constructor
  · intro query user
    rw [hs]
    exact h.single query user
  · intro x hx
    rw [hs] at hx
    exact h.distinct x hx

theorem tidy_call {i : Nat} {c : Cmd} (h : Tidy s) (hJ : ReadDocuments s t)
    (hp : promise target (own i t) ⟨c, (exec env c s).1⟩) (hf : ∀ k, inserts c k → ¬ hasDocument s k) :
    Tidy (exec env c s).2 := by
  obtain he | ⟨oid, d, rfl, he⟩ | ⟨d, rfl, he⟩ := queryModel_cases env c s
  · exact h.congr he
  · obtain ⟨e, hm, hq, hu⟩ := saved_read hJ hp
    obtain ⟨records, ⟨_, _, _, _, _, _, _, _, hg⟩, -⟩ := hp
    exact tidy_replace h (gathered_nodup hg) hm hq hu he
  · obtain ⟨records, ⟨_, _, _, _, hg⟩, -⟩ := hp
    exact tidy_insert h (gathered_nodup hg) (hf _ rfl) he

theorem Tidy.oneDocument (h : Tidy s) : OneDocument s := by
  intro query user
  refine ⟨h.single query user, ?_⟩
  have hl := h.single query user
  unfold Store.unwound
  match hm : matching s.queryModel (isFor query user) with
  | [] => simp
  | [d] =>
    have hd : d ∈ matching s.queryModel (isFor query user) := by rw [hm]; simp
    obtain ⟨⟨oid, hx⟩, -⟩ := mem_matching.mp hd
    simpa using h.distinct (oid, d) hx
  | d :: e :: rest =>
    rw [hm] at hl
    simp at hl

theorem one_document {execs : Nat → Execution} {P : Pool Cmd Answer Exn Unit Store}
    (h : Runs (machine env) (fun Q _ => Exclusive inserts Q) (start Store.empty execs) P) :
    OneDocument P.store := by
  have hp := protocol env execs
  have hstart := hp.start (start_lawful Store.empty execs) rfl (by simp [ReadDocuments])
  have htidy : Tidy P.store := by
    refine hstart.invariant hp h (I := fun s _ => Tidy s) ?_ ?_ (fun x => x.elim)
    · exact ⟨by simp [start, Store.empty, Documents.empty, matching],
        by simp [start, Store.empty, Documents.empty]⟩
    · intro s t i c hs hJ hG hf
      exact tidy_call hs hJ hG hf
  exact htidy.oneDocument

section SameTopicTwice

def acceptAll : Env := ⟨fun _ => true, fun _ => true⟩

def oneVideo : Api where
  search _ _ := .ok (some [⟨some "abcdefghijk", .value "2021-05-01T10:00:00Z", .value "celery videos",
    .value "an introduction"⟩])
  videos _ := .ok (some [⟨some "abcdefghijk", .null⟩])

/-- Two tasks for one topic of one user; all other executions stop at once. -/
def sameTopic : Nat → Execution
  | 0 => .fetch oneVideo "user@example.com" (.num 10 0) "celery videos" 1
  | 1 => .fetch oneVideo "user@example.com" (.num 10 0) "celery videos" 2
  | _ => .topic ⟨.null, .null, none⟩

def afterMoves (moves : List (Move Exn Empty)) : Pool Cmd Answer Exn Unit Store :=
  moves.foldl (fun P m => P.move (machine acceptAll) m) (start Store.empty sameTopic)

/-- Both tasks look the query up before either of them inserts it. -/
def racingMoves : List (Move Exn Empty) :=
  [.go 0, .go 0, .go 0, .go 0, .go 1, .go 1, .go 1, .go 0, .go 1]

theorem racing_documents : (matching (afterMoves racingMoves).store.queryModel
    (isFor "celery videos" "user@example.com")).length = 2 := by
  decide +kernel

theorem two_documents_by_race : ¬ ∀ (env : Env) (execs : Nat → Execution)
    (P : Pool Cmd Answer Exn Unit Store),
    Runs (machine env) (fun _ _ => True) (start Store.empty execs) P → OneDocument P.store := by
  intro hall
  have h := (hall acceptAll sameTopic (afterMoves racingMoves) (runs_moves _ _) "celery videos"
    "user@example.com").1
  rw [racing_documents] at h
  exact absurd h (by decide)

def insertsQuery : Cmd → Bool
  | .insertQuery _ => true
  | _ => false

/-- Both tasks find the video missing and save it, but the second one looks
the query up only after the first one has inserted it. -/
def turnMoves : List (Move Exn Empty) :=
  [.go 0, .go 1, .go 0, .go 0, .go 1, .go 1, .go 0, .go 0, .go 1, .go 1]

theorem turn_checks :
    (checkMoves (machine acceptAll) (takesTurns insertsQuery) turnMoves (start Store.empty sameTopic) &&
      ((afterMoves turnMoves).procs 0).returned && ((afterMoves turnMoves).procs 1).returned) = true ∧
    ((afterMoves turnMoves).store.unwound "celery videos" "user@example.com").map Video.video_id =
      ["abcdefghijk"] := by
  decide +kernel

theorem one_document_in_turn :
    (((afterMoves turnMoves).procs 0).returned && ((afterMoves turnMoves).procs 1).returned) = true ∧
      ((afterMoves turnMoves).store.unwound "celery videos" "user@example.com").map Video.video_id =
        ["abcdefghijk"] ∧
      OneDocument (afterMoves turnMoves).store := by
  obtain ⟨hchecks, hunwound⟩ := turn_checks
  simp only [Bool.and_eq_true, and_assoc] at hchecks
  obtain ⟨hturns, h0, h1⟩ := hchecks
  have hacts : ∀ c k, inserts c k → insertsQuery c = true := by
    intro c k hc
    obtain ⟨d, rfl, -⟩ := inserts_iff.mp hc
    rfl
  have hr : Runs (machine acceptAll) (fun Q _ => Exclusive inserts Q) (start Store.empty sameTopic)
      (afterMoves turnMoves) :=
    (protocol acceptAll sameTopic).runs_in_turn hacts turnMoves (start_lawful Store.empty sameTopic) hturns
  exact ⟨by rw [h0, h1]; rfl, hunwound, one_document hr⟩

end SameTopicTwice

end YoutubeRecords.QueryUniqueness
