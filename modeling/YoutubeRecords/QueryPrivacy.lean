import Mathlib.Logic.Equiv.Basic
import YoutubeRecords.QueryRenaming
import YoutubeRecords.QueryUniqueness

namespace YoutubeRecords.QueryPrivacy

open CommandProgram ProgramPool PythonBasics Documents VideoStore VideoIngestion SearchViews IngestionPromises
  QueryUniqueness Lockstep QueryRenaming

inductive Reply where
  | search (r : SearchResponse)
  | bulk (r : BulkResponse)
  | done

def answering : Execution → Prog Reply
  | .search api now request => do return .search (← searchingView.get api now request)
  | .bulk request => do return .bulk (← bulkRegistration.get request)
  | .topic request => do
    let _ ← topicRegistration.post request
    return .done
  | .fetch api user n query now => do
    let _ ← fetchYoutubeData api user n query now
    return .done
  | .insert records now => do
    insertIntoDatabase records now
    return .done

def asker : Execution → Option String
  | .search _ _ request => request.currentUser
  | .bulk request => request.currentUser
  | .topic request => request.currentUser
  | .fetch _ user _ _ _ => some user
  | .insert _ _ => none

def executed (env : Env) (s : Store) (execs : Nat → Execution) (moves : List (Move Exn Empty)) :
    Pool Cmd Answer Exn Reply Store :=
  moves.foldl (fun P m => P.move (machine env) m) ⟨fun i => answering (execs i), s, []⟩

def outcome : Prog Reply → Option (Except Exn Reply)
  | .ret reply => some (.ok reply)
  | .raise e => some (.error e)
  | .call _ _ => none

section Renamed

variable (u : String) (ρ : String → String)

/-- The second execution is the first one with its query renamed, unless it is
one of `u`. The API answers both alike. -/
inductive Renamed : Execution → Execution → Prop
  | search {api api' : Api} (now : Nat) (request : SearchRequest)
      (h : ∀ query, request.q = some query → SameAnswers u ρ request.currentUser query api api') :
      Renamed (.search api now request) (.search api' now (renSearch u ρ request))
  | bulk (request : BulkRequest) : Renamed (.bulk request) (.bulk (renBulk u ρ request))
  | topic (request : TopicRequest) : Renamed (.topic request) (.topic (renTopic u ρ request))
  | fetch {api api' : Api} (user : String) (n : Json) (query : String) (now : Nat)
      (h : SameAnswers u ρ (some user) query api api') :
      Renamed (.fetch api user n query now) (.fetch api' user n (renamed u ρ (some user) query) now)

def SameReplies (execs : Nat → Execution) (P P' : Pool Cmd Answer Exn Reply Store) : Prop :=
  ∀ i, asker (execs i) = some u → outcome (P.procs i) = outcome (P'.procs i)

/-- The fetches of the others get no results without a title or a description. -/
def TitledFetches : Execution → Prop
  | .search api _ request => ∀ query, request.q = some query → Titled u request.currentUser query api
  | .fetch api user _ query _ => Titled u (some user) query api
  | _ => True

end Renamed

variable {u : String} {ρ : String → String} {env : Env}

theorem outcome_of_follows {asker : Option String} {p q : Prog Reply}
    (h : Follows (translation u ρ) (SameFor u asker) p q) (hu : asker = some u) : outcome p = outcome q := by
  cases p with
  | ret a =>
    obtain ⟨b, rfl, hab⟩ := h
    exact congrArg some (hab hu)
  | raise e =>
    obtain ⟨e', rfl, hee⟩ := h
    exact congrArg some (hee hu)
  | call c k =>
    obtain ⟨k', rfl, -⟩ := h
    rfl

theorem answering_follows (hρ : Function.Injective ρ) (hb : KeepsBlank ρ) {e e' : Execution} (h : Renamed u ρ e e')
    (ht : TitledFetches u e) :
    Follows (translation u ρ) (SameFor u (asker e)) (answering e) (answering e') := by
  cases h with
  | search now request h =>
    exact (search_follows hb h ht now).bind_eq (fun _ => follows_ret fun _ => rfl) fun _ _ => rfl
  | bulk request =>
    refine (bulk_follows hρ request).bind (fun a b hab => follows_ret fun hu => ?_) fun e e' hee hu => ?_
    · rw [Except.ok.inj (hab hu)]
    · rw [Except.error.inj (hee hu)]
  | topic request => exact (topic_follows hb request).bind_eq (fun _ => follows_ret fun _ => rfl) fun _ _ => rfl
  | fetch user n query now h =>
    exact (fetchYoutubeData_follows h ht n now).bind_eq (fun _ => follows_ret fun _ => rfl) fun _ _ => rfl

/-- What other users ask for does not show in the answers to `u`, as long as
no fetch of theirs falls back on the query for a title or a description. -/
theorem replies_same (hρ : Function.Injective ρ) (hb : KeepsBlank ρ) (he : TextBlind env)
    {execs execs' : Nat → Execution} (h : ∀ i, Renamed u ρ (execs i) (execs' i))
    (ht : ∀ i, TitledFetches u (execs i)) (s : Store) (moves : List (Move Exn Empty)) :
    SameReplies u execs (executed env s execs moves) (executed env (renStore u ρ s) execs' moves) := by
  have hpaired : Paired (translation u ρ) (renStore u ρ) (fun i => SameFor u (asker (execs i)))
      (executed env s execs moves) (executed env (renStore u ρ s) execs' moves) :=
    Paired.moves ⟨rfl, fun i => answering_follows hρ hb (h i) (ht i)⟩ (translation_commutes hρ hb he)
      (fun _ _ _ => rfl) moves
  exact fun i hu => outcome_of_follows (hpaired.procs i) hu

section SharedVideo

def titledVideo (title : VideoIngestion.Field String) : Api where
  search _ _ := .ok (some [⟨some "abcdefghijk", .value "2021-05-01T10:00:00Z", title, .value "an introduction"⟩])
  videos _ := .ok (some [⟨some "abcdefghijk", .null⟩])

/-- Another user finds a video under this title, then `user@example.com` finds
it twice. -/
def threeSearches (title : VideoIngestion.Field String) : Nat → Execution
  | 0 => .search (titledVideo title) 1 ⟨some "garden plans", some "other@example.com", none, some "1"⟩
  | 1 => .search oneVideo 2 ⟨some "celery videos", some "user@example.com", none, some "1"⟩
  | 2 => .search oneVideo 3 ⟨some "celery videos", some "user@example.com", none, some "1"⟩
  | _ => .topic ⟨.null, .null, none⟩

def renSearches (ρ : String → String) (title : VideoIngestion.Field String) : Nat → Execution
  | 0 => .search (titledVideo title) 1 ⟨some (ρ "garden plans"), some "other@example.com", none, some "1"⟩
  | i + 1 => threeSearches title (i + 1)

def inTurn : List (Move Exn Empty) := List.flatten [List.replicate 6 (.go 0), List.replicate 6 (.go 1), [.go 2]]

def shownTitle : Option (Except Exn Reply) → Option String
  | some (.ok (.search (.page _ (.saved v :: _)))) => some v.fields.title
  | _ => none

theorem renamed_searches (ρ : String → String) (title : VideoIngestion.Field String) (i : Nat) :
    Renamed "user@example.com" ρ (threeSearches title i) (renSearches ρ title i) := by
  have hown : ∀ now, Renamed "user@example.com" ρ
      (.search oneVideo now ⟨some "celery videos", some "user@example.com", none, some "1"⟩)
      (.search oneVideo now ⟨some "celery videos", some "user@example.com", none, some "1"⟩) := by
    intro now
    have hr : renSearch "user@example.com" ρ ⟨some "celery videos", some "user@example.com", none, some "1"⟩ =
        ⟨some "celery videos", some "user@example.com", none, some "1"⟩ := by
      simp [renSearch, renamed]
    nth_rewrite 2 [← hr]
    exact .search now _ fun _ _ => ⟨fun _ => rfl, rfl⟩
  obtain _ | _ | _ | i := i
  · have hr : renSearch "user@example.com" ρ ⟨some "garden plans", some "other@example.com", none, some "1"⟩ =
        ⟨some (ρ "garden plans"), some "other@example.com", none, some "1"⟩ := by
      simp [renSearch, renamed]
    rw [renSearches, ← hr]
    exact .search 1 _ fun _ _ => ⟨fun _ => rfl, rfl⟩
  · exact hown 2
  · exact hown 3
  · exact .topic ⟨.null, .null, none⟩

theorem titled_searches (title : String) (i : Nat) :
    TitledFetches "user@example.com" (threeSearches (.value title) i) := by
  obtain _ | _ | _ | i := i
  · intro query _ _ n items hs item hi
    obtain rfl := Option.some.inj (Except.ok.inj hs)
    obtain rfl := List.mem_singleton.mp hi
    exact ⟨nofun, nofun⟩
  · exact fun _ _ hu => absurd rfl hu
  · exact fun _ _ hu => absurd rfl hu
  · trivial

theorem keepsBlank_swap {a b : String} (ha : a ≠ "") (hb : b ≠ "") (ha' : isspace a = false)
    (hb' : isspace b = false) :
    KeepsBlank (Equiv.swap a b) := by
  constructor
  · intro query
    rw [Equiv.swap_apply_def]
    split
    · next h => simp [h, ha, hb]
    · split
      · next h => simp [h, ha, hb]
      · exact Iff.rfl
  · intro query
    rw [Equiv.swap_apply_def]
    split
    · next h => rw [h, ha', hb']
    · split
      · next h => rw [h, ha', hb']
      · rfl

theorem acceptAll_textBlind : TextBlind acceptAll := fun _ _ _ => rfl

theorem leak_checks :
    shownTitle (outcome ((executed acceptAll Store.empty (threeSearches .null) inTurn).procs 2)) =
      some "garden plans" ∧
    shownTitle (outcome ((executed acceptAll Store.empty
      (renSearches (Equiv.swap "garden plans" "wedding plans") .null) inTurn).procs 2)) = some "wedding plans" := by
  decide +kernel

theorem blank_checks :
    shownTitle (outcome ((executed acceptAll Store.empty (threeSearches (.value "garden tour")) inTurn).procs 2)) =
      some "garden tour" ∧
    shownTitle (outcome ((executed acceptAll Store.empty
      (renSearches (Equiv.swap "garden plans" "") (.value "garden tour")) inTurn).procs 2)) =
        some "celery videos" := by
  decide +kernel

/-- A title that another user's query has stood in for is shown, and so is
whether the text of that query was one that is looked up at all. -/
theorem query_text_shows :
    (¬ ∀ (u : String) (ρ : String → String) (env : Env) (execs execs' : Nat → Execution) (s : Store)
      (moves : List (Move Exn Empty)), Function.Injective ρ → KeepsBlank ρ → TextBlind env →
      (∀ i, Renamed u ρ (execs i) (execs' i)) →
      SameReplies u execs (executed env s execs moves) (executed env (renStore u ρ s) execs' moves)) ∧
    ¬ ∀ (u : String) (ρ : String → String) (env : Env) (execs execs' : Nat → Execution) (s : Store)
      (moves : List (Move Exn Empty)), Function.Injective ρ → TextBlind env →
      (∀ i, Renamed u ρ (execs i) (execs' i)) → (∀ i, TitledFetches u (execs i)) →
      SameReplies u execs (executed env s execs moves) (executed env (renStore u ρ s) execs' moves) := by
  constructor
  · intro hall
    have h := hall "user@example.com" (Equiv.swap "garden plans" "wedding plans") acceptAll (threeSearches .null)
      (renSearches (Equiv.swap "garden plans" "wedding plans") .null) Store.empty inTurn (Equiv.injective _)
      (keepsBlank_swap (by decide) (by decide) (by decide) (by decide)) acceptAll_textBlind
      (renamed_searches _ .null) 2 rfl
    have ht := congrArg shownTitle h
    rw [leak_checks.1] at ht
    exact absurd (ht.trans leak_checks.2) (by decide)
  · intro hall
    have h := hall "user@example.com" (Equiv.swap "garden plans" "") acceptAll (threeSearches (.value "garden tour"))
      (renSearches (Equiv.swap "garden plans" "") (.value "garden tour")) Store.empty inTurn (Equiv.injective _)
      acceptAll_textBlind (renamed_searches _ _) (titled_searches "garden tour") 2 rfl
    have ht := congrArg shownTitle h
    rw [blank_checks.1] at ht
    exact absurd (ht.trans blank_checks.2) (by decide)

theorem replies_same_titled :
    shownTitle (outcome ((executed acceptAll Store.empty (threeSearches (.value "garden tour")) inTurn).procs 2)) =
      some "garden tour" ∧
    SameReplies "user@example.com" (threeSearches (.value "garden tour"))
      (executed acceptAll Store.empty (threeSearches (.value "garden tour")) inTurn)
      (executed acceptAll (renStore "user@example.com" (Equiv.swap "garden plans" "wedding plans") Store.empty)
        (renSearches (Equiv.swap "garden plans" "wedding plans") (.value "garden tour")) inTurn) :=
  ⟨blank_checks.1, replies_same (Equiv.injective _)
    (keepsBlank_swap (by decide) (by decide) (by decide) (by decide)) acceptAll_textBlind (renamed_searches _ _)
    (titled_searches "garden tour") Store.empty inTurn⟩

end SharedVideo

end YoutubeRecords.QueryPrivacy
