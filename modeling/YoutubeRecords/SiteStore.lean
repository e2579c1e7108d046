import YoutubeRecords.AccountStore
import YoutubeRecords.CommandEmbedding
import YoutubeRecords.VideoStore

namespace YoutubeRecords.SiteStore

open CommandProgram ProgramPool CommandEmbedding PythonBasics

/-- The bodies of the two searches: a title that matches a keyword, or a
publication date within bounds. -/
inductive IndexQuery where
  | matchTitle (keyword : String)
  | publishedWithin (gte lte : VideoStore.Date)

structure Hit where
  id : String
  source : VideoStore.Indexed
  deriving DecidableEq

/-- The answer of Elasticsearch: how many documents match, and some of them. -/
structure SearchResult where
  total : Nat
  hits : List Hit

inductive Cmd where
  | account (c : AccountStore.Cmd)
  | video (c : VideoStore.Cmd)
  | searchIndex (query : IndexQuery)
  | takeTask

@[reducible] def Answer : Cmd → Type
  | .account c => AccountStore.Answer c
  | .video c => VideoStore.Answer c
  | .searchIndex _ => SearchResult
  | .takeTask => Option VideoStore.Task

/-- All stores of the site. Searches see the index as it was at its last
refresh; of the queued tasks, the first `taken` are with the workers. -/
structure Store where
  accounts : AccountStore.Store
  videos : VideoStore.Store
  searchable : String → Option VideoStore.Indexed
  taken : Nat

structure Env where
  accounts : AccountStore.Env
  videos : VideoStore.Env
  search : (String → Option VideoStore.Indexed) → IndexQuery → SearchResult

def exec (env : Env) : (c : Cmd) → Store → Answer c × Store
  | .account c, s =>
    ((AccountStore.exec env.accounts c s.accounts).1,
      { s with accounts := (AccountStore.exec env.accounts c s.accounts).2 })
  | .video c, s =>
    ((VideoStore.exec env.videos c s.videos).1, { s with videos := (VideoStore.exec env.videos c s.videos).2 })
  | .searchIndex query, s => (env.search s.searchable query, s)
  | .takeTask, s =>
    match s.videos.tasks[s.taken]? with
    | some task => (some task, { s with taken := s.taken + 1 })
    | none => (none, s)

inductive Event where
  | tick (ms : Nat)
  | refresh

def machine (env : Env) : Machine Cmd Answer Store Event where
  exec := exec env
  env
    | .tick ms, s => { s with accounts := (AccountStore.machine env.accounts).env ms s.accounts }
    | .refresh, s => { s with searchable := s.videos.youtubevideos }

abbrev Prog (α : Type) := Program Cmd Answer Exn α

abbrev ask (c : Cmd) : Prog (Answer c) := perform c

abbrev History := List (Call Cmd Answer)

abbrev Trace := List (Entry Cmd Answer Store)

def accounts : Embedding AccountStore.Cmd AccountStore.Answer Cmd Answer where
  cmd := .account
  res _ r := r
  part
    | ⟨.account c, r⟩ => some ⟨c, r⟩
    | _ => none
  part_cmd _ _ := rfl

def videos : Embedding VideoStore.Cmd VideoStore.Answer Cmd Answer where
  cmd := .video
  res _ r := r
  part
    | ⟨.video c, r⟩ => some ⟨c, r⟩
    | _ => none
  part_cmd _ _ := rfl

def Event.ms : Event → Option Nat
  | .tick ms => some ms
  | .refresh => none

theorem foreign_accounts {c : Cmd} (h : ∀ a, c ≠ .account a) : accounts.Foreign c := by
  intro r
  cases c with
  | account a => exact absurd rfl (h a)
  | video | searchIndex | takeTask => rfl

theorem foreign_videos {c : Cmd} (h : ∀ v, c ≠ .video v) : videos.Foreign c := by
  intro r
  cases c with
  | video v => exact absurd rfl (h v)
  | account | searchIndex | takeTask => rfl

theorem takeTask_parts (env : Env) (s : Store) :
    (exec env .takeTask s).2.accounts = s.accounts ∧ (exec env .takeTask s).2.videos = s.videos := by
  simp only [exec]
  split <;> exact ⟨rfl, rfl⟩

theorem accounts_component (env : Env) :
    Component (machine env) (AccountStore.machine env.accounts) accounts Store.accounts Event.ms where
  exec _ _ := rfl
  foreign c s h := by
    cases c with
    | account a => exact absurd (h (exec env (.account a) s).1) (by simp [accounts])
    | video | searchIndex => rfl
    | takeTask => exact (takeTask_parts env s).1
  env t u s h := by
    cases t with
    | tick ms =>
      obtain rfl := Option.some.inj h
      rfl
    | refresh => cases h
  still t s h := by
    cases t with
    | tick ms => cases h
    | refresh => rfl

theorem videos_component (env : Env) :
    Component (machine env) (VideoStore.machine env.videos) videos Store.videos (fun _ => none) where
  exec _ _ := rfl
  foreign c s h := by
    cases c with
    | video v => exact absurd (h (exec env (.video v) s).1) (by simp [videos])
    | account | searchIndex => rfl
    | takeTask => exact (takeTask_parts env s).2
  env t u := u.elim
  still t s _ := by
    cases t with
    | tick | refresh => rfl

end YoutubeRecords.SiteStore
