import Mathlib.Data.List.Sort
import YoutubeRecords.Documents
import YoutubeRecords.ProgramPool
import YoutubeRecords.PythonBasics

namespace YoutubeRecords.VideoStore

open CommandProgram ProgramPool PythonBasics Documents

def isLeap (year : Nat) : Bool := decide (year % 4 = 0 ∧ (year % 100 ≠ 0 ∨ year % 400 = 0))

def daysInMonth (year month : Nat) : Nat :=
  if month = 2 then if isLeap year then 29 else 28
  else if month ∈ [4, 6, 9, 11] then 30 else 31

structure Date where
  year : Nat
  month : Nat
  day : Nat
  valid : 1 ≤ year ∧ year ≤ 9999 ∧ 1 ≤ month ∧ month ≤ 12 ∧ 1 ≤ day ∧ day ≤ daysInMonth year month
  deriving DecidableEq

def Date.ordinal (d : Date) : Nat := d.year * 10000 + d.month * 100 + d.day

structure VideoFields where
  published_date : Date
  title : String
  description : String
  actual_link : String
  deriving DecidableEq

/-- A `YoutubeData` document, also as it is embedded in a saved query. -/
structure Video where
  video_id : String
  fields : VideoFields
  deriving DecidableEq

structure QueryDoc where
  user : String
  query : String
  videos : List Video
  query_lasttime : Nat
  deriving DecidableEq

structure Indexed where
  title : String
  published_date : Date
  deriving DecidableEq

structure Task where
  user : String
  n : Json
  query : String

/-- What pymodm's validation admits. -/
structure Env where
  acceptsVideo : Video → Bool
  acceptsQuery : QueryDoc → Bool

inductive Cmd where
  | findVideo (id : String)
  | saveVideo (video : Video)
  | index (id : String) (body : Indexed)
  | findQuery (query user : String)
  | saveQuery (oid : Nat) (doc : QueryDoc)
  | insertQuery (doc : QueryDoc)
  | pageVideos (query user : String) (offset limit : Nat)
  | pageQueries (queries : List String) (user : String) (offset limit : Nat)
  | delay (task : Task)

@[reducible] def Answer : Cmd → Type
  | .findVideo _ => Option VideoFields
  | .saveVideo _ | .saveQuery _ _ | .insertQuery _ => Bool
  | .index _ _ | .delay _ => Unit
  | .findQuery _ _ => Option (Nat × QueryDoc)
  | .pageVideos _ _ _ _ => List Video
  | .pageQueries _ _ _ _ => List QueryDoc

structure Store where
  youtubeData : String → Option VideoFields
  youtubevideos : String → Option Indexed
  queryModel : Collection QueryDoc
  tasks : List Task

def Store.empty : Store := ⟨fun _ => none, fun _ => none, Documents.empty, []⟩

def isFor (query user : String) (d : QueryDoc) : Bool := decide (d.query = query ∧ d.user = user)

def Store.unwound (s : Store) (query user : String) : List Video :=
  (matching s.queryModel (isFor query user)).flatMap QueryDoc.videos

def newerFirst (a b : Video) : Prop := b.fields.published_date.ordinal ≤ a.fields.published_date.ordinal

instance : DecidableRel newerFirst := fun a b =>
  inferInstanceAs (Decidable (b.fields.published_date.ordinal ≤ a.fields.published_date.ordinal))

def Store.page (s : Store) (query user : String) (offset limit : Nat) : List Video :=
  (((s.unwound query user).insertionSort newerFirst).drop offset).take limit

def laterFirst (a b : QueryDoc) : Prop := b.query_lasttime ≤ a.query_lasttime

instance : DecidableRel laterFirst := fun a b =>
  inferInstanceAs (Decidable (b.query_lasttime ≤ a.query_lasttime))

def exec (env : Env) : (c : Cmd) → Store → Answer c × Store
  | .findVideo id, s => (s.youtubeData id, s)
  | .saveVideo v, s =>
    if env.acceptsVideo v then
      (true, { s with youtubeData := Function.update s.youtubeData v.video_id (some v.fields) })
    else (false, s)
  | .index id body, s => ((), { s with youtubevideos := Function.update s.youtubevideos id (some body) })
  | .findQuery query user, s => (first s.queryModel (isFor query user), s)
  | .saveQuery oid d, s =>
    if env.acceptsQuery d then (true, { s with queryModel := replace s.queryModel oid d }) else (false, s)
  | .insertQuery d, s =>
    if env.acceptsQuery d then (true, { s with queryModel := insert s.queryModel d }) else (false, s)
  | .pageVideos query user offset limit, s => (s.page query user offset limit, s)
  | .pageQueries queries user offset limit, s =>
    ((((matching s.queryModel (fun d => decide (d.query ∈ queries ∧ d.user = user))).insertionSort
      laterFirst).drop offset).take limit, s)
  | .delay task, s => ((), { s with tasks := s.tasks ++ [task] })

def machine (env : Env) : Machine Cmd Answer Store Empty := ⟨exec env, fun x _ => x.elim⟩

abbrev Prog (α : Type) := Program Cmd Answer Exn α

abbrev ask (c : Cmd) : Prog (Answer c) := perform c

end YoutubeRecords.VideoStore
