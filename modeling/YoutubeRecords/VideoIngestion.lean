import YoutubeRecords.OrderedDict
import YoutubeRecords.VideoStore

namespace YoutubeRecords.VideoIngestion

open CommandProgram PythonBasics OrderedDict VideoStore

/-- The dictionary `fetch_youtube_data` fills for one video. A field that was
never set raises a `KeyError` when it is read. -/
structure VideoRecord where
  published_at : Option Date
  title : Option String
  description : Option String
  url : Option String
  deriving DecidableEq

/-- The values of the records dictionary: one record per video, and the texts
under the keys `query` and `user`. -/
inductive Value where
  | video (r : VideoRecord)
  | text (s : String)
  deriving DecidableEq

def noUrl : String := "http://127.0.0.1:8000/NoUrlAvailable"

def orElse (text default : String) : String := if text.toList.length ≠ 0 then text else default

/-- The arguments of the `YoutubeData` constructor, in the order in which they
are evaluated. -/
def videoFields : Value → Except Exn VideoFields
  | .text _ => .error .typeError
  | .video r =>
    match r.published_at, r.title, r.description, r.url with
    | none, _, _, _ => .error (.keyError "published_at")
    | _, none, _, _ => .error (.keyError "title")
    | _, _, none, _ => .error (.keyError "description")
    | _, _, _, none => .error (.keyError "url")
    | some date, some title, some description, some url =>
      .ok ⟨date, orElse title "no title", orElse description "no description", orElse url noUrl⟩

def insertIntoElastic (value : Value) (videoId : String) : Prog Unit :=
  match value with
  | .text _ => .raise .typeError
  | .video r =>
    match r.title, r.published_at with
    | none, _ => .raise (.keyError "title")
    | _, none => .raise (.keyError "published_at")
    | some title, some date => ask (.index videoId ⟨title, date⟩)

/-- The `except DoesNotExist` branch: save a new video and index it. -/
def insertNewVideo (videoId : String) (value : Value) : Prog Video :=
  match videoFields value with
  | .error e => .raise e
  | .ok fields => do
    if ← ask (.saveVideo ⟨videoId, fields⟩) then
      insertIntoElastic value videoId
      return ⟨videoId, fields⟩
    else .raise .validationError

def skipped (key : String) : Bool := decide (key = "user" ∨ key = "query")

/-- The loop over the records: `complete` holds the videos that were there,
`new` those inserted by this execution. -/
def insertVideos : List (String × Value) → List Video → List Video → Prog (List Video)
  | [], complete, new => return complete ++ new
  | (key, value) :: rest, complete, new =>
    if skipped key then insertVideos rest complete new
    else do
      match ← ask (.findVideo key) with
      | some _ =>
        match ← ask (.findVideo key) with
        | some fields => insertVideos rest (complete ++ [⟨key, fields⟩]) new
        | none =>
          let video ← insertNewVideo key value
          insertVideos rest complete (new ++ [video])
      | none =>
        let video ← insertNewVideo key value
        insertVideos rest complete (new ++ [video])

def text (records : Dict Value) (key : String) : Except Exn String :=
  match get records key with
  | none => .error (.keyError key)
  | some (.video _) => .error .typeError
  | some (.text s) => .ok s

def saveQuery (query user : String) (videos : List Video) (now : Nat) : Prog Unit := do
  match ← ask (.findQuery query user) with
  | some (oid, doc) =>
    if ← ask (.saveQuery oid { doc with videos := videos }) then return () else .raise .validationError
  | none =>
    if ← ask (.insertQuery ⟨user, query, videos, now⟩) then return () else .raise .validationError

def insertIntoDatabase (records : Dict Value) (now : Nat) : Prog Unit := do
  let videos ← insertVideos records.items [] []
  match text records "query", text records "user" with
  | .error e, _ => .raise e
  | _, .error e => .raise e
  | .ok query, .ok user => saveQuery query user videos now

/-- A value of a JSON object: absent, `null`, or there. -/
inductive Field (α : Type) where
  | missing
  | null
  | value (a : α)

structure SearchItem where
  videoId : Option String
  publishedAt : Field String
  title : Field String
  description : Field String

structure VideoItem where
  id : Option String
  url : Field String

/-- The answers of the YouTube Data API: to a search for a text and a number
of results, and to a request for videos by their ids. A failed request is an
error, an answer without `items` is `none`. -/
structure Api where
  search : String → Json → Except Exn (Option (List SearchItem))
  videos : String → Except Exn (Option (List VideoItem))

def defaulted (key default : String) : Field String → Except Exn String
  | .missing => .error (.keyError key)
  | .null => .ok default
  | .value s => .ok s

def intOf (s : String) : Except Exn Int :=
  match int s with
  | some n => .ok n
  | none => .error .valueError

/-- The numbers that `datetime` can take over from Python's integers. -/
def fitsInt (n : Int) : Bool := decide (-2147483648 ≤ n ∧ n ≤ 2147483647)

/-- `datetime.datetime(y, m, d).date()`. -/
def makeDate (y m d : Int) : Except Exn Date :=
  if !(fitsInt y && fitsInt m && fitsInt d) then .error .overflowError
  else if h : 1 ≤ y.toNat ∧ y.toNat ≤ 9999 ∧ 1 ≤ m.toNat ∧ m.toNat ≤ 12 ∧ 1 ≤ d.toNat ∧
      d.toNat ≤ daysInMonth y.toNat m.toNat then
    .ok ⟨y.toNat, m.toNat, d.toNat, h⟩
  else .error .valueError

def finalDate : Field String → Except Exn Date
  | .missing => .error (.keyError "publishedAt")
  | .null => .error .attributeError
  | .value publishedAt =>
    match split '-' publishedAt with
    | y :: m :: d :: _ => do
      let y ← intOf y
      let m ← intOf m
      let d ← intOf (String.ofList (d.toList.take 2))
      makeDate y m d
    | [y, m] => do
      let _ ← intOf y
      let _ ← intOf m
      .error .indexError
    | [y] => do
      let _ ← intOf y
      .error .indexError
    | [] => .error .indexError

def addItem (query : String) (acc : List String × Dict Value) (item : SearchItem) :
    Except Exn (List String × Dict Value) :=
  match item.videoId with
  | none => .error (.keyError "videoId")
  | some id => do
    let date ← finalDate item.publishedAt
    let title ← defaulted "title" query item.title
    let description ← defaulted "description" query item.description
    return (acc.1 ++ [id], set acc.2 id (.video ⟨some date, some title, some description, none⟩))

def addUrl (records : Dict Value) (item : VideoItem) : Except Exn (Dict Value) :=
  match item.id with
  | none => .error (.keyError "id")
  | some id => do
    let url ← defaulted "url" noUrl item.url
    match get records id with
    | none => .error (.keyError id)
    | some (.text _) => .error .typeError
    | some (.video r) => return set records id (.video { r with url := some url })

/-- The dictionary that `fetch_youtube_data` hands to `insert_into_database`,
or nothing when the search has no results. -/
def fetchedRecords (api : Api) (user : String) (n : Json) (query : String) :
    Except Exn (Option (Dict Value)) := do
  match ← api.search query n with
  | none | some [] => return none
  | some items =>
    let (ids, records) ← items.foldlM (addItem query) ([], OrderedDict.empty)
    match ← api.videos (String.intercalate "," ids) with
    | none => .error (.keyError "items")
    | some results =>
      let records ← results.foldlM addUrl records
      return some (set (set records "query" (.text query)) "user" (.text user))

def fetchYoutubeData (api : Api) (user : String) (n : Json) (query : String) (now : Nat) :
    Prog (Dict Value) :=
  match fetchedRecords api user n query with
  | .error e => .raise e
  | .ok none => return OrderedDict.empty
  | .ok (some records) => do
    insertIntoDatabase records now
    return pop (pop records "user") "query"

end YoutubeRecords.VideoIngestion
