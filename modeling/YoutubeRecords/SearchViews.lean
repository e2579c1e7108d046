import YoutubeRecords.VideoIngestion

namespace YoutubeRecords.SearchViews

open CommandProgram PythonBasics OrderedDict VideoStore VideoIngestion

inductive NextLink where
  | next (offset limit : Int)
  | noMoreVideos
  deriving DecidableEq

def NextLink.text : NextLink → String
  | .next offset limit => "offset=" ++ toString offset ++ "&limit=" ++ toString limit
  | .noMoreVideos => "No More Videos"

/-- An element of a page: a stored video, or a record of a fresh fetch, which
does not carry the id of its video. -/
inductive PageVideo where
  | saved (v : Video)
  | fetched (value : Value)

inductive SearchResponse where
  | message (status : Nat) (key text : String)
  | page (nextLink : NextLink) (videos : List PageVideo)
  | records (videos : Dict Value)

/-- What a search view reads from its request; `currentUser` is the email of
the user that `getUser` found. -/
structure SearchRequest where
  q : Option String
  currentUser : Option String
  offset : Option String
  limit : Option String

def answerPage (api : Api) (now : Nat) (query user : String) (offset limit : Nat) (videos : List Video) :
    Prog SearchResponse :=
  if videos.isEmpty then do
    let records ← fetchYoutubeData api user (.num limit 0) query now
    return .records records
  else
    let nextLink := if videos.length = limit + 1 then NextLink.next (offset + limit) limit else .noMoreVideos
    if limit > videos.length then do
      let records ← fetchYoutubeData api user (.num limit 0) query now
      return .page nextLink (records.items.map (fun x => .fetched x.2))
    else return .page nextLink ((videos.take limit).map .saved)

def searchVideos (api : Api) (now : Nat) (query user : String) (offset limit : Nat) :
    Prog SearchResponse := do
  let videos ← ask (.pageVideos query user offset (limit + 1))
  answerPage api now query user offset limit videos

def searchingView.get (api : Api) (now : Nat) (request : SearchRequest) : Prog SearchResponse :=
  match intOf (request.offset.getD "0"), intOf (request.limit.getD "5") with
  | .error e, _ => .raise e
  | _, .error e => .raise e
  | .ok offset, .ok limit =>
    if limit < 0 ∨ offset < 0 then
      return .message 400 "message" "Number of videos cann't be smaller than 0"
    else
      match request.q.filter (fun q => decide (q ≠ "")), request.currentUser with
      | none, _ => return .message 400 "error" "query not specified"
      | some _, none => .raise .attributeError
      | some query, some user => searchVideos api now query user offset.toNat limit.toNat

structure TopicRequest where
  query : Json
  videosN : Json
  currentUser : Option String

def topicRegistration.post (request : TopicRequest) : Prog SearchResponse :=
  if request.query.truthy then
    match request.query with
    | .str query =>
      if isspace query then return .message 403 "message" "query not specified"
      else
        let n := if request.videosN.truthy then request.videosN else .num 10 0
        match request.currentUser with
        | some user => do
          ask (.delay ⟨user, n, query⟩)
          return .message 201 "message" "done"
        | none => return .message 208 "message" "Already Registered"
    | _ => .raise .attributeError
  else return .message 403 "message" "query not specified"

structure BulkRequest where
  queries : List String
  currentUser : Option String
  offset : Option String
  limit : Option String

inductive BulkResponse where
  | message (status : Nat) (text : String)
  | page (nextPage : Option (Int × Int)) (queries : List QueryDoc)

def delayMissing (user : String) (saved : List String) : List String → Prog Unit
  | [] => return ()
  | query :: queries =>
    if query ∈ saved then delayMissing user saved queries
    else do
      ask (.delay ⟨user, .num 5 0, query⟩)
      delayMissing user saved queries

def bulkRegistration.get (request : BulkRequest) : Prog BulkResponse :=
  match intOf (request.limit.getD "1"), intOf (request.offset.getD "0") with
  | .error e, _ => .raise e
  | _, .error e => .raise e
  | .ok limit, .ok offset =>
    if limit < 0 ∨ offset < 0 then
      return .message 400 "Number of videos cann't be smaller than 0"
    else if request.queries = [] then return .message 400 "It must have queries"
    else
      match request.currentUser with
      | none => .raise .attributeError
      | some user => do
        let docs ← ask (.pageQueries request.queries user offset.toNat (limit.toNat + 1))
        let page := if docs.length = limit.toNat + 1 then docs.take limit.toNat else docs
        delayMissing user (page.map QueryDoc.query) request.queries
        return .page (if docs.length = limit.toNat + 1 then some (offset + limit, limit) else none) page

end YoutubeRecords.SearchViews
