import YoutubeRecords.AccountViews
import YoutubeRecords.Calendar
import YoutubeRecords.FilterDates
import YoutubeRecords.SearchViews
import YoutubeRecords.SiteStore

namespace YoutubeRecords.SiteViews

open CommandProgram PythonBasics CommandEmbedding AccountViews VideoIngestion SearchViews SiteStore

inductive IndexResponse where
  | message (status : Nat) (key text : String)
  | result (r : SearchResult)

def textSearch.get (keyword : Option String) : Prog IndexResponse :=
  match nonempty keyword with
  | some keyword => do return .result (← ask (.searchIndex (.matchTitle keyword)))
  | none => return .message 400 "message" "No keyword specified!!"

/-- What the date filter reads; `startNow` and `finalNow` are the dates of its
two looks at the clock. -/
structure FilterRequest where
  startDate : Option String
  finalDate : Option String
  startNow : VideoStore.Date
  finalNow : VideoStore.Date

/-- The date of a text, or the default without one; `none` is an exception. -/
def dateOf (text : Option String) (default : Option VideoStore.Date) : Option VideoStore.Date :=
  match nonempty text with
  | some text => (FilterDates.strptime text).toOption
  | none => default

def FilterRequest.range (request : FilterRequest) : Option (VideoStore.Date × VideoStore.Date) := do
  let start ← dateOf request.startDate (Calendar.minusDays (10 * 7) request.startNow)
  let final ← dateOf request.finalDate (some request.finalNow)
  return (start, final)

def videosWithDateFilter.get (request : FilterRequest) : Prog IndexResponse :=
  match request.range with
  | none => return .message 400 "message" "Date must be in yyyy-MM-dd format"
  | some (start, final) =>
    if start.ordinal ≤ final.ordinal then do
      return .result (← ask (.searchIndex (.publishedWithin start final)))
    else return .message 400 "error" "final date cannt be greater than start date!!"

inductive Method where
  | get
  | head
  | post
  | other
  deriving DecidableEq

inductive View where
  | register
  | login
  | logout
  | refresh
  | searching
  | topic
  | bulk
  | dateFilter
  | textSearch
  | admin
  deriving DecidableEq

/-- The URL patterns of the site but for the admin's. -/
def urlpatterns : List (String × View) :=
  [("/user/register", .register), ("/user/login", .login), ("/user/logout", .logout),
    ("/user/refresh", .refresh), ("/search/", .searching), ("/search/register", .topic),
    ("/search/bulk_register", .bulk), ("/search/_filter", .dateFilter), ("/search/_textsearch", .textSearch)]

def resolve (path : String) : Option View :=
  if "/admin/".toList <+: path.toList then some .admin else urlpatterns.lookup path

/-- The methods a view has a handler for; Django answers `HEAD` with the
handler of `GET`. -/
def View.allows : View → Method → Bool
  | .register, m | .login, m | .logout, m | .refresh, m | .topic, m => decide (m = .post)
  | .searching, m | .bulk, m | .dateFilter, m | .textSearch, m => decide (m = .get ∨ m = .head)
  | .admin, _ => true

/-- A request, with all that its view may read from it, and what the view
draws, is told by the API and reads from the clock while it runs. -/
structure HttpRequest where
  method : Method
  path : String
  cookies : Cookies
  salt : Salt
  registerData : RegisterData
  draws : Draws
  loginData : LoginData
  q : Option String
  offset : Option String
  limit : Option String
  query : Json
  videosN : Json
  queries : List String
  keyword : Option String
  filter : FilterRequest
  api : Api
  now : Nat

inductive Reply where
  | account (r : Response)
  | search (r : SearchResponse)
  | bulk (r : BulkResponse)
  | index (r : IndexResponse)
  | admin
  | refused (status : Nat)
  | worked

def topicRegistration.asks (query : Json) : Bool :=
  match query with
  | .str text => decide (text ≠ "") && !isspace text
  | _ => false

def bulkRegistration.asks (queries : List String) (offset limit : Option String) : Bool :=
  match intOf (limit.getD "1"), intOf (offset.getD "0") with
  | .ok limit, .ok offset => decide (¬ (limit < 0 ∨ offset < 0) ∧ queries ≠ [])
  | _, _ => false

def currentUser (asks : Bool) (cookies : Cookies) : Prog (Option String) :=
  if asks then do return (← accounts.lift (getUser cookies.jwt)).map (·.email) else return none

def View.program (env : Env) (r : HttpRequest) : View → Prog Reply
  | .register => do return .account (← accounts.lift (RegisterView.post env.accounts r.salt r.registerData))
  | .login => do return .account (← accounts.lift (LoginView.post env.accounts r.draws r.loginData))
  | .logout => do return .account (← accounts.lift (LogoutView.post r.cookies))
  | .refresh => do return .account (← accounts.lift (RefreshToken.post r.cookies))
  | .searching => do
    let user ← currentUser true r.cookies
    return .search (← videos.lift (searchingView.get r.api r.now ⟨r.q, user, r.offset, r.limit⟩))
  | .topic => do
    let user ← currentUser (topicRegistration.asks r.query) r.cookies
    return .search (← videos.lift (topicRegistration.post ⟨r.query, r.videosN, user⟩))
  | .bulk => do
    let user ← currentUser (bulkRegistration.asks r.queries r.offset r.limit) r.cookies
    return .bulk (← videos.lift (bulkRegistration.get ⟨r.queries, user, r.offset, r.limit⟩))
  | .dateFilter => do return .index (← videosWithDateFilter.get r.filter)
  | .textSearch => do return .index (← textSearch.get r.keyword)
  | .admin => return .admin

/-- The middleware sees a request before its path is resolved. -/
def HttpRequest.program (env : Env) (r : HttpRequest) : Prog Reply := do
  accounts.lift (processRequest r.path r.cookies)
  match resolve r.path with
  | some view => if view.allows r.method then view.program env r else return .refused 405
  | none => return .refused 404

inductive Job where
  | http (r : HttpRequest)
  | worker (api : Api) (now : Nat)

def runTask (api : Api) (now : Nat) : Prog Reply := do
  match ← ask .takeTask with
  | none => return .worked
  | some task =>
    let _ ← videos.lift (fetchYoutubeData api task.user task.n task.query now)
    return .worked

def Job.program (env : Env) : Job → Prog Reply
  | .http r => r.program env
  | .worker api now => runTask api now

def start (env : Env) (clock : Nat) (users : List AccountStore.User) (jobs : Nat → Job) :
    ProgramPool.Pool Cmd Answer Exn Reply Store :=
  ⟨fun i => (jobs i).program env, ⟨⟨clock, fun _ => none, users⟩, VideoStore.Store.empty, fun _ => none, 0⟩, []⟩

end YoutubeRecords.SiteViews
