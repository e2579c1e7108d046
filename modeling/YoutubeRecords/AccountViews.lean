import YoutubeRecords.AccountStore

namespace YoutubeRecords.AccountViews

open CommandProgram PythonBasics AccountStore

def setValue (key value : String) (ageInSeconds : Nat) : Prog Unit := do
  ask (.set key value)
  ask (.expire key ageInSeconds)
  let _ ← ask (.get key)
  return ()

def getValue (key : String) : Prog (Option String) := ask (.get key)

def checkForExistence (key : String) : Prog Bool := ask (.existsKey key)

def scheduleExpire (key : String) (time : Nat) : Prog Unit := ask (.expire key time)

def accessAgeMinutes : Nat := 30

def refreshAgeMinutes : Nat := 120

def allowedchars : List Char := "abcdefghijklmnopqrstuvwxyz1234567890!@#$%^&*()".toList

/-- The ten positions one call of `generateRandomKey` draws. -/
abbrev KeyDraw := Fin 10 → Fin 46

def generateRandomKey (draw : KeyDraw) : String :=
  String.ofList ((List.ofFn draw).map (fun i => allowedchars.get i))

theorem generateRandomKey_ne_empty (draw : KeyDraw) : generateRandomKey draw ≠ "" := by
  intro h
  have hl : (generateRandomKey draw).toList.length = 10 := by
    rw [generateRandomKey, String.toList_ofList]
    exact (List.length_map _).trans List.length_ofFn
  rw [h] at hl
  exact absurd hl (by decide)

def createToken (userId secretKey : String) (ageLimit : Nat) : Prog String := do
  let now ← ask .utcnow
  let issued ← ask .utcnow
  ask (.encode ⟨userId, (now + ageLimit * 60 * 1000) / 1000, issued / 1000⟩ secretKey)

/-- The hex text of a version 4 UUID. -/
structure Salt where
  hex : String
  length_eq : hex.toList.length = 32
  digits : ∀ c ∈ hex.toList, c ∈ "0123456789abcdef".toList

theorem mem_of_all {cs ds : List Char} (h : cs.all (fun c => decide (c ∈ ds)) = true) : ∀ c ∈ cs, c ∈ ds := by
  intro c hc
  exact of_decide_eq_true (List.all_eq_true.mp h c hc)

def hashPassword (env : Env) (salt : Salt) (password : String) : String :=
  env.hexdigest (salt.hex.toUTF8 ++ password.toUTF8) ++ ":" ++ salt.hex

def checkPassword (env : Env) (hashedPassword : String) (userPassword : Json) : Except Exn Bool :=
  match split ':' hashedPassword with
  | [password, salt] =>
    match userPassword with
    | .str text => .ok (decide (password = env.hexdigest (salt.toUTF8 ++ text.toUTF8)))
    | _ => .error .attributeError
  | _ => .error .valueError

structure Cookie where
  key : String
  value : String
  expires : Option Nat

structure Response where
  status : Nat
  data : List (String × String)
  cookies : List Cookie := []

structure RegisterData where
  name : Json
  email : Json
  password : Json

/-- `a.isspace() or b.isspace() or ...`; only strings have the method. -/
def anySpace : List Json → Except Exn Bool
  | [] => .ok false
  | .str s :: rest => if isspace s then .ok true else anySpace rest
  | _ :: _ => .error .attributeError

def registered (user : User) : Response :=
  ⟨200, [("name", user.name), ("_id", user.email), ("password", "*********************")], []⟩

def RegisterView.post (env : Env) (salt : Salt) (data : RegisterData) : Prog Response :=
  if data.password.truthy && data.email.truthy && data.name.truthy then
    match anySpace [data.password, data.name, data.email] with
    | .error e => .raise e
    | .ok true =>
      return ⟨406, [("mesage", "There must be some value for name,email,password")], []⟩
    | .ok false =>
      match data.password, data.name, data.email with
      | .str password, .str name, .str email => do
        match ← ask (.findUser (.str email)) with
        | some _ => return ⟨406, [("message", "user already registered")], []⟩
        | none =>
          let user : User := ⟨name, email, hashPassword env salt password⟩
          if ← ask (.saveUser user) then return registered user else .raise .validationError
      | _, _, _ => .raise .attributeError
  else return ⟨406, [("message", "Missing Values, check username, password or email!! ")], []⟩

/-- The random draws of one login: its secret, and the key names it tries. -/
structure Draws where
  secret : KeyDraw
  keys : List KeyDraw

structure LoginData where
  email : Json
  password : Json

def drawKeyName : List KeyDraw → Prog String
  | [] => .raise .drawsSpent
  | draw :: draws => do
    if ← checkForExistence (generateRandomKey draw ++ "_secret") then drawKeyName draws
    else return generateRandomKey draw

def sessionStarted (keyName refreshToken : String) (expiry : Nat) : Response :=
  ⟨200, [("jwt", keyName), ("refresh", refreshToken)],
    [⟨"jwt", keyName, none⟩, ⟨"refresh", refreshToken, some expiry⟩]⟩

def startSession (draws : Draws) (user : User) : Prog Response := do
  let secretKey := generateRandomKey draws.secret
  let accessToken ← createToken user.email secretKey accessAgeMinutes
  let refreshToken ← createToken user.email secretKey refreshAgeMinutes
  let keyName ← drawKeyName draws.keys
  setValue (keyName ++ "_access") accessToken (accessAgeMinutes * 60)
  setValue (keyName ++ "_secret") secretKey (refreshAgeMinutes * 60)
  let now ← ask .utcnow
  return sessionStarted keyName refreshToken (now + refreshAgeMinutes * 60 * 1000)

def LoginView.post (env : Env) (draws : Draws) (data : LoginData) : Prog Response :=
  if data.email.truthy && data.password.truthy then do
    match ← ask (.findUser data.email) with
    | none => return ⟨401, [("message", "user does not exist")], []⟩
    | some user =>
      match checkPassword env user.password data.password with
      | .error e => .raise e
      | .ok false => return ⟨401, [("message", "Wrong Password")], []⟩
      | .ok true => startSession draws user
  else return ⟨401, [("message", "User or password is not found")], []⟩

structure Cookies where
  jwt : Option String
  refresh : Option String

def nonempty (s : Option String) : Option String := s.filter (fun t => decide (t ≠ ""))

theorem nonempty_eq_some {o : Option String} {t : String} : nonempty o = some t ↔ o = some t ∧ t ≠ "" := by
  simp only [nonempty, Option.filter_eq_some_iff, decide_eq_true_eq]

def RefreshToken.post (cookies : Cookies) : Prog Response :=
  match nonempty cookies.refresh, nonempty cookies.jwt with
  | none, _ => return ⟨401, [("Error", "please login again!")], []⟩
  | some _, none => return ⟨401, [("message", "no jwt token")], []⟩
  | some token, some keyName => do
    let secretKey ← getValue (keyName ++ "_secret")
    match ← ask (.decode token secretKey) with
    | .error .expiredSignature =>
      .raise (.authenticationFailed "UnAuthenticated! Session has been expired Login Again Please")
    | .error e => .raise (.jwt e)
    | .ok payload =>
      match secretKey with
      | none => .raise .typeError
      | some secret =>
        let accessToken ← createToken payload.id secret accessAgeMinutes
        setValue (keyName ++ "_access") accessToken (accessAgeMinutes * 60)
        return ⟨201, [("message", "successful")], []⟩

def LogoutView.post (cookies : Cookies) : Prog Response :=
  match cookies.jwt with
  | none => .raise .typeError
  | some keyName => do
    scheduleExpire (keyName ++ "_secret") 0
    scheduleExpire (keyName ++ "_access") 0
    return ⟨200, [("message", "success")], [⟨"jwt", "", some 0⟩, ⟨"refresh", "", some 0⟩]⟩

def authenticationPaths : List String :=
  ["/user/login", "/user/register", "/user/logout", "/user/refresh"]

def processRequest (path : String) (cookies : Cookies) : Prog Unit :=
  if path ∈ authenticationPaths ∨ "admin".toList <:+: path.toList then return ()
  else match cookies.jwt with
    | none => .raise .typeError
    | some keyName => do
      let secretKey ← getValue (keyName ++ "_secret")
      let token ← getValue (keyName ++ "_access")
      match nonempty token with
      | none => .raise (.authenticationFailed "UnAuthenticated! Refresh Your token Again!")
      | some token =>
        match ← ask (.decode token secretKey) with
        | .error .expiredSignature =>
          .raise (.authenticationFailed "UnAuthenticated! Session has been expired Login Again Please")
        | .error e => .raise (.jwt e)
        | .ok _ => return ()

/-- The search views' module does not import `AuthenticationFailed`, so an
expired token ends in a `NameError` here. -/
def getUser (keyName : Option String) : Prog (Option User) :=
  match keyName with
  | none => .raise .typeError
  | some keyName => do
    let secretKey ← getValue (keyName ++ "_secret")
    let token ← getValue (keyName ++ "_access")
    match nonempty secretKey, nonempty token with
    | some secret, some token =>
      match ← ask (.decode token (some secret)) with
      | .error .expiredSignature => .raise .nameError
      | .error e => .raise (.jwt e)
      | .ok payload => ask (.findUser (.str payload.id))
    | _, _ => return none

/-- How a request ends: a response, or the body of a search view, entered
with its `current_user` if that view asks for one. -/
inductive Reply where
  | response (r : Response)
  | view
  | userView (currentUser : Option User)

/-- The requests of the site. A protected request passes the middleware and
then, if its view does so, asks who the user is. -/
inductive Request where
  | register (salt : Salt) (data : RegisterData)
  | login (draws : Draws) (data : LoginData)
  | refresh (cookies : Cookies)
  | logout (cookies : Cookies)
  | protectedView (path : String) (cookies : Cookies) (asksUser : Bool)

def Request.program (env : Env) : Request → Prog Reply
  | .register salt data => do return .response (← RegisterView.post env salt data)
  | .login draws data => do return .response (← LoginView.post env draws data)
  | .refresh cookies => do return .response (← RefreshToken.post cookies)
  | .logout cookies => do return .response (← LogoutView.post cookies)
  | .protectedView path cookies asksUser => do
    processRequest path cookies
    if asksUser then return .userView (← getUser cookies.jwt) else return .view

end YoutubeRecords.AccountViews
