import Armore.Web.Accounts
import Mathlib.Logic.Function.Basic

/-!
# Requests and sessions

A browser has a session cookie that holds at most a user name and a role. `secure` fills it once, from the
user that the HTTP digest of that request authenticates, and looks at it ever after; `signin` writes the
name and `signout` removes both. The handlers below are the ones that touch the accounts, `other` stands
for every other handler behind `secure`.

A request says for each query it makes whether the database fails there. A handler that raises has
committed nothing, and the error handler answers in its place; that a cookie which the same request has filled
is then not saved, but filled again by the next, is left out.
-/

namespace Armore.Web

/-- The queries of one request, by the place in the code that makes them. -/
inductive Query
  | checkInitial
  | getPwSetup
  | getPw
  | getPwSetupAgain
  | setup
  | role
  | value
  | guardValue
  | handler
  | handlerRole
  | handlerWrite

/-- The argument of `secure`: a list of roles, or the name of the least one. -/
inductive Guard
  | anyOf (roles : List String)
  | atLeast (role : String)

structure AccountForm where
  email : Option String
  md5_Digest : Option String
  role : Option String

/-- The handlers behind `secure`, a missing form being a GET. -/
inductive Handler
  | addUser (form : Option AccountForm)
  | deleteUser (username : String)
  | updatePwd (username : String) (md5_Digest_Old md5_Digest : Option String)
  | other (guard : Guard)

def Handler.guard : Handler → Guard
  | .addUser _ => .atLeast "admin"
  | .deleteUser _ => .atLeast "admin"
  | .updatePwd _ _ _ => .atLeast "user"
  | .other guard => guard

inductive Op
  | signin (form : Option (Option String))
  | signout
  | initialUserSetup (form : Option AccountForm)
  | secured (handler : Handler)

/-- `session`: the name may be there and be `None`, which is what `signin` writes for an empty form. -/
structure Session where
  username : Option (Option String)
  role : Option String
  deriving DecidableEq

/-- The server: the database, and the cookie of every browser. -/
structure World (B : Type) where
  db : Database
  session : B → Session

/-- A request. Its digest is right for the account named `auth`, if there is such an account. -/
structure Request (B : Type) where
  browser : B
  auth : Option String
  fault : Query → Bool
  op : Op

/-- How a request ends. -/
inductive Verdict
  | run
  | setup
  | unauthenticated
  | notAuthorized
  | raised
  deriving DecidableEq

/-! ### The handlers -/

/-- `isInitialSetup`, which catches `OperationalError`. -/
def isInitialSetup (db : Database) (fault : Bool) : Bool :=
  match query db fault with
  | none => true
  | some users => users.getUsernames.length = 0

/-- `if email not in getUsernames(): …`. A missing digest raises before the commit, a missing name or
role at the commit. -/
def Users.create (users : Users) (form : AccountForm) : Users :=
  match form.email, form.md5_Digest, form.role with
  | some email, some digest, some role =>
      if hnew : email ∉ users.getUsernames then users.add ⟨email, digest, role⟩ hnew else users
  | _, _, _ => users

def addUser (db : Database) (fault : Query → Bool) (form : AccountForm) : Database :=
  match query db (fault .handler) with
  | none => db
  | some users => some (users.create form)

def deleteAllowed (db : Database) (fault : Query → Bool) (username : String) : Option Bool :=
  (query db (fault .handler)).bind fun users =>
    if users.admins.length = 1 then
      ((query db (fault .handlerRole)).bind (·.getRole username)).map (· ≠ "admin")
    else some true

def deleteUser (db : Database) (fault : Query → Bool) (username : String) : Database :=
  match deleteAllowed db fault username, query db (fault .handlerWrite) with
  | some true, some users => some (users.remove username)
  | _, _ => db

def updatePwd (db : Database) (fault : Query → Bool) (username : String)
    (md5_Digest_Old md5_Digest : Option String) : Database :=
  match md5_Digest_Old, (query db (fault .handler)).bind (·.getPwdHash username) with
  | some old, some pwdhash =>
      if old = pwdhash then
        match md5_Digest, query db (fault .handlerWrite) with
        | some digest, some users => some (users.setPwdHash username digest)
        | _, _ => db
      else db
  | _, _ => db

/-- `initialUserSetup`; the GET runs `initAll`, which creates the database anew. -/
def initialUserSetup (db : Database) (fault : Query → Bool) (form : Option AccountForm) : Database :=
  if isInitialSetup db (fault .setup) then
    match form with
    | some form => addUser db fault form
    | none => some Users.empty
  else db

def Handler.execute (db : Database) (fault : Query → Bool) : Handler → Database
  | .addUser (some form) => Web.addUser db fault form
  | .addUser none => db
  | .deleteUser username => Web.deleteUser db fault username
  | .updatePwd username old new => Web.updatePwd db fault username old new
  | .other _ => db

/-! ### `secure` -/

/-- The default credentials, with the digest that `generate_ha1` makes of them. -/
def defaultCreds : List (String × String) := [("armore", "4e51928336ff4385f1f93c838dc9133e")]

/-- `getPw`, which catches every error. For a name without an account it asks again whether the site is new,
where a query that raises brings in the default credentials; the names that it looks at otherwise are not
defined. -/
def getPw (db : Database) (fault : Query → Bool) (theUsername : String) : Option String :=
  if isInitialSetup db (fault .getPwSetup) then none
  else
    match query db (fault .getPw) with
    | none => none
    | some users =>
        match users.getPwdHash theUsername with
        | some pwdhash => some pwdhash
        | none =>
            if isInitialSetup db (fault .getPwSetupAgain) then defaultCreds.lookup theUsername else none

/-- `login_required`: the authenticated name. -/
def loginRequired (db : Database) (fault : Query → Bool) (auth : Option String) : Option String :=
  auth.filter fun name => (getPw db fault name).isSome

/-- `if 'username' not in session: …`; `none` when `getRole` raises. -/
def Session.fill (session : Session) (db : Database) (fault : Query → Bool) (name : String) : Option Session :=
  if session.username.isSome then some session
  else ((query db (fault .role)).bind (·.getRole name)).map fun role => ⟨some (some name), some role⟩

/-- The check of the role in the session. -/
def Guard.check (guard : Guard) (db : Database) (fault : Query → Bool) (session : Session) : Verdict :=
  match session.role with
  | none => .raised
  | some role =>
      match guard with
      | .anyOf roles => if role ∈ roles then .run else .notAuthorized
      | .atLeast least =>
          match query db (fault .value), query db (fault .guardValue) with
          | some users, some users' =>
              if users'.getRoleValue least < users.getRoleValue role then .notAuthorized else .run
          | _, _ => .raised

/-- `secure(roles)` in front of a handler: the session afterwards, and whether the handler runs. Where it
raises, the cookie stays as it was. -/
def secure (guard : Guard) (db : Database) (fault : Query → Bool) (auth : Option String)
    (session : Session) : Session × Verdict :=
  match loginRequired db fault auth with
  | none => (session, .unauthenticated)
  | some name =>
      if isInitialSetup db (fault .setup) then (session, .setup)
      else
        match session.fill db fault name with
        | none => (session, .raised)
        | some filled =>
            match guard.check db fault filled with
            | .raised => (session, .raised)
            | verdict => (filled, verdict)

/-! ### One request -/

variable {B : Type} [DecidableEq B]

def World.setSession (w : World B) (browser : B) (session : Session) : World B :=
  { w with session := Function.update w.session browser session }

/-- The handler of the route. -/
def dispatch (w : World B) (r : Request B) : World B × Verdict :=
  match r.op with
  | .signin none => (w, .run)
  | .signin (some username) =>
      (w.setSession r.browser { w.session r.browser with username := some username }, .run)
  | .signout =>
      if isInitialSetup w.db (r.fault .setup) then (w, .setup)
      else (w.setSession r.browser ⟨none, none⟩, .run)
  | .initialUserSetup form => ({ w with db := initialUserSetup w.db r.fault form }, .run)
  | .secured handler =>
      let (session, verdict) := secure handler.guard w.db r.fault r.auth (w.session r.browser)
      let w := w.setSession r.browser session
      if verdict = .run then ({ w with db := handler.execute w.db r.fault }, .run) else (w, verdict)

/-- The path `checkInitial` lets through. -/
def Op.isInitialUserSetup : Op → Bool
  | .initialUserSetup _ => true
  | .signin _ | .signout | .secured _ => false

/-- One request, with `checkInitial` in front of every other path. -/
def serve (w : World B) (r : Request B) : World B × Verdict :=
  if isInitialSetup w.db (r.fault .checkInitial) && !r.op.isInitialUserSetup then (w, .setup)
  else dispatch w r

/-- A request moves the server. -/
def Serves (w : World B) (r : Request B) (w' : World B) : Prop := (serve w r).1 = w'

/-- A server that has just been installed: no tables, no cookies. -/
def World.initial : World B := ⟨none, fun _ => ⟨none, none⟩⟩

end Armore.Web
