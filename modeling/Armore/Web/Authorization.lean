import Armore.Web.UserTable

/-!
# Authorization over whole sessions

`secure` trusts the cookie: once a name and a role are in it, it does not ask who authenticated this
request or which role that user has now. What it answers is right as long as the cookie says what the
table says, `Cached`. `Proper` lists the requests that keep it so; the others are a sign-in that writes a
name, a second user in a browser, an account made anew under a cached name, and roles that `UserRoles`
does not have.
-/

namespace Armore.Web

open Armore.Lib

variable {B : Type} [DecidableEq B]

/-- A role with a row in `UserRoles`. -/
def Known (role : String) : Prop := role ∈ userRoles.map Prod.fst

instance (role : String) : Decidable (Known role) :=
  inferInstanceAs (Decidable (role ∈ userRoles.map Prod.fst))

/-- What the comment on `secure` asks of a role: to be one of the list, or to have at most the value of
the named role. -/
def Guard.Satisfied (guard : Guard) (role : String) : Prop :=
  match guard with
  | .anyOf roles => role ∈ roles
  | .atLeast least => ∃ value bound, userRoles.lookup role = some value
      ∧ userRoles.lookup least = some bound ∧ value ≤ bound

/-- The request is answered by the guard as it should be: the handler runs for the user that this request
authenticates, under the name and the current role of that user, which satisfies the guard; and such a
user is not refused. -/
structure Authorizes (w : World B) (r : Request B) (guard : Guard) : Prop where
  sound : (serve w r).2 = .run → ∃ users name role, w.db = some users ∧ r.auth = some name
    ∧ (serve w r).1.session r.browser = ⟨some (some name), some role⟩
    ∧ users.getRole name = some role ∧ guard.Satisfied role
  complete : ∀ users name role, w.db = some users → r.auth = some name →
    users.getRole name = some role → guard.Satisfied role → (serve w r).2 = .run

/-- The form for a new account that the request carries. -/
def Op.form : Op → Option AccountForm
  | .initialUserSetup form => form
  | .secured (.addUser form) => form
  | .secured _ | .signin _ | .signout => none

/-- The requests that keep the cookies right. -/
structure Proper (w : World B) (r : Request B) : Prop where
  answers : ∀ site, r.fault site = false
  signin : ∀ username, r.op = .signin (some username) →
    (w.session r.browser).username = some username
  browser : ∀ handler name, r.op = .secured handler → r.auth = some name →
    (w.session r.browser).username = none ∨ (w.session r.browser).username = some (some name)
  account : ∀ users form email role, r.op.form = some form → w.db = some users →
    form.email = some email → form.role = some role → email ∉ users.getUsernames →
    Known role ∧ ∀ browser, (w.session browser).username = some (some email) →
      (w.session browser).role = some role
  guard : ∀ handler least, r.op = .secured handler → handler.guard = .atLeast least → Known least

/-- A cookie is empty or holds a name with the role that the name has, if it has an account. -/
def Session.Right (session : Session) (db : Database) : Prop :=
  session = ⟨none, none⟩ ∨ ∃ name role, session = ⟨some (some name), some role⟩
    ∧ ∀ users, db = some users → ∀ user ∈ users.rows, user.username = name → user.roleName = role

/-- Every cookie is right and every account has a role of `UserRoles`. -/
structure Cached (db : Database) (session : B → Session) : Prop where
  sessions : ∀ browser, (session browser).Right db
  roles : ∀ users, db = some users → ∀ user ∈ users.rows, Known user.roleName

/-! ### The guard -/

/-- For roles of `UserRoles`, the comparison of `getRoleValue` is the comparison of the values, although
the value of the bound counts only while somebody has that role. -/
theorem Guard.check_of_mem {guard : Guard} {users : Users} {fault : Query → Bool} {user : User}
    {username : Option (Option String)} (hanswers : ∀ site, fault site = false)
    (hmem : user ∈ users.rows) (hknown : Known user.roleName)
    (hguard : ∀ least, guard = .atLeast least → Known least) :
    guard.check (some users) fault ⟨username, some user.roleName⟩ = .run
      ↔ guard.Satisfied user.roleName := by
  unfold Guard.check Guard.Satisfied
  cases guard with
  | anyOf roles =>
      dsimp only
      split
      · rename_i hrole
        exact iff_of_true rfl hrole
      · rename_i hrole
        exact iff_of_false (by decide) hrole
  | atLeast least =>
      have hleast := hguard least rfl
      simp only [query, hanswers, Bool.false_eq_true, if_false, Users.getRoleValue_of_mem hmem]
      simp only [Known, userRoles, List.map_cons, List.map_nil, List.mem_cons, List.not_mem_nil,
        or_false] at hknown hleast
      rcases hknown with huser | hadmin
      · -- a user: above the bound of an admin, and within the bound of a user, which somebody has
        rw [huser]
        rcases hleast with rfl | rfl
        · have hbound := Users.getRoleValue_of_mem hmem
          rw [huser] at hbound
          rw [hbound]
          simp [userRoles]
        · have hbound : users.getRoleValue "admin" = 0 := by
            unfold Users.getRoleValue
            split <;> rfl
          rw [hbound]
          simp [userRoles, List.lookup_cons]
      · rw [hadmin]
        rcases hleast with rfl | rfl <;> simp [userRoles, List.lookup_cons]

/-- The check of a cached role raises only where a query does. -/
theorem Guard.check_ne_raised {guard : Guard} {users : Users} {fault : Query → Bool}
    {username : Option (Option String)} {role : String} (hanswers : ∀ site, fault site = false) :
    guard.check (some users) fault ⟨username, some role⟩ ≠ .raised := by
  unfold Guard.check
  cases guard with
  | anyOf roles =>
      dsimp only
      split <;> decide
  | atLeast least =>
      simp only [query, hanswers, Bool.false_eq_true, if_false]
      split <;> decide

/-! ### `secure` on a right cookie -/

/-- The authenticated user has an account. -/
theorem loginRequired_cases {db : Database} {fault : Query → Bool}
    (hanswers : ∀ site, fault site = false) (auth : Option String) :
    (loginRequired db fault auth = none
        ∧ ∀ users name, db = some users → auth = some name → users.getRole name = none)
      ∨ ∃ users user, db = some users ∧ auth = some user.username ∧ user ∈ users.rows
        ∧ loginRequired db fault auth = some user.username := by
  cases auth with
  | none => exact .inl ⟨rfl, nofun⟩
  | some name =>
      cases db with
      | none => exact .inl ⟨by simp [loginRequired, getPw, isInitialSetup, query], nofun⟩
      | some users =>
          cases hfirst : users.first name with
          | none =>
              refine .inl ⟨?_, ?_⟩
              · have hnone : getPw (some users) fault name = none := by
                  cases hinitial : isInitialSetup (some users) false <;>
                    simp [getPw, query, hanswers, hinitial, Users.getPwdHash, hfirst]
                rw [loginRequired, Option.filter_some, hnone]
                rfl
              · intro users' name' hdb hname
                obtain rfl : users = users' := Option.some.inj hdb
                obtain rfl : name = name' := Option.some.inj hname
                rw [Users.getRole, hfirst]
                rfl
          | some user =>
              obtain ⟨hmem, rfl⟩ := Users.first_eq_some.mp hfirst
              have haccount : HasAccount (some users) := ⟨users, rfl, List.ne_nil_of_mem hmem⟩
              refine .inr ⟨users, user, rfl, rfl, hmem, ?_⟩
              simp [loginRequired, getPw, query, hanswers, Users.getPwdHash, hfirst,
                isInitialSetup_of_hasAccount haccount, Option.filter_some]

omit [DecidableEq B] in
/-- A cookie that `Proper` allows for the authenticated user ends up with the name and the role of that
user. -/
theorem fill_of_cached {db : Database} {session : B → Session} {fault : Query → Bool} {browser : B}
    {users : Users} {user : User} (hcached : Cached db session)
    (hanswers : ∀ site, fault site = false) (hdb : db = some users) (hmem : user ∈ users.rows)
    (hbrowser : (session browser).username = none
      ∨ (session browser).username = some (some user.username)) :
    (session browser).fill db fault user.username
      = some ⟨some (some user.username), some user.roleName⟩ := by
  have hrole : users.getRole user.username = some user.roleName :=
    Users.getRole_eq_some.mpr ⟨user, hmem, rfl, rfl⟩
  unfold Session.fill
  rcases hcached.sessions browser with hempty | ⟨name, role, hsession, hcurrent⟩
  · rw [hempty, hdb]
    simp [query, hanswers, hrole]
  · rw [hsession] at hbrowser ⊢
    rcases hbrowser with hnone | hsame
    · cases hnone
    · obtain rfl : name = user.username := Option.some.inj (Option.some.inj hsame)
      rw [hcurrent users hdb user hmem rfl]
      rfl

omit [DecidableEq B] in
/-- There `secure` answers what the check of the current role says. -/
theorem secure_of_cached {db : Database} {session : B → Session} {fault : Query → Bool} {auth : Option String}
    {browser : B} {users : Users} {user : User} (guard : Guard) (hcached : Cached db session)
    (hanswers : ∀ site, fault site = false) (hdb : db = some users) (hmem : user ∈ users.rows)
    (hbrowser : (session browser).username = none
      ∨ (session browser).username = some (some user.username))
    (hlogin : loginRequired db fault auth = some user.username) :
    secure guard db fault auth (session browser)
      = (⟨some (some user.username), some user.roleName⟩,
        guard.check db fault ⟨some (some user.username), some user.roleName⟩) := by
  have haccount : HasAccount db := ⟨users, hdb, List.ne_nil_of_mem hmem⟩
  have hfill := fill_of_cached hcached hanswers hdb hmem hbrowser
  have hreturns : guard.check db fault ⟨some (some user.username), some user.roleName⟩ ≠ .raised := by
    rw [hdb]
    exact Guard.check_ne_raised hanswers
  rw [secure, hlogin]
  -- `hreturns` rules out the branch in which the check raises.
  simp only [hanswers, isInitialSetup_of_hasAccount haccount, Bool.false_eq_true, if_false, hfill]

theorem serve_secured {w : World B} {r : Request B} {handler : Handler}
    (hcached : Cached w.db w.session) (hproper : Proper w r) (hop : r.op = .secured handler) :
    ((serve w r).2 ≠ .run ∧ (serve w r).1.session r.browser = w.session r.browser
        ∧ ∀ users name, w.db = some users → r.auth = some name → users.getRole name = none)
      ∨ ∃ users user, w.db = some users ∧ r.auth = some user.username ∧ user ∈ users.rows
        ∧ (serve w r).1.session r.browser = ⟨some (some user.username), some user.roleName⟩
        ∧ ((serve w r).2 = .run ↔ handler.guard.Satisfied user.roleName) := by
  have hanswers := hproper.answers
  rcases loginRequired_cases hanswers r.auth with
    ⟨hlogin, hnobody⟩ | ⟨users, user, hdb, hauth, hmem, hlogin⟩
  · refine .inl ⟨?_, ?_, hnobody⟩
    · unfold serve
      split
      · exact nofun
      · simp [dispatch, hop, secure, hlogin]
    · unfold serve
      split
      · rfl
      · simp [dispatch, hop, secure, hlogin, World.setSession]
  · have haccount : HasAccount w.db := ⟨users, hdb, List.ne_nil_of_mem hmem⟩
    have hsecure := secure_of_cached handler.guard hcached hanswers hdb hmem
      (hproper.browser handler user.username hop hauth) hlogin
    have hcheck : handler.guard.check w.db r.fault ⟨some (some user.username), some user.roleName⟩
        = .run ↔ handler.guard.Satisfied user.roleName := by
      rw [hdb]
      exact Guard.check_of_mem hanswers hmem (hcached.roles users hdb user hmem)
        fun least => hproper.guard handler least hop
    refine .inr ⟨users, user, hdb, hauth, hmem, ?_⟩
    unfold serve
    rw [hanswers, isInitialSetup_of_hasAccount haccount, Bool.false_and, if_neg Bool.false_ne_true]
    unfold dispatch
    rw [hop]
    simp only [hsecure]
    rw [← hcheck]
    split
    · rename_i hrun
      exact ⟨by simp [World.setSession], by simp [hrun]⟩
    · rename_i hrun
      exact ⟨by simp [World.setSession], by simp⟩

theorem authorizes_of_cached {w : World B} {r : Request B} {handler : Handler}
    (hcached : Cached w.db w.session) (hproper : Proper w r) (hop : r.op = .secured handler) :
    Authorizes w r handler.guard := by
  rcases serve_secured hcached hproper hop with
    ⟨hnot, _, hnobody⟩ | ⟨users, user, hdb, hauth, hmem, hsession, hrun⟩
  · refine ⟨fun h => absurd h hnot, ?_⟩
    intro users name role hdb hauth hrole _
    rw [hnobody users name hdb hauth] at hrole
    cases hrole
  · have hrole : users.getRole user.username = some user.roleName :=
      Users.getRole_eq_some.mpr ⟨user, hmem, rfl, rfl⟩
    refine ⟨fun h => ⟨users, _, _, hdb, hauth, hsession, hrole, hrun.mp h⟩, ?_⟩
    intro users' name role hdb' hauth' hrole' hsatisfied
    obtain rfl : users = users' := Option.some.inj (hdb.symm.trans hdb')
    obtain rfl : user.username = name := Option.some.inj (hauth.symm.trans hauth')
    rw [hrole, Option.some.injEq] at hrole'
    rw [← hrole'] at hsatisfied
    exact hrun.mpr hsatisfied

/-! ### What a request does to the cookies and the accounts -/

/-- The rows of `db'` are rows of `db`, up to the password, or the row that the form asks for. -/
def Grows (db db' : Database) (form : Option AccountForm) : Prop :=
  ∀ users', db' = some users' → ∀ user ∈ users'.rows, ∃ users, db = some users
    ∧ ((∃ old ∈ users.rows, old.username = user.username ∧ old.roleName = user.roleName)
      ∨ ∃ f, form = some f ∧ f.email = some user.username ∧ f.role = some user.roleName
        ∧ user.username ∉ users.getUsernames)

theorem Grows.refl (db : Database) (form : Option AccountForm) : Grows db db form := by
  intro users hdb user hmem
  exact ⟨users, hdb, .inl ⟨user, hmem, rfl, rfl⟩⟩

theorem addUser_grows (db : Database) (fault : Query → Bool) (form : AccountForm) :
    Grows db (addUser db fault form) (some form) := by
  unfold addUser
  split
  · exact .refl db _
  · rename_i users hquery
    intro users' hdb user hmem
    obtain rfl : users.create form = users' := Option.some.inj hdb
    refine ⟨users, query_eq_some hquery, ?_⟩
    rcases users.rows_create form with hsame | ⟨new, hnew, hemail, hrole, happend⟩
    · rw [hsame] at hmem
      exact .inl ⟨user, hmem, rfl, rfl⟩
    · rw [happend, List.mem_append, List.mem_singleton] at hmem
      rcases hmem with hold | rfl
      · exact .inl ⟨user, hold, rfl, rfl⟩
      · exact .inr ⟨form, rfl, hemail, hrole, hnew⟩

theorem deleteUser_grows (db : Database) (fault : Query → Bool) (username : String) :
    Grows db (deleteUser db fault username) none := by
  unfold deleteUser
  split
  · rename_i users _ hquery
    intro users' hdb user hmem
    obtain rfl : users.remove username = users' := Option.some.inj hdb
    exact ⟨users, query_eq_some hquery, .inl ⟨user, (Users.mem_remove.mp hmem).1, rfl, rfl⟩⟩
  · exact .refl db _

theorem updatePwd_grows (db : Database) (fault : Query → Bool) (username : String)
    (old new : Option String) : Grows db (updatePwd db fault username old new) none := by
  unfold updatePwd
  split
  · split
    · split
      · rename_i digest users hquery
        intro users' hdb user hmem
        obtain rfl : users.setPwdHash username digest = users' := Option.some.inj hdb
        exact ⟨users, query_eq_some hquery, .inl (Users.mem_setPwdHash hmem)⟩
      · exact .refl db _
    · exact .refl db _
  · exact .refl db _

theorem serve_grows (w : World B) (r : Request B) : Grows w.db (serve w r).1.db r.op.form := by
  rcases serve_db w r with hsame | ⟨form, hop, hdb⟩ | ⟨handler, hop, _, hdb⟩
  · rw [hsame]
    exact .refl _ _
  · rw [hdb, hop]
    unfold initialUserSetup
    split
    · cases form with
      | none =>
          intro users hempty user hmem
          obtain rfl : Users.empty = users := Option.some.inj hempty
          cases hmem
      | some form => exact addUser_grows _ _ form
    · exact .refl _ _
  · rw [hdb, hop]
    cases handler with
    | addUser form =>
        cases form with
        | none => exact .refl _ _
        | some form => exact addUser_grows _ _ form
    | deleteUser username => exact deleteUser_grows _ _ username
    | updatePwd username old new => exact updatePwd_grows _ _ username old new
    | other guard => exact .refl _ _

/-- Only the cookie of the browser that asks can change. -/
theorem serve_session_of_ne (w : World B) (r : Request B) {browser : B} (hne : browser ≠ r.browser) :
    (serve w r).1.session browser = w.session browser := by
  unfold serve
  split
  · rfl
  · unfold dispatch World.setSession
    cases r.op with
    | signin form => cases form <;> simp [hne]
    | signout =>
        dsimp only
        split <;> simp [hne]
    | initialUserSetup form => rfl
    | secured handler =>
        dsimp only
        split <;> simp [hne]

/-- After a proper request the cookie of its browser is as before, empty, or holds the name and role of
somebody who has an account. -/
theorem serve_session {w : World B} {r : Request B} (hcached : Cached w.db w.session)
    (hproper : Proper w r) :
    (serve w r).1.session r.browser = w.session r.browser
      ∨ (serve w r).1.session r.browser = ⟨none, none⟩
      ∨ ∃ users user, w.db = some users ∧ user ∈ users.rows
        ∧ (serve w r).1.session r.browser = ⟨some (some user.username), some user.roleName⟩ := by
  cases hop : r.op with
  | secured handler =>
      rcases serve_secured hcached hproper hop with
        ⟨_, hsame, _⟩ | ⟨users, user, hdb, _, hmem, hsession, _⟩
      · exact .inl hsame
      · exact .inr (.inr ⟨users, user, hdb, hmem, hsession⟩)
  | initialUserSetup form =>
      left
      unfold serve dispatch
      rw [hop]
      split <;> rfl
  | signout =>
      unfold serve dispatch World.setSession
      rw [hop]
      dsimp only
      split
      · exact .inl rfl
      · split
        · exact .inl rfl
        · exact .inr (.inl (by simp))
  | signin form =>
      left
      cases form with
      | none =>
          unfold serve dispatch
          rw [hop]
          split <;> rfl
      | some username =>
          have hsame := hproper.signin username hop
          unfold serve dispatch World.setSession
          rw [hop]
          split
          · rfl
          · simp [← hsame]

/-- A proper request keeps the cookies right. -/
theorem Cached.serve {w : World B} {r : Request B} (hcached : Cached w.db w.session)
    (hproper : Proper w r) : Cached (serve w r).1.db (serve w r).1.session := by
  have hgrows := serve_grows w r
  constructor
  · intro browser
    -- the cookie afterwards is right for the accounts before, and agrees with a new account
    have hbefore : ((Web.serve w r).1.session browser).Right w.db
        ∧ ∀ users name role, (Web.serve w r).1.session browser = ⟨some (some name), some role⟩ →
          w.db = some users → name ∉ users.getUsernames →
          (w.session browser).username = some (some name) ∧ (w.session browser).role = some role := by
      by_cases hbrowser : browser = r.browser
      · subst hbrowser
        rcases serve_session hcached hproper with hsame | hempty | ⟨users, user, hdb, hmem, hsession⟩
        · rw [hsame]
          refine ⟨hcached.sessions _, ?_⟩
          intro users name role hsession _ _
          rw [hsession]
          exact ⟨rfl, rfl⟩
        · rw [hempty]
          exact ⟨.inl rfl, fun _ _ _ hsession => nomatch hsession⟩
        · rw [hsession]
          refine ⟨.inr ⟨_, _, rfl, ?_⟩, ?_⟩
          · intro users' hdb' user' hmem' hname
            obtain rfl : users = users' := Option.some.inj (hdb.symm.trans hdb')
            rw [Users.eq_of_username hmem' hmem hname]
          · intro users' name role heq hdb' hnew
            obtain rfl : users = users' := Option.some.inj (hdb.symm.trans hdb')
            simp only [Session.mk.injEq, Option.some.injEq] at heq
            exact absurd (Users.mem_getUsernames.mpr ⟨user, hmem, heq.1⟩) hnew
      · rw [serve_session_of_ne w r hbrowser]
        refine ⟨hcached.sessions browser, ?_⟩
        intro users name role hsession _ _
        rw [hsession]
        exact ⟨rfl, rfl⟩
    obtain ⟨hright, hnew⟩ := hbefore
    rcases hright with hempty | ⟨name, role, hsession, hcurrent⟩
    · exact .inl hempty
    · refine .inr ⟨name, role, hsession, ?_⟩
      intro users' hdb' user hmem hname
      obtain ⟨users, hdb, hold | ⟨form, hform, hemail, hrole, hfresh⟩⟩ := hgrows users' hdb' user hmem
      · obtain ⟨old, hmemOld, hnameOld, hroleOld⟩ := hold
        rw [← hroleOld]
        exact hcurrent users hdb old hmemOld (hnameOld.trans hname)
      · obtain ⟨_, hagree⟩ := hproper.account users form _ _ hform hdb hemail hrole hfresh
        subst hname
        obtain ⟨husername, hcookie⟩ := hnew users _ role hsession hdb hfresh
        have hsame := hagree browser husername
        rw [hcookie, Option.some.injEq] at hsame
        exact hsame.symm
  · intro users' hdb' user hmem
    obtain ⟨users, hdb, hold | ⟨form, hform, hemail, hrole, hfresh⟩⟩ := hgrows users' hdb' user hmem
    · obtain ⟨old, hmemOld, _, hroleOld⟩ := hold
      rw [← hroleOld]
      exact hcached.roles users hdb old hmemOld
    · exact (hproper.account users form _ _ hform hdb hemail hrole hfresh).1

/-- **In every run of proper requests from an empty installation, every request to a handler behind
`secure` is answered as its guard says.** -/
theorem authorized {requests : List (Request B)} {w : World B}
    (hrun : Run (Restrict Serves Proper) World.initial requests w) {r : Request B} {handler : Handler}
    (hproper : Proper w r) (hop : r.op = .secured handler) : Authorizes w r handler.guard := by
  have hcached : Cached w.db w.session := by
    apply hrun.invariant (fun w => Cached w.db w.session)
    · exact ⟨fun _ => .inl rfl, nofun⟩
    · intro w r w' hcached ⟨hserves, hproper⟩
      rw [← hserves]
      exact hcached.serve hproper
  exact authorizes_of_cached hcached hproper hop

/-! ### A sign-in that writes a name -/

/-- A request in which no query fails. -/
def request {B : Type} (browser : B) (auth : Option String) (op : Op) : Request B :=
  ⟨browser, auth, fun _ => false, op⟩

/-- `root` sets the server up. -/
def rootRequests : List (Request Bool) :=
  [request false none (.initialUserSetup none), request false none (.initialUserSetup (some rootForm))]

/-- `root` adds `bob`, who then looks at a page in another browser and signs in there as `root`. -/
def bobRequests : List (Request Bool) :=
  rootRequests ++
    [request false (some "root") (.secured (.addUser (some ⟨some "bob", some "digest", some "user"⟩))),
      request true (some "bob") (.secured (.other (.anyOf ["admin", "user"]))),
      request true none (.signin (some (some "root")))]

/-- The server after some requests. -/
def serveAll (requests : List (Request Bool)) : World Bool :=
  requests.foldl (fun w r => (serve w r).1) World.initial

/-- The law at the first page that `root` looks at. -/
theorem authorized_root :
    Authorizes (serveAll rootRequests)
      (request false (some "root") (.secured (.other (.atLeast "admin")))) (.atLeast "admin") := by
  have hfirst : Proper (World.initial : World Bool) (request false none (.initialUserSetup none)) :=
    ⟨fun _ => rfl, nofun, nofun, nofun, nofun⟩
  have hsecond : Proper (serveAll (rootRequests.take 1))
      (request false none (.initialUserSetup (some rootForm))) := by
    refine ⟨fun _ => rfl, nofun, nofun, ?_, nofun⟩
    intro users form email role hform _ _ hrole _
    obtain rfl : rootForm = form := Option.some.inj hform
    obtain rfl : "admin" = role := Option.some.inj hrole
    exact ⟨by decide, fun _ h => nomatch h⟩
  have hrun : Run (Restrict Serves Proper) World.initial rootRequests (serveAll rootRequests) :=
    .snoc (.snoc .nil ⟨rfl, hfirst⟩) ⟨rfl, hsecond⟩
  have hthird : Proper (serveAll rootRequests)
      (request false (some "root") (.secured (.other (.atLeast "admin")))) := by
    refine ⟨fun _ => rfl, nofun, fun _ _ _ _ => .inl rfl, (fun _ _ _ _ hform => nomatch hform), ?_⟩
    intro handler least hop hguard
    obtain rfl : Handler.other (.atLeast "admin") = handler := Op.secured.inj hop
    obtain rfl : "admin" = least := Guard.atLeast.inj hguard
    decide
  exact authorized hrun hthird rfl

/-- A page that `bob` asks for runs under the name of `root`. -/
theorem bob_runs_as_root :
    Run Serves World.initial bobRequests (serveAll bobRequests)
      ∧ ¬ Authorizes (serveAll bobRequests)
        (request true (some "bob") (.secured (.other (.anyOf ["admin", "user"]))))
        (.anyOf ["admin", "user"]) := by
  refine ⟨.snoc (.snoc (.snoc (.snoc (.snoc .nil rfl) rfl) rfl) rfl) rfl, ?_⟩
  intro hauthorizes
  obtain ⟨_, name, _, _, hauth, hsession, _⟩ := hauthorizes.sound rfl
  obtain rfl : "bob" = name := Option.some.inj hauth
  have hroot : ((serve (serveAll bobRequests) (request true (some "bob")
      (.secured (.other (.anyOf ["admin", "user"]))))).1.session true).username
        = some (some "root") := by rfl
  rw [show (request true (some "bob") (.secured (.other (.anyOf ["admin", "user"])))).browser = true
    from rfl] at hsession
  rw [hsession] at hroot
  have hne : "bob" ≠ "root" := by decide
  exact hne (Option.some.inj (Option.some.inj hroot))

end Armore.Web
