import Mathlib.Data.List.Nodup
import Mathlib.Data.List.Basic
import Mathlib.Tactic.Common

/-!
# Accounts

The `Users` table of the web server and the functions of `models.py` that read and change it. User names
are unique by the table's own constraint, which is a field here. The table `UserRoles` never changes after
`initializeArmoreDB.sh` has filled it.

A query raises `OperationalError` when the tables have not been created and whenever the database fails;
`query` says which, and a function that queries and does not catch the error returns `none` for it.
-/

namespace Armore.Web

/-- A row of `Users`. The key `uid` is not looked at. -/
structure User where
  username : String
  pwdhash : String
  roleName : String
  deriving DecidableEq

structure Users where
  rows : List User
  unique : (rows.map (·.username)).Nodup

/-- The database file: without the tables at first. -/
abbrev Database := Option Users

/-- The rows of `UserRoles`. -/
def userRoles : List (String × Nat) := [("user", 100), ("admin", 0)]

/-- A query of the `Users` table: `none` when it raises. -/
def query (db : Database) (fault : Bool) : Option Users := if fault then none else db

namespace Users

/-- The tables as `initializeArmoreDB.sh` creates them. -/
def empty : Users := ⟨[], List.nodup_nil⟩

def getUsernames (users : Users) : List String := users.rows.map (·.username)

/-- `filter(Users.username == theUsername).first()`. -/
def first (users : Users) (theUsername : String) : Option User :=
  users.rows.find? (·.username = theUsername)

/-- `getRole`: `none` when there is no such user and `.roleName` raises. -/
def getRole (users : Users) (theUsername : String) : Option String :=
  (users.first theUsername).map (·.roleName)

def getPwdHash (users : Users) (theUsername : String) : Option String :=
  (users.first theUsername).map (·.pwdhash)

/-- `getRoleValue`: the role is joined with the rows of `Users`, so it counts only while somebody has
it; 0 otherwise. -/
def getRoleValue (users : Users) (theRoleName : String) : Nat :=
  if users.rows.any (·.roleName = theRoleName) then (userRoles.lookup theRoleName).getD 0 else 0

/-- `filter(Users.roleName == "admin").all()`. -/
def admins (users : Users) : List User := users.rows.filter (·.roleName = "admin")

/-- `db.session.add(newuser); db.session.commit()` for a name that is not taken. -/
def add (users : Users) (user : User) (hnew : user.username ∉ users.getUsernames) : Users where
  rows := users.rows ++ [user]
  unique := by
    rw [List.map_append, List.nodup_append]
    refine ⟨users.unique, List.nodup_singleton _, ?_⟩
    intro name hname other hother hsame
    rw [List.map_singleton, List.mem_singleton] at hother
    exact hnew (by rwa [← hother, ← hsame])

/-- `filter(Users.username == username).delete()`. -/
def remove (users : Users) (username : String) : Users where
  rows := users.rows.filter (·.username ≠ username)
  unique := (List.filter_sublist.map _).nodup users.unique

/-- `user.pwdhash = …; db.session.commit()`. -/
def setPwdHash (users : Users) (username digest : String) : Users where
  rows := users.rows.map fun user =>
    if user.username = username then { user with pwdhash := digest } else user
  unique := by
    rw [List.map_map]
    have hnames : (fun user : User => user.username) ∘ (fun user : User =>
        if user.username = username then { user with pwdhash := digest } else user)
          = fun user => user.username := by
      funext user
      show (if user.username = username then { user with pwdhash := digest } else user).username = _
      split <;> rfl
    rw [hnames]
    exact users.unique

/-! ### What a row says -/

theorem mem_getUsernames {users : Users} {name : String} :
    name ∈ users.getUsernames ↔ ∃ user ∈ users.rows, user.username = name := List.mem_map

/-- Two rows with one name are one row. -/
theorem eq_of_username {users : Users} {user other : User} (hmem : user ∈ users.rows)
    (hother : other ∈ users.rows) (hname : user.username = other.username) : user = other :=
  List.inj_on_of_nodup_map users.unique hmem hother hname

theorem first_eq_some {users : Users} {name : String} {user : User} :
    users.first name = some user ↔ user ∈ users.rows ∧ user.username = name := by
  constructor
  · intro hfirst
    exact ⟨List.mem_of_find?_eq_some hfirst, by simpa using List.find?_some hfirst⟩
  · intro ⟨hmem, hname⟩
    cases hfind : users.first name with
    | none =>
        have hno := List.find?_eq_none.mp hfind user hmem
        simp [hname] at hno
    | some other =>
        have hsome := List.find?_some hfind
        have hother := List.mem_of_find?_eq_some hfind
        rw [eq_of_username hother hmem]
        rw [hname]
        simpa using hsome

theorem getRole_eq_some {users : Users} {name role : String} :
    users.getRole name = some role
      ↔ ∃ user ∈ users.rows, user.username = name ∧ user.roleName = role := by
  rw [getRole, Option.map_eq_some_iff]
  constructor
  · intro ⟨user, hfirst, hrole⟩
    obtain ⟨hmem, hname⟩ := first_eq_some.mp hfirst
    exact ⟨user, hmem, hname, hrole⟩
  · intro ⟨user, hmem, hname, hrole⟩
    exact ⟨user, first_eq_some.mpr ⟨hmem, hname⟩, hrole⟩

/-- A role that somebody has counts with its value. -/
theorem getRoleValue_of_mem {users : Users} {user : User} (hmem : user ∈ users.rows) :
    users.getRoleValue user.roleName = (userRoles.lookup user.roleName).getD 0 := by
  rw [getRoleValue, if_pos]
  rw [List.any_eq_true]
  exact ⟨user, hmem, by simp⟩

theorem mem_remove {users : Users} {username : String} {user : User} :
    user ∈ (users.remove username).rows ↔ user ∈ users.rows ∧ user.username ≠ username := by
  rw [remove, List.mem_filter]
  simp

/-- A change of password keeps names and roles. -/
theorem mem_setPwdHash {users : Users} {username digest : String} {user : User}
    (hmem : user ∈ (users.setPwdHash username digest).rows) :
    ∃ old ∈ users.rows, old.username = user.username ∧ old.roleName = user.roleName := by
  obtain ⟨old, hold, heq⟩ := List.mem_map.mp hmem
  refine ⟨old, hold, ?_⟩
  rw [← heq]
  split <;> exact ⟨rfl, rfl⟩

end Users

end Armore.Web
