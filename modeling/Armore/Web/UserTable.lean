import Armore.Lib.Run
import Armore.Web.Session
import Mathlib.Data.List.Perm.Subperm

/-!
# The accounts survive

Two things protect the accounts: the last admin cannot be deleted, and everything that changes an account
is behind `secure`, but for the page of the first set-up, which asks `isInitialSetup`. That function takes
a database error for an empty table. Where the error does not strike there, an admin stays, and no request
changes an account without passing `secure`.
-/

namespace Armore.Web

open Armore.Lib

variable {B : Type} [DecidableEq B]

/-- Somebody is an admin. -/
def HasAdmin (db : Database) : Prop :=
  ∃ users, db = some users ∧ ∃ user ∈ users.rows, user.roleName = "admin"

/-- Somebody has an account. -/
def HasAccount (db : Database) : Prop := ∃ users, db = some users ∧ users.rows ≠ []

/-- The request ran a handler behind `secure`. -/
def PassedSecure (w : World B) (r : Request B) : Prop :=
  (∃ handler, r.op = .secured handler) ∧ (serve w r).2 = .run

/-- On the page of the first set-up, the query for the accounts does not fail while there are some. -/
def SetupQueryAnswers (w : World B) (r : Request B) : Prop :=
  r.op.isInitialUserSetup = true → HasAccount w.db → r.fault .setup = false

theorem HasAdmin.hasAccount {db : Database} (h : HasAdmin db) : HasAccount db := by
  obtain ⟨users, hdb, user, hmem, _⟩ := h
  exact ⟨users, hdb, List.ne_nil_of_mem hmem⟩

theorem isInitialSetup_of_hasAccount {db : Database} (h : HasAccount db) :
    isInitialSetup db false = false := by
  obtain ⟨users, rfl, hrows⟩ := h
  simp [isInitialSetup, query, Users.getUsernames, hrows]

/-! ### The handlers -/

theorem Users.rows_create (users : Users) (form : AccountForm) :
    (users.create form).rows = users.rows
      ∨ ∃ user, user.username ∉ users.getUsernames ∧ form.email = some user.username
        ∧ form.role = some user.roleName ∧ (users.create form).rows = users.rows ++ [user] := by
  unfold Users.create
  split
  · rename_i email digest role hemail _ hrole
    split
    · rename_i hnew
      exact .inr ⟨⟨email, digest, role⟩, hnew, hemail, hrole, rfl⟩
    · exact .inl rfl
  · exact .inl rfl

theorem addUser_hasAdmin {db : Database} (fault : Query → Bool) (form : AccountForm)
    (h : HasAdmin db) : HasAdmin (addUser db fault form) := by
  obtain ⟨users, rfl, user, hmem, hrole⟩ := h
  unfold addUser
  cases hquery : query (some users) (fault .handler) with
  | none => exact ⟨users, rfl, user, hmem, hrole⟩
  | some users' =>
      obtain rfl : users = users' := by
        unfold query at hquery
        split at hquery
        · cases hquery
        · exact Option.some.inj hquery
      refine ⟨users.create form, rfl, user, ?_, hrole⟩
      rcases users.rows_create form with hsame | ⟨_, _, _, _, happend⟩
      · rwa [hsame]
      · rw [happend]
        exact List.mem_append_left _ hmem

/-- What a query returns is the table. -/
theorem query_eq_some {db : Database} {fault : Bool} {users : Users}
    (h : query db fault = some users) : db = some users := by
  unfold query at h
  split at h
  · cases h
  · exact h

/-- Deleting is allowed only when an admin with another name is left. -/
theorem exists_other_admin {users : Users} {fault : Query → Bool} {username : String}
    (hadmin : ∃ user ∈ users.rows, user.roleName = "admin")
    (hallowed : deleteAllowed (some users) fault username = some true) :
    ∃ user ∈ users.rows, user.roleName = "admin" ∧ user.username ≠ username := by
  obtain ⟨admin, hmem, hrole⟩ := hadmin
  have hadmins : admin ∈ users.admins := List.mem_filter.mpr ⟨hmem, by simpa using hrole⟩
  obtain ⟨users', hquery, hallowed⟩ := Option.bind_eq_some_iff.mp hallowed
  obtain rfl : users = users' := Option.some.inj (query_eq_some hquery)
  by_cases hone : users.admins.length = 1
  · rw [if_pos hone] at hallowed
    obtain ⟨role, hgetRole, hnot⟩ := Option.map_eq_some_iff.mp hallowed
    obtain ⟨users', hquery', hgetRole⟩ := Option.bind_eq_some_iff.mp hgetRole
    obtain rfl : users = users' := Option.some.inj (query_eq_some hquery')
    refine ⟨admin, hmem, hrole, ?_⟩
    intro hname
    -- the deleted user would be the one admin
    obtain ⟨user, huser, hname', rfl⟩ := Users.getRole_eq_some.mp hgetRole
    rw [Users.eq_of_username huser hmem (hname'.trans hname.symm)] at hnot
    simp [hrole] at hnot
  · -- there are two different admins, and one of them has another name
    by_contra hnone
    have hsame : ∀ user ∈ users.admins, user = admin := by
      intro user huser
      obtain ⟨hmem', hrole'⟩ := List.mem_filter.mp huser
      have hname : ∀ other ∈ users.rows, other.roleName = "admin" → other.username = username :=
        fun other hother hrole => by
          by_contra hne
          exact hnone ⟨other, hother, hrole, hne⟩
      apply Users.eq_of_username hmem' hmem
      rw [hname user hmem' (by simpa using hrole'), hname admin hmem hrole]
    have hnodup : users.admins.Nodup := (users.unique.of_map _).filter _
    apply hone
    have hsub : users.admins ⊆ [admin] := fun user huser => by
      rw [List.mem_singleton]
      exact hsame user huser
    have hle : users.admins.length ≤ 1 := (List.subperm_of_subset hnodup hsub).length_le
    have hpos : 0 < users.admins.length := List.length_pos_of_mem hadmins
    omega

theorem deleteUser_hasAdmin {db : Database} (fault : Query → Bool) (username : String)
    (h : HasAdmin db) : HasAdmin (deleteUser db fault username) := by
  obtain ⟨users, rfl, hadmin⟩ := h
  unfold deleteUser
  split
  · rename_i users' hallowed hquery
    obtain rfl : users = users' := Option.some.inj (query_eq_some hquery)
    obtain ⟨user, hmem, hrole, hname⟩ := exists_other_admin hadmin hallowed
    exact ⟨_, rfl, user, Users.mem_remove.mpr ⟨hmem, hname⟩, hrole⟩
  · exact ⟨users, rfl, hadmin⟩

theorem updatePwd_hasAdmin {db : Database} (fault : Query → Bool) (username : String)
    (old new : Option String) (h : HasAdmin db) : HasAdmin (updatePwd db fault username old new) := by
  unfold updatePwd
  split
  · split
    · split
      · rename_i digest users hquery
        obtain ⟨users', hdb, user, hmem, hrole⟩ := h
        rw [query_eq_some hquery, Option.some.injEq] at hdb
        subst hdb
        refine ⟨_, rfl, _, List.mem_map_of_mem hmem, ?_⟩
        split <;> exact hrole
      · exact h
    · exact h
  · exact h

theorem Handler.execute_hasAdmin {db : Database} (fault : Query → Bool) (handler : Handler)
    (h : HasAdmin db) : HasAdmin (handler.execute db fault) := by
  cases handler with
  | addUser form =>
      cases form with
      | none => exact h
      | some form => exact addUser_hasAdmin fault form h
  | deleteUser username => exact deleteUser_hasAdmin fault username h
  | updatePwd username old new => exact updatePwd_hasAdmin fault username old new h
  | other guard => exact h

/-! ### One request -/

/-- Behind `secure` or not, the database changes only where a handler runs. -/
theorem serve_db (w : World B) (r : Request B) :
    (serve w r).1.db = w.db
      ∨ (∃ form, r.op = .initialUserSetup form
        ∧ (serve w r).1.db = initialUserSetup w.db r.fault form)
      ∨ (∃ handler, r.op = .secured handler ∧ (serve w r).2 = .run
        ∧ (serve w r).1.db = handler.execute w.db r.fault) := by
  unfold serve
  by_cases hcheck : (isInitialSetup w.db (r.fault .checkInitial) && !r.op.isInitialUserSetup) = true
  · rw [if_pos hcheck]
    exact .inl rfl
  · rw [if_neg hcheck]
    unfold dispatch
    cases r.op with
    | signin form => cases form <;> exact .inl rfl
    | signout =>
        dsimp only
        split <;> exact .inl rfl
    | initialUserSetup form => exact .inr (.inl ⟨form, rfl, rfl⟩)
    | secured handler =>
        dsimp only
        split
        · exact .inr (.inr ⟨handler, rfl, rfl, rfl⟩)
        · exact .inl rfl

omit [DecidableEq B] in
/-- Where the query answers, the page of the first set-up does nothing while there are accounts. -/
theorem initialUserSetup_of_hasAccount {w : World B} {r : Request B} {form : Option AccountForm}
    (hanswers : SetupQueryAnswers w r) (hop : r.op = .initialUserSetup form)
    (haccount : HasAccount w.db) : initialUserSetup w.db r.fault form = w.db := by
  have hfault := hanswers (by rw [hop]; rfl) haccount
  unfold initialUserSetup
  rw [hfault, isInitialSetup_of_hasAccount haccount, if_neg Bool.false_ne_true]

theorem serve_hasAdmin {w : World B} {r : Request B} (hanswers : SetupQueryAnswers w r)
    (hadmin : HasAdmin w.db) : HasAdmin (serve w r).1.db := by
  rcases serve_db w r with hsame | ⟨form, hop, hdb⟩ | ⟨handler, _, _, hdb⟩
  · rwa [hsame]
  · rwa [hdb, initialUserSetup_of_hasAccount hanswers hop hadmin.hasAccount]
  · rw [hdb]
    exact handler.execute_hasAdmin r.fault hadmin

theorem serve_unsecured {w : World B} {r : Request B} (hanswers : SetupQueryAnswers w r)
    (haccount : HasAccount w.db) (hunsecured : ¬ PassedSecure w r) : (serve w r).1.db = w.db := by
  rcases serve_db w r with hsame | ⟨form, hop, hdb⟩ | ⟨handler, hop, hverdict, _⟩
  · exact hsame
  · rw [hdb, initialUserSetup_of_hasAccount hanswers hop haccount]
  · exact absurd ⟨⟨handler, hop⟩, hverdict⟩ hunsecured

/-- **In a run in which the query of the set-up page never fails while there are accounts, a table with
an admin keeps one, and no request changes an account without passing `secure` once there is one.** -/
theorem accounts_survive {w w' : World B} {requests : List (Request B)}
    (hrun : Run (Restrict Serves SetupQueryAnswers) w requests w') :
    (HasAdmin w.db → HasAdmin w'.db)
      ∧ ∀ r, SetupQueryAnswers w' r → HasAccount w'.db → ¬ PassedSecure w' r →
        (serve w' r).1.db = w'.db := by
  constructor
  · intro hadmin
    apply hrun.invariant (fun w => HasAdmin w.db) hadmin
    intro w r w' hbefore ⟨hserves, hanswers⟩
    rw [← hserves]
    exact serve_hasAdmin hanswers hbefore
  · intro r hanswers haccount hunsecured
    exact serve_unsecured hanswers haccount hunsecured

/-! ### An error on the set-up page -/

/-- A request of the only browser to the set-up page, whose query fails or not. -/
def setupRequest (fails : Bool) (form : Option AccountForm) : Request Unit where
  browser := ()
  auth := none
  fault query := match query with
    | .setup => fails
    | _ => false
  op := .initialUserSetup form

/-- The form that makes `root` an admin. -/
def rootForm : AccountForm := ⟨some "root", some "digest", some "admin"⟩

/-- The server after the first set-up. -/
def setUp : World Unit :=
  (serve (serve World.initial (setupRequest false none)).1 (setupRequest false (some rootForm))).1

/-- The law from the first set-up on, at a request whose query answers. -/
theorem accounts_survive_setUp :
    HasAdmin (serve setUp (setupRequest false none)).1.db := by
  have hadmin : HasAdmin setUp.db := ⟨_, rfl, ⟨"root", "digest", "admin"⟩, by decide, rfl⟩
  have hrun : Run (Restrict Serves SetupQueryAnswers) setUp [setupRequest false none]
      (serve setUp (setupRequest false none)).1 := .single ⟨rfl, fun _ _ => rfl⟩
  exact (accounts_survive hrun).1 hadmin

/-- The query fails once, nobody is logged in, and all accounts are gone. -/
theorem setUp_emptied :
    Run Serves World.initial [setupRequest false none, setupRequest false (some rootForm)] setUp
      ∧ HasAdmin setUp.db ∧ Serves setUp (setupRequest true none) (serve setUp (setupRequest true none)).1
      ∧ ¬ PassedSecure setUp (setupRequest true none)
      ∧ ¬ HasAdmin (serve setUp (setupRequest true none)).1.db := by
  refine ⟨.snoc (.snoc .nil rfl) rfl, ⟨_, rfl, ⟨"root", "digest", "admin"⟩, by decide, rfl⟩, rfl, ?_, ?_⟩
  · intro ⟨⟨handler, hop⟩, _⟩
    cases hop
  · intro ⟨users, hdb, user, hmem, _⟩
    obtain rfl : Users.empty = users := Option.some.inj hdb
    cases hmem

end Armore.Web
