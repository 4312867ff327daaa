import Armore.Lib.PathWalk
import Armore.Lib.Raising
import Armore.Lib.Text
import Mathlib.Data.List.DropRight

/-!
# Looking at the logs

`domains/logs.py` with `domains/support/logs.py`: five handlers return what a file or a directory has. Three
of them ask `pathIsValid`, which looks at the first letters of the path and whether it is there. What the
files and directories have, and how `file` describes them, is the disk, a parameter.
-/

namespace Armore.Web.LogViewing

open Lib Lib.Text

inductive Exn
  | typeError
  | valueError
  | keyError
  | osError
  deriving DecidableEq

/-- `open`, and then `read`. -/
inductive Opened
  | raises
  | unreadable
  | text (content : Text)

/-- What of `os.stat` is shown. -/
structure Stat where
  size : Nat
  atime : Text
  mtime : Text

/-- The disk as the process finds it, with what raises as `none`. -/
structure Disk where
  pathExists : Text → Bool
  getFileType : Text → Option Text
  openRead : Bool → Text → Opened
  stat : Text → Option Stat
  /-- The files and directories `os.walk` gives first. -/
  walk : Text → Option (List Text × List Text)

/-- A row of a listing. -/
structure Entry where
  isFile : Bool
  path : Text
  size : Nat
  atime : Text
  mtime : Text
  type : Text

/-- The text of a file, or nothing, and the file it was read from. -/
structure Content where
  text : Text := []
  file : Option Text := none

/-- The rows for a directory, and the directory that was walked. -/
structure Listing where
  rows : List Entry := []
  dir : Option Text := none

/-! ### `domains/support/logs.py` -/

/-- `os.path.join`. -/
def pathJoin (root name : Text) : Text := if root.getLast? = some '/' then root ++ name else root ++ '/' :: name

/-- `re.search("[ASCII|gzip]", ..)` is a search for one of the letters. -/
def isListed (type : Text) : Bool :=
  type.any (· ∈ "ASCII|gzip".toList) && !decide ("dBase III DBT".toList <:+: type)

/-- The row of a file or directory. -/
def getRow (disk : Disk) (isFile : Bool) (path : Text) : Except Exn Entry :=
  match disk.stat path, disk.getFileType path with
  | some info, some type => .ok ⟨isFile, path, info.size, info.atime, info.mtime, type⟩
  | _, _ => .error .osError

/-- `a[sortBy] < b[sortBy]`. -/
def Entry.less (sortBy : Text) : Option (Entry → Entry → Bool) :=
  if sortBy = "isFile".toList then some fun a b => !a.isFile && b.isFile
  else if sortBy = "path".toList then some fun a b => a.path < b.path
  else if sortBy = "size".toList then some fun a b => a.size < b.size
  else if sortBy = "atime".toList then some fun a b => a.atime < b.atime
  else if sortBy = "mtime".toList then some fun a b => a.mtime < b.mtime
  else if sortBy = "type".toList then some fun a b => a.type < b.type
  else none

/-- `common.sortOrder`: each row is moved down past the larger ones. -/
def sortOrder (array : List Entry) (sortBy orderBy : Text) : Except Exn (List Entry) :=
  match Entry.less sortBy with
  | some less =>
    let array := array.foldl (fun done row => done.rdropWhile (less row) ++ row :: done.rtakeWhile (less row)) []
    .ok (if orderBy = "desc".toList then array.reverse else array)
  | none => if array.length < 2 then .ok array else .error .keyError

def getPathsFrom (disk : Disk) (path sortBy orderBy : Text) : Except Exn Listing :=
  match disk.walk path with
  | none => do return { rows := ← sortOrder [] sortBy orderBy }
  | some (files, dirs) => do
    let files ← files.mapM fun f => getRow disk true (pathJoin path f)
    let dirs ← dirs.mapM fun d => getRow disk false (pathJoin path d)
    return { rows := ← sortOrder (files.filter (fun row => isListed row.type) ++ dirs) sortBy orderBy, dir := path }

/-- `re.match('^\/var\/log.*', path) and os.path.exists(path)`. -/
def pathIsValid (disk : Disk) (path : Text) : Bool := decide ("/var/log".toList <+: path) && disk.pathExists path

/-- `re.match('.*gzip.*', theType, re.I)`. -/
def isGzip (theType : Text) : Bool := decide ("gzip".toList <:+: lower (theType.takeWhile (· ≠ '\n')))

def getLogContent (disk : Disk) (filename : Option Text) : Except Exn Content :=
  match filename with
  | none => .ok {}
  | some filename =>
    if filename ≠ [] ∧ disk.pathExists filename then
      match disk.getFileType filename with
      | none => .error .osError
      | some theType =>
        match disk.openRead (isGzip theType) filename with
        | .raises => .error .osError
        | .unreadable => .ok {}
        | .text content => .ok { text := content, file := filename }
    else .ok {}

/-- `html.escape`. -/
def escape (text : Text) : Text :=
  text.flatMap fun c =>
    if c = '&' then "&amp;".toList
    else if c = '<' then "&lt;".toList
    else if c = '>' then "&gt;".toList
    else if c = '"' then "&quot;".toList
    else if c = '\'' then "&#x27;".toList
    else [c]

/-- The starts of the matches of a text in the rest of a content, from position `i` on; `skip` letters belong
to the match before. -/
def finditer (pattern : Text) (skip i : Nat) : Text → List Nat
  | [] => if pattern = [] then [i] else []
  | c :: rest =>
    if skip ≠ 0 then finditer pattern (skip - 1) (i + 1) rest
    else if pattern <+: c :: rest then i :: finditer pattern (pattern.length - 1) (i + 1) rest
    else finditer pattern 0 (i + 1) rest

/-- What the search returns; `buffer_pos` is the position again. -/
structure Found where
  position : Int
  content : Content
  filesize : Nat

def getLogContentFiltered (disk : Disk) (filename filterBy : Option Text) (nextSrch : Int) : Except Exn Found := do
  let found ← getLogContent disk filename
  let content := escape found.text
  match filterBy with
  | none => .error .typeError
  | some filterBy =>
    let matched := finditer filterBy 0 0 content
    let position : Int := match matched with
      | [] => -1
      | _ => (matched.getD (nextSrch % matched.length).toNat 0 : Nat)
    return { position, content := { found with text := content }, filesize := content.length }

/-! ### `domains/logs.py` -/

/-- What a handler makes of a request, after the check of the role. -/
inductive Response
  | error (e : Exn)
  | redirect (flashed : Text) (location : Option Text)
  | raw (content : Content)
  | page (template : Text) (content : Content) (filename : Option Text)
  | search (found : Found)
  | download (content : Content) (disposition : Text)
  | listing (logs : Listing) (path sort order : Text)

/-- A value that was given and is not empty, or a default. -/
def orDefault (value : Option Text) (default : Text) : Text :=
  match value with
  | none => default
  | some value => if value = [] then default else value

/-- The path that `logsFiltered` lists. -/
def listedPath (thePath : Option Text) : Text :=
  match thePath with
  | none => "/var/log".toList
  | some thePath => "/var/log/".toList ++ thePath

def logsFiltered (disk : Disk) (thePath sort order : Option Text) : Response :=
  let sort := orDefault sort "mtime".toList
  let order := orDefault order "desc".toList
  let thePath := listedPath thePath
  if pathIsValid disk thePath then
    match getPathsFrom disk thePath sort order with
    | .ok logs => .listing logs thePath sort order
    | .error e => .error e
  else .redirect ("Path is invalid: redirecting to ".toList ++ thePath) (some "/logs".toList)

/-- There is no check of the path. -/
def exampleViewLog (disk : Disk) (filename : Option Text) (seekTail : Bool) : Response :=
  match getLogContent disk filename with
  | .ok content => if seekTail then .raw content else .page "example/log.html".toList content filename
  | .error e => .error e

def viewLog (disk : Disk) (filename : Option Text) (seekTail : Bool) (referrer : Option Text) : Response :=
  match filename with
  | none => .error .typeError
  | some filename =>
    if pathIsValid disk filename then
      match getLogContent disk filename with
      | .ok content =>
        if content.text = [] then .redirect "Unable to load file".toList referrer
        else if seekTail then .raw content
        else .page "log.html".toList content filename
      | .error e => .error e
    else .redirect "Invalid file path".toList (some "/logs".toList)

/-- `int` of the match to go to, which is the first unless it is given. -/
def nextSearch (int : Text → Option Int) (next : Option Text) : Option Int :=
  match next with
  | none => some 0
  | some next => if next = [] then some 0 else int next

/-- There is no check of the path. -/
def searchLog (int : Text → Option Int) (disk : Disk) (filename text next : Option Text) : Response :=
  match nextSearch int next with
  | none => .error .valueError
  | some nextSrch =>
    match getLogContentFiltered disk filename text nextSrch with
    | .ok found => .search found
    | .error e => .error e

def downloadLog (disk : Disk) (filepath : Option Text) : Response :=
  match filepath with
  | none => .error .typeError
  | some filepath =>
    if pathIsValid disk filepath then
      match getLogContent disk filepath with
      | .ok content => .download content ("attachment; filename=".toList ++ (filepath.splitOn '/').getLastD [])
      | .error e => .error e
    else .redirect "Invalid file path".toList (some "/logs".toList)

inductive Request
  | logsFiltered (thePath sort order : Option Text)
  | exampleViewLog (filename : Option Text) (seekTail : Bool)
  | viewLog (filename : Option Text) (seekTail : Bool) (referrer : Option Text)
  | searchLog (filename text next : Option Text)
  | downloadLog (filepath : Option Text)

def handle (int : Text → Option Int) (disk : Disk) : Request → Response
  | .logsFiltered thePath sort order => logsFiltered disk thePath sort order
  | .exampleViewLog filename seekTail => exampleViewLog disk filename seekTail
  | .viewLog filename seekTail referrer => viewLog disk filename seekTail referrer
  | .searchLog filename text next => searchLog int disk filename text next
  | .downloadLog filepath => downloadLog disk filepath

/-! ### Where it comes from -/

/-- The file or directory that a response shows. -/
def Response.source : Response → Option Text
  | .raw content => content.file
  | .page _ content _ => content.file
  | .search found => found.content.file
  | .download content _ => content.file
  | .listing logs _ _ _ => logs.dir
  | .error _ => none
  | .redirect _ _ => none

/-- The names and `..` of a path; `.` and what is between two slashes do not count. -/
def components (path : Text) : List (Comp Text) :=
  ((path.splitOn '/').filter fun c => c ≠ [] ∧ c ≠ ['.']).map fun c => if c = ['.', '.'] then .up else .name c

/-- The components from the root, where a relative path starts at the working directory. -/
def absolute (cwd path : Text) : List (Comp Text) :=
  if path.head? = some '/' then components path else components cwd ++ components path

/-- The normalised absolute path, as the names from the root. -/
def normalised (cwd path : Text) : List Text := Comp.walk [] (absolute cwd path)

/-- What is shown is `/var/log` or below it. -/
def Confined (cwd : Text) (response : Response) : Prop :=
  ∀ path, response.source = some path → ["var".toList, "log".toList] <+: normalised cwd path

/-! ### What a request asks for -/

/-- A name that is given and not empty. -/
def given (filename : Option Text) : Option Text := filename.filter fun filename => filename ≠ []

/-- A name with the first letters that `pathIsValid` looks for. -/
def prefixed (filename : Option Text) : Option Text := filename.filter fun filename => "/var/log".toList <+: filename

/-- The path that is shown if there is something to show. -/
def Request.asks (int : Text → Option Int) : Request → Option Text
  | .logsFiltered thePath _ _ => some (listedPath thePath)
  | .exampleViewLog filename _ => given filename
  | .viewLog filename _ _ => prefixed filename
  | .searchLog filename text next => if text.isSome ∧ (nextSearch int next).isSome then given filename else none
  | .downloadLog filepath => prefixed filepath

variable {int : Text → Option Int} {disk : Disk} {path : Text}

theorem source_getLogContent {filename : Option Text} {content : Content} (h : getLogContent disk filename = .ok content)
    (hfile : content.file = some path) : filename = some path ∧ path ≠ [] := by
  unfold getLogContent at h
  split at h
  · obtain rfl := Except.ok.inj h
    exact nomatch hfile
  · rename_i filename
    split at h
    · rename_i hexists
      split at h
      · exact nomatch h
      · split at h
        · exact nomatch h
        · obtain rfl := Except.ok.inj h
          exact nomatch hfile
        · obtain rfl := Except.ok.inj h
          obtain rfl := Option.some.inj hfile
          exact ⟨rfl, hexists.1⟩
    · obtain rfl := Except.ok.inj h
      exact nomatch hfile

theorem source_getPathsFrom {dir sortBy orderBy : Text} {logs : Listing}
    (h : getPathsFrom disk dir sortBy orderBy = .ok logs) (hdir : logs.dir = some path) : dir = path := by
  unfold getPathsFrom at h
  split at h
  · obtain ⟨rows, _, h⟩ := bind_ok.mp h
    obtain rfl := Except.ok.inj h
    exact nomatch hdir
  · obtain ⟨files, _, h⟩ := bind_ok.mp h
    obtain ⟨dirs, _, h⟩ := bind_ok.mp h
    obtain ⟨rows, _, h⟩ := bind_ok.mp h
    obtain rfl := Except.ok.inj h
    exact Option.some.inj hdir

theorem prefix_of_pathIsValid (h : pathIsValid disk path = true) : "/var/log".toList <+: path :=
  of_decide_eq_true ((Bool.and_eq_true _ _).mp h).1

theorem source_logsFiltered {thePath sort order : Option Text}
    (h : (logsFiltered disk thePath sort order).source = some path) : listedPath thePath = path := by
  unfold logsFiltered at h
  dsimp only at h
  split at h
  · split at h
    · rename_i hlogs
      exact source_getPathsFrom hlogs h
    · exact nomatch h
  · exact nomatch h

theorem source_exampleViewLog {filename : Option Text} {seekTail : Bool}
    (h : (exampleViewLog disk filename seekTail).source = some path) : given filename = some path := by
  unfold exampleViewLog at h
  split at h
  · rename_i content hcontent
    have hfile : content.file = some path := by
      split at h <;> exact h
    obtain ⟨rfl, hne⟩ := source_getLogContent hcontent hfile
    simp [given, hne]
  · exact nomatch h

theorem source_viewLog {filename referrer : Option Text} {seekTail : Bool}
    (h : (viewLog disk filename seekTail referrer).source = some path) : prefixed filename = some path := by
  unfold viewLog at h
  split at h
  · exact nomatch h
  · split at h
    · rename_i hvalid
      split at h
      · rename_i content hcontent
        have hfile : content.file = some path := by
          split at h
          · exact nomatch h
          · split at h <;> exact h
        obtain rfl := Option.some.inj (source_getLogContent hcontent hfile).1
        exact Option.filter_eq_some_iff.mpr ⟨rfl, decide_eq_true (prefix_of_pathIsValid hvalid)⟩
      · exact nomatch h
    · exact nomatch h

theorem source_searchLog {filename text next : Option Text}
    (h : (searchLog int disk filename text next).source = some path) :
    (Request.searchLog filename text next).asks int = some path := by
  unfold searchLog at h
  split at h
  · exact nomatch h
  · rename_i nextSrch hnext
    split at h
    · rename_i found hfound
      obtain ⟨content, hcontent, hfound⟩ := bind_ok.mp hfound
      cases text with
      | none => exact nomatch hfound
      | some text =>
          obtain rfl := Except.ok.inj hfound
          obtain ⟨rfl, hne⟩ := source_getLogContent hcontent h
          simp [Request.asks, given, hnext, hne]
    · exact nomatch h

theorem source_downloadLog {filepath : Option Text} (h : (downloadLog disk filepath).source = some path) :
    prefixed filepath = some path := by
  unfold downloadLog at h
  split at h
  · exact nomatch h
  · split at h
    · rename_i hvalid
      split at h
      · rename_i content hcontent
        obtain rfl := Option.some.inj (source_getLogContent hcontent h).1
        exact Option.filter_eq_some_iff.mpr ⟨rfl, decide_eq_true (prefix_of_pathIsValid hvalid)⟩
      · exact nomatch h
    · exact nomatch h

/-- **What is shown was asked for.** -/
theorem asks_of_source {request : Request} (h : (handle int disk request).source = some path) :
    request.asks int = some path := by
  cases request with
  | logsFiltered thePath sort order => exact congrArg some (source_logsFiltered h)
  | exampleViewLog filename seekTail => exact source_exampleViewLog h
  | viewLog filename seekTail referrer => exact source_viewLog h
  | searchLog filename text next => exact source_searchLog h
  | downloadLog filepath => exact source_downloadLog h

/-! ### A disk that has everything -/

/-- Every path is there, as a text and as an empty directory. -/
def fullDisk : Disk where
  pathExists _ := true
  getFileType _ := some "ASCII text\n".toList
  openRead _ _ := .text ['x']
  stat _ := none
  walk _ := some ([], [])

theorem pathIsValid_fullDisk (h : "/var/log".toList <+: path) : pathIsValid fullDisk path = true := by
  rw [pathIsValid, decide_eq_true h]
  rfl

theorem getLogContent_fullDisk (h : path ≠ []) :
    getLogContent fullDisk (some path) = .ok { text := ['x'], file := path } := by
  unfold getLogContent
  dsimp only
  rw [if_pos ⟨h, rfl⟩]
  rfl

theorem getPathsFrom_fullDisk (path sortBy orderBy : Text) :
    getPathsFrom fullDisk path sortBy orderBy = .ok { rows := [], dir := path } := by
  have hsort : sortOrder [] sortBy orderBy = .ok [] := by
    unfold sortOrder
    split
    · dsimp only
      split <;> rfl
    · rfl
  show (do return { rows := ← sortOrder [] sortBy orderBy, dir := some path } : Except Exn Listing) = _
  rw [hsort]
  rfl

theorem prefix_listedPath (thePath : Option Text) : "/var/log".toList <+: listedPath thePath := by
  cases thePath with
  | none => exact List.prefix_rfl
  | some thePath => exact ⟨'/' :: thePath, rfl⟩

theorem given_eq_some {filename : Option Text} (h : given filename = some path) : filename = some path ∧ path ≠ [] := by
  obtain ⟨hfilename, hne⟩ := Option.filter_eq_some_iff.mp h
  exact ⟨hfilename, of_decide_eq_true hne⟩

theorem prefixed_eq_some {filename : Option Text} (h : prefixed filename = some path) :
    filename = some path ∧ "/var/log".toList <+: path := by
  obtain ⟨hfilename, hprefix⟩ := Option.filter_eq_some_iff.mp h
  exact ⟨hfilename, of_decide_eq_true hprefix⟩

theorem ne_nil_of_below_varLog (h : "/var/log".toList <+: path) : path ≠ [] := by
  rintro rfl
  exact absurd (List.prefix_nil.mp h) (by decide)

/-- What is asked for is shown when it is there. -/
theorem source_of_asks {request : Request} (h : request.asks int = some path) :
    (handle int fullDisk request).source = some path := by
  cases request with
  | logsFiltered thePath sort order =>
      obtain rfl := Option.some.inj h
      show (logsFiltered fullDisk thePath sort order).source = _
      unfold logsFiltered
      dsimp only
      rw [if_pos (pathIsValid_fullDisk (prefix_listedPath thePath)), getPathsFrom_fullDisk]
      rfl
  | exampleViewLog filename seekTail =>
      obtain ⟨rfl, hne⟩ := given_eq_some h
      show (exampleViewLog fullDisk (some path) seekTail).source = _
      rw [exampleViewLog, getLogContent_fullDisk hne]
      cases seekTail <;> rfl
  | viewLog filename seekTail referrer =>
      obtain ⟨rfl, hprefix⟩ := prefixed_eq_some h
      show (viewLog fullDisk (some path) seekTail referrer).source = _
      unfold viewLog
      dsimp only
      rw [if_pos (pathIsValid_fullDisk hprefix), getLogContent_fullDisk (ne_nil_of_below_varLog hprefix)]
      cases seekTail <;> rfl
  | searchLog filename text next =>
      rw [Request.asks] at h
      split at h
      · rename_i hsome
        obtain ⟨rfl, hne⟩ := given_eq_some h
        obtain ⟨text, rfl⟩ := Option.isSome_iff_exists.mp hsome.1
        obtain ⟨nextSrch, hnext⟩ := Option.isSome_iff_exists.mp hsome.2
        show (searchLog int fullDisk (some path) (some text) next).source = _
        rw [searchLog, hnext]
        dsimp only
        rw [getLogContentFiltered, getLogContent_fullDisk hne]
        rfl
      · exact nomatch h
  | downloadLog filepath =>
      obtain ⟨rfl, hprefix⟩ := prefixed_eq_some h
      show (downloadLog fullDisk (some path)).source = _
      unfold downloadLog
      dsimp only
      rw [if_pos (pathIsValid_fullDisk hprefix), getLogContent_fullDisk (ne_nil_of_below_varLog hprefix)]
      rfl

/-- The path takes back all its names, goes down to `var`, makes a detour, goes down to `log`, and does not
climb from there. -/
def Stays (cwd path : Text) : Prop :=
  ∃ front mid back, absolute cwd path = front ++ .name "var".toList :: (mid ++ .name "log".toList :: back)
    ∧ Comp.TakesBack front ∧ Comp.Detour mid ∧ Comp.Below back

/-- **A request is confined, whatever the disk has, exactly when the path it asks for stays.** -/
theorem confined_iff (cwd : Text) (int : Text → Option Int) (request : Request) :
    (∀ disk, Confined cwd (handle int disk request)) ↔ ∀ path, request.asks int = some path → Stays cwd path := by
  constructor
  · intro h path hasks
    exact Comp.pair_prefix_walk_iff.mp (h fullDisk path (source_of_asks hasks))
  · intro h disk path hsource
    exact Comp.pair_prefix_walk_iff.mpr (h path (asks_of_source hsource))

/-- `pathIsValid` takes this path. -/
theorem passwd_shown : ¬ ∀ (cwd : Text) (int : Text → Option Int) (request : Request) (disk : Disk),
    Confined cwd (handle int disk request) := by
  intro h
  have hsource : (handle (fun _ => none) fullDisk (.viewLog "/var/log/../../etc/passwd".toList true none)).source
      = some "/var/log/../../etc/passwd".toList := by
    decide
  exact absurd (h ['/'] _ _ fullDisk _ hsource) (by decide)

end Armore.Web.LogViewing
