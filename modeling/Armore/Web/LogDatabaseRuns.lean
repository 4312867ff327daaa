import Armore.Web.ColGraphConservation
import Armore.Web.LogDatabase

/-!
# What the database of the logs can come to

The programs that use the database run at once, and every one of their calls may raise. Between the look of
`add_to_db` for a document of the name and its insertion another importer can do the same, so there can be as
many documents of one name as there were importers in between at one time, and no more (`named_le`). With two
of them, an import of the baseline deletes one and keeps the other (`baseline_replaced`). What is stored are
graphs whose links end at their own nodes, whatever the programs do, and so a comparison of two documents that
have a graph never fails (`diffDocuments_answers`).
-/

namespace Armore.Web.LogDatabase

open Lib Lib.Calls

/-! ### How many documents have a name -/

section

variable {σ : Type}

/-- The number of documents of a name. -/
def named (mongo : MongoDB σ) (coll ts : Text) (s : σ) : Nat := (mongo.documents s coll).countP (isNamed ts)

/-- The call adds a document of the name. -/
def Adds (coll ts : Text) : Call → Prop
  | .insert coll' doc => coll' = coll ∧ doc.createdAt = ts
  | _ => False

instance (coll ts : Text) : DecidablePred (Adds coll ts)
  | .insert coll' doc => inferInstanceAs (Decidable (coll' = coll ∧ doc.createdAt = ts))
  | .find _ | .findNamed _ _ | .deleteOne _ _ | .dropCollection _ | .updateOne _ _ _ _ =>
    inferInstanceAs (Decidable False)

/-- The answer that there is no document of the name. -/
def Absent (coll ts : Text) (c : Call) (reply : Reply) : Prop :=
  c = .find coll ∧ ts ∉ reply.documents.map Document.createdAt

theorem mem_createdAt {docs : List Document} {ts : Text} :
    ts ∈ docs.map Document.createdAt ↔ 0 < docs.countP (isNamed ts) := by
  rw [List.countP_pos_iff, List.mem_map]
  simp only [isNamed, decide_eq_true_eq]

theorem NodeSet.createdAt {ts name : Text} {change : NodeChange} {doc doc' : Document}
    (h : NodeSet ts name change doc doc') : doc'.createdAt = doc.createdAt := by
  cases h
  rfl

variable {mongo : MongoDB σ}

theorem named_of_perm {coll ts : Text} {s : σ} {docs : List Document} (h : (mongo.documents s coll).Perm docs) :
    named mongo coll ts s = docs.countP (isNamed ts) :=
  h.countP_eq _

/-- A call changes the number of documents of a name only in its collection. -/
theorem MongoDB.Documented.named_of_ne (hmongo : mongo.Documented) (c : Call) (s : σ) {coll : Text} (hcoll : coll ≠ c.coll)
    (ts : Text) : named mongo coll ts (mongo.exec c s).2 = named mongo coll ts s := by
  rw [named, hmongo.others c s coll hcoll, named]

/-- A deletion takes one document of the name, or there is none. -/
theorem MongoDB.Documented.deleteOne_cases (hmongo : mongo.Documented) (coll ts : Text) (s : σ) :
    (mongo.exec (.deleteOne coll ts) s).2 = s ∧ (∀ doc ∈ mongo.documents s coll, isNamed ts doc = false)
      ∨ ∃ doc, isNamed ts doc = true
        ∧ (mongo.documents s coll).Perm (doc :: mongo.documents (mongo.exec (.deleteOne coll ts) s).2 coll) := by
  by_cases hany : ∃ doc ∈ mongo.documents s coll, isNamed ts doc = true
  · exact .inr (hmongo.deleteOne coll ts s hany)
  · have hnone : ∀ doc ∈ mongo.documents s coll, isNamed ts doc = false := by
      intro doc hdoc
      rw [← Bool.not_eq_true]
      exact fun hts => hany ⟨doc, hdoc, hts⟩
    exact .inl ⟨hmongo.deleteOne_none coll ts s hnone, hnone⟩

/-- What the calls do to the number of documents of a name. -/
theorem counted_named (hmongo : mongo.Documented) (coll ts : Text) :
    Counted mongo.exec (Adds coll ts) (Absent coll ts) (named mongo coll ts) where
  add c s hadds := by
    cases c with
    | insert coll' doc =>
        obtain ⟨rfl, hts⟩ := hadds
        rw [named_of_perm (hmongo.insert coll' doc s), List.countP_cons, named]
        split <;> omega
    | _ => exact hadds.elim
  keep c s hadds := by
    by_cases hcoll : coll = c.coll
    · subst hcoll
      cases c with
      | find coll => rw [(hmongo.find coll s).2]
      | findNamed coll ts' => rw [(hmongo.findNamed coll ts' s).2]
      | insert coll doc =>
          have hts : isNamed ts doc = false := decide_eq_false fun h => hadds ⟨rfl, h⟩
          rw [Call.coll, named_of_perm (hmongo.insert coll doc s),
            List.countP_cons_of_neg (by rw [hts]; exact Bool.false_ne_true), named]
      | deleteOne coll ts' =>
          rcases hmongo.deleteOne_cases coll ts' s with ⟨hsame, _⟩ | ⟨doc, _, hperm⟩
          · rw [hsame]
          · rw [Call.coll, named_of_perm hperm, List.countP_cons, ← named]
            exact Nat.le_add_right _ _
      | dropCollection coll =>
          rw [named, Call.coll, hmongo.dropCollection coll s]
          exact Nat.zero_le _
      | updateOne coll ts' name change =>
          rcases hmongo.updateOne coll ts' name change s with hsame | ⟨doc, doc', others, hset, hbefore, hafter⟩
          · rw [hsame]
          · have hnamed : isNamed ts doc' = isNamed ts doc := by
              rw [isNamed, hset.createdAt, isNamed]
            rw [Call.coll, named_of_perm hbefore, named_of_perm hafter, List.countP_cons, List.countP_cons, hnamed]
    · rw [hmongo.named_of_ne c s hcoll]
  ask c s habsent := by
    obtain ⟨rfl, hts⟩ := habsent
    rw [mem_createdAt, (hmongo.find coll s).1.countP_eq, ← named] at hts
    exact ⟨Nat.eq_zero_of_not_pos hts, fun h => h⟩

end

/-! ### The graphs that are stored -/

/-- A graph under `col_log` is one whose links end at its own nodes. -/
def ColValue.WellFormed : ColValue → Prop
  | .graph g => g.WellFormed
  | _ => True

def Body.WellFormed : Body → Prop
  | .logs value => value.colLog.WellFormed
  | .anomalies _ => True

theorem wellFormed_storedLog {ν μ : Type} {node : ν → NodeRest} {link : μ → LinkRest} {clg : ColDiff.ColLog ν μ}
    (h : clg.WellFormed) : (storedLog node link clg).WellFormed := by
  have hnames : (storedLog node link clg).names = clg.names := by
    rw [ColDiff.ColLog.names, storedLog, List.map_map]
    rfl
  refine ⟨?_, fun lk hlk => ?_⟩
  · rw [hnames]
    exact h.names
  · rw [hnames]
    obtain ⟨before, hbefore, rfl⟩ := List.mem_map.mp hlk
    exact h.endpoints before hbefore

theorem wellFormed_processStatsColLog {texts : ColGraph.SetOrder Text} {pairs : ColGraph.SetOrder (Text × Text)}
    {lines : List Text} {clg : ColGraph.ColLog} (h : ColGraph.processStatsColLog texts pairs lines = .ok (some clg)) :
    clg.WellFormed := by
  obtain ⟨found, _, h⟩ := bind_ok.mp h
  dsimp only at h
  split at h
  · obtain rfl := Option.some.inj (Except.ok.inj h)
    have hnames : ∀ (nodes : List Text) (s : ColGraph.Specs),
        (nodes.zipIdx.map fun entry => ColGraph.jNode s entry.2 entry.1).map ColDiff.Node.name = nodes := by
      intro nodes s
      rw [List.map_map]
      exact (List.map_congr_left fun _ _ => rfl).trans (List.zipIdx_map_fst 0 nodes)
    refine ⟨?_, fun lk hlk => ?_⟩
    · rw [ColDiff.ColLog.names, hnames]
      exact (texts.perm _).nodup_iff.mpr (List.nodup_dedup _)
    · rw [ColDiff.ColLog.names, hnames]
      obtain ⟨l, _, j, hj⟩ := BaselineGraph.mem_collect hlk
      have hlink : ColGraph.LinkFor texts _ _ l lk := ⟨j, hj⟩
      obtain ⟨source, target, _, hsource, htarget, _, _, _, hends, _⟩ := hlink.fields
      obtain rfl := hends
      exact ⟨List.isSome_idxOf?.mp (by rw [hsource]; rfl), List.isSome_idxOf?.mp (by rw [htarget]; rfl)⟩
  · cases Except.ok.inj h

/-! ### The programs ask before they add -/

/-- The call adds no document. -/
def Keeps (c : Call) : Prop := ∀ coll doc, c ≠ .insert coll doc

theorem Keeps.not_adds {c : Call} (hc : Keeps c) {coll ts : Text} : ¬ Adds coll ts c := by
  cases c with
  | insert coll' doc => exact absurd rfl (hc coll' doc)
  | _ => exact fun h => h

theorem keeps_find (coll : Text) : Keeps (.find coll) := fun _ _ => Call.noConfusion

theorem keeps_findNamed (coll ts : Text) : Keeps (.findNamed coll ts) := fun _ _ => Call.noConfusion

theorem keeps_deleteOne (coll ts : Text) : Keeps (.deleteOne coll ts) := fun _ _ => Call.noConfusion

theorem keeps_dropCollection (coll : Text) : Keeps (.dropCollection coll) := fun _ _ => Call.noConfusion

theorem keeps_updateOne (coll ts name : Text) (change : NodeChange) : Keeps (.updateOne coll ts name change) :=
  fun _ _ => Call.noConfusion

theorem uses_getTimes (coll : Text) : (getTimes coll).Uses Keeps :=
  (Program.Uses.request (keeps_find coll)).bind fun _ => trivial

theorem uses_resetDb (coll : Text) : (resetDb coll).Uses Keeps :=
  (Program.Uses.request (keeps_dropCollection coll)).bind fun _ => trivial

theorem uses_removeFromDb (ts coll : Text) : (removeFromDb ts coll).Uses Keeps := by
  unfold removeFromDb
  split
  · exact uses_resetDb _
  · refine (uses_getTimes coll).bind fun _ => (uses_getTimes coll).bind fun times => ?_
    cases times with
    | none => trivial
    | some times =>
        dsimp only
        split
        · exact (Program.Uses.request (keeps_deleteOne coll ts)).bind fun _ => trivial
        · trivial

theorem uses_firstLogs (ts : Text) : (firstLogs ts).Uses Keeps :=
  (Program.Uses.request (keeps_findNamed _ ts)).bind fun _ => trivial

theorem uses_diffDocuments (timestamp1 timestamp2 : Text) : (diffDocuments timestamp1 timestamp2).Uses Keeps := by
  refine (uses_firstLogs _).bind fun first => ?_
  split
  · trivial
  · refine (uses_firstLogs _).bind fun second => ?_
    split
    · trivial
    · split
      · trivial
      · refine (uses_firstLogs _).bind fun third => ?_
        split
        · trivial
        · refine (uses_firstLogs _).bind fun fourth => ?_
          split
          · trivial
          · refine (uses_firstLogs _).bind fun fifth => ?_
            split <;> trivial

theorem uses_updateType (timestamp nodeName : Text) (nodeType : Option Text) (res : Option Reply) :
    (updateType timestamp nodeName nodeType res).Uses Keeps := by
  cases nodeType with
  | none => trivial
  | some type => exact (Program.Uses.request (keeps_updateOne _ _ _ _)).bind fun _ => trivial

theorem uses_updateNode (timestamp nodeName : Text) (nodeLabel nodeType : Option Text) :
    (updateNode timestamp nodeName nodeLabel nodeType).Uses Keeps := by
  cases nodeLabel with
  | none => exact uses_updateType ..
  | some label =>
      refine (Program.Uses.request (keeps_updateOne _ _ _ _)).bind fun res => ?_
      split
      · trivial
      · exact uses_updateType ..

theorem ignore_addToDb (createdAt : Option Text) (body : Body) (coll : Text) :
    Program.ignore (addToDb createdAt body coll >>= fun added => return some added)
      = (addToDb createdAt body coll).ignore := Program.bind_assoc ..

/-- What a program of a client can do: it adds nothing, or it adds one document at its end. -/
inductive AddsLast : Prog Unit → Prop
  | keeps {p : Prog Unit} (hp : p.Uses Keeps) : AddsLast p
  | adds {before : Prog Unit} (hbefore : before.Uses Keeps) (createdAt : Option Text) {body : Body}
      (hbody : body.WellFormed) (coll : Text) :
      AddsLast (before >>= fun _ => (addToDb createdAt body coll).ignore)

theorem AddsLast.done : AddsLast (.done ()) := .keeps trivial

theorem AddsLast.only (createdAt : Option Text) {body : Body} (hbody : body.WellFormed) (coll : Text) :
    AddsLast (addToDb createdAt body coll).ignore := by
  have hdone : (Program.done () : Prog Unit).Uses Keeps := trivial
  have hadds := AddsLast.adds hdone createdAt hbody coll
  exact hadds

theorem uses_ignore {α : Type} {kind : Call → Prop} {p : Prog α} (hp : p.Uses kind) : p.ignore.Uses kind :=
  hp.bind fun _ => trivial

theorem addsLast_anomaly (host : Host) (path timestamp : Text) :
    AddsLast (processStatsAnomalyLog host path timestamp).ignore := by
  unfold processStatsAnomalyLog
  split
  · exact .done
  · rw [ignore_addToDb]
    have hbody : ∀ rows, (Body.anomalies rows).WellFormed := fun _ => trivial
    exact .only _ (hbody _) _

theorem wellFormed_baselineBody {texts : ColGraph.SetOrder Text} {pairs : ColGraph.SetOrder (Text × Text)}
    {lines : List Text} {read : List Text × Option BaselineGraph.BaseLog}
    (h : BaselineGraph.readBaseline texts pairs lines = .ok read) : (baselineBody read).WellFormed := by
  obtain ⟨children, g⟩ := read
  cases g with
  | none => trivial
  | some g => exact wellFormed_storedLog (BaselineGraph.wellFormed_readBaseline h)

theorem addsLast_baseline (host : Host) (path : Text) : AddsLast (processStatsBaselineLog host path).ignore := by
  unfold processStatsBaselineLog
  split
  · exact .done
  · split
    · exact .done
    next hread =>
      rw [Program.ignore, Program.bind_assoc]
      simp only [Program.bind_assoc]
      exact .adds (uses_removeFromDb _ _) _ (wellFormed_baselineBody hread) _

theorem wellFormed_readStats {host : Host} {statsDir statscol statscount timestamp : Option Text} {value : Logs}
    (h : readStats host statsDir statscol statscount timestamp = .ok value) : value.colLog.WellFormed := by
  obtain ⟨files, _, h⟩ := bind_ok.mp h
  obtain ⟨count, _, h⟩ := bind_ok.mp h
  obtain ⟨col, hcol, h⟩ := bind_ok.mp h
  have hread : ∀ {col : ColValue}, readCol host files.1 = .ok (some col) → col.WellFormed := by
    intro col hcol
    unfold readCol at hcol
    split at hcol
    · obtain rfl := Option.some.inj (Except.ok.inj hcol)
      trivial
    · split at hcol
      · cases hcol
      · split at hcol
        · cases hcol
        next g hg =>
          cases g with
          | none => cases Except.ok.inj hcol
          | some clg =>
              obtain rfl := Option.some.inj (Except.ok.inj hcol)
              exact wellFormed_storedLog (wellFormed_processStatsColLog hg)
  split at h
  · obtain rfl := Except.ok.inj h
    exact hread hcol
  · cases h

theorem addsLast_stats (host : Host) (statsDir statscol statscount timestamp : Option Text) :
    AddsLast (processStatsLogs host statsDir statscol statscount timestamp).ignore := by
  unfold processStatsLogs
  split
  · exact .done
  next value hvalue =>
    rw [ignore_addToDb]
    have hbody : (Body.logs value).WellFormed := wellFormed_readStats hvalue
    exact .only _ hbody _

theorem addsLast_main (host : Host) (opt : Options) : AddsLast (main host opt) := by
  unfold main
  split
  · split
    · exact .keeps (uses_removeFromDb _ _)
    · exact .keeps (uses_resetDb _)
  · split
    · split
      · exact addsLast_anomaly host _ _
      · exact .done
    · exact addsLast_baseline host _
    · split
      · split
        · exact .done
        · exact addsLast_stats ..
      · split
        · exact .done
        · exact addsLast_stats ..
      · exact .keeps (uses_ignore (uses_diffDocuments _ _))
      · exact .done

/-- **A client adds at most one document, at its end, with a graph whose links end at its own nodes.** -/
theorem addsLast_client {p : Prog Unit} (hp : Client p) : AddsLast p := by
  cases hp with
  | main host opt => exact addsLast_main host opt
  | updateNode timestamp nodeName nodeLabel nodeType => exact .keeps (uses_ignore (uses_updateNode ..))
  | compareDates timestamp1 timestamp2 => exact .keeps (uses_ignore (uses_diffDocuments _ _))

/-- The second look of `add_to_db` and what comes of it. -/
def insertUnlessThere (creationTime : Text) (body : Body) (coll : Text) : Option Reply → Prog Bool
  | none => .done false
  | some found =>
    if creationTime ∈ found.documents.map Document.createdAt then .done false
    else .call (.insert coll ⟨creationTime, body⟩) fun reply => .done reply.isSome

theorem addToDb_eq (creationTime : Text) (body : Body) (coll : Text) : addToDb (some creationTime) body coll
    = getTimes coll >>= fun _ => .call (.find coll) (insertUnlessThere creationTime body coll) := by
  have hlook : ∀ rest : Option (List Text) → Prog Bool, getTimes coll >>= rest
      = .call (.find coll) fun reply => rest (reply.map fun found => found.documents.map Document.createdAt) :=
    fun rest => rfl
  apply congrArg (getTimes coll >>= ·)
  funext first
  rw [hlook]
  congr 1
  funext reply
  cases reply <;> rfl

/-- `add_to_db` inserts right after the answer that there is no document of the name. -/
theorem careful_addToDb (createdAt : Option Text) (body : Body) (coll coll' ts : Text) :
    Careful (Adds coll' ts) (Absent coll' ts) (addToDb createdAt body coll) := by
  cases createdAt with
  | none => exact .done false
  | some creationTime =>
      have hlook : Careful (Adds coll' ts) (Absent coll' ts) (getTimes coll) :=
        careful_of_uses ((uses_getTimes coll).imp fun _ hc => hc.not_adds)
      rw [addToDb_eq]
      refine hlook.bind fun _ => ⟨fun h => h, fun reply => ?_⟩
      cases reply with
      | none => exact ⟨fun h => h.elim, trivial⟩
      | some found =>
          rw [insertUnlessThere]
          split
          · exact ⟨fun h => h.elim, trivial⟩
          next hmem =>
            refine ⟨fun h => ⟨found, rfl, ?_⟩, fun _ => ⟨fun h => h.elim, trivial⟩⟩
            obtain ⟨rfl, rfl⟩ : coll = coll' ∧ creationTime = ts := h
            exact ⟨rfl, hmem⟩

theorem AddsLast.careful {p : Prog Unit} (hp : AddsLast p) (coll ts : Text) :
    Careful (Adds coll ts) (Absent coll ts) p := by
  cases hp with
  | keeps hp => exact careful_of_uses (hp.imp fun _ hc => hc.not_adds)
  | adds hbefore createdAt hbody coll' =>
      exact (careful_of_uses (hbefore.imp fun _ hc => hc.not_adds)).bind fun _ =>
        (careful_addToDb createdAt _ coll' coll ts).ignore

section

variable {σ : Type}

/-- Nothing is stored. -/
def MongoDB.Empty (mongo : MongoDB σ) (s : σ) : Prop := ∀ coll, mongo.documents s coll = []

/-- A step after which at most `n` programs are between their look for the name and their insertion. -/
def Within (mongo : MongoDB σ) (coll ts : Text) (n : Nat) (a b : System σ Call Reply) : Prop :=
  Step mongo.exec Client a b ∧ waiting (Adds coll ts) b.2 ≤ n

/-- **There are never more documents of a name than there were importers at one time between their look for it
and their insertion**, whatever the order of the calls and whichever of them raise. -/
theorem named_le {mongo : MongoDB σ} (hmongo : mongo.Documented) {init : σ} (hinit : mongo.Empty init)
    {coll ts : Text} {n : Nat} {s : σ} {running : List (Prog Unit)}
    (hrun : Relation.ReflTransGen (Within mongo coll ts n) (init, []) (s, running)) : named mongo coll ts s ≤ n := by
  have hnone : named mongo coll ts init = 0 := by
    rw [named, hinit coll]
    rfl
  exact Nat.le_trans (Nat.le_add_right _ _) (present_add_waiting_le (counted_named hmongo coll ts)
    (fun _ hp => (addsLast_client hp).careful coll ts) hnone hrun)

end

/-! ### A database in memory -/

/-- The collections by their names, each in the order of its insertions. -/
abbrev Database := Text → List Document

def emptyDatabase : Database := fun _ => []

/-- The first element that satisfies a test, between those before it and those behind it. -/
def splitFirst {α : Type} (test : α → Bool) : List α → Option (List α × α × List α)
  | [] => none
  | x :: xs =>
    if test x then some ([], x, xs)
    else (splitFirst test xs).map fun (before, y, after) => (x :: before, y, after)

theorem splitFirst_some {α : Type} {test : α → Bool} {xs before after : List α} {x : α}
    (h : splitFirst test xs = some (before, x, after)) : xs = before ++ x :: after ∧ test x = true := by
  induction xs generalizing before with
  | nil => cases h
  | cons y xs ih =>
      rw [splitFirst] at h
      split at h
      next htest =>
        cases h
        exact ⟨rfl, htest⟩
      next =>
        obtain ⟨⟨before', x', after'⟩, hrest, heq⟩ := Option.map_eq_some_iff.mp h
        cases heq
        obtain ⟨rfl, htest⟩ := ih hrest
        exact ⟨rfl, htest⟩

/-- What `updateNode` makes of a document, if its query finds it. -/
def setNode (ts name : Text) (change : NodeChange) (doc : Document) : Option Document :=
  match doc with
  | ⟨createdAt, .logs ⟨countLog, .graph g⟩⟩ =>
    if createdAt = ts then
      (splitFirst (fun nd => nd.name = name) g.nodes).map fun (before, nd, after) =>
        ⟨ts, .logs ⟨countLog,
          .graph { g with nodes := before ++ { nd with rest := change.apply nd.rest } :: after }⟩⟩
    else none
  | _ => none

theorem nodeSet_of_setNode {ts name : Text} {change : NodeChange} {doc doc' : Document}
    (h : setNode ts name change doc = some doc') : NodeSet ts name change doc doc' := by
  unfold setNode at h
  split at h
  · split at h
    next hts =>
      obtain ⟨⟨before, nd, after⟩, hsplit, rfl⟩ := Option.map_eq_some_iff.mp h
      obtain ⟨hnodes, hname⟩ := splitFirst_some hsplit
      subst hts
      exact .set hnodes (of_decide_eq_true hname)
    next => cases h
  · cases h

def inMemory : MongoDB Database where
  exec
    | .find coll, db => ({ documents := db coll }, db)
    | .findNamed coll ts, db => ({ documents := (db coll).filter (isNamed ts) }, db)
    | .insert coll doc, db => ({}, Function.update db coll (db coll ++ [doc]))
    | .deleteOne coll ts, db => ({}, Function.update db coll ((db coll).eraseP (isNamed ts)))
    | .dropCollection coll, db => ({}, Function.update db coll [])
    | .updateOne coll ts name change, db =>
      match splitFirst (fun doc => (setNode ts name change doc).isSome) (db coll) with
      | none => ({}, db)
      | some (before, doc, after) =>
        ({ matched := 1 }, Function.update db coll (before ++ (setNode ts name change doc).getD doc :: after))
  documents db coll := db coll

theorem documented_inMemory : inMemory.Documented where
  find _ _ := ⟨.refl _, rfl⟩
  findNamed _ _ _ := ⟨.refl _, rfl⟩
  insert coll doc db := by
    show (Function.update db coll (db coll ++ [doc]) coll).Perm (doc :: db coll)
    rw [Function.update_self]
    exact List.perm_append_singleton doc (db coll)
  deleteOne coll ts db hany := by
    obtain ⟨doc, hdoc, hts⟩ := hany
    obtain ⟨first, before, after, _, hfirst, hbefore, hafter⟩ := List.exists_of_eraseP hdoc hts
    have hbefore : db coll = before ++ first :: after := hbefore
    have hafter : (db coll).eraseP (isNamed ts) = before ++ after := hafter
    refine ⟨first, hfirst, ?_⟩
    show (db coll).Perm (first :: Function.update db coll ((db coll).eraseP (isNamed ts)) coll)
    rw [Function.update_self, hafter, hbefore]
    exact List.perm_middle
  deleteOne_none coll ts db hnone := by
    show Function.update db coll ((db coll).eraseP (isNamed ts)) = db
    rw [List.eraseP_of_forall_not (fun doc hdoc => by rw [hnone doc hdoc]; exact Bool.false_ne_true),
      Function.update_eq_self]
  dropCollection coll db := Function.update_self ..
  updateOne coll ts name change db := by
    cases hsplit : splitFirst (fun doc => (setNode ts name change doc).isSome) (db coll) with
    | none =>
        left
        simp only [inMemory, hsplit]
    | some split =>
        obtain ⟨before, doc, after⟩ := split
        obtain ⟨hdocs, hsome⟩ := splitFirst_some hsplit
        obtain ⟨doc', hset⟩ := Option.isSome_iff_exists.mp hsome
        right
        refine ⟨doc, doc', before ++ after, nodeSet_of_setNode hset, ?_, ?_⟩
        · show (db coll).Perm _
          rw [hdocs]
          exact List.perm_middle
        · simp only [inMemory, hsplit, hset, Option.getD_some, Function.update_self]
          exact List.perm_middle
  others c db coll hcoll := by
    cases c with
    | find | findNamed => rfl
    | insert | deleteOne | dropCollection => exact Function.update_of_ne hcoll ..
    | updateOne coll' ts name change =>
        simp only [inMemory]
        split
        · rfl
        · exact Function.update_of_ne hcoll ..

/-- A machine on which every file is empty. -/
def emptyHost : Host where
  strftime _ := none
  lines _ := some []
  isDir _ := false
  texts := BaselineGraph.asListed Text
  pairs := BaselineGraph.asListed (Text × Text)

/-- An import of anomalies under the name `t`. -/
def importer : Prog Unit := main emptyHost ⟨some ['t'], none, some ['a'], .none⟩

/-- The import after its two looks at the empty database. -/
def looked : Prog Unit := (advance inMemory.exec (advance inMemory.exec importer emptyDatabase).1 emptyDatabase).1

/-- The database after two imports that have both looked before either has inserted. -/
def twoDocuments : Database := (advance inMemory.exec looked (advance inMemory.exec looked emptyDatabase).2).2

theorem named_le_twoImporters :
    named inMemory anomalyCollection ['t'] twoDocuments ≤ 2
      ∧ named inMemory anomalyCollection ['t'] twoDocuments = 2 := by
  have hclient : Client importer := .main _ _
  have hfirst : Relation.ReflTransGen (Within inMemory anomalyCollection ['t'] 2) (emptyDatabase, [])
      (emptyDatabase, [] ++ looked :: []) :=
    runs_advance _ (runs_advance importer (.single ⟨.start hclient, by decide⟩) (by decide)) (by decide)
  have hsecond : Relation.ReflTransGen (Within inMemory anomalyCollection ['t'] 2) (emptyDatabase, [])
      (emptyDatabase, [] ++ looked :: [looked]) :=
    runs_advance _ (runs_advance importer (hfirst.tail ⟨.start hclient, by decide⟩) (by decide)) (by decide)
  have hthird : Relation.ReflTransGen (Within inMemory anomalyCollection ['t'] 2) (emptyDatabase, [])
      ((advance inMemory.exec looked emptyDatabase).2, [.done ()] ++ looked :: []) :=
    runs_advance looked hsecond (by decide)
  have hlast : Relation.ReflTransGen (Within inMemory anomalyCollection ['t'] 2) (emptyDatabase, [])
      (twoDocuments, [.done ()] ++ .done () :: []) := runs_advance looked hthird (by decide)
  exact ⟨named_le documented_inMemory (fun _ => rfl) hlast, rfl⟩

/-! ### What the stored graphs are -/

/-- The call inserts nothing but a document with a well-formed graph. -/
def Inserts (c : Call) : Prop := ∀ coll doc, c = .insert coll doc → doc.body.WellFormed

theorem Keeps.inserts {c : Call} (hc : Keeps c) : Inserts c := fun coll doc h => absurd h (hc coll doc)

theorem AddsLast.inserts {p : Prog Unit} (hp : AddsLast p) : p.Uses Inserts := by
  cases hp with
  | keeps hp => exact hp.imp fun _ hc => hc.inserts
  | adds hbefore createdAt hbody coll =>
      refine (hbefore.imp fun _ hc => hc.inserts).bind fun _ => uses_ignore ?_
      cases createdAt with
      | none => trivial
      | some creationTime =>
          rw [addToDb_eq]
          refine ((uses_getTimes coll).imp fun _ hc => hc.inserts).bind fun _ => ⟨(keeps_find coll).inserts, fun reply => ?_⟩
          cases reply with
          | none => trivial
          | some found =>
              rw [insertUnlessThere]
              split
              · trivial
              · refine ⟨fun coll' doc h => ?_, fun _ => trivial⟩
                obtain ⟨rfl, rfl⟩ := Call.insert.inj h
                exact hbody

/-- A change of a node keeps the graph well-formed. -/
theorem NodeSet.wellFormed {ts name : Text} {change : NodeChange} {doc doc' : Document}
    (h : NodeSet ts name change doc doc') (hdoc : doc.body.WellFormed) : doc'.body.WellFormed := by
  cases h with
  | @set countLog g before after nd hnodes hname =>
      have hg : g.WellFormed := hdoc
      have hnames : ColDiff.ColLog.names { g with nodes := before ++ { nd with rest := change.apply nd.rest } :: after }
          = g.names := by
        simp only [ColDiff.ColLog.names, hnodes, List.map_append, List.map_cons]
      refine ⟨?_, fun lk hlk => ?_⟩
      · rw [hnames]
        exact hg.names
      · rw [hnames]
        exact hg.endpoints lk hlk

section

variable {σ : Type} {mongo : MongoDB σ}

/-- The graphs in the database are well-formed. -/
def WellFormed (mongo : MongoDB σ) (s : σ) : Prop := ∀ coll, ∀ doc ∈ mongo.documents s coll, doc.body.WellFormed

/-- Only the documents of the collection of a call have to be looked at. -/
theorem WellFormed.exec (hmongo : mongo.Documented) {s : σ} (h : WellFormed mongo s) (c : Call)
    (hdocs : ∀ doc ∈ mongo.documents (mongo.exec c s).2 c.coll, doc.body.WellFormed) :
    WellFormed mongo (mongo.exec c s).2 := by
  intro coll doc hdoc
  by_cases hcoll : coll = c.coll
  · exact hdocs doc (hcoll ▸ hdoc)
  · rw [hmongo.others c s coll hcoll] at hdoc
    exact h coll doc hdoc

theorem wellFormed_exec (hmongo : mongo.Documented) (c : Call) (s : σ) (hc : Inserts c) (h : WellFormed mongo s) :
    WellFormed mongo (mongo.exec c s).2 := by
  cases c with
  | find coll =>
      rw [(hmongo.find coll s).2]
      exact h
  | findNamed coll ts =>
      rw [(hmongo.findNamed coll ts s).2]
      exact h
  | insert coll doc =>
      refine h.exec hmongo _ fun other hother => ?_
      rcases List.mem_cons.mp ((hmongo.insert coll doc s).mem_iff.mp hother) with rfl | hold
      · exact hc coll other rfl
      · exact h coll other hold
  | deleteOne coll ts =>
      rcases hmongo.deleteOne_cases coll ts s with ⟨hsame, _⟩ | ⟨doc, _, hperm⟩
      · rw [hsame]
        exact h
      · exact h.exec hmongo _ fun other hother =>
          h coll other (hperm.mem_iff.mpr (List.mem_cons_of_mem doc hother))
  | dropCollection coll =>
      refine h.exec hmongo _ fun other hother => ?_
      have hnone := hmongo.dropCollection coll s
      rw [Call.coll, hnone] at hother
      cases hother
  | updateOne coll ts name change =>
      rcases hmongo.updateOne coll ts name change s with hsame | ⟨doc, doc', others, hset, hbefore, hafter⟩
      · rw [hsame]
        exact h
      · refine h.exec hmongo _ fun other hother => ?_
        rcases List.mem_cons.mp (hafter.mem_iff.mp hother) with rfl | hold
        · exact hset.wellFormed (h coll doc (hbefore.mem_iff.mpr List.mem_cons_self))
        · exact h coll other (hbefore.mem_iff.mpr (List.mem_cons_of_mem doc hold))

theorem wellFormed_run (hmongo : mongo.Documented) {init : σ} (hinit : mongo.Empty init) {s : σ}
    {running : List (Prog Unit)} (hrun : Relation.ReflTransGen (Step mongo.exec Client) (init, []) (s, running)) :
    WellFormed mongo s := by
  have hempty : WellFormed mongo init := by
    intro coll doc hdoc
    rw [hinit coll] at hdoc
    cases hdoc
  exact (invariant (fun _ hp => (addsLast_client hp).inserts) (wellFormed_exec hmongo) hempty hrun).1

end

/-! ### Comparing two documents -/

section

variable {σ : Type} (mongo : MongoDB σ)

/-- The first document that a query for a name returns, read for its logs. -/
def firstOf (s : σ) (ts : Text) : Option Logs :=
  (mongo.exec (.findNamed jlogsCollection ts) s).1.documents.head?.bind Document.logs?

/-- What a comparison answers: the document of the first name with the graph of both, or nothing when one of
the names has no document with a graph. -/
inductive Answers (s : σ) (timestamp1 timestamp2 : Text) : Option Comparison → Prop
  | compared {first second : Logs} {g1 g2 : StoredLog} {colLog : ColDiff.Graph NodeValue LinkRest}
      (hfirst : firstOf mongo s timestamp1 = some first) (hsecond : firstOf mongo s timestamp2 = some second)
      (hg1 : first.colLog = .graph g1) (hg2 : second.colLog = .graph g2)
      (hgraph : ColDiff.WellFormedGraph g1 g2 timestamp1 timestamp2 colLog) :
      Answers s timestamp1 timestamp2 (some ⟨timestamp1, first.countLog, colLog⟩)
  | missing (h : ∀ first second, firstOf mongo s timestamp1 = some first → firstOf mongo s timestamp2 = some second →
      first.colLog.graph? = none ∨ second.colLog.graph? = none) : Answers s timestamp1 timestamp2 none

variable {mongo} (hmongo : mongo.Documented)
include hmongo

theorem run_firstLogs (ts : Text) (s : σ) : (firstLogs ts).run mongo.exec s = (firstOf mongo s ts, s) := by
  rw [firstLogs, Program.request_bind, Program.run_call, (hmongo.findNamed jlogsCollection ts s).2]
  rfl

/-- What a query for a name finds is in the collection. -/
theorem wellFormed_of_firstOf {s : σ} (h : WellFormed mongo s) {ts : Text} {value : Logs}
    (hvalue : firstOf mongo s ts = some value) : value.colLog.WellFormed := by
  obtain ⟨doc, hdoc, hlogs⟩ := Option.bind_eq_some_iff.mp hvalue
  have hfound := (hmongo.findNamed jlogsCollection ts s).1.mem_iff.mp (List.mem_of_head? hdoc)
  have hbody := h _ doc (List.mem_of_mem_filter hfound)
  unfold Document.logs? at hlogs
  split at hlogs
  next value' hvalue' =>
    obtain rfl := Option.some.inj hlogs
    rw [hvalue'] at hbody
    exact hbody
  next => cases hlogs

end

theorem exists_graph {col : ColValue} (h : ¬ col.graph? = none) : ∃ g, col = .graph g := by
  cases col with
  | graph g => exact ⟨g, rfl⟩
  | emptyDict | emptyList => exact absurd rfl h

theorem compareColLogs_none {col1 col2 : ColValue} (h : col1.graph? = none ∨ col2.graph? = none) (frm to_ : Text) :
    compareColLogs col1 col2 frm to_ = none := by
  cases col1 with
  | graph g1 =>
      cases col2 with
      | graph g2 => exact absurd h (by simp [ColValue.graph?])
      | emptyDict | emptyList => rfl
  | emptyDict | emptyList => rfl

theorem compareColLogs_graph {g1 g2 : StoredLog} (hwf1 : g1.WellFormed) (hwf2 : g2.WellFormed) (frm to_ : Text) :
    ∃ colLog, compareColLogs (.graph g1) (.graph g2) frm to_ = some colLog
      ∧ ColDiff.WellFormedGraph g1 g2 frm to_ colLog := by
  obtain ⟨colLog, hok, hgraph⟩ := ColDiff.diffColLogs_wellFormed hwf1 hwf2
  refine ⟨colLog, ?_, hgraph⟩
  rw [compareColLogs, hok]
  rfl

/-- **A comparison never fails on graphs.** Whatever the programs have done to the database, two names whose
first documents have a graph compare to the graph of both, with the nodes numbered by position and marked and
every link between the nodes of its names; for other names the answer is empty. -/
theorem diffDocuments_answers {σ : Type} {mongo : MongoDB σ} (hmongo : mongo.Documented) {init : σ}
    (hinit : mongo.Empty init) {s : σ} {running : List (Prog Unit)}
    (hrun : Relation.ReflTransGen (Step mongo.exec Client) (init, []) (s, running)) (timestamp1 timestamp2 : Text) :
    ∃ answer, (diffDocuments timestamp1 timestamp2).run mongo.exec s = (answer, s)
      ∧ Answers mongo s timestamp1 timestamp2 answer := by
  have hs := wellFormed_run hmongo hinit hrun
  have hlook := fun ts => run_firstLogs hmongo ts s
  unfold diffDocuments
  rw [Program.run_bind, hlook]
  cases hfirst : firstOf mongo s timestamp1 with
  | none => exact ⟨none, rfl, .missing fun first _ h => by rw [hfirst] at h; cases h⟩
  | some first =>
      dsimp only
      rw [Program.run_bind, hlook]
      cases hsecond : firstOf mongo s timestamp2 with
      | none => exact ⟨none, rfl, .missing fun _ second _ h => by rw [hsecond] at h; cases h⟩
      | some second =>
          dsimp only
          by_cases hgraphs : first.colLog.graph? = none ∨ second.colLog.graph? = none
          · rw [compareColLogs_none hgraphs]
            refine ⟨none, rfl, .missing fun first' second' h h' => ?_⟩
            rw [hfirst] at h
            rw [hsecond] at h'
            obtain rfl := Option.some.inj h
            obtain rfl := Option.some.inj h'
            exact hgraphs
          · rw [not_or] at hgraphs
            obtain ⟨g1, hg1⟩ := exists_graph hgraphs.1
            obtain ⟨g2, hg2⟩ := exists_graph hgraphs.2
            have hwf1 := wellFormed_of_firstOf hmongo hs hfirst
            have hwf2 := wellFormed_of_firstOf hmongo hs hsecond
            rw [hg1] at hwf1
            rw [hg2] at hwf2
            obtain ⟨colLog, hok, hgraph⟩ := compareColLogs_graph hwf1 hwf2 timestamp1 timestamp2
            rw [hg1, hg2, hok]
            refine ⟨_, ?_, .compared hfirst hsecond hg1 hg2 hgraph⟩
            simp only [Program.run_bind, hlook, hfirst, hsecond]
            rfl

/-- A machine on which every file has the lines of `readBase`. -/
def readBaseHost : Host where
  strftime _ := none
  lines _ := some BaselineGraph.readBase
  isDir _ := true
  texts := BaselineGraph.asListed Text
  pairs := BaselineGraph.asListed (Text × Text)

/-- The database after an import of that baseline. -/
def oneBaseline : Database := ((main readBaseHost ⟨none, some ['f'], none, .none⟩).run inMemory.exec emptyDatabase).2

theorem diffDocuments_answers_oneBaseline : ∃ answer,
    (diffDocuments baselineName baselineName).run inMemory.exec oneBaseline = (answer, oneBaseline)
      ∧ Answers inMemory oneBaseline baselineName baselineName answer
      ∧ (answer.map fun res => res.colLog.nodes.length) = some 2 := by
  have hrun : Relation.ReflTransGen (Step inMemory.exec Client) (emptyDatabase, []) (oneBaseline, [.done ()]) :=
    runs_alone (.main _ _) emptyDatabase []
  obtain ⟨answer, hanswer, hanswers⟩ :=
    diffDocuments_answers documented_inMemory (fun _ => rfl) hrun baselineName baselineName
  refine ⟨answer, hanswer, hanswers, ?_⟩
  have hfirst : ((diffDocuments baselineName baselineName).run inMemory.exec oneBaseline).1 = answer :=
    congrArg Prod.fst hanswer
  rw [← hfirst]
  decide +kernel

/-! ### Importing a baseline -/

section

variable {σ : Type} (mongo : MongoDB σ)

/-- The documents called `baseline`. -/
def baselines (s : σ) : List Document := (mongo.documents s jlogsCollection).filter (isNamed baselineName)

/-- How an import of a baseline leaves the database. -/
structure Imported (s s' : σ) (body : Body) (result : Option Bool) : Prop where
  result : result = some (decide ((baselines mongo s).length ≤ 1))
  replaced : (baselines mongo s).length ≤ 1 → baselines mongo s' = [⟨baselineName, body⟩]
  deleted : 1 < (baselines mongo s).length → ∃ doc, (baselines mongo s).Perm (doc :: baselines mongo s')
  others : ((mongo.documents s' jlogsCollection).filter fun doc => !isNamed baselineName doc).Perm
    ((mongo.documents s jlogsCollection).filter fun doc => !isNamed baselineName doc)
  collections : ∀ coll, coll ≠ jlogsCollection → mongo.documents s' coll = mongo.documents s coll

variable {mongo} (hmongo : mongo.Documented)
include hmongo

/-- `get_times` alone tells which names there are. -/
theorem run_getTimes (coll : Text) (s : σ) : ∃ times, (getTimes coll).run mongo.exec s = (some times, s)
    ∧ ∀ ts, ts ∈ times ↔ 0 < named mongo coll ts s := by
  refine ⟨(mongo.exec (.find coll) s).1.documents.map Document.createdAt, ?_, fun ts => ?_⟩
  · rw [getTimes, Program.request_bind, Program.run_call, (hmongo.find coll s).2]
    rfl
  · rw [mem_createdAt, (hmongo.find coll s).1.countP_eq, ← named]

/-- `add_to_db` alone adds the document if there is none of the name. -/
theorem run_addToDb (creationTime : Text) (body : Body) (coll : Text) (s : σ) :
    (addToDb (some creationTime) body coll).run mongo.exec s
      = if named mongo coll creationTime s = 0 then
          (true, (mongo.exec (.insert coll ⟨creationTime, body⟩) s).2)
        else (false, s) := by
  obtain ⟨times, hrun, htimes⟩ := run_getTimes hmongo coll s
  rw [addToDb, Program.run_bind, hrun, Program.run_bind, hrun]
  dsimp only
  by_cases hnone : named mongo coll creationTime s = 0
  · rw [if_pos hnone, if_neg]
    · rfl
    · rw [htimes, hnone]
      exact Nat.lt_irrefl 0
  · rw [if_neg hnone, if_pos]
    · rfl
    · rw [htimes]
      exact Nat.pos_of_ne_zero hnone

/-- `remove_from_db` alone, for a name: it deletes a document of the name, if there is one. -/
theorem run_removeFromDb {ts : Text} (hts : ts ≠ []) (coll : Text) (s : σ) :
    ((removeFromDb ts coll).run mongo.exec s).2 = (mongo.exec (.deleteOne coll ts) s).2 := by
  obtain ⟨times, hrun, htimes⟩ := run_getTimes hmongo coll s
  rw [removeFromDb, if_neg hts, Program.run_bind, hrun, Program.run_bind, hrun]
  dsimp only
  by_cases hmem : ts ∈ times
  · rw [if_pos hmem]
    rfl
  · rw [if_neg hmem, hmongo.deleteOne_none coll ts s]
    · rfl
    · rw [htimes, Nat.not_lt, Nat.le_zero, named, List.countP_eq_zero] at hmem
      intro doc hdoc
      rw [← Bool.not_eq_true]
      exact hmem doc hdoc

/-- A deletion takes one of the baselines, if there is one, and no other document. -/
theorem baselines_deleteOne (s : σ) :
    (baselines mongo (mongo.exec (.deleteOne jlogsCollection baselineName) s).2).length = (baselines mongo s).length - 1
      ∧ ((mongo.documents (mongo.exec (.deleteOne jlogsCollection baselineName) s).2 jlogsCollection).filter
          fun doc => !isNamed baselineName doc).Perm
        ((mongo.documents s jlogsCollection).filter fun doc => !isNamed baselineName doc)
      ∧ (1 < (baselines mongo s).length → ∃ doc, (baselines mongo s).Perm
          (doc :: baselines mongo (mongo.exec (.deleteOne jlogsCollection baselineName) s).2)) := by
  rcases hmongo.deleteOne_cases jlogsCollection baselineName s with ⟨hsame, hunnamed⟩ | ⟨doc, hdoc, hperm⟩
  · have hnone : baselines mongo s = [] := List.filter_eq_nil_iff.mpr fun doc hdoc => by
      rw [hunnamed doc hdoc]
      exact Bool.false_ne_true
    rw [hsame, hnone]
    exact ⟨rfl, .refl _, fun h => absurd h (by decide)⟩
  · have hbaselines := hperm.filter (isNamed baselineName)
    rw [List.filter_cons_of_pos hdoc, ← baselines, ← baselines] at hbaselines
    have hothers := hperm.filter fun doc => !isNamed baselineName doc
    rw [List.filter_cons_of_neg (by simp [hdoc])] at hothers
    exact ⟨by rw [hbaselines.length_eq]; rfl, hothers.symm, fun _ => ⟨doc, hbaselines⟩⟩

/-- **An import of a baseline alone replaces the one that is there, unless there are two.** Then it deletes one
of them and, finding another, does not store the new one. Nothing else changes. -/
theorem baseline_replaced {host : Host} {path : Text} {lines : List Text}
    {read : List Text × Option BaselineGraph.BaseLog} (hlines : host.lines path = some lines)
    (hread : BaselineGraph.readBaseline host.texts host.pairs lines = .ok read) (s : σ) :
    Imported mongo s ((processStatsBaselineLog host path).run mongo.exec s).2 (baselineBody read)
      ((processStatsBaselineLog host path).run mongo.exec s).1 := by
  let removed := (mongo.exec (.deleteOne jlogsCollection baselineName) s).2
  have hremoved : ((removeFromDb baselineName jlogsCollection).run mongo.exec s).2 = removed :=
    run_removeFromDb hmongo (by decide) jlogsCollection s
  have hrun : (processStatsBaselineLog host path).run mongo.exec s
      = (fun added => (some added.1, added.2))
        ((addToDb (some baselineName) (baselineBody read) jlogsCollection).run mongo.exec removed) := by
    unfold processStatsBaselineLog
    rw [hlines]
    dsimp only
    rw [hread]
    dsimp only
    rw [Program.run_bind, Program.run_bind, hremoved]
    rfl
  have hcount : named mongo jlogsCollection baselineName removed = (baselines mongo removed).length :=
    List.countP_eq_length_filter
  obtain ⟨hlength, hothers, hdeleted⟩ := baselines_deleteOne hmongo s
  have hlength : (baselines mongo removed).length = (baselines mongo s).length - 1 := hlength
  have hcollections : ∀ coll, coll ≠ jlogsCollection → mongo.documents removed coll = mongo.documents s coll :=
    hmongo.others (.deleteOne jlogsCollection baselineName) s
  rw [hrun, run_addToDb hmongo, hcount, hlength]
  by_cases hone : (baselines mongo s).length ≤ 1
  · have hinsert := hmongo.insert jlogsCollection ⟨baselineName, baselineBody read⟩ removed
    have hnew : isNamed baselineName ⟨baselineName, baselineBody read⟩ = true := decide_eq_true rfl
    have hnone : baselines mongo removed = [] := List.eq_nil_of_length_eq_zero (by omega)
    rw [if_pos (by omega)]
    refine ⟨by rw [decide_eq_true hone], fun _ => ?_, fun h => absurd hone (Nat.not_le.mpr h), ?_, fun coll hcoll => ?_⟩
    · have hfilter := hinsert.filter (isNamed baselineName)
      rw [List.filter_cons_of_pos hnew, ← baselines, ← baselines, hnone] at hfilter
      exact List.perm_singleton.mp hfilter
    · have hfilter := hinsert.filter fun doc => !isNamed baselineName doc
      rw [List.filter_cons_of_neg (by simp [hnew])] at hfilter
      exact hfilter.trans hothers
    · exact (hmongo.others (.insert jlogsCollection _) removed coll hcoll).trans (hcollections coll hcoll)
  · rw [if_neg (by omega)]
    exact ⟨by rw [decide_eq_false hone], fun h => absurd h hone, hdeleted, hothers, hcollections⟩

end

/-- A database with two baselines. -/
def twoBaselines : Database :=
  Function.update emptyDatabase jlogsCollection
    [⟨baselineName, .logs ⟨.emptyList, .emptyDict⟩⟩, ⟨baselineName, .logs ⟨.baseline [], .emptyList⟩⟩]

theorem baseline_replaced_twoBaselines :
    (baselines inMemory ((processStatsBaselineLog readBaseHost ['f']).run inMemory.exec twoBaselines).2).length = 1
      ∧ ((processStatsBaselineLog readBaseHost ['f']).run inMemory.exec twoBaselines).1 = some false := by
  have hlines : readBaseHost.lines ['f'] = some BaselineGraph.readBase := rfl
  have himport :=
    baseline_replaced documented_inMemory hlines BaselineGraph.readBaseline_readBase twoBaselines
  have htwo : (baselines inMemory twoBaselines).length = 2 := rfl
  obtain ⟨doc, hperm⟩ := himport.deleted (by rw [htwo]; decide)
  have hlength := hperm.length_eq
  rw [htwo, List.length_cons] at hlength
  rw [himport.result, htwo]
  exact ⟨by omega, rfl⟩

end Armore.Web.LogDatabase
