import Armore.Lib.Trie
import Armore.Stats.LogWriter
import Mathlib.Algebra.BigOperators.Group.List.Basic
import Mathlib.Data.Rat.Defs

/-!
# The latencies that are reported

`domains/support/rrdDataParser.py`: `parseData` appends the delays of the lines to the lists in `LINKS`, under
the link, the protocol and the function, and `reader` dispatches the mean of each list. Whether a function
already has a list is looked up among the protocols of the link. So a second delay of a function replaces the
first, unless a protocol of the link has the name of the function.
-/

namespace Armore.Web.LatencyTable

open Lib

inductive Exn
  | valueError
  | keyError
  deriving DecidableEq

/-- The columns of a line that `parseData` uses. -/
structure Columns where
  sndr : Text
  rcvr : Text
  proto : Text
  func : Text
  avgDelay : Text
  deriving DecidableEq

/-- `line.split('\t')`, assigned to fourteen names. -/
def columns (line : Text) : Except Exn Columns :=
  match line.splitOn '\t' with
  | [_periodId, _ts, _period, sndr, rcvr, proto, _uid, func, _tar, _num, _theBytes, _isRequest, _numResponse, avgDelay] =>
    .ok ⟨sndr, rcvr, proto, func, avgDelay⟩
  | _ => .error .valueError

/-- `re.sub('\.', '_', ..)`. -/
def dotsToUnderscores (text : Text) : Text := text.map fun c => if c = '.' then '_' else c

def Columns.linkLocal (c : Columns) : Text × Text := (dotsToUnderscores c.sndr, dotsToUnderscores c.rcvr)

abbrev Funcs := Table Text (List ℚ)
abbrev Protos := Table Text Funcs

/-- `LINKS`. -/
abbrev Links := Table (Text × Text) Protos

/-- The four branches for a delay. The third test is `func in LINKS[linkLocal]`. -/
def Links.add (links : Links) (linkLocal : Text × Text) (proto func : Text) (avgDelay : ℚ) : Except Exn Links :=
  match links.get? linkLocal with
  | none => .ok (links.put linkLocal (Table.put ∅ proto (Table.put ∅ func [avgDelay])))
  | some protos =>
    match protos.get? proto with
    | none => .ok (links.put linkLocal (protos.put proto (Table.put ∅ func [avgDelay])))
    | some funcs =>
      if (protos.get? func).isSome then
        match funcs.get? func with
        | some delays => .ok (links.put linkLocal (protos.put proto (funcs.put func (delays ++ [avgDelay]))))
        | none => .error .keyError
      else .ok (links.put linkLocal (protos.put proto (funcs.put func [avgDelay])))

/-- The body of the loop of `parseData`. What raises leaves `LINKS` as it is. -/
def parseLine (float : Text → Option ℚ) (links : Links) (line : Text) : Except Exn Links := do
  let c ← columns line
  if '-' ∈ c.avgDelay then return links
  match float c.avgDelay with
  | some avgDelay => links.add c.linkLocal c.proto c.func avgDelay
  | none => .error .valueError

/-- `parseData` on the lines to parse: the new `LINKS`, and what was raised. -/
def parseData (float : Text → Option ℚ) (links : Links) : List Text → Links × Option Exn
  | [] => (links, none)
  | line :: lines =>
    match parseLine float links line with
    | .ok links => parseData float links lines
    | .error e => (links, some e)

/-- `collectd.Values`. -/
structure Values where
  type : Text
  typeInstance : Text
  plugin : Text
  value : ℚ
  interval : Nat

/-- The value for the delays of a link, a protocol and a function. -/
def valueOf (round6 : ℚ → ℚ) (l : Text × Text) (p f : Text) (delays : List ℚ) : Values where
  type := "func_latency".toList
  typeInstance := p ++ '_' :: f
  plugin := "armore-".toList ++ l.1 ++ "__".toList ++ l.2
  value := round6 (delays.sum / delays.length)
  interval := 900

/-- The three loops of `reader`. -/
def dispatched (round6 : ℚ → ℚ) (links : Links) : List Values :=
  links.entries.flatMap fun l => l.2.entries.flatMap fun p => p.2.entries.map fun f => valueOf round6 l.1 p.1 f.1 f.2

/-- `reader`: the new `LINKS`, and what is dispatched unless `parseData` raises. -/
def reader (float : Text → Option ℚ) (round6 : ℚ → ℚ) (links : Links) (lines : List Text) :
    Links × Except Exn (List Values) :=
  match parseData float links lines with
  | (links, none) => (links, .ok (dispatched round6 links))
  | (links, some e) => (links, .error e)

/-! ### What is kept -/

namespace Links

variable (links : Links) (l l' : Text × Text) (p p' f f' : Text) (ds : List ℚ)

def protos : Protos := (links.get? l).getD ∅

def funcs : Funcs := ((links.protos l).get? p).getD ∅

/-- The list under a link, a protocol and a function. -/
def delays : Option (List ℚ) := (links.funcs l p).get? f

/-- The link has the protocol. -/
def Knows : Prop := ((links.protos l).get? p).isSome = true

instance : Decidable (links.Knows l p) := inferInstanceAs (Decidable (_ = true))

/-- A list put under a link, a protocol and a function. -/
def store : Links := links.put l ((links.protos l).put p ((links.funcs l p).put f ds))

theorem protos_store : (links.store l p f ds).protos l'
    = if l' = l then (links.protos l).put p ((links.funcs l p).put f ds) else links.protos l' := by
  rw [protos, store, Table.get?_put, apply_ite (Option.getD · ∅)]
  rfl

theorem funcs_store : (links.store l p f ds).funcs l' p'
    = if l' = l ∧ p' = p then (links.funcs l p).put f ds else links.funcs l' p' := by
  rw [funcs, protos_store]
  by_cases hl : l' = l
  · subst hl
    rw [if_pos rfl, Table.get?_put, apply_ite (Option.getD · ∅)]
    exact if_congr (and_iff_right rfl).symm rfl rfl
  · rw [if_neg hl, if_neg fun h => hl h.1]
    rfl

theorem delays_store : (links.store l p f ds).delays l' p' f'
    = if (l' = l ∧ p' = p) ∧ f' = f then some ds else links.delays l' p' f' := by
  rw [Links.delays, funcs_store]
  by_cases hlp : l' = l ∧ p' = p
  · obtain ⟨rfl, rfl⟩ := hlp
    rw [if_pos ⟨rfl, rfl⟩, Table.get?_put]
    exact if_congr (and_iff_right ⟨rfl, rfl⟩).symm rfl rfl
  · rw [if_neg hlp, if_neg fun h => hlp h.1]
    rfl

theorem knows_store : (links.store l p f ds).Knows l' p' ↔ l' = l ∧ p' = p ∨ links.Knows l' p' := by
  rw [Knows, protos_store]
  by_cases hl : l' = l
  · subst hl
    rw [if_pos rfl, Table.get?_put]
    by_cases hp : p' = p
    · simp [hp]
    · rw [if_neg hp, or_iff_right fun h => hp h.2]
      rfl
  · rw [if_neg hl, or_iff_right fun h => hl h.1]
    rfl

/-- **The branches**: the list is continued where the link has both names as protocols. -/
theorem add_eq (avgDelay : ℚ) : links.add l p f avgDelay
    = if links.Knows l p ∧ links.Knows l f then
        match links.delays l p f with
        | some ds => .ok (links.store l p f (ds ++ [avgDelay]))
        | none => .error .keyError
      else .ok (links.store l p f [avgDelay]) := by
  cases hl : links.get? l with
  | none =>
      have hprotos : links.protos l = ∅ := by rw [protos, hl]; rfl
      have hknows : ¬ links.Knows l p := by simp [Knows, hprotos]
      rw [if_neg fun h => hknows h.1, add, hl, store, funcs, hprotos]
      rfl
  | some protos =>
      have hprotos : links.protos l = protos := by rw [Links.protos, hl]; rfl
      cases hp : protos.get? p with
      | none =>
          have hknows : ¬ links.Knows l p := by simp [Knows, hprotos, hp]
          rw [if_neg fun h => hknows h.1, add, hl]
          simp only [hp]
          rw [store, funcs, hprotos, hp]
          rfl
      | some funcs =>
          have hfuncs : links.funcs l p = funcs := by rw [Links.funcs, hprotos, hp]; rfl
          have hknows : links.Knows l p := by simp [Knows, hprotos, hp]
          have hfunc : links.Knows l f ↔ (protos.get? f).isSome = true := by rw [Knows, hprotos]
          rw [add, hl]
          simp only [hp, store, Links.delays, hprotos, hfuncs]
          exact if_congr (by rw [hfunc, and_iff_right hknows]) rfl rfl

end Links

/-! ### What is recorded -/

variable {float : Text → Option ℚ}

/-- The delay of a line, with its columns. -/
structure Recorded where
  columns : Columns
  delay : ℚ

/-- What a line records: nothing where the delay is not set. -/
def recorded (float : Text → Option ℚ) (line : Text) : Option Recorded :=
  match columns line with
  | .ok c => (float c.avgDelay).map (Recorded.mk c)
  | .error _ => none

def recordedIn (float : Text → Option ℚ) (lines : List Text) : List Recorded := lines.filterMap (recorded float)

/-- The link, as it is a key, and the protocol. -/
def Recorded.Under (l : Text × Text) (p : Text) (r : Recorded) : Prop := r.columns.linkLocal = l ∧ r.columns.proto = p

/-- The link, the protocol and the function. -/
def Recorded.Has (l : Text × Text) (p f : Text) (r : Recorded) : Prop := r.Under l p ∧ r.columns.func = f

theorem Recorded.has_self (r : Recorded) : r.Has r.columns.linkLocal r.columns.proto r.columns.func := ⟨⟨rfl, rfl⟩, rfl⟩

instance (l : Text × Text) (p f : Text) : DecidablePred (Recorded.Has l p f) :=
  fun r => inferInstanceAs (Decidable ((r.columns.linkLocal = l ∧ r.columns.proto = p) ∧ r.columns.func = f))

/-- The delays of a link, a protocol and a function, in the order of the lines. -/
def delaysIn (rs : List Recorded) (l : Text × Text) (p f : Text) : List ℚ :=
  (rs.filter fun r => r.Has l p f).map Recorded.delay

theorem delaysIn_ne_nil {rs : List Recorded} {l : Text × Text} {p f : Text} :
    delaysIn rs l p f ≠ [] ↔ ∃ r ∈ rs, r.Has l p f := by
  rw [delaysIn, ne_eq, List.map_eq_nil_iff, List.filter_eq_nil_iff]
  simp only [decide_eq_true_eq, not_forall, not_not, exists_prop]

theorem delaysIn_append (rs rs' : List Recorded) (l : Text × Text) (p f : Text) :
    delaysIn (rs ++ rs') l p f = delaysIn rs l p f ++ delaysIn rs' l p f := by
  rw [delaysIn, List.filter_append, List.map_append]
  rfl

theorem delaysIn_singleton (r : Recorded) (l : Text × Text) (p f : Text) :
    delaysIn [r] l p f = if r.Has l p f then [r.delay] else [] := by
  rw [delaysIn, List.filter_singleton]
  by_cases h : r.Has l p f <;> simp [h]

/-- `LINKS` has every delay once, in its place. -/
structure Exact (rs : List Recorded) (links : Links) : Prop where
  delays : ∀ l p f, links.delays l p f = if delaysIn rs l p f = [] then none else some (delaysIn rs l p f)
  knows : ∀ l p, links.Knows l p ↔ ∃ r ∈ rs, r.Under l p

theorem exact_empty : Exact [] ∅ where
  delays _ _ _ := rfl
  knows l p := by simp [Links.Knows, Links.protos]

/-- A delay is put in its place: the function has a list exactly where a protocol of the link has its name. -/
structure InPlace (rs : List Recorded) (r : Recorded) : Prop where
  printed : '-' ∉ r.columns.avgDelay
  place : (∃ e ∈ rs, e.Under r.columns.linkLocal r.columns.proto) →
    ((∃ e ∈ rs, e.Has r.columns.linkLocal r.columns.proto r.columns.func)
      ↔ ∃ e ∈ rs, e.Under r.columns.linkLocal r.columns.func)

variable {rs : List Recorded} {links : Links} {r : Recorded}

/-- The delay stored at the end of what its key had. -/
theorem Exact.store (h : Exact rs links) :
    Exact (rs ++ [r]) (links.store r.columns.linkLocal r.columns.proto r.columns.func
      (delaysIn rs r.columns.linkLocal r.columns.proto r.columns.func ++ [r.delay])) where
  delays l p f := by
    rw [Links.delays_store, delaysIn_append, delaysIn_singleton]
    by_cases hkey : r.Has l p f
    · rw [if_pos ⟨⟨hkey.1.1.symm, hkey.1.2.symm⟩, hkey.2.symm⟩, if_pos hkey,
        if_neg (List.append_ne_nil_of_right_ne_nil _ (List.cons_ne_nil _ _))]
      obtain ⟨⟨rfl, rfl⟩, rfl⟩ := hkey
      rfl
    · rw [if_neg fun hsame => hkey ⟨⟨hsame.1.1.symm, hsame.1.2.symm⟩, hsame.2.symm⟩, if_neg hkey, List.append_nil]
      exact h.delays l p f
  knows l p := by
    simp only [Links.knows_store, h.knows, List.mem_append, List.mem_singleton, or_and_right, exists_or, exists_eq_left]
    rw [or_comm]
    exact or_congr_right ⟨fun hsame => ⟨hsame.1.symm, hsame.2.symm⟩, fun hsame => ⟨hsame.1.symm, hsame.2.symm⟩⟩

theorem Exact.add (h : Exact rs links) (hplace : InPlace rs r) :
    ∃ links', links.add r.columns.linkLocal r.columns.proto r.columns.func r.delay = .ok links'
      ∧ Exact (rs ++ [r]) links' := by
  refine ⟨_, ?_, h.store⟩
  have hdelays := h.delays r.columns.linkLocal r.columns.proto r.columns.func
  rw [Links.add_eq]
  split
  · rename_i hknows
    rw [h.knows, h.knows] at hknows
    have hhas := delaysIn_ne_nil.mpr ((hplace.place hknows.1).mpr hknows.2)
    rw [hdelays, if_neg hhas]
  · rename_i hknows
    rw [h.knows, h.knows] at hknows
    have hnil : delaysIn rs r.columns.linkLocal r.columns.proto r.columns.func = [] := by
      by_contra hne
      obtain ⟨e, he, hunder, hfunc⟩ := delaysIn_ne_nil.mp hne
      exact hknows ⟨⟨e, he, hunder⟩, (hplace.place ⟨e, he, hunder⟩).mp ⟨e, he, hunder, hfunc⟩⟩
    rw [hnil]
    rfl

/-! ### What is lost -/

/-- How many delays there are under a link, a protocol and a function. -/
def Links.count (links : Links) (l : Text × Text) (p f : Text) : Nat := ((links.delays l p f).getD []).length

theorem Exact.count (h : Exact rs links) (l : Text × Text) (p f : Text) :
    links.count l p f = (delaysIn rs l p f).length := by
  rw [Links.count, h.delays]
  split
  · rename_i hnil
    rw [hnil]
    rfl
  · rfl

theorem Links.count_store (links : Links) (l l' : Text × Text) (p p' f f' : Text) (ds : List ℚ) :
    (links.store l p f ds).count l' p' f'
      = if (l' = l ∧ p' = p) ∧ f' = f then ds.length else links.count l' p' f' := by
  rw [Links.count, Links.delays_store, apply_ite (Option.getD · []), apply_ite List.length]
  rfl

/-- A delay that is put anywhere adds one at most. -/
theorem Links.count_add {links links' : Links} {l : Text × Text} {p f : Text} {d : ℚ}
    (h : links.add l p f d = .ok links') (l' : Text × Text) (p' f' : Text) :
    links'.count l' p' f' ≤ links.count l' p' f' + if (l' = l ∧ p' = p) ∧ f' = f then 1 else 0 := by
  rw [Links.add_eq] at h
  split at h
  · split at h
    · rename_i ds hds
      obtain rfl := Except.ok.inj h
      rw [Links.count_store]
      split
      · rename_i hkey
        obtain ⟨⟨rfl, rfl⟩, rfl⟩ := hkey
        rw [Links.count, hds, List.length_append]
        exact le_rfl
      · exact le_rfl
    · exact nomatch h
  · obtain rfl := Except.ok.inj h
    rw [Links.count_store]
    split
    · exact Nat.le_add_left 1 _
    · exact le_rfl

/-- The body of the loop on a line with its columns. -/
theorem parseLine_eq {line : Text} {c : Columns} (hcolumns : columns line = .ok c) :
    parseLine float links line = if '-' ∈ c.avgDelay then .ok links else
      match float c.avgDelay with
      | some d => links.add c.linkLocal c.proto c.func d
      | none => .error .valueError := by
  rw [parseLine, hcolumns]
  rfl

theorem recorded_eq {line : Text} {c : Columns} (hcolumns : columns line = .ok c) :
    recorded float line = (float c.avgDelay).map (Recorded.mk c) := by
  rw [recorded, hcolumns]

/-- A line that does not raise changes nothing or puts its delay. -/
theorem parseLine_ok {line : Text} {links' : Links} (h : parseLine float links line = .ok links') :
    links' = links ∨ ∃ r, recorded float line = some r ∧ '-' ∉ r.columns.avgDelay
      ∧ links.add r.columns.linkLocal r.columns.proto r.columns.func r.delay = .ok links' := by
  cases hcolumns : columns line with
  | error e =>
      rw [parseLine, hcolumns] at h
      exact nomatch h
  | ok c =>
      rw [parseLine_eq hcolumns] at h
      split at h
      · exact .inl (Except.ok.inj h).symm
      · rename_i hdash
        split at h
        · rename_i d hd
          exact .inr ⟨⟨c, d⟩, (recorded_eq hcolumns).trans (congrArg _ hd), hdash, h⟩
        · exact nomatch h

variable (float) in
/-- The lines of a read add at most as many delays as they record. -/
theorem count_parseData (lines : List Text) (links : Links) (l : Text × Text) (p f : Text) :
    (parseData float links lines).1.count l p f
      ≤ links.count l p f + (delaysIn (recordedIn float lines) l p f).length := by
  induction lines generalizing links with
  | nil => exact le_rfl
  | cons line lines ih =>
      have hlines : (delaysIn (recordedIn float (line :: lines)) l p f).length
          = (delaysIn (recordedIn float [line]) l p f).length + (delaysIn (recordedIn float lines) l p f).length := by
        rw [recordedIn, ← List.singleton_append, List.filterMap_append, delaysIn_append, List.length_append]
        rfl
      rw [parseData, hlines]
      cases hline : parseLine float links line with
      | error e => exact Nat.le_add_right _ _
      | ok links' =>
          have hstep : links'.count l p f ≤ links.count l p f + (delaysIn (recordedIn float [line]) l p f).length := by
            rcases parseLine_ok hline with rfl | ⟨r, hr, _, hadd⟩
            · exact Nat.le_add_right _ _
            · have hrecorded : recordedIn float [line] = [r] := List.filterMap_cons_some hr
              rw [hrecorded, delaysIn_singleton, apply_ite List.length]
              refine (Links.count_add hadd l p f).trans_eq ?_
              congr 1
              exact if_congr ⟨fun h => ⟨⟨h.1.1.symm, h.1.2.symm⟩, h.2.symm⟩,
                fun h => ⟨⟨h.1.1.symm, h.1.2.symm⟩, h.2.symm⟩⟩ rfl rfl
          have hrest := ih links'
          dsimp only
          omega

/-! ### One line -/

/-- An endpoint as it is printed. -/
def Endpoint (text : Text) : Prop := text = ['-'] ∨ IsAddress text

/-- A line of the log: fourteen columns, a delay that is a number or not set. -/
structure Fed (float : Text → Option ℚ) (line : Text) : Prop where
  columns : ∃ c, columns line = .ok c ∧ (Endpoint c.sndr ∧ Endpoint c.rcvr)
    ∧ (c.avgDelay = ['-'] ∨ (float c.avgDelay).isSome)

/-- The delay of a line, if it has one, is put in its place. -/
def Clear (float : Text → Option ℚ) (earlier : List Text) (line : Text) : Prop :=
  ∀ r, recorded float line = some r → InPlace (recordedIn float earlier) r

variable {earlier lines : List Text} {line : Text}

theorem recordedIn_append (earlier lines : List Text) :
    recordedIn float (earlier ++ lines) = recordedIn float earlier ++ recordedIn float lines :=
  List.filterMap_append

theorem parseLine_clear (hfed : Fed float line) (h : Exact (recordedIn float earlier) links)
    (hclear : Clear float earlier line) :
    ∃ links', parseLine float links line = .ok links' ∧ Exact (recordedIn float (earlier ++ [line])) links' := by
  obtain ⟨c, hcolumns, _, hdelay⟩ := hfed.columns
  have hrecorded : recorded float line = (float c.avgDelay).map (Recorded.mk c) := recorded_eq hcolumns
  rw [recordedIn_append, parseLine_eq hcolumns]
  cases hd : float c.avgDelay with
  | none =>
      rw [hd] at hrecorded hdelay
      have hnil : recordedIn float [line] = [] := List.filterMap_cons_none hrecorded
      rw [hnil, List.append_nil, if_pos (hdelay.resolve_right Bool.false_ne_true ▸ List.mem_singleton_self '-')]
      exact ⟨links, rfl, h⟩
  | some d =>
      rw [hd] at hrecorded
      have hplace := hclear _ hrecorded
      have hsingle : recordedIn float [line] = [⟨c, d⟩] := List.filterMap_cons_some hrecorded
      rw [hsingle, if_neg hplace.printed]
      exact h.add hplace

/-- A delay that is not put in its place is lost, or the delays before it are. -/
theorem count_of_not_clear (h : Exact (recordedIn float earlier) links) (hclear : ¬ Clear float earlier line) :
    ∃ r, recorded float line = some r ∧ ∀ links', parseLine float links line = .ok links' ∨ links' = links →
      links'.count r.columns.linkLocal r.columns.proto r.columns.func
        ≤ (delaysIn (recordedIn float earlier) r.columns.linkLocal r.columns.proto r.columns.func).length := by
  unfold Clear at hclear
  push Not at hclear
  obtain ⟨r, hr, hplace⟩ := hclear
  refine ⟨r, hr, fun links' hafter => ?_⟩
  have hbefore := h.count r.columns.linkLocal r.columns.proto r.columns.func
  rcases hafter with hafter | rfl
  · rcases parseLine_ok hafter with rfl | ⟨r', hr', hdash, hadd⟩
    · exact hbefore.le
    · obtain rfl := Option.some.inj (hr.symm.trans hr')
      rw [Links.add_eq, h.delays] at hadd
      split at hadd
      · rename_i hknows
        rw [h.knows, h.knows] at hknows
        split at hadd
        · rename_i ds hds
          split at hds
          · exact nomatch hds
          · rename_i hne
            exact absurd ⟨hdash, fun _ => iff_of_true (delaysIn_ne_nil.mp hne) hknows.2⟩ hplace
        · exact nomatch hadd
      · rename_i hknows
        rw [h.knows, h.knows] at hknows
        obtain rfl := Except.ok.inj hadd
        rw [Links.count_store, if_pos ⟨⟨rfl, rfl⟩, rfl⟩]
        refine List.length_pos_iff.mpr (delaysIn_ne_nil.mpr ?_)
        by_contra hnone
        exact hplace ⟨hdash, fun hunder => iff_of_false hnone fun hfunc => hknows ⟨hunder, hfunc⟩⟩
  · exact hbefore.le

/-! ### Reads -/

/-- Each line is clear when it comes. -/
def AllClear (float : Text → Option ℚ) : List Text → List Text → Prop
  | _, [] => True
  | earlier, line :: lines => Clear float earlier line ∧ AllClear float (earlier ++ [line]) lines

theorem allClear_append (earlier first second : List Text) :
    AllClear float earlier (first ++ second) ↔ AllClear float earlier first ∧ AllClear float (earlier ++ first) second := by
  induction first generalizing earlier with
  | nil => simp [AllClear]
  | cons line first ih => rw [List.cons_append, AllClear, AllClear, ih, and_assoc, ← List.append_cons]

theorem parseData_allClear (hfed : ∀ line ∈ lines, Fed float line) (h : Exact (recordedIn float earlier) links)
    (hclear : AllClear float earlier lines) :
    ∃ links', parseData float links lines = (links', none) ∧ Exact (recordedIn float (earlier ++ lines)) links' := by
  induction lines generalizing earlier links with
  | nil =>
      rw [List.append_nil]
      exact ⟨links, rfl, h⟩
  | cons line lines ih =>
      obtain ⟨hline, hlines⟩ := List.forall_mem_cons.mp hfed
      obtain ⟨links₁, hparse, hexact⟩ := parseLine_clear hline h hclear.1
      rw [parseData, hparse, List.append_cons]
      exact ih hlines hexact hclear.2

theorem count_lt_of_not_allClear (hfed : ∀ line ∈ lines, Fed float line) (h : Exact (recordedIn float earlier) links)
    (hclear : ¬ AllClear float earlier lines) : ∃ l p f,
      (parseData float links lines).1.count l p f < (delaysIn (recordedIn float (earlier ++ lines)) l p f).length := by
  induction lines generalizing earlier links with
  | nil => exact absurd trivial hclear
  | cons line lines ih =>
      obtain ⟨hline, hlines⟩ := List.forall_mem_cons.mp hfed
      by_cases hfirst : Clear float earlier line
      · obtain ⟨links₁, hparse, hexact⟩ := parseLine_clear hline h hfirst
        rw [parseData, hparse, List.append_cons]
        exact ih hlines hexact fun hrest => hclear ⟨hfirst, hrest⟩
      · -- the deficit after this line stays, as each line to come adds at most its own delay
        obtain ⟨r, hr, hcount⟩ := count_of_not_clear h hfirst
        refine ⟨r.columns.linkLocal, r.columns.proto, r.columns.func, ?_⟩
        have hsingle : recordedIn float [line] = [r] := List.filterMap_cons_some hr
        rw [List.append_cons, recordedIn_append, recordedIn_append, hsingle, delaysIn_append, delaysIn_append,
          delaysIn_singleton, if_pos r.has_self, List.length_append, List.length_append,
          List.length_singleton, parseData]
        cases hparse : parseLine float links line with
        | error e =>
            have hnow := hcount links (.inr rfl)
            dsimp only
            omega
        | ok links₁ =>
            have hnow := hcount links₁ (.inl hparse)
            have hrest := count_parseData float lines links₁ r.columns.linkLocal r.columns.proto r.columns.func
            dsimp only
            omega

theorem reader_fst (round6 : ℚ → ℚ) (links : Links) (lines : List Text) :
    (reader float round6 links lines).1 = (parseData float links lines).1 := by
  rw [reader]
  split
  · rename_i h
    rw [h]
  · rename_i h
    rw [h]

/-- `LINKS` after some reads. -/
def afterReads (float : Text → Option ℚ) (round6 : ℚ → ℚ) (links : Links) (reads : List (List Text)) : Links :=
  reads.foldl (fun links lines => (reader float round6 links lines).1) links

variable {reads : List (List Text)} {round6 : ℚ → ℚ}

theorem afterReads_cons (links : Links) (lines : List Text) (reads : List (List Text)) :
    afterReads float round6 links (lines :: reads)
      = afterReads float round6 (parseData float links lines).1 reads := by
  rw [afterReads, List.foldl_cons, reader_fst, afterReads]

theorem afterReads_allClear (hfed : ∀ line ∈ reads.flatten, Fed float line)
    (h : Exact (recordedIn float earlier) links) (hclear : AllClear float earlier reads.flatten) :
    Exact (recordedIn float (earlier ++ reads.flatten)) (afterReads float round6 links reads) := by
  induction reads generalizing earlier links with
  | nil =>
      rw [List.flatten_nil, List.append_nil]
      exact h
  | cons lines reads ih =>
      rw [List.flatten_cons, List.forall_mem_append] at hfed
      rw [List.flatten_cons, allClear_append] at hclear
      obtain ⟨links', hparse, hexact⟩ := parseData_allClear hfed.1 h hclear.1
      rw [afterReads_cons, hparse, List.flatten_cons, ← List.append_assoc]
      exact ih hfed.2 hexact hclear.2

variable (float round6) in
/-- Later reads add at most what they record. -/
theorem count_afterReads (links : Links) (reads : List (List Text)) (l : Text × Text) (p f : Text) :
    (afterReads float round6 links reads).count l p f
      ≤ links.count l p f + (delaysIn (recordedIn float reads.flatten) l p f).length := by
  induction reads generalizing links with
  | nil => exact le_rfl
  | cons lines reads ih =>
      have hfirst := count_parseData float lines links l p f
      have hrest := ih (parseData float links lines).1
      rw [afterReads_cons, List.flatten_cons, recordedIn_append, delaysIn_append, List.length_append]
      omega

theorem count_lt_afterReads (hfed : ∀ line ∈ reads.flatten, Fed float line)
    (h : Exact (recordedIn float earlier) links) (hclear : ¬ AllClear float earlier reads.flatten) : ∃ l p f,
      (afterReads float round6 links reads).count l p f
        < (delaysIn (recordedIn float (earlier ++ reads.flatten)) l p f).length := by
  induction reads generalizing earlier links with
  | nil => exact absurd trivial hclear
  | cons lines reads ih =>
      rw [List.flatten_cons, List.forall_mem_append] at hfed
      rw [List.flatten_cons, allClear_append, not_and] at hclear
      rw [afterReads_cons, List.flatten_cons, ← List.append_assoc]
      by_cases hfirst : AllClear float earlier lines
      · obtain ⟨links', hparse, hexact⟩ := parseData_allClear hfed.1 h hfirst
        rw [hparse]
        exact ih hfed.2 hexact (hclear hfirst)
      · obtain ⟨l, p, f, hlt⟩ := count_lt_of_not_allClear hfed.1 h hfirst
        have hrest := count_afterReads float round6 (parseData float links lines).1 reads l p f
        refine ⟨l, p, f, ?_⟩
        rw [recordedIn_append, delaysIn_append, List.length_append]
        omega

/-! ### What is dispatched -/

theorem Links.delays_eq_some {l : Text × Text} {p f : Text} {ds : List ℚ} : links.delays l p f = some ds ↔
    ∃ protos funcs, links.get? l = some protos ∧ protos.get? p = some funcs ∧ funcs.get? f = some ds := by
  unfold Links.delays Links.funcs Links.protos
  cases hl : links.get? l with
  | none => simp
  | some protos =>
      cases hp : protos.get? p with
      | none => simp [hp]
      | some funcs => simp [hp]

theorem mem_dispatched {v : Values} :
    v ∈ dispatched round6 links ↔ ∃ l p f ds, links.delays l p f = some ds ∧ v = valueOf round6 l p f ds := by
  simp only [dispatched, List.mem_flatMap, List.mem_map, Links.delays_eq_some]
  constructor
  · rintro ⟨⟨l, protos⟩, hl, ⟨p, funcs⟩, hp, ⟨f, ds⟩, hf, rfl⟩
    exact ⟨l, p, f, ds, ⟨protos, funcs, Table.mem_entries_iff.mp hl, Table.mem_entries_iff.mp hp,
      Table.mem_entries_iff.mp hf⟩, rfl⟩
  · rintro ⟨l, p, f, ds, ⟨protos, funcs, hl, hp, hf⟩, rfl⟩
    exact ⟨⟨l, protos⟩, Table.mem_entries_iff.mpr hl, ⟨p, funcs⟩, Table.mem_entries_iff.mpr hp, ⟨f, ds⟩,
      Table.mem_entries_iff.mpr hf, rfl⟩

/-- The delays of the lines with the sender, the receiver, the protocol and the function of some columns. -/
def delaysOf (rs : List Recorded) (c : Columns) : List ℚ :=
  (rs.filter fun r => r.columns.sndr = c.sndr ∧ r.columns.rcvr = c.rcvr ∧ r.columns.proto = c.proto
    ∧ r.columns.func = c.func).map Recorded.delay

/-- Endpoints have no underscores of their own. -/
theorem Endpoint.dotsToUnderscores_inj {a b : Text} (ha : Endpoint a) (hb : Endpoint b)
    (h : dotsToUnderscores a = dotsToUnderscores b) : a = b := by
  have hback (t : Text) (ht : Endpoint t) :
      (dotsToUnderscores t).map (fun c => if c = '_' then '.' else c) = t := by
    have hunderscore : '_' ∉ t := by
      rcases ht with rfl | ht
      · decide
      · intro hmem
        exact absurd (ht.2 '_' hmem) (by decide)
    rw [dotsToUnderscores, List.map_map]
    refine (List.map_congr_left fun c hc => ?_).trans t.map_id
    have hc : c ≠ '_' := fun heq => hunderscore (heq ▸ hc)
    by_cases hdot : c = '.' <;> simp [hdot, hc]
  rw [← hback a ha, h, hback b hb]

theorem endpoints_of_mem {r : Recorded} (hfed : ∀ line ∈ lines, Fed float line) (hr : r ∈ recordedIn float lines) :
    Endpoint r.columns.sndr ∧ Endpoint r.columns.rcvr := by
  obtain ⟨line, hline, hr⟩ := List.mem_filterMap.mp hr
  obtain ⟨c, hcolumns, hendpoints, _⟩ := (hfed line hline).columns
  rw [recorded_eq hcolumns] at hr
  obtain ⟨_, _, rfl⟩ := Option.map_eq_some_iff.mp hr
  exact hendpoints

/-- The keys tell the links apart. -/
theorem delaysIn_eq_delaysOf (hfed : ∀ line ∈ lines, Fed float line) (hr : r ∈ recordedIn float lines) :
    delaysIn (recordedIn float lines) r.columns.linkLocal r.columns.proto r.columns.func
      = delaysOf (recordedIn float lines) r.columns := by
  have hrEnd := endpoints_of_mem hfed hr
  refine congrArg _ (List.filter_congr fun e he => decide_eq_decide.mpr ?_)
  have heEnd := endpoints_of_mem hfed he
  constructor
  · intro ⟨⟨hlink, hproto⟩, hfunc⟩
    exact ⟨heEnd.1.dotsToUnderscores_inj hrEnd.1 (Prod.mk.inj hlink).1,
      heEnd.2.dotsToUnderscores_inj hrEnd.2 (Prod.mk.inj hlink).2, hproto, hfunc⟩
  · intro ⟨hsndr, hrcvr, hproto, hfunc⟩
    refine ⟨⟨?_, hproto⟩, hfunc⟩
    rw [Columns.linkLocal, hsndr, hrcvr]
    rfl

/-- What a read leaves and dispatches, given the delays recorded so far: every delay is kept under its link,
protocol and function, there is nothing else, and the values are the means. -/
structure Reports (round6 : ℚ → ℚ) (rs : List Recorded) (links : Links) (values : List Values) : Prop where
  kept : ∀ r ∈ rs, links.delays r.columns.linkLocal r.columns.proto r.columns.func = some (delaysOf rs r.columns)
  only : ∀ l p f ds, links.delays l p f = some ds → ∃ r ∈ rs, r.Has l p f
  values : ∀ v, v ∈ values ↔ ∃ r ∈ rs, v = valueOf round6 r.columns.linkLocal r.columns.proto r.columns.func
    (delaysOf rs r.columns)

theorem Exact.reports (hfed : ∀ line ∈ lines, Fed float line) (h : Exact (recordedIn float lines) links) :
    Reports round6 (recordedIn float lines) links (dispatched round6 links) := by
  have hkept : ∀ r ∈ recordedIn float lines, links.delays r.columns.linkLocal r.columns.proto r.columns.func
      = some (delaysOf (recordedIn float lines) r.columns) := by
    intro r hr
    rw [h.delays, if_neg (delaysIn_ne_nil.mpr ⟨r, hr, r.has_self⟩), delaysIn_eq_delaysOf hfed hr]
  have honly : ∀ l p f ds, links.delays l p f = some ds → ∃ r ∈ recordedIn float lines, r.Has l p f := by
    intro l p f ds hds
    rw [h.delays] at hds
    split at hds
    · exact nomatch hds
    · rename_i hne
      exact delaysIn_ne_nil.mp hne
  refine ⟨hkept, honly, fun v => ?_⟩
  rw [mem_dispatched]
  constructor
  · rintro ⟨l, p, f, ds, hds, rfl⟩
    obtain ⟨r, hr, ⟨rfl, rfl⟩, rfl⟩ := honly l p f ds hds
    obtain rfl := Option.some.inj (hds.symm.trans (hkept r hr))
    exact ⟨r, hr, rfl⟩
  · rintro ⟨r, hr, rfl⟩
    exact ⟨_, _, _, _, hkept r hr, rfl⟩

/-- The reads before one, and its lines. -/
structure Polls (float : Text → Option ℚ) where
  reads : List (List Text)
  lines : List Text
  fed : ∀ line ∈ reads.flatten ++ lines, Fed float line

/-- All lines so far. -/
def Polls.all (polls : Polls float) : List Text := polls.reads.flatten ++ polls.lines

/-- **The means are reported exactly when each delay is put in its place.** -/
theorem reports_iff (float : Text → Option ℚ) (round6 : ℚ → ℚ) (polls : Polls float) :
    (∃ links values, reader float round6 (afterReads float round6 ∅ polls.reads) polls.lines = (links, .ok values)
      ∧ Reports round6 (recordedIn float polls.all) links values) ↔ AllClear float [] polls.all := by
  have hall : polls.all = (polls.reads ++ [polls.lines]).flatten := by
    rw [Polls.all, List.flatten_append, List.flatten_singleton]
  have hfed : ∀ line ∈ polls.all, Fed float line := polls.fed
  constructor
  · intro ⟨links, values, hreader, hreports⟩
    by_contra hclear
    rw [hall] at hclear
    have hlost : ∃ l p f, (afterReads float round6 ∅ (polls.reads ++ [polls.lines])).count l p f
        < (delaysIn (recordedIn float ([] ++ (polls.reads ++ [polls.lines]).flatten)) l p f).length :=
      count_lt_afterReads (hall ▸ hfed) exact_empty hclear
    have hlinks : afterReads float round6 ∅ (polls.reads ++ [polls.lines]) = links := by
      rw [afterReads, List.foldl_append]
      exact congrArg Prod.fst hreader
    rw [hlinks, List.nil_append, ← hall] at hlost
    obtain ⟨l, p, f, hlt⟩ := hlost
    obtain ⟨r, hr, ⟨rfl, rfl⟩, rfl⟩ := delaysIn_ne_nil.mp (List.length_pos_iff.mp (Nat.zero_lt_of_lt hlt))
    rw [Links.count, hreports.kept r hr, delaysIn_eq_delaysOf hfed hr] at hlt
    exact lt_irrefl _ hlt
  · intro hclear
    obtain ⟨hreads, hlines⟩ := (allClear_append _ _ _).mp hclear
    obtain ⟨hfedReads, hfedLines⟩ := List.forall_mem_append.mp hfed
    have hexact : Exact (recordedIn float ([] ++ polls.reads.flatten)) (afterReads float round6 ∅ polls.reads) :=
      afterReads_allClear hfedReads exact_empty hreads
    obtain ⟨links, hparse, hlast⟩ := parseData_allClear hfedLines hexact hlines
    refine ⟨links, dispatched round6 links, ?_, hlast.reports hfed⟩
    rw [reader, hparse]

/-! Two delays of one function. -/

def oneOrThree (text : Text) : Option ℚ :=
  if text = "1.0".toList then some 1 else if text = "3.0".toList then some 3 else none

def firstRead : Text := "1\t600.5\t600.0\t10.0.0.1\t10.0.0.2\tMODBUS\t1\tREAD_COILS\t-\t1\t12.0\tT\t1\t1.0".toList

def secondRead : Text := "2\t1200.5\t600.0\t10.0.0.1\t10.0.0.2\tMODBUS\t1\tREAD_COILS\t-\t1\t12.0\tT\t1\t3.0".toList

def readCoils (avgDelay : Text) : Columns :=
  ⟨"10.0.0.1".toList, "10.0.0.2".toList, "MODBUS".toList, "READ_COILS".toList, avgDelay⟩

theorem columns_firstRead : columns firstRead = .ok (readCoils "1.0".toList) := by
  decide

theorem columns_secondRead : columns secondRead = .ok (readCoils "3.0".toList) := by
  decide

/-- Two reads of one line each. -/
def twoReads : Polls oneOrThree where
  reads := [[firstRead]]
  lines := [secondRead]
  fed := by
    have hendpoints : Endpoint "10.0.0.1".toList ∧ Endpoint "10.0.0.2".toList :=
      ⟨.inr (by decide), .inr (by decide)⟩
    simp only [List.flatten_singleton, List.singleton_append, List.forall_mem_cons, List.not_mem_nil, false_imp_iff,
      implies_true, and_true]
    exact ⟨⟨_, columns_firstRead, hendpoints, .inr (by decide)⟩,
      ⟨_, columns_secondRead, hendpoints, .inr (by decide)⟩⟩

theorem recorded_firstRead : recorded oneOrThree firstRead = some ⟨readCoils "1.0".toList, 1⟩ :=
  (recorded_eq columns_firstRead).trans rfl

/-- The second read reports `3` where the mean is `2`. -/
theorem twoReads_lost : ¬ ∀ (float : Text → Option ℚ) (round6 : ℚ → ℚ) (polls : Polls float),
    ∃ links values, reader float round6 (afterReads float round6 ∅ polls.reads) polls.lines = (links, .ok values)
      ∧ Reports round6 (recordedIn float polls.all) links values := by
  intro h
  obtain ⟨links, values, hreader, hreports⟩ := h oneOrThree id twoReads
  have hr : (⟨readCoils "1.0".toList, 1⟩ : Recorded) ∈ recordedIn oneOrThree twoReads.all :=
    List.mem_filterMap.mpr ⟨firstRead, List.mem_cons_self, recorded_firstRead⟩
  have hlast : (reader oneOrThree id (afterReads oneOrThree id ∅ twoReads.reads) twoReads.lines).1.delays
      (readCoils "1.0".toList).linkLocal "MODBUS".toList "READ_COILS".toList = some [3] := by
    decide
  rw [hreader] at hlast
  have hboth : delaysOf (recordedIn oneOrThree twoReads.all) (readCoils "1.0".toList) = [1, 3] := by
    decide
  have hkept := hreports.kept _ hr
  rw [hboth] at hkept
  exact absurd (hlast.symm.trans hkept) (by decide)

end Armore.Web.LatencyTable
