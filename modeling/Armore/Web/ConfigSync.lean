import Armore.Web.ConfigForms

/-!
# One synchronization

`synchConfigs` hands what the backend has to `updateConfig`, for the file of the mode and for that of ARMORE, and
then writes the backend with the same values. What the backend has not is `None` in what is handed over: the two
files keep their old value, and the backend is written the text `None`.
-/

namespace Armore.Web.ConfigFiles

open Lib Lib.Text

/-! ### What the backend hands over -/

def Mode.backendNames : Mode → List (Text × Text)
  | .proxy => proxyNames
  | .passive => passiveNames
  | .transparent => transparentNames

theorem lookup_fromBackend (back : Config) (names : List (Text × Text)) (name : Text) :
    (fromBackend back names).lookup name = (names.lookup name).map back.get? := by
  induction names with
  | nil => rfl
  | cons entry names ih =>
      obtain ⟨first, key⟩ := entry
      rw [fromBackend, List.map_cons, ← fromBackend, List.lookup_cons, List.lookup_cons]
      cases name == first with
      | true => rfl
      | false => exact ih

theorem synchMode_name (back : Config) (mode : Mode) : ∃ operation, operation ∈ ["operationMode".toList, "Operation".toList]
    ∧ synchMode back mode.name = fromBackend back mode.backendNames ++ [(operation, some mode.name)] := by
  cases mode with
  | proxy => exact ⟨"operationMode".toList, List.mem_cons_self, rfl⟩
  | passive => exact ⟨"operationMode".toList, List.mem_cons_self, rfl⟩
  | transparent => exact ⟨"Operation".toList, List.mem_cons_of_mem _ List.mem_cons_self, rfl⟩

theorem selects_synchMode (back : Config) (mode : Mode) : (synchMode back mode.name).Selects mode := by
  refine ⟨mode.name, ?_, rfl⟩
  cases mode <;> rfl

/-- The names that are not those of the mode itself. -/
theorem lookup_synchMode {mode : Mode} {back : Config} {name : Text}
    (hname : name ∉ ["operationMode".toList, "Operation".toList]) :
    (synchMode back mode.name).lookup name = (mode.backendNames.lookup name).map back.get? := by
  obtain ⟨operation, hoperation, heq⟩ := synchMode_name back mode
  have hne : name ≠ operation := fun h => hname (h ▸ hoperation)
  rw [heq, List.lookup_append, lookup_fromBackend, List.lookup_cons, beq_false_of_ne hne]
  exact Option.or_none

/-- The variables of ARMORE that the backend has too. -/
def armoreNames : List (Text × Text) := managementNames ++ [("operationMode".toList, "Operation".toList)]

theorem lookup_synchArmore (net : Netifaces) {mode : Mode} {back : Config}
    (hmode : back.get? "Operation".toList = some mode.name) {name : Text}
    (hname : name ∉ ["internalInterface".toList, "internalIp".toList]) :
    (synchArmore net back mode.name).lookup name = (armoreNames.lookup name).map back.get? := by
  have hrest : (if mode.name = "Passive".toList then
        [("internalInterface".toList, back.get? "Interface".toList),
          ("internalIp".toList, getIpAddrFromInt net (back.get? "Interface".toList))]
      else ([] : Dict)).lookup name = none := by
    rw [List.mem_cons, List.mem_singleton, not_or] at hname
    split
    · rw [List.lookup_cons, beq_false_of_ne hname.1, List.lookup_cons, beq_false_of_ne hname.2]
      rfl
    · rfl
  rw [synchArmore, List.lookup_append, hrest, Option.or_none, List.lookup_append, lookup_fromBackend, armoreNames,
    List.lookup_append, List.lookup_cons, List.lookup_cons]
  cases managementNames.lookup name with
  | some key => rfl
  | none =>
      cases name == "operationMode".toList with
      | true => exact congrArg some hmode.symm
      | false => rfl

/-- A form that has one value under the names of a setting submits it. -/
theorem Setting.submitted_eq {s : Setting} {form : Dict} {value : Option Text}
    (hnames : ∀ name ∈ s.formNames, form.get name = none ∨ form.get name = value)
    (hvalue : ∃ name ∈ s.formNames, form.get name = value) : s.submitted form = value.filter (· ≠ []) := by
  cases hfound : s.submitted form with
  | none =>
      obtain ⟨name, hname, rfl⟩ := hvalue
      exact (List.findSome?_eq_none_iff.mp hfound name hname).symm
  | some found =>
      obtain ⟨name, hname, hget⟩ := List.exists_of_findSome?_eq_some hfound
      rcases hnames name hname with hnone | rfl
      · rw [hnone] at hget
        exact nomatch hget
      · exact hget.symm

/-- The names of a setting in a form stand for one key of the backend. -/
structure Setting.HandsOver (s : Setting) (sources : List (Text × Text)) (others : List Text) (bkey : Text) : Prop where
  others : ∀ name ∈ s.formNames, name ∉ others
  names : ∀ name ∈ s.formNames, sources.lookup name = none ∨ sources.lookup name = some bkey
  key : ∃ name ∈ s.formNames, sources.lookup name = some bkey

instance (s : Setting) (sources : List (Text × Text)) (others : List Text) (bkey : Text) :
    Decidable (s.HandsOver sources others bkey) :=
  decidable_of_iff ((∀ name ∈ s.formNames, name ∉ others)
      ∧ (∀ name ∈ s.formNames, sources.lookup name = none ∨ sources.lookup name = some bkey)
      ∧ ∃ name ∈ s.formNames, sources.lookup name = some bkey)
    ⟨fun ⟨hothers, hnames, hkey⟩ => ⟨hothers, hnames, hkey⟩, fun h => ⟨h.others, h.names, h.key⟩⟩

theorem Setting.HandsOver.submitted {s : Setting} {sources : List (Text × Text)} {others : List Text} {bkey : Text}
    (h : s.HandsOver sources others bkey) {form : Dict} {back : Config}
    (hform : ∀ name, name ∉ others → form.lookup name = (sources.lookup name).map back.get?) :
    s.submitted form = (back.get? bkey).filter (· ≠ []) := by
  apply Setting.submitted_eq
  · intro name hname
    rw [Dict.get, hform name (h.others name hname)]
    rcases h.names name hname with hnone | hsome
    · exact .inl (by rw [hnone]; rfl)
    · exact .inr (by rw [hsome]; rfl)
  · obtain ⟨name, hname, hsome⟩ := h.key
    exact ⟨name, hname, by rw [Dict.get, hform name (h.others name hname), hsome]; rfl⟩

theorem submitted_synchMode {mode : Mode} {s : Setting} (hs : s ∈ mode.settings) {bkey : Text}
    (hwrites : mode.backendTemplate.Writes bkey s.name) (back : Config) :
    s.submitted (synchMode back mode.name) = (back.get? bkey).filter (· ≠ []) := by
  have hhands : ∀ s ∈ mode.settings, ∀ setting ∈ mode.backendTemplate.settings, setting.2 = .variable s.name →
      s.HandsOver mode.backendNames ["operationMode".toList, "Operation".toList] setting.1 := by
    cases mode <;> decide +kernel
  exact (hhands s hs (bkey, .variable s.name) hwrites rfl).submitted fun _ => lookup_synchMode

theorem submitted_synchArmore (net : Netifaces) {mode : Mode} {s : Setting} (hs : s ∈ armoreSettings) {bkey : Text}
    (hwrites : mode.backendTemplate.Writes bkey s.name) {back : Config}
    (hmode : back.get? "Operation".toList = some mode.name) :
    s.submitted (synchArmore net back mode.name) = (back.get? bkey).filter (· ≠ []) := by
  have hhands : ∀ s ∈ armoreSettings, ∀ setting ∈ mode.backendTemplate.settings, setting.2 = .variable s.name →
      s.HandsOver armoreNames ["internalInterface".toList, "internalIp".toList] setting.1 := by
    cases mode <;> decide +kernel
  exact (hhands s hs (bkey, .variable s.name) hwrites rfl).submitted fun _ => lookup_synchArmore net hmode

/-- The backend is written with what it has. -/
theorem get_append_synch (net : Netifaces) {mode : Mode} {back : Config}
    (hmode : back.get? "Operation".toList = some mode.name) {bkey name : Text}
    (hwrites : mode.backendTemplate.Writes bkey name) :
    Dict.get (synchArmore net back mode.name ++ synchMode back mode.name) name = back.get? bkey := by
  have hnames : ∀ setting ∈ mode.backendTemplate.settings, ∀ name ∈ mode.backendTemplate.names,
      setting.2 = .variable name → (armoreNames ++ mode.backendNames).lookup name = some setting.1
        ∧ name ∉ ["internalInterface".toList, "internalIp".toList]
        ∧ (armoreNames.lookup name = none → name ∉ ["operationMode".toList, "Operation".toList]) := by
    cases mode <;> decide +kernel
  obtain ⟨hlookup, hown, hrest⟩ := hnames (bkey, .variable name) hwrites name (Template.mem_names.mpr ⟨bkey, hwrites⟩) rfl
  rw [List.lookup_append] at hlookup
  rw [Dict.get, List.lookup_append, lookup_synchArmore net hmode hown]
  cases harmore : armoreNames.lookup name with
  | some key =>
      rw [harmore, Option.some_or, Option.some.injEq] at hlookup
      rw [hlookup]
      rfl
  | none =>
      rw [harmore, Option.none_or] at hlookup
      rw [lookup_synchMode (hrest harmore), hlookup]
      rfl

/-! ### What is written -/

/-- The text of each variable in the new file of ARMORE. -/
def armoreValues (net : Netifaces) (form : Dict) (oldConfig : Config) (name : Text) : Text :=
  str (Dict.get (newArmoreConfig net form oldConfig) name)

theorem armoreValues_name (net : Netifaces) {s : Setting} (hs : s ∈ armoreSettings) (form : Dict) (oldConfig : Config) :
    armoreValues net form oldConfig s.name = str ((s.submitted form).or (oldConfig.get? s.oldKey)) := by
  have hnodup : (armoreSettings.map (·.name)).Nodup := by decide +kernel
  rw [armoreValues, newArmoreConfig, List.append_assoc, get_newConfig hnodup hs, s.newValue_eq]

theorem updateConfig_armore (net : Netifaces) {files : Files} (form : Dict) {oldConfig : Config}
    (hread : getArmoreConfig files = .ok oldConfig) :
    updateConfig net files form .armore
      = .ok { files with armore := some (armoreConfigTemplate.render (armoreValues net form oldConfig)) } := by
  have hcovers : ∀ key name, armoreConfigTemplate.Writes key name →
      name ∈ (newArmoreConfig net form oldConfig).map Prod.fst := by
    have hnames : ∀ setting ∈ armoreConfigTemplate.settings, ∀ name ∈ armoreConfigTemplate.names,
        setting.2 = .variable name → name ∈ ["operationMode".toList, "managementIp".toList, "managementMask".toList,
          "managementInterface".toList, "internalInterface".toList, "internalIp".toList, "internalMask".toList,
          "externalInterface".toList, "externalIp".toList, "externalMask".toList] := by
      decide +kernel
    exact fun key name hwrites =>
      hnames (key, .variable name) hwrites name (Template.mem_names.mpr ⟨key, hwrites⟩) rfl
  rw [updateConfig, updateArmoreConfig, hread]
  calc writeConfig files (newArmoreConfig net form oldConfig) .armore
      = (do return { files with armore := some (← armoreConfigTemplate.substitute
          (newArmoreConfig net form oldConfig)) }) := by
        rw [writeConfig, if_pos rfl]
    _ = .ok { files with armore := some (armoreConfigTemplate.render (armoreValues net form oldConfig)) } := by
        rw [armoreConfigTemplate.substitute_eq hcovers]
        rfl

/-- What is read of the three files that are synchronized. -/
@[ext]
structure Configs where
  backend : Config
  mode : Config
  armore : Config

structure Files.Reads (files : Files) (mode : Mode) (c : Configs) : Prop where
  backend : getArmoreConfigBackend files = .ok c.backend
  mode : getConfig files mode.name = .ok c.mode
  armore : getArmoreConfig files = .ok c.armore

namespace Configs

variable (net : Netifaces) (mode : Mode) (c : Configs)

def modeValues : Text → Text := mode.values (synchMode c.backend mode.name) c.mode

def armoreValues : Text → Text := ConfigFiles.armoreValues net (synchArmore net c.backend mode.name) c.armore

def backendValues (name : Text) : Text :=
  str (Dict.get (synchArmore net c.backend mode.name ++ synchMode c.backend mode.name) name)

/-- The files after a synchronization. -/
def write (files : Files) : Files :=
  { files.setMode mode (mode.template.render (c.modeValues mode)) with
    armore := some (armoreConfigTemplate.render (c.armoreValues net mode))
    backend := some (mode.backendTemplate.render (c.backendValues net mode)) }

/-- What is read of them. -/
def next : Configs where
  backend := mode.backendTemplate.reading (c.backendValues net mode)
  mode := mode.template.reading (c.modeValues mode)
  armore := armoreConfigTemplate.reading (c.armoreValues net mode)

end Configs

/-- **A synchronization writes three files** and no other. -/
theorem synchConfigs_eq (net : Netifaces) {files : Files} {mode : Mode} {c : Configs} (hreads : files.Reads mode c)
    (hmode : c.backend.get? "Operation".toList = some mode.name) :
    synchConfigs net files = .ok (c.write net mode files, some (synchArmore net c.backend mode.name)) := by
  have hupdate := updateConfig_mode net (selects_synchMode c.backend mode) hreads.mode
  have harmore : getArmoreConfig (files.setMode mode (mode.template.render (c.modeValues mode))) = .ok c.armore := by
    rw [getArmoreConfig, Files.armore_setMode]
    exact hreads.armore
  have hname : Dict.get (synchArmore net c.backend mode.name ++ synchMode c.backend mode.name) "operationMode".toList
      = some mode.name := by
    cases mode <;> rfl
  have hcovers : ∀ key name, mode.backendTemplate.Writes key name →
      name ∈ (synchArmore net c.backend mode.name ++ synchMode c.backend mode.name).map Prod.fst := by
    have hnames : ∀ name ∈ mode.backendTemplate.names, name ∈ managementNames.map Prod.fst
        ∨ name = "operationMode".toList ∨ name ∈ mode.backendNames.map Prod.fst := by
      cases mode <;> decide +kernel
    have hfrom : ∀ names, (fromBackend c.backend names).map Prod.fst = names.map Prod.fst := by
      intro names
      rw [fromBackend, List.map_map]
      rfl
    intro key name hwrites
    obtain ⟨operation, -, heq⟩ := synchMode_name c.backend mode
    rw [heq, synchArmore]
    simp only [List.map_append, hfrom, List.mem_append, List.map_cons, List.map_nil, List.mem_singleton]
    rcases hnames name (Template.mem_names.mpr ⟨key, hwrites⟩) with hmanagement | hoperation | hbackend
    · exact .inl (.inl (.inl hmanagement))
    · exact .inl (.inl (.inr hoperation))
    · exact .inr (.inl hbackend)
  have hbackend : ∀ files : Files, updateConfig net files
      (synchArmore net c.backend mode.name ++ synchMode c.backend mode.name) .backend
        = .ok { files with backend := some (mode.backendTemplate.render (c.backendValues net mode)) } := by
    intro files
    rw [updateConfig, writeBackendConfig, hname, modeNamed_name]
    simp only [mode.backendTemplate.substitute_eq hcovers]
    rfl
  rw [synchConfigs, hreads.backend]
  refine bind_ok.mpr ⟨c.backend, rfl, ?_⟩
  rw [hmode]
  exact bind_ok.mpr ⟨_, hupdate, bind_ok.mpr ⟨_, updateConfig_armore net _ harmore, bind_ok.mpr ⟨_, hbackend _, rfl⟩⟩⟩

/-! ### What the file of ARMORE has of its own -/

/-- The setting keeps its old value. -/
def KeepsOwn (net : Netifaces) (key name : Text) : Prop :=
  ∀ (mode : Mode) back old, armoreValues net (synchArmore net back mode.name) old name = str (old.get? key)

/-- The setting keeps its old value, or else takes an address of the interface. -/
def KeepsAddress (net : Netifaces) (part : Text × Text → Text) (int key name : Text) : Prop :=
  ∀ (mode : Mode) back old, armoreValues net (synchArmore net back mode.name) old name
    = str (pyOr (old.get? key) (fromInt net part (old.get? int)))

theorem keepsOwn_int (net : Netifaces) {int : Setting} (hint : int ∈ [internalInt, externalInt]) :
    armoreConfigTemplate.Writes int.oldKey int.name ∧ KeepsOwn net int.oldKey int.name := by
  rcases List.mem_cons.mp hint with rfl | hexternal
  · exact ⟨by decide +kernel, fun mode back old => by cases mode <;> rfl⟩
  · rw [List.mem_singleton.mp hexternal]
    exact ⟨by decide +kernel, fun mode back old => by cases mode <;> rfl⟩

/-- What the backend has not: two interfaces and their addresses. -/
theorem keepsOwn_or_keepsAddress (net : Netifaces) {key name : Text} (hwrites : armoreConfigTemplate.Writes key name)
    (hown : name ∉ armoreSettings.map (·.name)) :
    KeepsOwn net key name
      ∨ ∃ int ∈ [internalInt, externalInt], ∃ part ∈ [Prod.fst, Prod.snd], KeepsAddress net part int.oldKey key name := by
  have hinternal : internalInt ∈ [internalInt, externalInt] := List.mem_cons_self
  have hexternal : externalInt ∈ [internalInt, externalInt] := List.mem_cons_of_mem _ List.mem_cons_self
  have haddr : Prod.fst ∈ [(Prod.fst : Text × Text → Text), Prod.snd] := List.mem_cons_self
  have hmask : Prod.snd ∈ [(Prod.fst : Text × Text → Text), Prod.snd] := List.mem_cons_of_mem _ List.mem_cons_self
  have hshared : ∀ name ∈ ["managementIp".toList, "managementMask".toList, "managementInterface".toList,
      "operationMode".toList], name ∈ armoreSettings.map (·.name) := by
    decide +kernel
  simp only [Template.Writes, armoreConfigTemplate, List.mem_cons, List.not_mem_nil, or_false, Prod.mk.injEq,
    Source.variable.injEq] at hwrites
  rcases hwrites with ⟨rfl, rfl⟩ | ⟨rfl, rfl⟩ | ⟨rfl, rfl⟩ | ⟨rfl, rfl⟩ | ⟨rfl, rfl⟩ | ⟨rfl, rfl⟩ | ⟨rfl, rfl⟩
    | ⟨rfl, rfl⟩ | ⟨rfl, rfl⟩ | ⟨rfl, rfl⟩
  · exact absurd (hshared _ (by simp)) hown
  · exact absurd (hshared _ (by simp)) hown
  · exact absurd (hshared _ (by simp)) hown
  · exact .inr ⟨internalInt, hinternal, Prod.fst, haddr, fun mode back old => by cases mode <;> rfl⟩
  · exact .inr ⟨internalInt, hinternal, Prod.snd, hmask, fun mode back old => by cases mode <;> rfl⟩
  · exact .inl (keepsOwn_int net hinternal).2
  · exact .inr ⟨externalInt, hexternal, Prod.fst, haddr, fun mode back old => by cases mode <;> rfl⟩
  · exact .inr ⟨externalInt, hexternal, Prod.snd, hmask, fun mode back old => by cases mode <;> rfl⟩
  · exact .inl (keepsOwn_int net hexternal).2
  · exact absurd (hshared _ (by simp)) hown

/-! ### What is read of the new files -/

theorem plain_none : Plain (str none) := by decide +kernel

theorem plain_fromInt (net : Netifaces) {part : Text × Text → Text} (hpart : part ∈ [Prod.fst, Prod.snd])
    (interface : Option Text) : Plain (str (fromInt net part interface)) := by
  have hempty : Plain (str (some [])) := by decide +kernel
  rw [fromInt]
  cases hfound : interface.bind net.ifaddresses with
  | none => exact hempty
  | some addresses =>
      cases addresses with
      | none => exact plain_none
      | some address =>
          obtain ⟨name, -, hname⟩ := Option.bind_eq_some_iff.mp hfound
          have hplain := net.plain name address.1 address.2 hname
          rcases List.mem_cons.mp hpart with rfl | hsnd
          · exact hplain.1
          · rw [List.mem_singleton.mp hsnd]
            exact hplain.2

theorem Template.reads_plain (t : Template) {value : Text} (hvalue : Plain value) : t.reads value = value := by
  rw [reads]
  split
  · rfl
  · exact hvalue.2

/-- The backend is in the mode, and its values are plain and not empty. -/
structure Configs.Sound (c : Configs) (mode : Mode) : Prop where
  operation : c.backend.get? "Operation".toList = some mode.name
  plain : ∀ bkey name value, mode.backendTemplate.Writes bkey name → c.backend.get? bkey = some value →
    Plain value ∧ value ≠ []

namespace Configs.Sound

variable {net : Netifaces} {mode : Mode} {c : Configs} {bkey : Text}

theorem plain_str (h : c.Sound mode) {name : Text} (hwrites : mode.backendTemplate.Writes bkey name) :
    Plain (str (c.backend.get? bkey)) := by
  cases hget : c.backend.get? bkey with
  | none => exact plain_none
  | some value => exact (h.plain bkey name value hwrites hget).1

theorem filter_get? (h : c.Sound mode) {name : Text} (hwrites : mode.backendTemplate.Writes bkey name) :
    (c.backend.get? bkey).filter (· ≠ []) = c.backend.get? bkey := by
  cases hget : c.backend.get? bkey with
  | none => rfl
  | some value => rw [Option.filter_some, if_pos (decide_eq_true (h.plain bkey name value hwrites hget).2)]

/-- A shared setting goes to the file of the mode, or keeps what is found there. -/
theorem modeValues_name (h : c.Sound mode) {s : Setting} (hs : s ∈ mode.settings)
    (hwrites : mode.backendTemplate.Writes bkey s.name) :
    c.modeValues mode s.name = str ((c.backend.get? bkey).or (c.mode.get? s.oldKey)) := by
  rw [modeValues, Mode.values_name hs, submitted_synchMode hs hwrites, h.filter_get? hwrites]

theorem armoreValues_name (h : c.Sound mode) {s : Setting} (hs : s ∈ armoreSettings)
    (hwrites : mode.backendTemplate.Writes bkey s.name) :
    c.armoreValues net mode s.name = str ((c.backend.get? bkey).or (c.armore.get? s.oldKey)) := by
  rw [armoreValues, ConfigFiles.armoreValues_name net hs, submitted_synchArmore net hs hwrites h.operation,
    h.filter_get? hwrites]

theorem backendValues_name (h : c.Sound mode) {name : Text} (hwrites : mode.backendTemplate.Writes bkey name) :
    c.backendValues net mode name = str (c.backend.get? bkey) := by
  rw [backendValues, get_append_synch net h.operation hwrites]

/-- What is read of the new backend. -/
theorem get?_next_backend (h : c.Sound mode) {name : Text} (hwrites : mode.backendTemplate.Writes bkey name) :
    (c.next net mode).backend.get? bkey = some (str (c.backend.get? bkey)) := by
  rw [next, Template.get?_reading hwrites, h.backendValues_name hwrites, Template.reads_plain _ (h.plain_str hwrites)]

theorem next (h : c.Sound mode) : (c.next net mode).Sound mode where
  operation := by
    have hwrites : mode.backendTemplate.Writes "Operation".toList "operationMode".toList := by
      cases mode <;> decide +kernel
    rw [h.get?_next_backend hwrites, h.operation]
    rfl
  plain bkey name value hwrites hget := by
    rw [h.get?_next_backend hwrites, Option.some.injEq] at hget
    rw [← hget]
    refine ⟨h.plain_str hwrites, ?_⟩
    cases hback : c.backend.get? bkey with
    | none => exact List.cons_ne_nil _ _
    | some value => exact (h.plain bkey name value hwrites hback).2

end Configs.Sound

/-- The settings of a mode are in the backend too, and so are those of ARMORE that a form decides on. -/
theorem Mode.exists_backendKey {mode : Mode} {s : Setting} (hs : s ∈ mode.settings ∨ s ∈ armoreSettings) :
    ∃ bkey, mode.backendTemplate.Writes bkey s.name := by
  have hnames : ∀ s ∈ mode.settings ++ armoreSettings, s.name ∈ mode.backendTemplate.names := by
    cases mode <;> decide +kernel
  exact Template.mem_names.mp (hnames s (List.mem_append.mpr hs))

section

variable {net : Netifaces} {files : Files} {mode : Mode} {c : Configs}

theorem bares_modeValues (hreads : files.Reads mode c) (hsound : c.Sound mode) :
    mode.template.Bares (c.modeValues mode) := by
  apply bares_values hreads.mode
  intro s hs value hvalue
  obtain ⟨bkey, hwrites⟩ := Mode.exists_backendKey (.inl hs)
  rw [submitted_synchMode hs hwrites, hsound.filter_get? hwrites] at hvalue
  exact bare_of_read hreads.backend hvalue

theorem bares_backendValues (hsound : c.Sound mode) : mode.backendTemplate.Bares (c.backendValues net mode) := by
  intro bkey name hwrites
  rw [hsound.backendValues_name hwrites]
  exact (hsound.plain_str hwrites).1

theorem bares_armoreValues (hreads : files.Reads mode c) (hsound : c.Sound mode) :
    armoreConfigTemplate.Bares (c.armoreValues net mode) := by
  intro key name hwrites
  by_cases hshared : name ∈ armoreSettings.map (·.name)
  · obtain ⟨s, hs, rfl⟩ := List.mem_map.mp hshared
    obtain ⟨bkey, hbackend⟩ : ∃ bkey, mode.backendTemplate.Writes bkey s.name := Mode.exists_backendKey (.inr hs)
    rw [hsound.armoreValues_name hs hbackend]
    cases hget : c.backend.get? bkey with
    | none => exact bare_stored hreads.armore s.oldKey
    | some value => exact (hsound.plain bkey s.name value hbackend hget).1.1
  · rcases keepsOwn_or_keepsAddress net hwrites hshared with hown | ⟨int, -, part, hpart, haddress⟩
    · rw [Configs.armoreValues, hown mode]
      exact bare_stored hreads.armore key
    · rw [Configs.armoreValues, haddress mode, pyOr]
      split
      · exact (plain_fromInt net hpart _).1
      · exact bare_stored hreads.armore key

variable (net) in
/-- **The new files are read back.** -/
theorem Files.Reads.write (hreads : files.Reads mode c) (hsound : c.Sound mode) :
    (c.write net mode files).Reads mode (c.next net mode) where
  backend := (bares_backendValues hsound).getConfigFromFile_render
  mode := by
    have hmode : (c.write net mode files).mode mode = some (mode.template.render (c.modeValues mode)) := by
      cases mode <;> rfl
    rw [getConfig_name, hmode]
    exact (bares_modeValues hreads hsound).getConfigFromFile_render
  armore := (bares_armoreValues hreads hsound).getConfigFromFile_render

end

end Armore.Web.ConfigFiles
