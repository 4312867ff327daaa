import Armore.Web.ConfigReadBack

/-!
# Forms with some of the settings

A form for a mode has values for some of its settings. `updateConfig` writes the file of the mode anew, with the
values of the form and, for the other settings, what it finds in the old file. It looks for the role under
`RoleType`, and the template writes it under `Roletype`.
-/

namespace Armore.Web.ConfigFiles

open Lib Lib.Text

/-! ### The file of a mode -/

def Mode.settings : Mode → List Setting
  | .proxy => proxySettings
  | .passive => passiveSettings
  | .transparent => transparentSettings

def Files.mode (files : Files) : Mode → Option Text
  | .proxy => files.proxy
  | .passive => files.passive
  | .transparent => files.transparent

@[simp] theorem Files.mode_setMode (files : Files) (mode : Mode) (content : Text) :
    (files.setMode mode content).mode mode = some content := by
  cases mode <;> rfl

@[simp] theorem Files.armore_setMode (files : Files) (mode : Mode) (content : Text) :
    (files.setMode mode content).armore = files.armore := by
  cases mode <;> rfl

theorem getConfig_name (files : Files) (mode : Mode) : getConfig files mode.name = getConfigFromFile (files.mode mode) := by
  cases mode <;> rfl

@[simp] theorem modeNamed_name (mode : Mode) : modeNamed (some mode.name) = some mode := by
  cases mode <;> rfl

/-- A variable of the template. -/
def Template.names (t : Template) : List Text :=
  t.settings.filterMap fun setting =>
    match setting.2 with
    | .constant _ => none
    | .variable name => some name

theorem Template.mem_names {t : Template} {name : Text} : name ∈ t.names ↔ ∃ key, t.Writes key name := by
  rw [names, List.mem_filterMap]
  constructor
  · rintro ⟨⟨key, source⟩, hmem, hsource⟩
    cases source with
    | constant text => exact nomatch hsource
    | «variable» other => exact ⟨key, Option.some.inj hsource ▸ hmem⟩
  · rintro ⟨key, hwrites⟩
    exact ⟨_, hwrites, rfl⟩

/-- The variables of the template of a mode are its settings. -/
theorem Mode.mem_names (mode : Mode) : ∀ name, name ∈ mode.template.names ↔ name ∈ mode.settings.map (·.name) := by
  have hsubset : mode.template.names ⊆ mode.settings.map (·.name)
      ∧ mode.settings.map (·.name) ⊆ mode.template.names := by
    cases mode <;> decide +kernel
  exact fun name => ⟨fun h => hsubset.1 h, fun h => hsubset.2 h⟩

theorem Mode.exists_setting {mode : Mode} {key name : Text} (hwrites : mode.template.Writes key name) :
    ∃ s ∈ mode.settings, s.name = name :=
  List.mem_map.mp ((mode.mem_names name).mp (Template.mem_names.mpr ⟨key, hwrites⟩))

theorem Mode.exists_key {mode : Mode} {s : Setting} (hs : s ∈ mode.settings) : ∃ key, mode.template.Writes key s.name :=
  Template.mem_names.mp ((mode.mem_names s.name).mpr (List.mem_map_of_mem hs))

/-! ### The new values -/

/-- The first value the form has for the setting. -/
def Setting.submitted (s : Setting) (form : Dict) : Option Text :=
  s.formNames.findSome? fun name => (form.get name).filter (· ≠ [])

theorem Setting.newValue_eq (s : Setting) (form : Dict) (oldConfig : Config) :
    s.newValue form oldConfig = (s.submitted form).or (oldConfig.get? s.oldKey) := by
  have hpyOr : ∀ a b : Option Text, pyOr a b = (a.filter (· ≠ [])).or b := by
    intro a b
    cases a with
    | none => rfl
    | some value =>
        by_cases hnil : value = []
        · simp [pyOr, hnil, Option.filter_some]
        · simp [pyOr, hnil, Option.filter_some]
  rw [newValue, submitted]
  induction s.formNames with
  | nil => rfl
  | cons name names ih =>
      rw [List.foldr_cons, hpyOr, ih, List.findSome?_cons]
      cases (form.get name).filter (· ≠ []) <;> rfl

theorem get_newConfig {settings : List Setting} (hnodup : (settings.map (·.name)).Nodup) {s : Setting}
    (hs : s ∈ settings) (form : Dict) (oldConfig : Config) (rest : Dict) :
    Dict.get (newConfig settings form oldConfig ++ rest) s.name = s.newValue form oldConfig := by
  induction settings with
  | nil => exact absurd hs List.not_mem_nil
  | cons first settings ih =>
      rw [List.map_cons, List.nodup_cons] at hnodup
      rw [newConfig, List.map_cons, List.cons_append, Dict.get, List.lookup_cons]
      rcases List.mem_cons.mp hs with rfl | hrest
      · rw [beq_self_eq_true]
        rfl
      · have hne : s.name ≠ first.name := by
          intro heq
          exact hnodup.1 (heq ▸ List.mem_map_of_mem hrest)
        rw [beq_false_of_ne hne]
        exact ih hnodup.2 hrest

/-- The text of each variable in the new file of a mode. -/
def Mode.values (mode : Mode) (form : Dict) (oldConfig : Config) (name : Text) : Text :=
  str (Dict.get (updateModeConfig mode.settings mode.name form oldConfig) name)

theorem Mode.values_name {mode : Mode} {s : Setting} (hs : s ∈ mode.settings) (form : Dict) (oldConfig : Config) :
    mode.values form oldConfig s.name = str ((s.submitted form).or (oldConfig.get? s.oldKey)) := by
  have hnodup : (mode.settings.map (·.name)).Nodup := by
    cases mode <;> decide +kernel
  rw [values, updateModeConfig, get_newConfig hnodup hs, s.newValue_eq]

/-- The form is for the mode. -/
def Dict.Selects (form : Dict) (mode : Mode) : Prop :=
  ∃ operationMode, pyOr (form.get "operationMode".toList) (form.get "Operation".toList) = some operationMode
    ∧ lower operationMode = lower mode.name

/-- **An update writes the file of the mode** and no other. -/
theorem updateConfig_mode (net : Netifaces) {files : Files} {form : Dict} {mode : Mode} {oldConfig : Config}
    (hform : form.Selects mode) (hread : getConfig files mode.name = .ok oldConfig) :
    updateConfig net files form .mode
      = .ok (files.setMode mode (mode.template.render (mode.values form oldConfig))) := by
  obtain ⟨operationMode, hmode, hlower⟩ := hform
  have hnew : updateMode files form operationMode
      = .ok (updateModeConfig mode.settings mode.name form oldConfig) := by
    rw [updateMode, hlower]
    cases mode with
    | proxy =>
        rw [if_pos (by decide), updateProxyConfig]
        rw [show getConfig files "proxy".toList = .ok oldConfig from hread]
        rfl
    | passive =>
        rw [if_neg (by decide), if_pos (by decide), updatePassiveConfig]
        rw [show getPassiveConfig files = .ok oldConfig from hread]
        rfl
    | transparent =>
        rw [if_neg (by decide), if_neg (by decide), if_pos (by decide), updateTransparentConfig]
        rw [show getTransparentConfig files = .ok oldConfig from hread]
        rfl
  have hname : Dict.get (updateModeConfig mode.settings mode.name form oldConfig) "operationMode".toList
      = some mode.name := by
    cases mode <;> rfl
  have hcovers : ∀ key name, mode.template.Writes key name →
      name ∈ (updateModeConfig mode.settings mode.name form oldConfig).map Prod.fst := by
    intro key name hwrites
    obtain ⟨s, hs, rfl⟩ := Mode.exists_setting hwrites
    rw [updateModeConfig, List.map_append, newConfig, List.map_map]
    exact List.mem_append_left _ (List.mem_map.mpr ⟨s, hs, rfl⟩)
  rw [updateConfig, hmode]
  simp only [hnew]
  calc writeConfig files (updateModeConfig mode.settings mode.name form oldConfig) .mode
      = (do return files.setMode mode (← mode.template.substitute
          (updateModeConfig mode.settings mode.name form oldConfig))) := by
        rw [writeConfig, if_neg (by decide), hname, modeNamed_name]
    _ = .ok (files.setMode mode (mode.template.render (mode.values form oldConfig))) := by
        rw [mode.template.substitute_eq hcovers]
        rfl

/-! ### What is kept -/

/-- The value is read back as it was written. -/
def Template.Holds (t : Template) (value : Text) : Prop := Bare value ∧ t.reads value = value

/-- Every variable of the template has a key and a value. -/
def Template.Complete (t : Template) (config : Config) : Prop :=
  ∀ key name, t.Writes key name → ∃ value, config.get? key = some value

/-- After the update the file has the values of the form, and for the other settings those it had. -/
def KeepsRest (net : Netifaces) (files : Files) (mode : Mode) (form : Dict) (stored : Config) : Prop :=
  ∃ files' config, updateConfig net files form .mode = .ok files' ∧ getConfig files' mode.name = .ok config ∧
    ∀ s ∈ mode.settings, ∀ key, mode.template.Writes key s.name →
      config.get? key = (s.submitted form).or (stored.get? key)

/-- What is submitted has no line break, equals sign or quote, and without quotes around it no space at either end;
a value that stays has no space there either. A role that stays is what the old file has under `RoleType`. -/
structure Keepable (mode : Mode) (form : Dict) (stored : Config) : Prop where
  submitted : ∀ s ∈ mode.settings, ∀ value, s.submitted form = some value → mode.template.Holds value
  others : ∀ s ∈ mode.settings, s ≠ roleType → s.submitted form = none →
    ∀ key value, mode.template.Writes key s.name → stored.get? key = some value → mode.template.reads value = value
  role : mode = .proxy → roleType.submitted form = none →
    stored.get? "Roletype".toList = some (strip whitespace (str (stored.get? "RoleType".toList)))

/-- All settings but the role are looked for under the key the template writes. -/
theorem Mode.oldKey_eq {mode : Mode} {s : Setting} (hs : s ∈ mode.settings) {key : Text}
    (hwrites : mode.template.Writes key s.name) (hrole : s ≠ roleType) : s.oldKey = key := by
  have hkeys : ∀ s ∈ mode.settings, ∀ setting ∈ mode.template.settings, setting.2 = .variable s.name →
      s = roleType ∨ s.oldKey = setting.1 := by
    cases mode <;> decide +kernel
  exact (hkeys s hs _ hwrites rfl).resolve_left hrole

theorem roleType_mem {mode : Mode} (hmem : roleType ∈ mode.settings) : mode = .proxy := by
  revert hmem
  cases mode <;> decide +kernel

theorem writes_roleType {key : Text} : Mode.proxy.template.Writes key roleType.name ↔ key = "Roletype".toList := by
  have hkeys : ∀ setting ∈ Mode.proxy.template.settings, setting.2 = .variable roleType.name →
      setting.1 = "Roletype".toList := by
    decide +kernel
  constructor
  · exact fun hwrites => hkeys _ hwrites rfl
  · rintro rfl
    exact List.mem_cons_self

theorem bare_stored {file : Option Text} {stored : Config} (hread : getConfigFromFile file = .ok stored) (key : Text) :
    Bare (str (stored.get? key)) := by
  cases hget : stored.get? key with
  | none => decide +kernel
  | some value => exact bare_of_read hread hget

section

variable {net : Netifaces} {files : Files} {mode : Mode} {form : Dict} {stored : Config}

/-- The values of a form are bare when those it submits are. -/
theorem bares_values (hread : getConfig files mode.name = .ok stored)
    (hsubmitted : ∀ s ∈ mode.settings, ∀ value, s.submitted form = some value → Bare value) :
    mode.template.Bares (mode.values form stored) := by
  intro key name hwrites
  obtain ⟨s, hs, rfl⟩ := Mode.exists_setting hwrites
  rw [Mode.values_name hs]
  cases hvalue : s.submitted form with
  | none =>
      rw [getConfig_name] at hread
      exact bare_stored hread s.oldKey
  | some value => exact hsubmitted s hs value hvalue

/-- The rest is kept when each setting is read back, or was under the key the update looks for it. -/
theorem keepsRest_iff_reads (hform : form.Selects mode) (hread : getConfig files mode.name = .ok stored) :
    KeepsRest net files mode form stored ↔
      (∀ s ∈ mode.settings, ∀ value, s.submitted form = some value → mode.template.Holds value)
        ∧ ∀ s ∈ mode.settings, s.submitted form = none → ∀ key, mode.template.Writes key s.name →
          stored.get? key = some (mode.template.reads (str (stored.get? s.oldKey))) := by
  have hupdate := updateConfig_mode net hform hread
  have hback : mode.template.Bares (mode.values form stored) →
      getConfig (files.setMode mode (mode.template.render (mode.values form stored))) mode.name
        = .ok (mode.template.reading (mode.values form stored)) := by
    intro hbares
    rw [getConfig_name, Files.mode_setMode]
    exact hbares.getConfigFromFile_render
  have hreading : ∀ s ∈ mode.settings, ∀ key, mode.template.Writes key s.name →
      (mode.template.reading (mode.values form stored)).get? key
        = some (mode.template.reads (str ((s.submitted form).or (stored.get? s.oldKey)))) := by
    intro s hs key hwrites
    rw [Template.get?_reading hwrites, Mode.values_name hs]
  constructor
  · rintro ⟨files', config, hfiles', hconfig, hkeeps⟩
    rw [hupdate, Except.ok.injEq] at hfiles'
    subst hfiles'
    have hbare : ∀ s ∈ mode.settings, ∀ value, s.submitted form = some value → Bare value := by
      intro s hs value hvalue
      obtain ⟨key, hwrites⟩ := Mode.exists_key hs
      have hget := hkeeps s hs key hwrites
      rw [hvalue, Option.some_or] at hget
      rw [getConfig_name] at hconfig
      exact bare_of_read hconfig hget
    rw [hback (bares_values hread hbare), Except.ok.injEq] at hconfig
    subst hconfig
    refine ⟨?_, ?_⟩
    · intro s hs value hvalue
      obtain ⟨key, hwrites⟩ := Mode.exists_key hs
      have hget := hkeeps s hs key hwrites
      rw [hreading s hs key hwrites, hvalue, Option.some_or, Option.some_or, Option.some.injEq] at hget
      exact ⟨hbare s hs value hvalue, hget⟩
    · intro s hs hnone key hwrites
      have hget := hkeeps s hs key hwrites
      rw [hreading s hs key hwrites, hnone, Option.none_or, Option.none_or] at hget
      exact hget.symm
  · rintro ⟨hsubmitted, hstored⟩
    have hbares := bares_values hread fun s hs value hvalue => (hsubmitted s hs value hvalue).1
    refine ⟨_, _, hupdate, hback hbares, ?_⟩
    intro s hs key hwrites
    rw [hreading s hs key hwrites]
    cases hvalue : s.submitted form with
    | none =>
        rw [Option.none_or, Option.none_or]
        exact (hstored s hs hvalue key hwrites).symm
    | some value =>
        rw [Option.some_or, Option.some_or]
        exact congrArg some (hsubmitted s hs value hvalue).2

/-- **A form keeps the rest of a complete file exactly when** its values and those that stay are read back as they
are written, and a role that stays stands under `RoleType` too. -/
theorem keepsRest_iff (hform : form.Selects mode) (hread : getConfig files mode.name = .ok stored)
    (hcomplete : mode.template.Complete stored) :
    KeepsRest net files mode form stored ↔ Keepable mode form stored := by
  rw [keepsRest_iff_reads hform hread]
  constructor
  · rintro ⟨hsubmitted, hstored⟩
    refine ⟨hsubmitted, ?_, ?_⟩
    · intro s hs hrole hnone key value hwrites hget
      have hkept := hstored s hs hnone key hwrites
      rw [Mode.oldKey_eq hs hwrites hrole, hget, Option.some.injEq] at hkept
      exact hkept.symm
    · rintro rfl hnone
      exact hstored roleType List.mem_cons_self hnone _ (writes_roleType.mpr rfl)
  · intro hkeepable
    refine ⟨hkeepable.submitted, ?_⟩
    intro s hs hnone key hwrites
    by_cases hrole : s = roleType
    · subst hrole
      obtain rfl := roleType_mem hs
      rw [writes_roleType.mp hwrites]
      exact hkeepable.role rfl hnone
    · obtain ⟨value, hget⟩ := hcomplete key s.name hwrites
      rw [Mode.oldKey_eq hs hwrites hrole, hget]
      exact congrArg some (hkeepable.others s hs hrole hnone key value hwrites hget).symm

end

/-! ### A form with a port -/

def noInterfaces : Netifaces := ⟨fun _ => none, nofun⟩

/-- A server on port 5555. -/
def serverValues (name : Text) : Text :=
  (List.lookup name [("roleType".toList, "Server".toList), ("port".toList, "5555".toList),
    ("bind".toList, "127.0.0.2".toList), ("capture".toList, "NetMap".toList), ("encryption".toList, "Enabled".toList),
    ("firewall".toList, "Disabled".toList), ("interface".toList, "eth1".toList)]).getD []

def serverFiles : Files := ⟨none, some (proxyConfigTemplate.render serverValues), none, none, none⟩

def serverConfig : Config := proxyConfigTemplate.reading serverValues

/-- Another port, and nothing else. -/
def portForm : Dict := [("operationMode".toList, some "Proxy".toList), ("targetPort".toList, some "5556".toList)]

theorem getConfig_serverFiles : getConfig serverFiles Mode.proxy.name = .ok serverConfig := by
  have hbares : proxyConfigTemplate.Bares serverValues := by
    have hbare : ∀ name ∈ proxyConfigTemplate.names, Bare (serverValues name) := by decide +kernel
    exact fun key name hwrites => hbare name (Template.mem_names.mpr ⟨key, hwrites⟩)
  exact hbares.getConfigFromFile_render

theorem complete_serverConfig : Mode.proxy.template.Complete serverConfig := fun _ _ hwrites =>
  ⟨_, Template.get?_reading hwrites⟩

theorem selects_portForm : portForm.Selects .proxy := ⟨"Proxy".toList, by decide +kernel, rfl⟩

theorem keepsRest_port : KeepsRest noInterfaces serverFiles .proxy portForm serverConfig
    ↔ Keepable .proxy portForm serverConfig :=
  keepsRest_iff selects_portForm getConfig_serverFiles complete_serverConfig

/-- The port is changed, and the role is lost. -/
theorem role_lost : portForm.Selects .proxy ∧ getConfig serverFiles Mode.proxy.name = .ok serverConfig
    ∧ Mode.proxy.template.Complete serverConfig ∧ ¬ KeepsRest noInterfaces serverFiles .proxy portForm serverConfig := by
  refine ⟨selects_portForm, getConfig_serverFiles, complete_serverConfig, ?_⟩
  intro hkeeps
  rw [keepsRest_iff_reads selects_portForm getConfig_serverFiles] at hkeeps
  have hrole := hkeeps.2 roleType List.mem_cons_self (by decide +kernel) "Roletype".toList (writes_roleType.mpr rfl)
  -- there is no `RoleType` in the file, so the new role reads `None`
  have hnone : serverConfig.get? roleType.oldKey = none := Template.get?_reading_of_notMem (by decide +kernel)
  have hserver : serverConfig.get? "Roletype".toList = some "Server".toList :=
    Template.get?_reading (writes_roleType.mpr rfl)
  rw [hnone, hserver] at hrole
  exact absurd hrole (by decide +kernel)

end Armore.Web.ConfigFiles
