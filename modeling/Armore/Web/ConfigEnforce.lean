import Armore.Web.ConfigSync

/-!
# Settings that are enforced

The settings page hands its form to `updateConfig` with `enforce`: the file of the mode and that of ARMORE are
written, the backend gets the values of both, and the services are restarted. What is enforced is in two files, the
one the page shows and the one the services are started from. Here is that they stay in step: through every form the
page posts, through every synchronization, and through the older pages that write the file of ARMORE alone.
-/

namespace Armore.Web.ConfigFiles

open Lib Lib.Text

/-! ### The update -/

/-- A function that raises leaves the files as they are by then. -/
def leaving {α : Type} (files : Files) (x : Except Exn α) : Except (Exn × Files) α := x.mapError fun e => (e, files)

/-- `updateConfig(config, "mode", enforce=True)`, up to the restart. The file of the network interfaces is written last;
all its variables are there by then. -/
def updateConfigEnforce (net : Netifaces) (files : Files) (config : Dict) : Except (Exn × Files) Files :=
  match pyOr (config.get "operationMode".toList) (config.get "Operation".toList) with
  | none => .error (.attributeError, files)
  | some mode => do
    let newConfig ← leaving files (updateMode files config mode)
    let files ← leaving files (writeConfig files newConfig .mode)
    let (newArmoreConfig, _) ← leaving files (updateArmoreConfig net files config)
    let files ← leaving files (writeConfig files newArmoreConfig .armore)
    leaving files (writeBackendConfig files (newArmoreConfig ++ newConfig))

/-- `synchConfigs`, with the files as they are when it raises. -/
def synchConfigsLeaving (net : Netifaces) (files : Files) : Except (Exn × Files) Files := do
  let armoreBackConf ← leaving files (getArmoreConfigBackend files)
  match armoreBackConf.get? "Operation".toList with
  | none => return files
  | some mode =>
    let mConf := synchMode armoreBackConf mode
    let aConf := synchArmore net armoreBackConf mode
    let files ← leaving files (updateConfig net files mConf .mode)
    let files ← leaving files (updateConfig net files aConf .armore)
    leaving files (updateConfig net files (aConf ++ mConf) .backend)

theorem leaving_ok {α : Type} {files : Files} {x : Except Exn α} {result : α} (h : x = .ok result) :
    leaving files x = .ok result := by
  rw [h]
  rfl

theorem synchConfigsLeaving_of_ok {net : Netifaces} {files files' : Files} {aConf : Option Dict}
    (h : synchConfigs net files = .ok (files', aConf)) : synchConfigsLeaving net files = .ok files' := by
  rw [synchConfigs] at h
  obtain ⟨armoreBackConf, hback, h⟩ := bind_ok.mp h
  refine bind_ok.mpr ⟨armoreBackConf, leaving_ok hback, ?_⟩
  cases hmode : armoreBackConf.get? "Operation".toList with
  | none =>
      rw [hmode] at h
      obtain ⟨rfl, -⟩ := Prod.mk.inj (Except.ok.inj h)
      rfl
  | some mode =>
      rw [hmode] at h
      obtain ⟨files₁, hfirst, h⟩ := bind_ok.mp h
      obtain ⟨files₂, hsecond, h⟩ := bind_ok.mp h
      obtain ⟨files₃, hthird, h⟩ := bind_ok.mp h
      obtain ⟨rfl, -⟩ := Prod.mk.inj (Except.ok.inj h)
      exact bind_ok.mpr ⟨files₁, leaving_ok hfirst, bind_ok.mpr ⟨files₂, leaving_ok hsecond, leaving_ok hthird⟩⟩

/-- The form is for the mode, by its own name. -/
def Dict.Names (form : Dict) (mode : Mode) : Prop :=
  pyOr (form.get "operationMode".toList) (form.get "Operation".toList) = some mode.name

theorem Dict.Names.selects {form : Dict} {mode : Mode} (h : form.Names mode) : form.Selects mode := ⟨mode.name, h, rfl⟩

/-- The text of each variable in the new backend. -/
def savedValues (net : Netifaces) (mode : Mode) (form : Dict) (oldMode oldArmore : Config) (name : Text) : Text :=
  str (Dict.get (newArmoreConfig net form oldArmore ++ updateModeConfig mode.settings mode.name form oldMode) name)

/-- The files after the update. -/
def saved (net : Netifaces) (mode : Mode) (files : Files) (form : Dict) (oldMode oldArmore : Config) : Files :=
  { files.setMode mode (mode.template.render (mode.values form oldMode)) with
    armore := some (armoreConfigTemplate.render (armoreValues net form oldArmore))
    backend := some (mode.backendTemplate.render (savedValues net mode form oldMode oldArmore)) }

theorem updateMode_name {files : Files} {mode : Mode} {oldConfig : Config}
    (hread : getConfig files mode.name = .ok oldConfig) (form : Dict) :
    updateMode files form mode.name = .ok (updateModeConfig mode.settings mode.name form oldConfig) := by
  rw [updateMode]
  cases mode with
  | proxy =>
      rw [if_pos (by decide), updateProxyConfig, show getConfig files "proxy".toList = .ok oldConfig from hread]
      rfl
  | passive =>
      rw [if_neg (by decide), if_pos (by decide), updatePassiveConfig,
        show getPassiveConfig files = .ok oldConfig from hread]
      rfl
  | transparent =>
      rw [if_neg (by decide), if_neg (by decide), if_pos (by decide), updateTransparentConfig,
        show getTransparentConfig files = .ok oldConfig from hread]
      rfl

theorem names_newArmoreConfig (net : Netifaces) (form : Dict) (oldConfig : Config) :
    (newArmoreConfig net form oldConfig).map Prod.fst
      = ["operationMode".toList, "managementIp".toList, "managementMask".toList, "managementInterface".toList,
        "internalInterface".toList, "internalIp".toList, "internalMask".toList, "externalInterface".toList,
        "externalIp".toList, "externalMask".toList] := rfl

theorem names_updateModeConfig (mode : Mode) (form : Dict) (oldConfig : Config) :
    (updateModeConfig mode.settings mode.name form oldConfig).map Prod.fst
      = mode.settings.map (·.name) ++ ["operationMode".toList] := by
  rw [updateModeConfig, List.map_append, newConfig, List.map_map]
  rfl

/-- A setting of the mode is none of ARMORE's. -/
theorem savedValues_mode (net : Netifaces) {mode : Mode} {s : Setting} (hs : s ∈ mode.settings) (form : Dict)
    (oldMode oldArmore : Config) :
    savedValues net mode form oldMode oldArmore s.name = mode.values form oldMode s.name := by
  have hnone : (newArmoreConfig net form oldArmore).lookup s.name = none := by
    rw [List.lookup_eq_none_iff]
    intro entry hentry
    have hname : entry.1 ∈ (newArmoreConfig net form oldArmore).map Prod.fst := List.mem_map_of_mem hentry
    have hfree : ∀ s ∈ mode.settings, ∀ name ∈ (newArmoreConfig net form oldArmore).map Prod.fst,
        s.name ≠ name := by
      rw [names_newArmoreConfig]
      cases mode <;> decide +kernel
    exact bne_iff_ne.mpr (hfree s hs _ hname)
  rw [savedValues, Dict.get, List.lookup_append, hnone, Option.none_or]
  rfl

theorem savedValues_armore (net : Netifaces) {mode : Mode} {s : Setting} (hs : s ∈ armoreSettings) (form : Dict)
    (oldMode oldArmore : Config) :
    savedValues net mode form oldMode oldArmore s.name = armoreValues net form oldArmore s.name := by
  have hsome : ((newArmoreConfig net form oldArmore).lookup s.name).isSome = true := by
    have hnames : ∀ s ∈ armoreSettings, s.name ∈ (newArmoreConfig net form oldArmore).map Prod.fst := by
      rw [names_newArmoreConfig]
      decide +kernel
    obtain ⟨entry, hentry, hname⟩ := List.mem_map.mp (hnames s hs)
    rw [List.lookup_isSome_iff]
    exact ⟨entry, hentry, beq_iff_eq.mpr hname.symm⟩
  obtain ⟨value, hvalue⟩ := Option.isSome_iff_exists.mp hsome
  rw [savedValues, armoreValues, Dict.get, Dict.get, List.lookup_append, hvalue, Option.some_or]

theorem pyOr_assoc (a b c : Option Text) : pyOr a (pyOr b c) = pyOr (pyOr a b) c := by
  by_cases ha : a.getD [] = []
  · rw [pyOr, if_pos ha, show pyOr a b = b from if_pos ha]
  · rw [pyOr, if_neg ha, show pyOr a b = a from if_neg ha, pyOr, if_neg ha]

theorem get_operationMode (net : Netifaces) {mode : Mode} {form : Dict} (hform : form.Names mode) (oldConfig : Config)
    (rest : Dict) : Dict.get (newArmoreConfig net form oldConfig ++ rest) "operationMode".toList = some mode.name := by
  have hnodup : (armoreSettings.map (·.name)).Nodup := by decide +kernel
  have hvalue : pyOr (form.get "operationMode".toList) (pyOr (form.get "Operation".toList)
      (oldConfig.get? "Operation".toList)) = some mode.name := by
    rw [pyOr_assoc, show pyOr _ _ = some mode.name from hform]
    cases mode <;> rfl
  rw [newArmoreConfig, List.append_assoc, List.append_assoc, get_newConfig hnodup List.mem_cons_self]
  exact hvalue

theorem savedValues_operationMode (net : Netifaces) {mode : Mode} {form : Dict} (hform : form.Names mode)
    (oldMode oldArmore : Config) : savedValues net mode form oldMode oldArmore "operationMode".toList = mode.name := by
  rw [savedValues, get_operationMode net hform]
  rfl

/-- **Settings that are enforced** go to three files. -/
theorem updateConfigEnforce_eq (net : Netifaces) {files : Files} {form : Dict} {mode : Mode} {oldMode oldArmore : Config}
    (hform : form.Names mode) (hmode : getConfig files mode.name = .ok oldMode)
    (harmore : getArmoreConfig files = .ok oldArmore) :
    updateConfigEnforce net files form = .ok (saved net mode files form oldMode oldArmore) := by
  have hnew := updateMode_name hmode form
  have hwriteMode : writeConfig files (updateModeConfig mode.settings mode.name form oldMode) .mode
      = .ok (files.setMode mode (mode.template.render (mode.values form oldMode))) := by
    have hupdate := updateConfig_mode net hform.selects hmode
    rw [updateConfig, show pyOr _ _ = some mode.name from hform] at hupdate
    simp only [hnew] at hupdate
    exact hupdate
  have hwriteArmore : ∀ files : Files, getArmoreConfig files = .ok oldArmore →
      writeConfig files (newArmoreConfig net form oldArmore) .armore
        = .ok { files with armore := some (armoreConfigTemplate.render (armoreValues net form oldArmore)) } := by
    intro files hread
    have hupdate := updateConfig_armore net form hread
    rw [updateConfig, updateArmoreConfig, hread] at hupdate
    exact hupdate
  have hcovers : ∀ key name, mode.backendTemplate.Writes key name →
      name ∈ (newArmoreConfig net form oldArmore
        ++ updateModeConfig mode.settings mode.name form oldMode).map Prod.fst := by
    have hnames : ∀ name ∈ mode.backendTemplate.names,
        name ∈ (newArmoreConfig net form oldArmore).map Prod.fst ++ (mode.settings.map (·.name)
          ++ ["operationMode".toList]) := by
      rw [names_newArmoreConfig]
      cases mode <;> decide +kernel
    intro key name hwrites
    rw [List.map_append, names_updateModeConfig]
    exact hnames name (Template.mem_names.mpr ⟨key, hwrites⟩)
  have hbackend : ∀ files : Files, writeBackendConfig files (newArmoreConfig net form oldArmore
      ++ updateModeConfig mode.settings mode.name form oldMode)
        = .ok { files with backend := some (mode.backendTemplate.render (savedValues net mode form oldMode oldArmore)) } := by
    intro files
    rw [writeBackendConfig, get_operationMode net hform, modeNamed_name]
    simp only [mode.backendTemplate.substitute_eq hcovers]
    rfl
  have hread : getArmoreConfig (files.setMode mode (mode.template.render (mode.values form oldMode))) = .ok oldArmore := by
    rw [getArmoreConfig, Files.armore_setMode]
    exact harmore
  rw [updateConfigEnforce, show pyOr _ _ = some mode.name from hform]
  simp only [hnew, leaving, updateArmoreConfig]
  refine bind_ok.mpr ⟨_, rfl, bind_ok.mpr ⟨_, congrArg _ hwriteMode, ?_⟩⟩
  simp only [hread]
  exact bind_ok.mpr ⟨_, rfl, bind_ok.mpr ⟨_, congrArg _ (hwriteArmore _ hread), congrArg _ (hbackend _)⟩⟩

/-! ### What fits -/

/-- What a value of a setting has to be: it can be read back, and so can the text that stands for no value. -/
structure Fitting (Fits : Setting → Text → Prop) : Prop where
  plain : ∀ s value, Fits s value → Plain value ∧ value ≠ []
  unknown : ∀ s, Fits s (str none)

/-- A value that an old file has for a setting fits. -/
def Old (Fits : Setting → Text → Prop) (settings : List Setting) (config : Config) : Prop :=
  ∀ s ∈ settings, ∀ value, config.get? s.oldKey = some value → Fits s value

/-- The files of the modes and of ARMORE can be read, and what an update takes from them fits. -/
structure Files.Fit (Fits : Setting → Text → Prop) (files : Files) : Prop where
  mode : ∀ mode : Mode, ∃ config, getConfig files mode.name = .ok config ∧ Old Fits mode.settings config
  armore : ∃ config, getArmoreConfig files = .ok config ∧ Old Fits armoreSettings config

/-- No value of the form breaks a line, and those for a setting fit. -/
structure Dict.Submits (Fits : Setting → Text → Prop) (form : Dict) : Prop where
  bare : ∀ name value, form.get name = some value → Bare value
  fits : ∀ (mode : Mode) s, s ∈ mode.settings ∨ s ∈ armoreSettings → ∀ value, s.submitted form = some value → Fits s value

/-- The file of the mode has these values for its settings. -/
def Files.Shows (files : Files) (mode : Mode) (values : Text → Text) : Prop :=
  ∃ config, getConfig files mode.name = .ok config
    ∧ ∀ s ∈ mode.settings, ∀ key, mode.template.Writes key s.name → config.get? key = some (values s.name)

/-- The backend is that of the mode, with the values its file shows. -/
structure Files.InStep (Fits : Setting → Text → Prop) (files : Files) (mode : Mode) (values : Text → Text) : Prop where
  backend : files.backend = some (mode.backendTemplate.render values)
  fits : ∀ s, s ∈ mode.settings ∨ s ∈ armoreSettings → Fits s (values s.name)
  operation : values "operationMode".toList = mode.name
  shows : files.Shows mode values

theorem Files.Shows.of_mode_eq {files files' : Files} {mode : Mode} (heq : files'.mode mode = files.mode mode)
    {values : Text → Text} (h : files.Shows mode values) : files'.Shows mode values := by
  obtain ⟨config, hread, hvalues⟩ := h
  refine ⟨config, ?_, hvalues⟩
  rw [getConfig_name, heq, ← getConfig_name, hread]

/-- Two readings of one file agree. -/
theorem Files.Shows.unique {files : Files} {mode : Mode} {values values' : Text → Text} (h : files.Shows mode values)
    (h' : files.Shows mode values') : ∀ s ∈ mode.settings, values s.name = values' s.name := by
  obtain ⟨config, hread, hvalues⟩ := h
  obtain ⟨config', hread', hvalues'⟩ := h'
  rw [hread, Except.ok.injEq] at hread'
  subst hread'
  intro s hs
  obtain ⟨key, hwrites⟩ := Mode.exists_key hs
  exact Option.some.inj ((hvalues s hs key hwrites).symm.trans (hvalues' s hs key hwrites))

section

variable {Fits : Setting → Text → Prop}

theorem Fitting.or (hfits : Fitting Fits) {s : Setting} {a b : Option Text} (ha : ∀ value, a = some value → Fits s value)
    (hb : ∀ value, b = some value → Fits s value) : Fits s (str (a.or b)) := by
  cases a with
  | some value => exact ha value rfl
  | none =>
      cases b with
      | some value => exact hb value rfl
      | none => exact hfits.unknown s

/-! ### A written file -/

theorem get?_oldKey {t : Template} {s : Setting}
    (hkeys : ∀ setting ∈ t.settings, setting.1 = s.oldKey → setting.2 = .variable s.name) {values : Text → Text}
    {value : Text} (hget : (t.reading values).get? s.oldKey = some value) : value = t.reads (values s.name) := by
  by_cases hmem : s.oldKey ∈ t.settings.map Prod.fst
  · obtain ⟨setting, hsetting, hkey⟩ := List.mem_map.mp hmem
    have hread : (t.reading values).get? setting.1 = some (t.reads (setting.2.text values)) :=
      Template.get?_reading_of_mem hsetting
    rw [hkey, hget, Option.some.injEq, hkeys setting hsetting hkey] at hread
    exact hread
  · rw [Template.get?_reading_of_notMem hmem] at hget
    exact nomatch hget

theorem Fitting.old_reading (hfits : Fitting Fits) {t : Template} {settings : List Setting}
    (hkeys : ∀ s ∈ settings, ∀ setting ∈ t.settings, setting.1 = s.oldKey → setting.2 = .variable s.name)
    {values : Text → Text} (hvalues : ∀ s ∈ settings, Fits s (values s.name)) : Old Fits settings (t.reading values) := by
  intro s hs value hget
  have hplain := (hfits.plain s _ (hvalues s hs)).1
  rw [get?_oldKey (hkeys s hs) hget, t.reads_plain hplain]
  exact hvalues s hs

theorem Mode.oldKeys (mode : Mode) : ∀ s ∈ mode.settings, ∀ setting ∈ mode.template.settings,
    setting.1 = s.oldKey → setting.2 = .variable s.name := by
  cases mode <;> decide +kernel

theorem oldKeys_armore : ∀ s ∈ armoreSettings, ∀ setting ∈ armoreConfigTemplate.settings,
    setting.1 = s.oldKey → setting.2 = .variable s.name := by
  decide +kernel

theorem Fitting.bares_mode (hfits : Fitting Fits) {mode : Mode} {values : Text → Text}
    (hvalues : ∀ s ∈ mode.settings, Fits s (values s.name)) : mode.template.Bares values := by
  intro key name hwrites
  obtain ⟨s, hs, rfl⟩ := Mode.exists_setting hwrites
  exact (hfits.plain s _ (hvalues s hs)).1.1

/-- The file of a mode is written and shows what was written. -/
theorem Fitting.shows (hfits : Fitting Fits) {files : Files} {mode : Mode} {values : Text → Text}
    (hvalues : ∀ s ∈ mode.settings, Fits s (values s.name))
    (hfile : files.mode mode = some (mode.template.render values)) :
    getConfig files mode.name = .ok (mode.template.reading values) ∧ files.Shows mode values := by
  have hread : getConfig files mode.name = .ok (mode.template.reading values) := by
    rw [getConfig_name, hfile]
    exact (hfits.bares_mode hvalues).getConfigFromFile_render
  refine ⟨hread, _, hread, ?_⟩
  intro s hs key hwrites
  rw [Template.get?_reading hwrites, mode.template.reads_plain (hfits.plain s _ (hvalues s hs)).1]

/-! ### The file of ARMORE -/

theorem get_of_submitted {s : Setting} {form : Dict} {value : Text} (h : s.submitted form = some value) :
    ∃ name, form.get name = some value := by
  obtain ⟨name, -, hget⟩ := List.exists_of_findSome?_eq_some h
  exact ⟨name, (Option.filter_eq_some_iff.mp hget).1⟩

theorem bare_get {config : Dict} (h : ∀ entry ∈ config, Bare (str entry.2)) (name : Text) :
    Bare (str (config.get name)) := by
  induction config with
  | nil => exact plain_none.1
  | cons entry config ih =>
      obtain ⟨hentry, hrest⟩ := List.forall_mem_cons.mp h
      rw [Dict.get, List.lookup_cons]
      cases name == entry.1 with
      | true => exact hentry
      | false => exact ih hrest

theorem bares_updatedArmore (net : Netifaces) {form : Dict} (hform : ∀ name value, form.get name = some value → Bare value)
    {files : Files} {oldConfig : Config} (hread : getArmoreConfig files = .ok oldConfig) :
    armoreConfigTemplate.Bares (armoreValues net form oldConfig) := by
  have hnew : ∀ s : Setting, Bare (str (s.newValue form oldConfig)) := by
    intro s
    rw [s.newValue_eq]
    cases hsubmitted : s.submitted form with
    | none => exact bare_stored hread s.oldKey
    | some value =>
        obtain ⟨name, hget⟩ := get_of_submitted hsubmitted
        exact hform name value hget
  have hor : ∀ (s : Setting) (part : Text × Text → Text), part ∈ [Prod.fst, Prod.snd] → ∀ interface,
      Bare (str (pyOr (s.newValue form oldConfig) (fromInt net part interface))) := by
    intro s part hpart interface
    rw [pyOr]
    split
    · exact (plain_fromInt net hpart interface).1
    · exact hnew s
  have haddresses : ∀ int ip mask : Setting, ∀ entry ∈ addresses net int ip mask form oldConfig, Bare (str entry.2) := by
    intro int ip mask entry hentry
    simp only [addresses, List.mem_cons, List.not_mem_nil, or_false] at hentry
    rcases hentry with rfl | rfl | rfl
    · exact hnew int
    · exact hor ip Prod.fst List.mem_cons_self _
    · exact hor mask Prod.snd (List.mem_cons_of_mem _ List.mem_cons_self) _
  have hentries : ∀ entry ∈ newArmoreConfig net form oldConfig, Bare (str entry.2) := by
    intro entry hentry
    rw [newArmoreConfig, List.mem_append, List.mem_append] at hentry
    rcases hentry with (hsetting | hinternal) | hexternal
    · obtain ⟨s, -, rfl⟩ := List.mem_map.mp hsetting
      exact hnew s
    · exact haddresses _ _ _ entry hinternal
    · exact haddresses _ _ _ entry hexternal
  exact fun key name _ => bare_get hentries name

theorem Fitting.armoreValues (hfits : Fitting Fits) (net : Netifaces) {form : Dict} (hform : form.Submits Fits)
    {oldConfig : Config} (hold : Old Fits armoreSettings oldConfig) :
    ∀ s ∈ armoreSettings, Fits s (armoreValues net form oldConfig s.name) := by
  intro s hs
  rw [armoreValues_name net hs]
  exact hfits.or (hform.fits .proxy s (.inr hs)) (hold s hs)

/-- **The pages that write the file of ARMORE alone** leave what is enforced. -/
theorem Files.Fit.updateConfig_armore (hfits : Fitting Fits) (net : Netifaces) {files : Files} (hfit : files.Fit Fits)
    {form : Dict} (hform : form.Submits Fits) :
    ∃ files', updateConfig net files form .armore = .ok files' ∧ files'.Fit Fits
      ∧ files'.backend = files.backend ∧ ∀ mode, files'.mode mode = files.mode mode := by
  obtain ⟨oldConfig, hread, hold⟩ := hfit.armore
  have hmodes : ∀ content (mode : Mode), Files.mode { files with armore := content } mode = files.mode mode := by
    intro content mode
    cases mode <;> rfl
  refine ⟨_, ConfigFiles.updateConfig_armore net form hread, ⟨?_, ?_⟩, rfl, hmodes _⟩
  · intro mode
    rw [getConfig_name, hmodes, ← getConfig_name]
    exact hfit.mode mode
  · exact ⟨_, (bares_updatedArmore net hform.bare hread).getConfigFromFile_render,
      hfits.old_reading oldKeys_armore (hfits.armoreValues net hform hold)⟩

/-! ### The settings page -/

theorem mode_saved (net : Netifaces) (mode other : Mode) (files : Files) (form : Dict) (oldMode oldArmore : Config) :
    (saved net mode files form oldMode oldArmore).mode other
      = if other = mode then some (mode.template.render (mode.values form oldMode)) else files.mode other := by
  cases mode <;> cases other <;> rfl

/-- **After a form is enforced the files are in step**, in the mode of the form. The other modes keep theirs. -/
theorem Files.Fit.updateConfigEnforce (hfits : Fitting Fits) (net : Netifaces) {files : Files} (hfit : files.Fit Fits)
    {form : Dict} (hform : form.Submits Fits) {mode : Mode} (hmode : form.Names mode) :
    ∃ files' values, updateConfigEnforce net files form = .ok files' ∧ files'.Fit Fits
      ∧ files'.InStep Fits mode values ∧ ∀ other, other ≠ mode → files'.mode other = files.mode other := by
  obtain ⟨oldMode, hreadMode, holdMode⟩ := hfit.mode mode
  obtain ⟨oldArmore, hreadArmore, holdArmore⟩ := hfit.armore
  have hvalues : ∀ s ∈ mode.settings, Fits s (mode.values form oldMode s.name) := by
    intro s hs
    rw [Mode.values_name hs]
    exact hfits.or (hform.fits mode s (.inl hs)) (holdMode s hs)
  have hfile : (saved net mode files form oldMode oldArmore).mode mode
      = some (mode.template.render (mode.values form oldMode)) := by
    rw [mode_saved, if_pos rfl]
  obtain ⟨hread, hshows⟩ := hfits.shows hvalues hfile
  refine ⟨_, savedValues net mode form oldMode oldArmore, updateConfigEnforce_eq net hmode hreadMode hreadArmore,
    ⟨?_, ?_⟩, ⟨rfl, ?_, savedValues_operationMode net hmode oldMode oldArmore, ?_⟩, ?_⟩
  · intro other
    by_cases hother : other = mode
    · subst hother
      exact ⟨_, hread, hfits.old_reading other.oldKeys hvalues⟩
    · rw [getConfig_name, mode_saved, if_neg hother, ← getConfig_name]
      exact hfit.mode other
  · exact ⟨_, (bares_updatedArmore net hform.bare hreadArmore).getConfigFromFile_render,
      hfits.old_reading oldKeys_armore (hfits.armoreValues net hform holdArmore)⟩
  · rintro s (hs | hs)
    · rw [savedValues_mode net hs]
      exact hvalues s hs
    · rw [savedValues_armore net hs]
      exact hfits.armoreValues net hform holdArmore s hs
  · obtain ⟨config, hconfig, hget⟩ := hshows
    refine ⟨config, hconfig, ?_⟩
    intro s hs key hwrites
    rw [savedValues_mode net hs]
    exact hget s hs key hwrites
  · intro other hother
    rw [mode_saved, if_neg hother]

/-! ### A synchronization -/

theorem Mode.mem_backendNames (mode : Mode) : ∀ name ∈ mode.backendTemplate.names,
    name ∈ mode.settings.map (·.name) ∨ name ∈ armoreSettings.map (·.name) := by
  cases mode <;> decide +kernel

theorem Mode.writes_operation (mode : Mode) : mode.backendTemplate.Writes "Operation".toList "operationMode".toList := by
  cases mode <;> decide +kernel

namespace Files.InStep

variable {files : Files} {mode : Mode} {values : Text → Text}

theorem plain (hfits : Fitting Fits) (h : files.InStep Fits mode values) {bkey name : Text}
    (hwrites : mode.backendTemplate.Writes bkey name) : Plain (values name) ∧ values name ≠ [] := by
  rcases mode.mem_backendNames name (Template.mem_names.mpr ⟨bkey, hwrites⟩) with hsetting | hsetting
  · obtain ⟨s, hs, rfl⟩ := List.mem_map.mp hsetting
    exact hfits.plain s _ (h.fits s (.inl hs))
  · obtain ⟨s, hs, rfl⟩ := List.mem_map.mp hsetting
    exact hfits.plain s _ (h.fits s (.inr hs))

theorem getArmoreConfigBackend (hfits : Fitting Fits) (h : files.InStep Fits mode values) :
    getArmoreConfigBackend files = .ok (mode.backendTemplate.reading values) := by
  have hbares : mode.backendTemplate.Bares values := fun _ _ hwrites => (h.plain hfits hwrites).1.1
  rw [ConfigFiles.getArmoreConfigBackend, h.backend]
  exact hbares.getConfigFromFile_render

theorem get?_backend (hfits : Fitting Fits) (h : files.InStep Fits mode values) {bkey name : Text}
    (hwrites : mode.backendTemplate.Writes bkey name) :
    (mode.backendTemplate.reading values).get? bkey = some (values name) := by
  rw [Template.get?_reading hwrites, mode.backendTemplate.reads_plain (h.plain hfits hwrites).1]

/-- **A synchronization leaves files that are in step as they are**, but for the file of ARMORE. -/
theorem synchConfigs (hfits : Fitting Fits) (net : Netifaces) (hfit : files.Fit Fits) (h : files.InStep Fits mode values) :
    ∃ files' aConf, synchConfigs net files = .ok (files', aConf) ∧ files'.Fit Fits ∧ files'.InStep Fits mode values
      ∧ files'.backend = files.backend ∧ ∀ other, other ≠ mode → files'.mode other = files.mode other := by
  obtain ⟨oldMode, hreadMode, holdMode⟩ := hfit.mode mode
  obtain ⟨oldArmore, hreadArmore, holdArmore⟩ := hfit.armore
  let c : Configs := ⟨mode.backendTemplate.reading values, oldMode, oldArmore⟩
  have hreads : files.Reads mode c := ⟨h.getArmoreConfigBackend hfits, hreadMode, hreadArmore⟩
  have hsound : c.Sound mode := by
    refine ⟨?_, ?_⟩
    · rw [h.get?_backend hfits mode.writes_operation, h.operation]
    · intro bkey name value hwrites hget
      rw [h.get?_backend hfits hwrites, Option.some.injEq] at hget
      exact hget ▸ h.plain hfits hwrites
  have hmodeValues : ∀ s ∈ mode.settings, c.modeValues mode s.name = values s.name := by
    intro s hs
    obtain ⟨bkey, hwrites⟩ := Mode.exists_backendKey (.inl hs)
    rw [hsound.modeValues_name hs hwrites, h.get?_backend hfits hwrites]
    rfl
  have hbackend : mode.backendTemplate.render (c.backendValues net mode) = mode.backendTemplate.render values := by
    apply Template.render_congr
    intro bkey name hwrites
    rw [hsound.backendValues_name hwrites, h.get?_backend hfits hwrites]
    rfl
  have hmodes : ∀ other, (c.write net mode files).mode other
      = if other = mode then some (mode.template.render (c.modeValues mode)) else files.mode other := by
    intro other
    cases mode <;> cases other <;> rfl
  have hmodeFits : ∀ s ∈ mode.settings, Fits s (c.modeValues mode s.name) := by
    intro s hs
    rw [hmodeValues s hs]
    exact h.fits s (.inl hs)
  have harmoreFits : ∀ s ∈ armoreSettings, Fits s (c.armoreValues net mode s.name) := by
    intro s hs
    obtain ⟨bkey, hwrites⟩ : ∃ bkey, mode.backendTemplate.Writes bkey s.name := Mode.exists_backendKey (.inr hs)
    rw [hsound.armoreValues_name hs hwrites, h.get?_backend hfits hwrites]
    exact h.fits s (.inr hs)
  obtain ⟨hread, hshows⟩ := hfits.shows hmodeFits (if_pos rfl ▸ hmodes mode)
  refine ⟨_, _, synchConfigs_eq net hreads hsound.operation, ⟨?_, ?_⟩, ⟨congrArg some hbackend, h.fits, h.operation, ?_⟩,
    (congrArg some hbackend).trans h.backend.symm, ?_⟩
  · intro other
    by_cases hother : other = mode
    · subst hother
      exact ⟨_, hread, hfits.old_reading other.oldKeys hmodeFits⟩
    · rw [getConfig_name, hmodes, if_neg hother, ← getConfig_name]
      exact hfit.mode other
  · exact ⟨_, (hreads.write net hsound).armore, hfits.old_reading oldKeys_armore harmoreFits⟩
  · obtain ⟨config, hconfig, hget⟩ := hshows
    refine ⟨config, hconfig, ?_⟩
    intro s hs key hwrites
    rw [hget s hs key hwrites, hmodeValues s hs]
  · intro other hother
    rw [hmodes, if_neg hother]

end Files.InStep

end

end Armore.Web.ConfigFiles
