import Armore.Web.ConfigSync

/-!
# Synchronizing twice

A setting that the file of the mode or of ARMORE shares with the backend is a variable of both templates. After a
synchronization both files have what the backend had. What the backend had not stays in the one file, and the
backend reads `None`, which the next synchronization takes over. So a second run changes nothing only when each
shared setting is in the backend, or nothing is known of it in the other file either.
-/

namespace Armore.Web.ConfigFiles

open Lib Lib.Text

/-! ### What a synchronization promises -/

/-- There is a value, and it is not the text `None`. -/
def Known (value : Text) : Prop := value ≠ [] ∧ value ≠ "None".toList

/-- A shared setting that the backend has is the same in both files. One that only the other file knows stays
there, and is not `None` in the backend. -/
def Agree (t b : Template) (back back' old new : Config) : Prop :=
  ∀ key bkey name, t.Writes key name → b.Writes bkey name →
    match back.get? bkey with
    | some value => back'.get? bkey = some value ∧ new.get? key = some value
    | none => ∀ value, old.get? key = some value → Known value →
        new.get? key = some value ∧ back'.get? bkey ≠ some "None".toList

structure Synchronized (mode : Mode) (c c' : Configs) : Prop where
  backend : ∀ bkey value, c.backend.get? bkey = some value → Known value → c'.backend.get? bkey = some value
  modeFile : Agree mode.template mode.backendTemplate c.backend c'.backend c.mode c'.mode
  armoreFile : Agree armoreConfigTemplate mode.backendTemplate c.backend c'.backend c.armore c'.armore
  own : ∀ key name, armoreConfigTemplate.Writes key name → name ∉ mode.backendTemplate.names →
    ∀ value, c.armore.get? key = some value → Known value → c'.armore.get? key = some value

/-- One run synchronizes the files and a second run changes none of them. -/
def Converges (net : Netifaces) (files : Files) (mode : Mode) (c : Configs) : Prop :=
  ∃ files' c' aConf aConf', synchConfigs net files = .ok (files', aConf) ∧ files'.Reads mode c'
    ∧ Synchronized mode c c' ∧ synchConfigs net files' = .ok (files', aConf')

/-! ### When it keeps the promise -/

/-- What the backend has not is unknown: `None` is what the update finds, and no other value is there. -/
def Forgettable (t b : Template) (settings : List Setting) (back old : Config) : Prop :=
  ∀ s ∈ settings, ∀ key bkey, t.Writes key s.name → b.Writes bkey s.name → back.get? bkey = none →
    str (old.get? s.oldKey) = "None".toList ∧ ∀ value, old.get? key = some value → ¬ Known value

/-- The backend has settings of its template only, what it has not is unknown, and what ARMORE has of its own has no
space at its ends. -/
structure Settled (mode : Mode) (c : Configs) : Prop where
  backend : ∀ bkey value, c.backend.get? bkey = some value → Known value →
    (∃ name, mode.backendTemplate.Writes bkey name) ∨ (bkey, .constant value) ∈ mode.backendTemplate.settings
  modeFile : Forgettable mode.template mode.backendTemplate mode.settings c.backend c.mode
  armoreFile : Forgettable armoreConfigTemplate mode.backendTemplate armoreSettings c.backend c.armore
  own : ∀ key name, armoreConfigTemplate.Writes key name → name ∉ mode.backendTemplate.names →
    ∀ value, c.armore.get? key = some value → strip whitespace value = value

/-! ### Shared settings -/

/-- How a file is written that shares settings with the backend. -/
structure Shares (t b : Template) (settings : List Setting) (back back' old : Config) (values : Text → Text) : Prop where
  covers : ∀ key bkey name, t.Writes key name → b.Writes bkey name → ∃ s ∈ settings, s.name = name
  plain : ∀ bkey name, b.Writes bkey name → Plain (str (back.get? bkey))
  backend : ∀ bkey name, b.Writes bkey name → back'.get? bkey = some (str (back.get? bkey))
  values : ∀ s ∈ settings, ∀ bkey, b.Writes bkey s.name →
    values s.name = str ((back.get? bkey).or (old.get? s.oldKey))

section

variable {t b : Template} {settings : List Setting} {back back' old : Config} {values : Text → Text}

theorem Shares.agree_iff (h : Shares t b settings back back' old values) :
    Agree t b back back' old (t.reading values) ↔
      ∀ s ∈ settings, ∀ key bkey, t.Writes key s.name → b.Writes bkey s.name → back.get? bkey = none →
        ∀ value, old.get? key = some value → ¬ Known value := by
  constructor
  · intro hagree s _ key bkey hwrites hbackend hnone value hold hknown
    have hkept := hagree key bkey s.name hwrites hbackend
    rw [hnone] at hkept
    apply (hkept value hold hknown).2
    rw [h.backend bkey s.name hbackend, hnone]
    rfl
  · intro hunknown key bkey name hwrites hbackend
    obtain ⟨s, hs, rfl⟩ := h.covers key bkey name hwrites hbackend
    cases hget : back.get? bkey with
    | none =>
        intro value hold hknown
        exact absurd hknown (hunknown s hs key bkey hwrites hbackend hget value hold)
    | some value =>
        have hplain := h.plain bkey s.name hbackend
        rw [hget] at hplain
        refine ⟨?_, ?_⟩
        · rw [h.backend bkey s.name hbackend, hget]
          rfl
        · rw [Template.get?_reading hwrites, h.values s hs bkey hbackend, hget, Option.some_or]
          exact congrArg some (t.reads_plain hplain)

/-- The values of a second run are those of the backend, the text `None` among them. -/
theorem Shares.eq_iff (h : Shares t b settings back back' old values) {back'' old' : Config} {values' : Text → Text}
    (h' : Shares t b settings back' back'' old' values') :
    (∀ s ∈ settings, ∀ bkey, b.Writes bkey s.name → values' s.name = values s.name) ↔
      ∀ s ∈ settings, ∀ bkey, b.Writes bkey s.name → back.get? bkey = none →
        str (old.get? s.oldKey) = "None".toList := by
  have hnext : ∀ s ∈ settings, ∀ bkey, b.Writes bkey s.name → values' s.name = str (back.get? bkey) := by
    intro s hs bkey hbackend
    rw [h'.values s hs bkey hbackend, h.backend bkey s.name hbackend, Option.some_or]
    rfl
  constructor
  · intro heq s hs bkey hbackend hnone
    have hvalue := heq s hs bkey hbackend
    rw [hnext s hs bkey hbackend, h.values s hs bkey hbackend, hnone, Option.none_or] at hvalue
    exact hvalue.symm
  · intro hnone s hs bkey hbackend
    rw [hnext s hs bkey hbackend, h.values s hs bkey hbackend]
    cases hget : back.get? bkey with
    | none =>
        rw [Option.none_or, hnone s hs bkey hbackend hget]
        rfl
    | some value => rfl

end

/-! ### The three files -/

section

variable {net : Netifaces} {files : Files} {mode : Mode} {c : Configs}

variable (net) in
theorem shares_mode (h : c.Sound mode) : Shares mode.template mode.backendTemplate mode.settings c.backend
    (c.next net mode).backend c.mode (c.modeValues mode) where
  covers _ _ _ hwrites _ := Mode.exists_setting hwrites
  plain _ _ hbackend := h.plain_str hbackend
  backend _ _ hbackend := h.get?_next_backend hbackend
  values _ hs _ hbackend := h.modeValues_name hs hbackend

theorem mem_armoreSettings {key bkey name : Text} (hwrites : armoreConfigTemplate.Writes key name)
    (hbackend : mode.backendTemplate.Writes bkey name) : ∃ s ∈ armoreSettings, s.name = name := by
  have hnames : ∀ name ∈ armoreConfigTemplate.names, name ∈ mode.backendTemplate.names →
      name ∈ armoreSettings.map (·.name) := by
    cases mode <;> decide +kernel
  exact List.mem_map.mp
    (hnames name (Template.mem_names.mpr ⟨key, hwrites⟩) (Template.mem_names.mpr ⟨bkey, hbackend⟩))

variable (net) in
theorem shares_armore (h : c.Sound mode) : Shares armoreConfigTemplate mode.backendTemplate armoreSettings c.backend
    (c.next net mode).backend c.armore (c.armoreValues net mode) where
  covers _ _ _ hwrites hbackend := mem_armoreSettings hwrites hbackend
  plain _ _ hbackend := h.plain_str hbackend
  backend _ _ hbackend := h.get?_next_backend hbackend
  values _ hs _ hbackend := h.armoreValues_name hs hbackend

/-- The variables of ARMORE that are not shared. -/
theorem notMem_armoreSettings {name : Text} (hown : name ∉ mode.backendTemplate.names) :
    name ∉ armoreSettings.map (·.name) := by
  intro hmem
  obtain ⟨s, hs, rfl⟩ := List.mem_map.mp hmem
  exact hown (Template.mem_names.mpr (Mode.exists_backendKey (.inr hs)))

variable (net) in
/-- A value of its own that is not empty stays. -/
theorem armoreValues_own {key name : Text} (hwrites : armoreConfigTemplate.Writes key name)
    (hown : name ∉ mode.backendTemplate.names) {value : Text} (hget : c.armore.get? key = some value)
    (hne : value ≠ []) : c.armoreValues net mode name = value := by
  rw [Configs.armoreValues]
  rcases keepsOwn_or_keepsAddress net hwrites (notMem_armoreSettings hown) with hkeeps | ⟨int, -, part, -, haddress⟩
  · rw [hkeeps mode, hget]
    rfl
  · rw [haddress mode, hget, pyOr, Option.getD_some, if_neg hne]
    rfl

variable (net mode c) in
theorem get?_next_armore {key name : Text} (hwrites : armoreConfigTemplate.Writes key name) :
    (c.next net mode).armore.get? key = some (strip whitespace (c.armoreValues net mode name)) :=
  Template.get?_reading hwrites

/-- The known values of its own stay exactly when all of them are stripped. -/
theorem own_iff {key name : Text} (hwrites : armoreConfigTemplate.Writes key name)
    (hown : name ∉ mode.backendTemplate.names) {value : Text} (hget : c.armore.get? key = some value) :
    (Known value → (c.next net mode).armore.get? key = some value) ↔ strip whitespace value = value := by
  constructor
  · intro hkept
    by_cases hknown : Known value
    · have hnext := hkept hknown
      rw [get?_next_armore net mode c hwrites, armoreValues_own net hwrites hown hget hknown.1, Option.some.injEq] at hnext
      exact hnext
    · rw [Known, not_and_or, not_not, not_not] at hknown
      rcases hknown with rfl | rfl
      · rfl
      · decide +kernel
  · intro hstripped hknown
    rw [get?_next_armore net mode c hwrites, armoreValues_own net hwrites hown hget hknown.1, hstripped]

/-- An interface of its own that was stripped is read as it was. -/
theorem get?_next_int (hcomplete : armoreConfigTemplate.Complete c.armore)
    (hstripped : ∀ key name, armoreConfigTemplate.Writes key name → name ∉ mode.backendTemplate.names →
      ∀ value, c.armore.get? key = some value → strip whitespace value = value)
    {int : Setting} (hint : int ∈ [internalInt, externalInt]) :
    (c.next net mode).armore.get? int.oldKey = c.armore.get? int.oldKey := by
  obtain ⟨hwrites, hkeeps⟩ := keepsOwn_int net hint
  have hown : ∀ int ∈ [internalInt, externalInt], int.name ∉ mode.backendTemplate.names := by
    cases mode <;> decide +kernel
  obtain ⟨interface, hget⟩ := hcomplete int.oldKey int.name hwrites
  have hvalue : c.armoreValues net mode int.name = interface := by
    rw [Configs.armoreValues, hkeeps mode, hget]
    rfl
  rw [get?_next_armore net mode c hwrites, hvalue, hstripped int.oldKey int.name hwrites (hown int hint) interface hget, hget]

/-- A second run leaves the values of its own that were stripped. -/
theorem armoreValues_next (hcomplete : armoreConfigTemplate.Complete c.armore)
    (hstripped : ∀ key name, armoreConfigTemplate.Writes key name → name ∉ mode.backendTemplate.names →
      ∀ value, c.armore.get? key = some value → strip whitespace value = value)
    {key name : Text} (hwrites : armoreConfigTemplate.Writes key name) (hown : name ∉ mode.backendTemplate.names) :
    (c.next net mode).armoreValues net mode name = c.armoreValues net mode name := by
  obtain ⟨value, hget⟩ := hcomplete key name hwrites
  have hvalue := hstripped key name hwrites hown value hget
  by_cases hne : value = []
  · -- only an address is made anew, and its interface is as it was
    subst hne
    have hnext := get?_next_armore net mode c hwrites
    rw [Configs.armoreValues]
    rcases keepsOwn_or_keepsAddress net hwrites (notMem_armoreSettings hown) with
      hkeeps | ⟨int, hint, part, hpart, haddress⟩
    · rw [Configs.armoreValues, hkeeps mode, hget] at hnext
      rw [hkeeps mode, Configs.armoreValues, hkeeps mode, hnext, hget]
      rfl
    · have hplain := plain_fromInt net hpart (c.armore.get? int.oldKey)
      have hfirst : c.armoreValues net mode name = str (fromInt net part (c.armore.get? int.oldKey)) := by
        rw [Configs.armoreValues, haddress mode, hget]
        rfl
      rw [hfirst, hplain.2] at hnext
      rw [haddress mode, hnext, get?_next_int hcomplete hstripped hint, hfirst, pyOr, Option.getD_some]
      split
      · rfl
      · rfl
  · have hsame := armoreValues_own net hwrites hown hget hne
    have hnext := get?_next_armore net mode c hwrites
    rw [hsame, hvalue] at hnext
    rw [armoreValues_own net hwrites hown hnext hne, hsame]

/-- What the backend has stays when its template has it. -/
theorem backend_iff (h : c.Sound mode) {bkey value : Text} (hget : c.backend.get? bkey = some value) :
    (c.next net mode).backend.get? bkey = some value ↔ (∃ name, mode.backendTemplate.Writes bkey name)
      ∨ (bkey, .constant value) ∈ mode.backendTemplate.settings := by
  have hconstant : ∀ text, (bkey, .constant text) ∈ mode.backendTemplate.settings →
      (c.next net mode).backend.get? bkey = some text := by
    intro text hmem
    rw [Configs.next, Template.get?_reading_of_mem hmem]
    exact congrArg some (Template.reads_plain _ (mode.backendTemplate.constants_plain _ hmem))
  constructor
  · intro hnext
    by_cases hmem : bkey ∈ mode.backendTemplate.settings.map Prod.fst
    · obtain ⟨⟨_, source⟩, hsetting, rfl⟩ := List.mem_map.mp hmem
      cases source with
      | constant text =>
          rw [hconstant text hsetting, Option.some.injEq] at hnext
          exact .inr (hnext ▸ hsetting)
      | «variable» name => exact .inl ⟨name, hsetting⟩
    · rw [Configs.next, Template.get?_reading_of_notMem hmem] at hnext
      cases hnext
  · rintro (⟨name, hwrites⟩ | hmem)
    · rw [h.get?_next_backend hwrites, hget]
      rfl
    · exact hconstant value hmem

/-- The files are written again as they are. -/
theorem write_write_iff {c' : Configs} : c'.write net mode (c.write net mode files) = c.write net mode files ↔
    mode.template.render (c'.modeValues mode) = mode.template.render (c.modeValues mode)
      ∧ armoreConfigTemplate.render (c'.armoreValues net mode) = armoreConfigTemplate.render (c.armoreValues net mode)
      ∧ mode.backendTemplate.render (c'.backendValues net mode)
        = mode.backendTemplate.render (c.backendValues net mode) := by
  have hmode : ∀ (c : Configs) files, (c.write net mode files).mode mode
      = some (mode.template.render (c.modeValues mode)) := by
    intro c files
    cases mode <;> rfl
  constructor
  · intro heq
    refine ⟨?_, Option.some.inj (congrArg Files.armore heq), Option.some.inj (congrArg Files.backend heq)⟩
    have hfile := congrArg (Files.mode · mode) heq
    simp only [hmode, Option.some.injEq] at hfile
    exact hfile
  · rintro ⟨hfile, harmore, hbackend⟩
    rw [Configs.write, hfile, harmore, hbackend]
    cases mode <;> rfl

/-- A second run of the mode leaves its file when what the backend has not reads `None`. -/
theorem render_next_mode_iff (hreads : files.Reads mode c) (hsound : c.Sound mode) :
    mode.template.render ((c.next net mode).modeValues mode) = mode.template.render (c.modeValues mode) ↔
      ∀ s ∈ mode.settings, ∀ bkey, mode.backendTemplate.Writes bkey s.name → c.backend.get? bkey = none →
        str (c.mode.get? s.oldKey) = "None".toList := by
  have hshares := shares_mode net hsound
  rw [← hshares.eq_iff (shares_mode net hsound.next)]
  constructor
  · intro heq s hs bkey _
    obtain ⟨key, hwrites⟩ := Mode.exists_key hs
    exact (bares_modeValues (hreads.write net hsound) hsound.next).of_render_eq (bares_modeValues hreads hsound) heq hwrites
  · intro hvalues
    apply Template.render_congr
    intro key name hwrites
    obtain ⟨s, hs, rfl⟩ := Mode.exists_setting hwrites
    obtain ⟨bkey, hbackend⟩ : ∃ bkey, mode.backendTemplate.Writes bkey s.name := Mode.exists_backendKey (.inl hs)
    exact hvalues s hs bkey hbackend

theorem render_next_backend (hsound : c.Sound mode) :
    mode.backendTemplate.render ((c.next net mode).backendValues net mode)
      = mode.backendTemplate.render (c.backendValues net mode) := by
  apply Template.render_congr
  intro bkey name hwrites
  rw [hsound.next.backendValues_name hwrites, hsound.get?_next_backend hwrites, hsound.backendValues_name hwrites]
  rfl

theorem exists_writes_armoreSettings {s : Setting} (hs : s ∈ armoreSettings) :
    ∃ key, armoreConfigTemplate.Writes key s.name := by
  have hkeys : ∀ s ∈ armoreSettings, s.name ∈ armoreConfigTemplate.names := by decide +kernel
  exact Template.mem_names.mp (hkeys s hs)

theorem armore_of_render_next (hreads : files.Reads mode c) (hsound : c.Sound mode)
    (heq : armoreConfigTemplate.render ((c.next net mode).armoreValues net mode)
      = armoreConfigTemplate.render (c.armoreValues net mode)) :
    ∀ s ∈ armoreSettings, ∀ bkey, mode.backendTemplate.Writes bkey s.name → c.backend.get? bkey = none →
      str (c.armore.get? s.oldKey) = "None".toList := by
  rw [← (shares_armore net hsound).eq_iff (shares_armore net hsound.next)]
  intro s hs bkey _
  obtain ⟨key, hwrites⟩ := exists_writes_armoreSettings hs
  exact (bares_armoreValues (hreads.write net hsound) hsound.next).of_render_eq (bares_armoreValues hreads hsound) heq hwrites

theorem render_next_armore (hsound : c.Sound mode) (hcomplete : armoreConfigTemplate.Complete c.armore)
    (hsettled : Settled mode c) :
    armoreConfigTemplate.render ((c.next net mode).armoreValues net mode)
      = armoreConfigTemplate.render (c.armoreValues net mode) := by
  have hshared := ((shares_armore net hsound).eq_iff (shares_armore net hsound.next)).mpr
    fun s hs bkey hbackend hnone => by
      obtain ⟨key, hwrites⟩ := exists_writes_armoreSettings hs
      exact (hsettled.armoreFile s hs key bkey hwrites hbackend hnone).1
  apply Template.render_congr
  intro key name hwrites
  by_cases hbackend : name ∈ mode.backendTemplate.names
  · obtain ⟨bkey, hbackend⟩ := Template.mem_names.mp hbackend
    obtain ⟨s, hs, rfl⟩ := mem_armoreSettings hwrites hbackend
    exact hshared s hs bkey hbackend
  · exact armoreValues_next hcomplete hsettled.own hwrites hbackend

theorem sound_of_backend (hreads : files.Reads mode c) (hmode : c.backend.get? "Operation".toList = some mode.name)
    (hquotes : ∀ content, files.backend = some content → '"' ∉ content)
    (hvalues : ∀ bkey name, mode.backendTemplate.Writes bkey name → c.backend.get? bkey ≠ some []) : c.Sound mode where
  operation := hmode
  plain bkey name value hwrites hget := by
    have hread := hreads.backend
    rw [getArmoreConfigBackend] at hread
    refine ⟨?_, fun hnil => hvalues bkey name hwrites (hnil ▸ hget)⟩
    cases hfile : files.backend with
    | none =>
        rw [hfile, getConfigFromFile, Except.ok.injEq] at hread
        rw [← hread, Table.get?_empty] at hget
        cases hget
    | some content =>
        rw [hfile] at hread
        exact plain_of_read (hquotes content hfile) hread hget

theorem Files.Reads.unique {c' : Configs} (h : files.Reads mode c) (h' : files.Reads mode c') : c = c' := by
  apply Configs.ext
  · exact Except.ok.inj (h.backend.symm.trans h'.backend)
  · exact Except.ok.inj (h.mode.symm.trans h'.mode)
  · exact Except.ok.inj (h.armore.symm.trans h'.armore)

/-- Only what is written counts, since the files are read back. -/
theorem converges_iff_next (hreads : files.Reads mode c) (hsound : c.Sound mode) : Converges net files mode c ↔
    Synchronized mode c (c.next net mode)
      ∧ (c.next net mode).write net mode (c.write net mode files) = c.write net mode files := by
  have hnext := hreads.write net hsound
  have hfirst := synchConfigs_eq net hreads hsound.operation
  have hsecond := synchConfigs_eq net hnext hsound.next.operation
  constructor
  · rintro ⟨files', c', aConf, aConf', hrun, hreads', hsynchronized, hagain⟩
    rw [hfirst, Except.ok.injEq] at hrun
    obtain rfl : c.write net mode files = files' := congrArg Prod.fst hrun
    obtain rfl := hnext.unique hreads'
    rw [hsecond, Except.ok.injEq] at hagain
    exact ⟨hsynchronized, congrArg Prod.fst hagain⟩
  · rintro ⟨hsynchronized, hagain⟩
    rw [hagain] at hsecond
    exact ⟨_, _, _, _, hfirst, hnext, hsynchronized, hsecond⟩

/-- **A synchronization converges exactly when** the backend has settings of its template only, nothing is known of
those it has not, and the settings that ARMORE has of its own are stripped. -/
theorem converges_iff (hreads : files.Reads mode c) (hmode : c.backend.get? "Operation".toList = some mode.name)
    (hquotes : ∀ content, files.backend = some content → '"' ∉ content)
    (hvalues : ∀ bkey name, mode.backendTemplate.Writes bkey name → c.backend.get? bkey ≠ some [])
    (hcomplete : armoreConfigTemplate.Complete c.armore) : Converges net files mode c ↔ Settled mode c := by
  have hsound := sound_of_backend hreads hmode hquotes hvalues
  have hmodeShares := shares_mode net hsound
  have harmoreShares := shares_armore net hsound
  rw [converges_iff_next hreads hsound]
  constructor
  · rintro ⟨hsynchronized, hagain⟩
    obtain ⟨hfile, harmore, -⟩ := write_write_iff.mp hagain
    refine ⟨?_, ?_, ?_, ?_⟩
    · intro bkey value hget hknown
      exact (backend_iff hsound hget).mp (hsynchronized.backend bkey value hget hknown)
    · intro s hs key bkey hwrites hbackend hnone
      exact ⟨(render_next_mode_iff hreads hsound).mp hfile s hs bkey hbackend hnone,
        hmodeShares.agree_iff.mp hsynchronized.modeFile s hs key bkey hwrites hbackend hnone⟩
    · intro s hs key bkey hwrites hbackend hnone
      exact ⟨armore_of_render_next hreads hsound harmore s hs bkey hbackend hnone,
        harmoreShares.agree_iff.mp hsynchronized.armoreFile s hs key bkey hwrites hbackend hnone⟩
    · intro key name hwrites hown value hget
      exact (own_iff hwrites hown hget).mp (hsynchronized.own key name hwrites hown value hget)
  · intro hsettled
    refine ⟨⟨?_, ?_, ?_, ?_⟩, ?_⟩
    · intro bkey value hget hknown
      exact (backend_iff hsound hget).mpr (hsettled.backend bkey value hget hknown)
    · exact hmodeShares.agree_iff.mpr fun s hs key bkey hwrites hbackend hnone =>
        (hsettled.modeFile s hs key bkey hwrites hbackend hnone).2
    · exact harmoreShares.agree_iff.mpr fun s hs key bkey hwrites hbackend hnone =>
        (hsettled.armoreFile s hs key bkey hwrites hbackend hnone).2
    · intro key name hwrites hown value hget
      exact (own_iff hwrites hown hget).mpr (hsettled.own key name hwrites hown value hget)
    · refine write_write_iff.mpr ⟨?_, render_next_armore hsound hcomplete hsettled, render_next_backend hsound⟩
      rw [render_next_mode_iff hreads hsound]
      intro s hs bkey hbackend hnone
      obtain ⟨key, hwrites⟩ := Mode.exists_key hs
      exact (hsettled.modeFile s hs key bkey hwrites hbackend hnone).1

end

/-! ### A backend without a port -/

def operationLine : Template where
  header := []
  spaced := true
  quoted := false
  settings := [("Operation".toList, .variable "operationMode".toList)]

/-- Two interfaces beside that of the management. -/
def threeInterfaces (name : Text) : Text :=
  (List.lookup name [("managementIp".toList, "10.0.0.1".toList), ("managementMask".toList, "255.255.255.0".toList),
    ("managementInterface".toList, "eth0".toList), ("internalIp".toList, "10.0.1.1".toList),
    ("internalMask".toList, "255.255.255.0".toList), ("internalInterface".toList, "eth1".toList),
    ("externalIp".toList, "10.0.2.1".toList), ("externalMask".toList, "255.255.255.0".toList),
    ("externalInterface".toList, "eth2".toList), ("operationMode".toList, "Proxy".toList)]).getD []

/-- The backend has its mode and no more. -/
def portlessFiles : Files where
  armore := some (armoreConfigTemplate.render threeInterfaces)
  proxy := some (proxyConfigTemplate.render serverValues)
  passive := none
  transparent := none
  backend := some (operationLine.render fun _ => Mode.proxy.name)

def portless : Configs where
  backend := operationLine.reading fun _ => Mode.proxy.name
  mode := serverConfig
  armore := armoreConfigTemplate.reading threeInterfaces

theorem reads_portless : portlessFiles.Reads .proxy portless where
  backend := by
    have hbare : Bare Mode.proxy.name := by decide +kernel
    have hbares : operationLine.Bares fun _ => Mode.proxy.name := fun _ _ _ => hbare
    exact hbares.getConfigFromFile_render
  mode := getConfig_serverFiles
  armore := by
    have hbares : armoreConfigTemplate.Bares threeInterfaces := by
      have hbare : ∀ name ∈ armoreConfigTemplate.names, Bare (threeInterfaces name) := by decide +kernel
      exact fun key name hwrites => hbare name (Template.mem_names.mpr ⟨key, hwrites⟩)
    exact hbares.getConfigFromFile_render

theorem operation_portless : portless.backend.get? "Operation".toList = some Mode.proxy.name := by
  have hwrites : operationLine.Writes "Operation".toList "operationMode".toList := List.mem_cons_self
  exact Template.get?_reading hwrites

theorem quotes_portless : ∀ content, portlessFiles.backend = some content → '"' ∉ content := by
  intro content hcontent
  rw [← Option.some.inj hcontent]
  decide +kernel

theorem values_portless : ∀ bkey name, Mode.proxy.backendTemplate.Writes bkey name →
    portless.backend.get? bkey ≠ some [] := by
  intro bkey name _
  by_cases hkey : bkey ∈ operationLine.settings.map Prod.fst
  · rw [List.mem_singleton.mp hkey, operation_portless]
    decide +kernel
  · rw [portless, Template.get?_reading_of_notMem hkey]
    exact nofun

theorem complete_portless : armoreConfigTemplate.Complete portless.armore := fun _ _ hwrites =>
  ⟨_, Template.get?_reading hwrites⟩

theorem converges_portless : Converges noInterfaces portlessFiles .proxy portless ↔ Settled .proxy portless :=
  converges_iff reads_portless operation_portless quotes_portless values_portless complete_portless

/-- The port is known, and the backend reads `None`. -/
theorem port_reads_none : portlessFiles.Reads .proxy portless
    ∧ portless.backend.get? "Operation".toList = some Mode.proxy.name
    ∧ (∀ content, portlessFiles.backend = some content → '"' ∉ content)
    ∧ (∀ bkey name, Mode.proxy.backendTemplate.Writes bkey name → portless.backend.get? bkey ≠ some [])
    ∧ armoreConfigTemplate.Complete portless.armore ∧ Mode.proxy.template.Complete portless.mode
    ∧ ¬ Converges noInterfaces portlessFiles .proxy portless := by
  refine ⟨reads_portless, operation_portless, quotes_portless, values_portless, complete_portless,
    complete_serverConfig, ?_⟩
  have hsound := sound_of_backend reads_portless operation_portless quotes_portless values_portless
  have hwrites : Mode.proxy.template.Writes "Port".toList "port".toList := by decide +kernel
  have hbackend : Mode.proxy.backendTemplate.Writes "Port".toList "port".toList := by decide +kernel
  have hnone : portless.backend.get? "Port".toList = none := Template.get?_reading_of_notMem (by decide +kernel)
  have hport : portless.mode.get? "Port".toList = some "5555".toList := Template.get?_reading hwrites
  rw [converges_iff_next reads_portless hsound]
  rintro ⟨hsynchronized, -⟩
  have hagree := hsynchronized.modeFile "Port".toList "Port".toList "port".toList hwrites hbackend
  rw [hnone] at hagree
  apply (hagree "5555".toList hport ⟨by decide +kernel, by decide +kernel⟩).2
  rw [hsound.get?_next_backend hbackend, hnone]
  rfl

end Armore.Web.ConfigFiles
