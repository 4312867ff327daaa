import Armore.Web.ConfigFiles

/-!
# Reading a configuration back

What is read from a configuration file is bare: no line break, no equals sign, no quote is left in it. A template
whose variables have bare values is read back as these values; without quotes around them, the spaces at their
ends are gone.
-/

namespace Armore.Web.ConfigFiles

open Lib Lib.Text

/-! ### A line -/

theorem readLine_of_notMem {l : Text} (hl : '=' ∉ l) (ret : Config) : readLine ret l = .ok ret := by
  rw [readLine, List.splitOn_eq_singleton hl]
  rfl

theorem readLine_keyValue {key value : Text} (hkey : '=' ∉ key) (hvalue : '=' ∉ value) (ret : Config) :
    readLine ret (key ++ '=' :: value) = .ok (ret.put (unquote key) (unquote value)) := by
  have hrest : '=' ∉ value.rdropWhile whitespace := fun hmem =>
    hvalue ((List.rdropWhile_prefix whitespace value).subset hmem)
  have htwo : ¬ [key, value].length < 2 := lt_irrefl 2
  rw [readLine, splitOn_join hkey hvalue, if_neg htwo, rdropWhile_append_cons (by decide),
    splitOn_join hkey hrest]
  simp only [unquote, strip_rdropWhile]

/-- A line stores nothing, or a value that is a part of it. -/
theorem of_readLine {ret ret' : Config} {l : Text} (h : readLine ret l = .ok ret') :
    ret' = ret ∨ ∃ key value, ret' = ret.put key (unquote value) ∧ '=' ∉ value ∧ value ⊆ l.rdropWhile whitespace := by
  rw [readLine] at h
  split at h
  · exact .inl (Except.ok.inj h).symm
  · split at h
    · rename_i key value hsplit
      have hmem : value ∈ (l.rdropWhile whitespace).splitOn '=' := by
        rw [hsplit]
        exact List.mem_cons_of_mem key List.mem_cons_self
      exact .inr ⟨unquote key, value, (Except.ok.inj h).symm, notMem_of_mem_splitOn hmem, subset_of_mem_splitOn hmem⟩
    · exact nomatch h

theorem bare_unquote {piece : Text} (hbreak : Unbroken piece) (hequals : '=' ∉ piece) : Bare (unquote piece) := by
  have hsubset : unquote piece ⊆ piece := fun c hc => strip_subset piece (List.mem_filter.mp hc).1
  refine ⟨⟨fun hc => hbreak.1 (hsubset hc), fun hc => hbreak.2 (hsubset hc)⟩, fun hc => hequals (hsubset hc), ?_⟩
  intro hc
  exact absurd (List.mem_filter.mp hc).2 (by decide)

theorem unquote_of_notMem {piece : Text} (hquote : '"' ∉ piece) : unquote piece = strip whitespace piece := by
  rw [unquote, List.filter_eq_self]
  intro c hc
  exact decide_eq_true fun heq => hquote (heq ▸ strip_subset piece hc)

theorem plain_unquote {piece : Text} (hbreak : Unbroken piece) (hequals : '=' ∉ piece) (hquote : '"' ∉ piece) :
    Plain (unquote piece) := by
  refine ⟨bare_unquote hbreak hequals, ?_⟩
  rw [unquote_of_notMem hquote, strip_strip]

/-! ### A file -/

theorem unbroken_rdropWhile {lines : List Text} (hlines : FileLines lines) {l : Text} (hl : l ∈ lines) :
    Unbroken (l.rdropWhile whitespace) := by
  obtain ⟨text, hfree, hline⟩ := hlines.of_mem hl
  have hstripped : l.rdropWhile whitespace = text.rdropWhile whitespace := by
    rcases hline with rfl | rfl
    · exact List.rdropWhile_concat_pos _ _ _ (by decide)
    · rfl
  have hsubset : text.rdropWhile whitespace ⊆ text := (List.rdropWhile_prefix whitespace text).subset
  rw [hstripped]
  exact ⟨fun hc => hfree.1 (hsubset hc), fun hc => hfree.2 (hsubset hc)⟩

/-- A value that was read is what is left of a piece of a line. -/
theorem value_of_read {content : Text} {config : Config} (hread : getConfigFromFile (some content) = .ok config)
    {key value : Text} (hget : config.get? key = some value) :
    ∃ piece, value = unquote piece ∧ Unbroken piece ∧ '=' ∉ piece ∧ ∃ l ∈ readlines content, piece ⊆ l := by
  have hkeeps : Outcome (fun _ : Exn => True) (fun config : Config => ∀ key value, config.get? key = some value →
      ∃ piece, value = unquote piece ∧ Unbroken piece ∧ '=' ∉ piece ∧ ∃ l ∈ readlines content, piece ⊆ l)
      ((readlines content).foldlM readLine ∅) := by
    apply Outcome.foldlM
    · exact nofun
    · intro ret hret l hl
      cases hline : readLine ret l with
      | error e => trivial
      | ok ret' =>
          intro key value hget
          rcases of_readLine hline with rfl | ⟨key', piece, rfl, hequals, hsubset⟩
          · exact hret key value hget
          · rw [Table.get?_put] at hget
            split at hget
            · have hfree := unbroken_rdropWhile (fileLines_readlines content) hl
              refine ⟨piece, (Option.some.inj hget).symm, ⟨fun hc => hfree.1 (hsubset hc), fun hc => hfree.2 (hsubset hc)⟩,
                hequals, l, hl, ?_⟩
              exact fun c hc => (List.rdropWhile_prefix whitespace l).subset (hsubset hc)
            · exact hret key value hget
  rw [getConfigFromFile] at hread
  rw [hread] at hkeeps
  exact hkeeps key value hget

theorem bare_of_read {file : Option Text} {config : Config} (hread : getConfigFromFile file = .ok config)
    {key value : Text} (hget : config.get? key = some value) : Bare value := by
  cases file with
  | none =>
      rw [← Except.ok.inj hread] at hget
      exact nomatch hget
  | some content =>
      obtain ⟨piece, rfl, hbreak, hequals, _⟩ := value_of_read hread hget
      exact bare_unquote hbreak hequals

/-- In a file without quotes no value has spaces at its ends. -/
theorem plain_of_read {content : Text} (hquotes : '"' ∉ content) {config : Config}
    (hread : getConfigFromFile (some content) = .ok config) {key value : Text} (hget : config.get? key = some value) :
    Plain value := by
  obtain ⟨piece, rfl, hbreak, hequals, l, hl, hsubset⟩ := value_of_read hread hget
  apply plain_unquote hbreak hequals
  intro hc
  rcases mem_of_mem_readlines hl (hsubset hc) with htext | hnewline
  · exact hquotes htext
  · exact absurd hnewline (by decide)

/-! ### A template -/

theorem unquote_between {front back : Text} (hfront : ∀ c ∈ front, whitespace c = true)
    (hback : ∀ c ∈ back, whitespace c = true) (text : Text) : unquote (front ++ text ++ back) = unquote text := by
  rw [unquote, strip_append_spaces _ hback, strip_spaces_append hfront, unquote]

theorem unquote_plain {text : Text} (htext : Plain text) : unquote text = text := by
  rw [unquote_of_notMem htext.1.2.2, htext.2]

theorem unquote_quoted {text : Text} (hquote : '"' ∉ text) : unquote ('"' :: text ++ ['"']) = text := by
  rw [unquote, strip_eq_self_of_ends (by decide) (by decide), List.cons_append, List.filter_cons_of_neg (by decide),
    List.filter_append, List.filter_cons_of_neg (by decide), List.filter_nil, List.append_nil, List.filter_eq_self]
  intro c hc
  exact decide_eq_true fun heq => hquote (heq ▸ hc)

namespace Template

variable (t : Template)

/-- The line of a key is that of a variable. -/
def Writes (key name : Text) : Prop := (key, Source.variable name) ∈ t.settings

instance (key name : Text) : Decidable (t.Writes key name) := inferInstanceAs (Decidable (_ ∈ _))

/-- The file when each variable has the given text. -/
def render (values : Text → Text) : Text :=
  ((t.header ++ t.settings.map fun setting => t.line setting.1 (setting.2.text values)).map (· ++ ['\n'])).flatten

example : passiveConfigTemplate.render (fun _ => "eth1".toList)
    = "#!/usr/bin/env bash\nMonitored_Interface=eth1\nOperation=Passive\n".toList := by decide +kernel

theorem substitute_eq {inp : Dict} (hinp : ∀ key name, t.Writes key name → name ∈ inp.map Prod.fst) :
    t.substitute inp = .ok (t.render fun name => str (inp.get name)) := by
  have hlines : t.settings.mapM (t.substituteLine inp)
      = .ok (t.settings.map fun setting => t.line setting.1 (setting.2.text fun name => str (inp.get name))) := by
    apply mapM_eq_map
    rintro ⟨key, source⟩ hmem
    cases source with
    | constant text => rfl
    | «variable» name =>
        obtain ⟨entry, hentry, hname⟩ := List.mem_map.mp (hinp key name hmem)
        have hsome : (inp.lookup name).isSome = true := by
          rw [List.lookup_isSome_iff]
          exact ⟨entry, hentry, beq_iff_eq.mpr hname.symm⟩
        obtain ⟨value, hvalue⟩ := Option.isSome_iff_exists.mp hsome
        simp only [substituteLine, Source.text, Dict.get, hvalue, Option.join_some]
  rw [substitute, hlines]
  rfl

/-- What is read of a value. -/
def reads (value : Text) : Text := if t.quoted then value else strip whitespace value

def reading (values : Text → Text) : Config :=
  Table.putAll ∅ (t.settings.map fun setting => (setting.1, t.reads (setting.2.text values)))

variable {t} {values : Text → Text}

theorem unquote_quote {value : Text} (hvalue : Bare value) :
    unquote (t.quote ++ value ++ t.quote) = t.reads value := by
  rw [quote, reads]
  split
  · exact unquote_quoted hvalue.2.2
  · rw [List.nil_append, List.append_nil, unquote_of_notMem hvalue.2.2]

/-- The spaces around the equals sign. -/
theorem exists_equals : ∃ spaces : Text, (∀ c ∈ spaces, whitespace c = true) ∧ '=' ∉ spaces
    ∧ t.equals = spaces ++ '=' :: spaces := by
  rw [equals]
  cases t.spaced with
  | true => exact ⟨[' '], List.forall_mem_singleton.mpr rfl, by decide, rfl⟩
  | false => exact ⟨[], List.forall_mem_nil _, List.not_mem_nil, rfl⟩

theorem readLine_line {key value : Text} (hkey : Plain key) (hvalue : Bare value) (ret : Config) :
    readLine ret (t.line key value ++ ['\n']) = .ok (ret.put key (t.reads value)) := by
  obtain ⟨spaces, hspaces, hequals, heq⟩ := t.exists_equals
  have hquote : '=' ∉ t.quote := by
    rw [quote]
    split <;> decide
  have hline : t.line key value ++ ['\n']
      = (key ++ spaces) ++ '=' :: (spaces ++ (t.quote ++ value ++ t.quote) ++ ['\n']) := by
    rw [line, heq]
    simp
  have hname : unquote (key ++ spaces) = key := by
    rw [← List.nil_append key, unquote_between (by simp) hspaces, unquote_plain hkey]
    rfl
  have hcontent : unquote (spaces ++ (t.quote ++ value ++ t.quote) ++ ['\n']) = t.reads value := by
    rw [unquote_between hspaces (List.forall_mem_singleton.mpr rfl), unquote_quote hvalue]
  rw [hline, readLine_keyValue, hname, hcontent]
  · rw [List.mem_append, not_or]
    exact ⟨hkey.1.2.1, hequals⟩
  · simp only [List.mem_append, not_or]
    exact ⟨⟨hequals, ⟨hquote, hvalue.2.1⟩, hquote⟩, by decide⟩

theorem unbroken_line {key value : Text} (hkey : Plain key) (hvalue : Bare value) : Unbroken (t.line key value) := by
  have hfree : ∀ c ∈ ['\n', '\r'], c ∉ t.equals ∧ c ∉ t.quote := by
    rw [List.forall_mem_cons, List.forall_mem_singleton, equals, quote]
    cases t.spaced <;> cases t.quoted <;> decide
  have hnewline := hfree '\n' (by decide)
  have hreturn := hfree '\r' (by decide)
  rw [Unbroken, line]
  simp only [List.mem_append, not_or]
  exact ⟨⟨⟨⟨⟨hkey.1.1.1, hnewline.1⟩, hnewline.2⟩, hvalue.1.1⟩, hnewline.2⟩,
    ⟨⟨⟨hkey.1.1.2, hreturn.1⟩, hreturn.2⟩, hvalue.1.2⟩, hreturn.2⟩

/-- Every variable of the template has a bare value. -/
def Bares (t : Template) (values : Text → Text) : Prop := ∀ key name, t.Writes key name → Bare (values name)

theorem Bares.source (h : t.Bares values) {setting : Text × Source} (hmem : setting ∈ t.settings) :
    Bare (setting.2.text values) := by
  obtain ⟨key, source⟩ := setting
  cases source with
  | constant text => exact (t.constants_plain _ hmem).1
  | «variable» name => exact h key name hmem

theorem Bares.readlines_render (h : t.Bares values) : readlines (t.render values)
    = (t.header ++ t.settings.map fun setting => t.line setting.1 (setting.2.text values)).map (· ++ ['\n']) := by
  apply readlines_flatten
  intro line hline
  rcases List.mem_append.mp hline with hheader | hsetting
  · exact (t.header_plain line hheader).1
  · obtain ⟨setting, hmem, rfl⟩ := List.mem_map.mp hsetting
    exact unbroken_line (t.keys_plain setting hmem) (h.source hmem)

/-- **A written template is read back.** -/
theorem Bares.getConfigFromFile_render (h : t.Bares values) :
    getConfigFromFile (some (t.render values)) = .ok (t.reading values) := by
  have hheader : ∀ header : List Text, (∀ line ∈ header, '=' ∉ line) → ∀ ret : Config,
      (header.map (· ++ ['\n'])).foldlM readLine ret = .ok ret := by
    intro header hfree ret
    induction header with
    | nil => rfl
    | cons line header ih =>
        have hline : '=' ∉ line ++ ['\n'] := by
          rw [List.mem_append, not_or]
          exact ⟨hfree line List.mem_cons_self, by decide⟩
        rw [List.map_cons, List.foldlM_cons, readLine_of_notMem hline]
        exact ih fun other hother => hfree other (List.mem_cons_of_mem line hother)
  have hsettings : ∀ settings, settings ⊆ t.settings → ∀ ret : Config,
      ((settings.map fun setting => t.line setting.1 (setting.2.text values)).map (· ++ ['\n'])).foldlM readLine ret
        = .ok (ret.putAll (settings.map fun setting => (setting.1, t.reads (setting.2.text values)))) := by
    intro settings hsubset
    induction settings with
    | nil => exact fun ret => rfl
    | cons setting settings ih =>
        intro ret
        obtain ⟨hmem, hrest⟩ := List.cons_subset.mp hsubset
        rw [List.map_cons, List.map_cons, List.foldlM_cons,
          readLine_line (t.keys_plain setting hmem) (h.source hmem)]
        exact ih hrest _
  rw [getConfigFromFile, h.readlines_render, List.map_append, List.foldlM_append,
    hheader t.header fun line hline => (t.header_plain line hline).2]
  exact hsettings t.settings (List.Subset.refl _) ∅

theorem get?_reading_of_mem {key : Text} {source : Source} (hmem : (key, source) ∈ t.settings) :
    (t.reading values).get? key = some (t.reads (source.text values)) := by
  apply Table.get?_putAll_of_mem
  · rw [List.map_map]
    exact List.mem_map.mpr ⟨_, hmem, rfl⟩
  · intro entry hentry hkey
    obtain ⟨setting, hsetting, rfl⟩ := List.mem_map.mp hentry
    rw [t.same_source setting hsetting _ hmem hkey]

theorem get?_reading {key name : Text} (hwrites : t.Writes key name) :
    (t.reading values).get? key = some (t.reads (values name)) := get?_reading_of_mem hwrites

theorem get?_reading_of_notMem {key : Text} (hkey : key ∉ t.settings.map Prod.fst) :
    (t.reading values).get? key = none := by
  rw [reading, Table.get?_putAll_of_notMem]
  · rfl
  · rw [List.map_map]
    exact hkey

/-- Bare values can be told from the text. -/
theorem Bares.of_render_eq {values' : Text → Text} (h : t.Bares values) (h' : t.Bares values')
    (heq : t.render values = t.render values') {key name : Text} (hwrites : t.Writes key name) :
    values name = values' name := by
  have hlines := congrArg readlines heq
  rw [h.readlines_render, h'.readlines_render, List.map_append, List.map_append, List.append_cancel_left_eq,
    List.map_map, List.map_map, List.map_inj_left] at hlines
  have hline := hlines _ hwrites
  simp only [Function.comp_apply, Source.text, line, List.append_cancel_right_eq, List.append_cancel_left_eq] at hline
  exact hline

theorem render_congr {values' : Text → Text} (h : ∀ key name, t.Writes key name → values name = values' name) :
    t.render values = t.render values' := by
  have hsources : ∀ setting ∈ t.settings, setting.2.text values = setting.2.text values' := by
    rintro ⟨key, source⟩ hmem
    cases source with
    | constant text => rfl
    | «variable» name => exact h key name hmem
  rw [render, render, List.map_congr_left fun setting hmem => congrArg (t.line setting.1) (hsources setting hmem)]

end Template

end Armore.Web.ConfigFiles
