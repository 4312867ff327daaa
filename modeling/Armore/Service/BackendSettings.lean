import Armore.Service.InitScript
import Armore.Web.ConfigEnforce

/-!
# What the script reads of a written backend

The web server writes the backend from the template of a mode, a line `key = value` for each setting. The script finds
the line of a key by its pattern, which is in the lines of those keys too that end with it; in the templates no other
key does. So the script has each value as it was written, for values without a line break and an equals sign.
-/

namespace Armore.Service

open Lib Lib.Shell
open Web.ConfigFiles

theorem lines_render {t : Template} {values : Text → Text} (hbares : t.Bares values) :
    lines (t.render values) = t.header ++ t.settings.map fun setting => t.line setting.1 (setting.2.text values) := by
  apply lines_flatten
  intro line hline
  rcases List.mem_append.mp hline with hheader | hsetting
  · exact (t.header_plain line hheader).1.1
  · obtain ⟨setting, hmem, rfl⟩ := List.mem_map.mp hsetting
    exact (Template.unbroken_line (t.keys_plain setting hmem) (hbares.source hmem)).1

/-- A key that ends no other key has its value. -/
theorem setting_render {t : Template} (hspaced : t.spaced = true) (hquoted : t.quoted = false) {values : Text → Text}
    (hbares : t.Bares values) {key : Text} {source : Source}
    (hkey : t.settings.filter (fun setting => key <:+ setting.1) = [(key, source)]) :
    setting key (t.render values) = source.text values := by
  have hmem : (key, source) ∈ t.settings := by
    have hfound : (key, source) ∈ t.settings.filter (fun setting => key <:+ setting.1) := by
      rw [hkey]
      exact List.mem_cons_self
    exact (List.mem_filter.mp hfound).1
  have hline : ∀ other value, t.line other value = other ++ " = ".toList ++ value := by
    intro other value
    rw [Template.line, Template.equals, Template.quote, hspaced, hquoted]
    simp
  have hheader : grep (key ++ " =".toList) t.header = [] := by
    rw [grep, List.filter_eq_nil_iff]
    intro line hline' hpattern
    have hmem : '=' ∈ line := (of_decide_eq_true hpattern).subset (by simp)
    exact (t.header_plain line hline').2 hmem
  have hsettings : grep (key ++ " =".toList) (t.settings.map fun setting => t.line setting.1 (setting.2.text values))
      = [t.line key (source.text values)] := by
    rw [grep, List.filter_map]
    have hfilter : t.settings.filter ((fun line : Text => decide (key ++ " =".toList <:+: line))
        ∘ fun setting => t.line setting.1 (setting.2.text values)) = [(key, source)] := by
      rw [← hkey]
      apply List.filter_congr
      intro setting hsetting
      rw [Function.comp_apply, hline, decide_eq_decide]
      exact infix_line_iff (t.keys_plain setting hsetting).1.2.1 (hbares.source hsetting).2.1
    rw [hfilter]
    rfl
  have hgrep : grep (key ++ " =".toList) (lines (t.render values)) = [t.line key (source.text values)] := by
    rw [lines_render hbares, grep, List.filter_append]
    rw [grep] at hheader hsettings
    rw [hheader, hsettings, List.nil_append]
  rw [setting, hgrep, List.map_singleton, hline, delete_line]
  exact substitution_singleton (hbares.source hmem).1.1

/-- The settings of a proxy with these values. -/
def settingsOf (values : Text → Text) : Settings where
  operation := values "operationMode".toList
  roletype := values "roleType".toList
  interface := values "interface".toList
  encryption := values "encryption".toList
  bind := values "bind".toList
  port := values "port".toList
  capture := values "capture".toList
  firewall := values "firewall".toList

theorem operation_render (mode : Mode) {values : Text → Text} (hbares : mode.backendTemplate.Bares values) :
    (readSettings (some (mode.backendTemplate.render values))).operation = values "operationMode".toList := by
  have hkey : mode.backendTemplate.settings.filter (fun setting => "Operation".toList <:+ setting.1)
      = [("Operation".toList, .variable "operationMode".toList)] := by
    cases mode <;> decide +kernel
  have hspaced : mode.backendTemplate.spaced = true := by cases mode <;> rfl
  have hquoted : mode.backendTemplate.quoted = false := by cases mode <;> rfl
  exact setting_render hspaced hquoted hbares hkey

/-- The variables of the script and those of the template. -/
def scriptKeys : List (Text × Text) := [
  ("Operation".toList, "operationMode".toList), ("Roletype".toList, "roleType".toList),
  ("Interface".toList, "interface".toList), ("Encryption".toList, "encryption".toList), ("Bind".toList, "bind".toList),
  ("Port".toList, "port".toList), ("Capture".toList, "capture".toList), ("Firewall".toList, "firewall".toList)]

theorem filter_scriptKeys : ∀ entry ∈ scriptKeys,
    proxyConfigBackendTemplate.settings.filter (fun setting => entry.1 <:+ setting.1)
      = [(entry.1, .variable entry.2)] := by
  decide +kernel

/-- **The script reads what the web server wrote.** -/
theorem readSettings_render {values : Text → Text} (hbares : proxyConfigBackendTemplate.Bares values) :
    readSettings (some (proxyConfigBackendTemplate.render values)) = settingsOf values := by
  have hsetting : ∀ entry ∈ scriptKeys, setting entry.1 (proxyConfigBackendTemplate.render values) = values entry.2 :=
    fun entry hentry => setting_render rfl rfl hbares (filter_scriptKeys entry hentry)
  simp only [scriptKeys, List.forall_mem_cons] at hsetting
  obtain ⟨hoperation, hroletype, hinterface, hencryption, hbind, hport, hcapture, hfirewall, -⟩ := hsetting
  rw [readSettings, hoperation, hroletype, hinterface, hencryption, hbind, hport, hcapture, hfirewall, settingsOf]

end Armore.Service
