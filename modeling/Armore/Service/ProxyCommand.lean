import Armore.Proxy.CommandLine
import Armore.Service.BackendSettings

/-!
# From the settings to the command line

The script puts the settings into one text and lets the shell take it apart, and the proxy reads the words with
`getopt`. When the interface, the address and the port are words, the proxy has each of them, and the role and the
encryption that are set; everything else has the value `main` gives it first, the capture engine too.
-/

namespace Armore.Service

open Lib (Text)
open Lib.Getopt Lib.Shell
open Proxy Proxy.CommandLine

/-- Field splitting leaves the text alone, and `getopt` does not take it for an option. -/
def Word (text : Text) : Prop := Unsplit text ∧ text.head? ≠ some '-'

instance (text : Text) : Decidable (Word text) := inferInstanceAs (Decidable (_ ∧ _))

def endPoint (s : Settings) : Text := s.bind ++ ":".toList ++ s.port

/-- The interface and the end point are words, and no names of files match them. -/
structure Settings.Words (s : Settings) (dir : Directory) : Prop where
  interface : Word s.interface ∧ s.interface ≠ [] ∧ dir.glob s.interface = []
  endPoint : Word (endPoint s) ∧ dir.glob (endPoint s) = []

/-- What `main` reads of the settings. -/
def command (certificates : Bool) (s : Settings) : Command where
  options := {
    serverMode := s.roletype = "Server".toList
    securityEnabled := s.encryption = "Enabled".toList ∧ certificates = true }
  interfaceName := captured s
  endPoint := endPoint s

/-- The items of the command line. -/
def items (certificates : Bool) (s : Settings) : List Item :=
  (if s.roletype = "Server".toList then [.option 's' none] else [])
    ++ ((if s.encryption = "Enabled".toList ∧ certificates = true then [.option 'e' none] else [])
      ++ [.operand (captured s), .operand (endPoint s)])

theorem not_dashed {text : Text} (hword : Word text) : ¬ Dashed text := by
  intro hdashed
  rw [Dashed.eq_def] at hdashed
  split at hdashed
  · exact hword.2 rfl
  · exact hdashed

section

variable {host : Host} {s : Settings}

theorem captured_word (hwords : s.Words host.directory) :
    Word (captured s) ∧ captured s ≠ [] ∧ host.directory.glob (captured s) = [] := by
  rw [captured]
  split
  · exact ⟨by decide, by decide, host.directory.glob_literal _ (by decide)⟩
  · exact hwords.interface

/-- **The shell takes the arguments apart** into the words of the items. -/
theorem proxyArgv_eq (hwords : s.Words host.directory) (certificates : Bool) :
    proxyArgv host certificates s = (items certificates s).flatMap Item.written := by
  have hspace : ifs ' ' = true := rfl
  have hflag : ∀ (p : Prop) [Decidable p] (c : Char), ifs c = false → c ∉ ['*', '?', '['] →
      host.directory.words (if p then ['-', c] else [])
        = (if p then [Item.option c none] else []).flatMap Item.written := by
    intro p _ c hifs hplain
    split
    · apply host.directory.words_eq_singleton (List.cons_ne_nil _ _)
      · exact List.forall_mem_cons.mpr ⟨rfl, List.forall_mem_singleton.mpr hifs⟩
      · exact host.directory.glob_literal _
          (List.forall_mem_cons.mpr ⟨by decide, List.forall_mem_singleton.mpr hplain⟩)
    · rfl
  obtain ⟨hword, hne, hglob⟩ := captured_word hwords
  have hcaptured : host.directory.words (captured s) = [captured s] :=
    host.directory.words_eq_singleton hne hword.1 hglob
  have hendPoint : host.directory.words (endPoint s) = [endPoint s] :=
    host.directory.words_eq_singleton (by simp [endPoint]) hwords.endPoint.1.1 hwords.endPoint.2
  have hargs : daemonArgs (doProxy certificates s) (captured s) s
      = (doProxy certificates s).roleflag ++ ' ' :: ((doProxy certificates s).encryptionflag
        ++ ' ' :: (captured s ++ ' ' :: endPoint s)) := by
    simp [daemonArgs, endPoint]
  rw [proxyArgv, hargs, host.directory.words_append hspace, host.directory.words_append hspace,
    host.directory.words_append hspace, hcaptured, hendPoint, items, List.flatMap_append, List.flatMap_append]
  congr 1
  · exact hflag _ 's' rfl (by decide)
  · congr 1
    exact hflag _ 'e' rfl (by decide)

/-- **The proxy reads what is set.** -/
theorem readCommand_proxyArgv (lib : AddressLibrary) (hwords : s.Words host.directory) (certificates : Bool) :
    readCommand lib (proxyArgv host certificates s) = .ok (command certificates s) := by
  have hproper : ∀ item ∈ items certificates s, item.Proper (kindOf optstring) := by
    have hcaptured := not_dashed (captured_word hwords).1
    have hendPoint := not_dashed hwords.endPoint.1
    intro item hitem
    rw [items, List.mem_append, List.mem_append] at hitem
    rcases hitem with hrole | hencryption | hoperands
    · split at hrole
      · rw [List.mem_singleton.mp hrole]
        exact ⟨by decide, by decide⟩
      · exact absurd hrole List.not_mem_nil
    · split at hencryption
      · rw [List.mem_singleton.mp hencryption]
        exact ⟨by decide, by decide⟩
      · exact absurd hencryption List.not_mem_nil
    · rcases List.mem_cons.mp hoperands with rfl | hlast
      · exact hcaptured
      · rw [List.mem_singleton.mp hlast]
        exact hendPoint
  rw [readCommand, proxyArgv_eq hwords, getopt_flatMap_written hproper, items, command]
  by_cases hrole : s.roletype = "Server".toList
  · by_cases hencryption : s.encryption = "Enabled".toList ∧ certificates = true
    · simp only [hrole, hencryption, if_true, decide_true, and_self]
      rfl
    · simp only [hrole, hencryption, if_true, if_false, decide_true, decide_false]
      rfl
  · by_cases hencryption : s.encryption = "Enabled".toList ∧ certificates = true
    · simp only [hrole, hencryption, if_true, if_false, decide_true, decide_false, and_self]
      rfl
    · simp only [hrole, hencryption, if_false, decide_false]
      rfl

end

end Armore.Service
