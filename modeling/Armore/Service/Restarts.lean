import Armore.Lib.Run
import Armore.Service.ProxyCommand

/-!
# The proxy that runs is the one the page shows

The web server and the service script together: the settings page enforces a form and has the script stop and start
the services, the pages show and synchronize the files, the system and an administrator call the script, and a
process ends when it will, a stopped one perhaps after the start. Pages are served one at a time.

A stop and a start read the backend of the new mode. When the mode stays, the old proxy is told to end; when the mode
becomes another one it is not, and runs on. In either case a proxy that runs and has not been told to end was started
with the settings that the file of the proxy has now, and that the page shows.
-/

namespace Armore.Service

open Lib (Text Run Restrict)
open Lib.Shell
open Proxy (AddressLibrary)
open Proxy.CommandLine
open Web.ConfigFiles

/-! ### The system -/

structure State where
  files : Files
  services : Services := {}
  /-- Whether `/etc/armore/.curve` is there. -/
  certificates : Bool
  /-- The settings page has had the services stopped and is about to have them started. -/
  restarting : Bool := false

inductive Process
  | proxy
  | kipfw
  | bro
  deriving DecidableEq

inductive Act
  | save (form : Dict)
  | restarted
  | synchronize
  | update (form : Dict)
  | start
  | stop
  | ended (process : Process)
  | setCertificates (there : Bool)

/-- The files a request leaves. -/
def left : Except (Exn × Files) Files → Files
  | .ok files => files
  | .error (_, files) => files

def Services.finish (services : Services) : Process → Services
  | .proxy => { services with proxy := none }
  | .kipfw => { services with kipfw := none }
  | .bro => { services with bro := false }

/-- `save` is `postArmoreSettings` up to the stop, and `restarted` the rest of it; `update` is one of the pages for a
mode, which have the file of ARMORE written. No page is served while another one is. -/
def step (net : Netifaces) (host : Host) (s : State) : Act → Option State
  | .save form =>
    if s.restarting then none
    else
      match updateConfigEnforce net s.files form with
      | .ok files => some { s with files, services := stop host files.backend s.services, restarting := true }
      | .error (_, files) => some { s with files }
  | .restarted =>
    if s.restarting then
      some { s with services := start host s.certificates s.files.backend s.services, restarting := false }
    else none
  | .synchronize => if s.restarting then none else some { s with files := left (synchConfigsLeaving net s.files) }
  | .update form =>
    if s.restarting then none
    else some { s with files := left (leaving s.files (updateConfig net s.files form .armore)) }
  | .start => some { s with services := start host s.certificates s.files.backend s.services }
  | .stop => some { s with services := stop host s.files.backend s.services }
  | .ended process => some { s with services := s.services.finish process }
  | .setCertificates there => some { s with certificates := there }

abbrev Runs (net : Netifaces) (host : Host) (init : State) (acts : List Act) (s : State) : Prop :=
  Run (fun s act s' => step net host s act = some s') init acts s

/-! ### The values of the settings -/

/-- A value can be read back, and is a word where the proxy takes it from the command line. -/
structure Serves (s : Setting) (value : Text) : Prop where
  plain : Plain value
  ne_nil : value ≠ []
  interface : s.name = "interface".toList → Word value ∧ Literal value
  bind : s.name = "bind".toList → Word value
  port : s.name = "port".toList → Unsplit value

theorem fitting_serves : Fitting Serves where
  plain _ _ h := ⟨h.plain, h.ne_nil⟩
  unknown _ := ⟨plain_none, List.cons_ne_nil _ _, fun _ => by decide, fun _ => by decide, fun _ => by decide⟩

/-- No name of a file has a colon, in the directory of the script. -/
def Host.NoColons (host : Host) : Prop := ∀ word, ':' ∈ word → host.directory.glob word = []

/-- The values of the proxy's settings serve. -/
def ProxyServes (values : Text → Text) : Prop := ∀ s ∈ Mode.proxy.settings, Serves s (values s.name)

theorem ProxyServes.words {host : Host} (hcolons : host.NoColons) {values : Text → Text} (h : ProxyServes values) :
    (settingsOf values).Words host.directory := by
  have hinterface := h _ (show ⟨"interface".toList, ["monIntProxy".toList, "interface".toList], "Interface".toList⟩
    ∈ Mode.proxy.settings by decide +kernel)
  have hbind := h _ (show ⟨"bind".toList, ["targetIp".toList, "bind".toList], "Bind".toList⟩
    ∈ Mode.proxy.settings by decide +kernel)
  have hport := h _ (show ⟨"port".toList, ["targetPort".toList, "port".toList], "Port".toList⟩
    ∈ Mode.proxy.settings by decide +kernel)
  refine ⟨⟨(hinterface.interface rfl).1, hinterface.ne_nil, host.directory.glob_literal _ (hinterface.interface rfl).2⟩,
    ⟨?_, ?_⟩, hcolons _ (by simp [endPoint])⟩
  · intro c hc
    rw [endPoint, List.mem_append, List.mem_append] at hc
    rcases hc with (hfirst | hcolon) | hlast
    · exact (hbind.bind rfl).1 c hfirst
    · rw [List.mem_singleton.mp hcolon]
      rfl
    · exact hport.port rfl c hlast
  · obtain ⟨c, rest, heq⟩ := List.exists_cons_of_ne_nil hbind.ne_nil
    have hhead := (hbind.bind rfl).2
    rw [heq] at hhead
    rw [endPoint, show (settingsOf values).bind = c :: rest from heq]
    exact hhead

/-! ### What the script does -/

section

variable {files : Files} {mode : Mode} {values : Text → Text}

theorem operation_inStep (h : files.InStep Serves mode values) : (readSettings files.backend).operation = mode.name := by
  rw [h.backend, operation_render mode fun _ _ hwrites => (h.plain fitting_serves hwrites).1.1, h.operation]

theorem readSettings_inStep (h : files.InStep Serves .proxy values) : readSettings files.backend = settingsOf values := by
  rw [h.backend]
  exact readSettings_render fun _ _ hwrites => (h.plain fitting_serves hwrites).1.1

/-- A start has to do with the proxy and the firewall in the mode of the proxy only. -/
theorem start_cases (host : Host) (h : files.InStep Serves mode values) (certificates : Bool) (services : Services) :
    ((host.armoreKernel = false ∨ mode ≠ .proxy)
        ∧ (start host certificates files.backend services).proxy = services.proxy
        ∧ (start host certificates files.backend services).kipfw = services.kipfw)
      ∨ (host.armoreKernel = true ∧ mode = .proxy
        ∧ (start host certificates files.backend services).proxy
          = startDaemon (proxyArgv host certificates (settingsOf values)) services.proxy
        ∧ (start host certificates files.backend services).kipfw
          = if values "firewall".toList = "Enabled".toList then
              startDaemon (host.directory.words kipfwInterface) services.kipfw
            else services.kipfw) := by
  have hoperation := operation_inStep h
  by_cases hkernel : host.armoreKernel = true
  · rw [start, if_pos hkernel, doStart, hoperation]
    cases mode with
    | proxy =>
        rw [if_pos (by decide), readSettings_inStep h]
        exact .inr ⟨hkernel, rfl, rfl, rfl⟩
    | passive =>
        rw [if_neg (by decide), if_pos (by decide)]
        exact .inl ⟨.inr (by decide), rfl, rfl⟩
    | transparent =>
        rw [if_neg (by decide), if_pos (by decide)]
        exact .inl ⟨.inr (by decide), rfl, rfl⟩
  · rw [start, if_neg hkernel]
    exact .inl ⟨.inl (eq_false_of_ne_true hkernel), rfl, rfl⟩

/-- And so has a stop. -/
theorem stop_cases (host : Host) (h : files.InStep Serves mode values) (services : Services) :
    ((host.armoreKernel = false ∨ mode ≠ .proxy) ∧ (stop host files.backend services).proxy = services.proxy
        ∧ (stop host files.backend services).kipfw = services.kipfw)
      ∨ (mode = .proxy ∧ (stop host files.backend services).proxy = stopDaemon services.proxy
        ∧ (stop host files.backend services).kipfw = stopDaemon services.kipfw) := by
  have hoperation := operation_inStep h
  by_cases hkernel : host.armoreKernel = true
  · rw [stop, if_pos hkernel, doStop, hoperation]
    cases mode with
    | proxy =>
        rw [if_pos (by decide)]
        exact .inr ⟨rfl, rfl, rfl⟩
    | passive =>
        rw [if_neg (by decide)]
        exact .inl ⟨.inr (by decide), rfl, rfl⟩
    | transparent =>
        rw [if_neg (by decide)]
        exact .inl ⟨.inr (by decide), rfl, rfl⟩
  · rw [stop, if_neg hkernel]
    exact .inl ⟨.inl (eq_false_of_ne_true hkernel), rfl, rfl⟩

end

/-! ### What the processes were started with -/

/-- The process, when there is one that has not been told to end, was started with arguments of this kind. -/
def Started (kind : List Text → Prop) (daemon : Option Daemon) : Prop :=
  ∀ d, daemon = some d → d.signalled = false → kind d.argv

namespace Started

variable {kind kind' : List Text → Prop} {daemon : Option Daemon}

theorem none : Started kind none := fun _ h => nomatch h

theorem stopDaemon : Started kind (stopDaemon daemon) := by
  rintro d hd hsignalled
  obtain ⟨_, _, rfl⟩ := Option.map_eq_some_iff.mp hd
  exact nomatch hsignalled

theorem startDaemon {argv : List Text} (h : Started kind daemon) (hargv : kind argv) :
    Started kind (startDaemon argv daemon) := by
  cases daemon with
  | none =>
      rintro d hd -
      obtain rfl := Option.some.inj hd
      exact hargv
  | some d => exact h

theorem imp (h : Started kind daemon) (hkind : ∀ argv, kind argv → kind' argv) : Started kind' daemon :=
  fun d hd hsignalled => hkind _ (h d hd hsignalled)

end Started

/-- The proxy's arguments are those of the values its file shows. -/
def ProxyKind (host : Host) (there : Bool → Prop) (files : Files) (argv : List Text) : Prop :=
  ∃ values certificates, files.Shows .proxy values ∧ ProxyServes values ∧ there certificates
    ∧ argv = proxyArgv host certificates (settingsOf values)

/-- The firewall is set where it runs. -/
def KipfwKind (files : Files) (_ : List Text) : Prop :=
  ∃ values, files.Shows .proxy values ∧ values "firewall".toList = "Enabled".toList

/-- The files are in step, and what runs is what the file of the proxy shows. -/
structure State.Steady (host : Host) (there : Bool → Prop) (s : State) : Prop where
  fit : s.files.Fit Serves
  inStep : ∃ mode values, s.files.InStep Serves mode values
  certificates : there s.certificates
  kernel : host.armoreKernel = false → s.services.proxy = none ∧ s.services.kipfw = none
  proxy : Started (ProxyKind host there s.files) s.services.proxy
  kipfw : Started (KipfwKind s.files) s.services.kipfw

/-- What the acts have to be: forms with values that serve, for a mode by its name. -/
def Act.Proper (there : Bool → Prop) : Act → Prop
  | save form => form.Submits Serves ∧ ∃ mode, form.Names mode
  | update form => form.Submits Serves
  | setCertificates certificates => there certificates
  | _ => True

namespace State.Steady

variable {host : Host} {there : Bool → Prop} {s : State}

/-- New files that are in step, and show the same of the proxy. -/
theorem setFiles (h : s.Steady host there) {files : Files} (hfit : files.Fit Serves)
    (hinStep : ∃ mode values, files.InStep Serves mode values)
    (hshows : ∀ values, s.files.Shows .proxy values → files.Shows .proxy values) :
    State.Steady host there { s with files } where
  fit := hfit
  inStep := hinStep
  certificates := h.certificates
  kernel := h.kernel
  proxy := by
    refine Started.imp h.proxy ?_
    rintro argv ⟨values, certificates, hvalues, hrest⟩
    exact ⟨values, certificates, hshows values hvalues, hrest⟩
  kipfw := by
    refine Started.imp h.kipfw ?_
    rintro argv ⟨values, hvalues, hfirewall⟩
    exact ⟨values, hshows values hvalues, hfirewall⟩

theorem startServices (h : s.Steady host there) (restarting : Bool) : State.Steady host there
    { s with services := start host s.certificates s.files.backend s.services, restarting } := by
  obtain ⟨mode, values, hinStep⟩ := h.inStep
  rcases start_cases host hinStep s.certificates s.services with ⟨-, hproxy, hkipfw⟩
    | ⟨hkernel, rfl, hproxy, hkipfw⟩
  · refine ⟨h.fit, h.inStep, h.certificates, ?_, ?_, ?_⟩ <;> simp only [hproxy, hkipfw]
    · exact h.kernel
    · exact h.proxy
    · exact h.kipfw
  · have hserves : ProxyServes values := fun setting hsetting => hinStep.fits setting (.inl hsetting)
    refine ⟨h.fit, h.inStep, h.certificates, fun hother => absurd hkernel (by simp [hother]), ?_, ?_⟩ <;>
      simp only [hproxy, hkipfw]
    · exact Started.startDaemon h.proxy ⟨values, s.certificates, hinStep.shows, hserves, h.certificates, rfl⟩
    · split
      · rename_i hfirewall
        exact Started.startDaemon h.kipfw ⟨values, hinStep.shows, hfirewall⟩
      · exact h.kipfw

/-- A stop, which may come with new files. Where they show something else of the proxy, it is told to end. -/
theorem stopServices (h : s.Steady host there) {files : Files} (hfit : files.Fit Serves) {mode : Mode}
    {values : Text → Text} (hinStep : files.InStep Serves mode values)
    (hshows : mode ≠ .proxy → ∀ values, s.files.Shows .proxy values → files.Shows .proxy values) (restarting : Bool) :
    State.Steady host there { s with files, services := stop host files.backend s.services, restarting } := by
  rcases stop_cases host hinStep s.services with ⟨hstays, hproxy, hkipfw⟩ | ⟨rfl, hproxy, hkipfw⟩
  · refine ⟨hfit, ⟨mode, values, hinStep⟩, h.certificates, ?_, ?_, ?_⟩ <;> simp only [hproxy, hkipfw]
    · exact h.kernel
    · rcases hstays with hkernel | hmode
      · rw [(h.kernel hkernel).1]
        exact Started.none
      · exact (h.setFiles hfit ⟨mode, values, hinStep⟩ (hshows hmode)).proxy
    · rcases hstays with hkernel | hmode
      · rw [(h.kernel hkernel).2]
        exact Started.none
      · exact (h.setFiles hfit ⟨mode, values, hinStep⟩ (hshows hmode)).kipfw
  · refine ⟨hfit, ⟨.proxy, values, hinStep⟩, h.certificates, ?_, ?_, ?_⟩ <;> simp only [hproxy, hkipfw]
    · intro hkernel
      obtain ⟨hnone, hnone'⟩ := h.kernel hkernel
      rw [hnone, hnone']
      exact ⟨rfl, rfl⟩
    · exact Started.stopDaemon
    · exact Started.stopDaemon

end State.Steady

theorem Files.Shows.congr {files : Files} {mode : Mode} {values values' : Text → Text} (h : files.Shows mode values)
    (heq : ∀ s ∈ mode.settings, values s.name = values' s.name) : files.Shows mode values' := by
  obtain ⟨config, hread, hget⟩ := h
  refine ⟨config, hread, ?_⟩
  intro s hs key hwrites
  rw [← heq s hs]
  exact hget s hs key hwrites

/-- **Every act keeps what runs in step with what is shown.** -/
theorem State.Steady.step {net : Netifaces} {host : Host} {there : Bool → Prop} {s s' : State} {act : Act}
    (h : s.Steady host there) (hproper : act.Proper there) (hstep : step net host s act = some s') :
    s'.Steady host there := by
  cases act with
  | save form =>
      obtain ⟨hform, mode, hmode⟩ := hproper
      obtain ⟨files, values, heq, hfit, hinStep, hothers⟩ := h.fit.updateConfigEnforce fitting_serves net hform hmode
      simp only [Service.step, heq] at hstep
      split at hstep
      · exact nomatch hstep
      · obtain rfl := Option.some.inj hstep
        exact h.stopServices hfit hinStep (fun hne values hvalues => hvalues.of_mode_eq (hothers .proxy hne.symm)) true
  | restarted =>
      simp only [Service.step] at hstep
      split at hstep
      · obtain rfl := Option.some.inj hstep
        exact h.startServices false
      · exact nomatch hstep
  | synchronize =>
      obtain ⟨mode, values, hinStep⟩ := h.inStep
      obtain ⟨files, aConf, heq, hfit, hinStep', -, hothers⟩ := hinStep.synchConfigs fitting_serves net h.fit
      simp only [Service.step, synchConfigsLeaving_of_ok heq, left] at hstep
      split at hstep
      · exact nomatch hstep
      · obtain rfl := Option.some.inj hstep
        apply h.setFiles hfit ⟨mode, values, hinStep'⟩
        intro values' hvalues'
        by_cases hmode : mode = .proxy
        · subst hmode
          exact Files.Shows.congr hinStep'.shows (hinStep.shows.unique hvalues')
        · exact hvalues'.of_mode_eq (hothers .proxy (Ne.symm hmode))
  | update form =>
      obtain ⟨files, heq, hfit, hbackend, hmodes⟩ := h.fit.updateConfig_armore fitting_serves net hproper
      simp only [Service.step, leaving_ok heq, left] at hstep
      split at hstep
      · exact nomatch hstep
      · obtain rfl := Option.some.inj hstep
        obtain ⟨mode, values, hinStep⟩ := h.inStep
        apply h.setFiles hfit
        · exact ⟨mode, values, hbackend.trans hinStep.backend, hinStep.fits, hinStep.operation,
            hinStep.shows.of_mode_eq (hmodes mode)⟩
        · exact fun values hvalues => hvalues.of_mode_eq (hmodes .proxy)
  | start =>
      obtain rfl := Option.some.inj hstep
      exact h.startServices s.restarting
  | stop =>
      obtain rfl := Option.some.inj hstep
      obtain ⟨mode, values, hinStep⟩ := h.inStep
      exact h.stopServices h.fit hinStep (fun _ values hvalues => hvalues) s.restarting
  | ended process =>
      obtain rfl := Option.some.inj hstep
      cases process with
      | proxy => exact ⟨h.fit, h.inStep, h.certificates, fun hkernel => ⟨rfl, (h.kernel hkernel).2⟩, Started.none, h.kipfw⟩
      | kipfw => exact ⟨h.fit, h.inStep, h.certificates, fun hkernel => ⟨(h.kernel hkernel).1, rfl⟩, h.proxy, Started.none⟩
      | bro => exact ⟨h.fit, h.inStep, h.certificates, h.kernel, h.proxy, h.kipfw⟩
  | setCertificates certificates =>
      obtain rfl := Option.some.inj hstep
      exact ⟨h.fit, h.inStep, hproper, h.kernel, h.proxy, h.kipfw⟩

/-! ### What the page shows -/

/-- The text that the page has for a key of the proxy's file. -/
def shown (config : Config) (key : Text) : Text := (config.get? key).getD []

def shownSettings (config : Config) : Settings where
  operation := shown config "Operation".toList
  roletype := shown config "Roletype".toList
  interface := shown config "Interface".toList
  encryption := shown config "Encryption".toList
  bind := shown config "Bind".toList
  port := shown config "Port".toList
  capture := shown config "Capture".toList
  firewall := shown config "Firewall".toList

theorem shown_of_shows {files : Files} {values : Text → Text} (h : files.Shows .proxy values) :
    ∃ config, getProxyConfig files = .ok config
      ∧ { shownSettings config with operation := values "operationMode".toList } = settingsOf values := by
  obtain ⟨config, hread, hget⟩ := h
  have hshown : ∀ entry ∈ scriptKeys.tail, shown config entry.1 = values entry.2 := by
    intro entry hentry
    have hsettings : ∀ entry ∈ scriptKeys.tail, entry.2 ∈ Mode.proxy.settings.map (·.name)
        ∧ Mode.proxy.template.Writes entry.1 entry.2 := by
      decide +kernel
    obtain ⟨hname, hwrites⟩ := hsettings entry hentry
    obtain ⟨s, hs, hs'⟩ := List.mem_map.mp hname
    rw [shown, hget s hs entry.1 (hs' ▸ hwrites), ← hs']
    rfl
  simp only [scriptKeys, List.tail_cons, List.forall_mem_cons] at hshown
  obtain ⟨hroletype, hinterface, hencryption, hbind, hport, hcapture, hfirewall, -⟩ := hshown
  refine ⟨config, hread, ?_⟩
  rw [shownSettings, hroletype, hinterface, hencryption, hbind, hport, hcapture, hfirewall, settingsOf]

/-- Before the services are started. -/
structure State.Initial (there : Bool → Prop) (s : State) : Prop where
  fit : s.files.Fit Serves
  inStep : ∃ mode values, s.files.InStep Serves mode values
  certificates : there s.certificates
  proxy : s.services.proxy = none
  kipfw : s.services.kipfw = none

theorem State.Initial.steady {host : Host} {there : Bool → Prop} {s : State} (h : s.Initial there) :
    s.Steady host there where
  fit := h.fit
  inStep := h.inStep
  certificates := h.certificates
  kernel _ := ⟨h.proxy, h.kipfw⟩
  proxy := h.proxy ▸ Started.none
  kipfw := h.kipfw ▸ Started.none

/-- What a state shows and what runs in it agree. -/
structure State.AsShown (lib : AddressLibrary) (there : Bool → Prop) (s : State) (config : Config) : Prop where
  proxy : ∀ d, s.services.proxy = some d → d.signalled = false →
    ∃ certificates, there certificates ∧ readCommand lib d.argv = .ok (command certificates (shownSettings config))
  kipfw : ∀ d, s.services.kipfw = some d → d.signalled = false → shown config "Firewall".toList = "Enabled".toList

/-- **The proxy that runs is the one the page shows**, after any forms, synchronizations, starts, stops and ends in any
order: unless it has been told to end, it reads from its command line the role, the encryption, the interface and the
end point of the proxy's file. Only certificates that were not there may have left the encryption out. -/
theorem proxy_as_shown (lib : AddressLibrary) {net : Netifaces} {host : Host} (hcolons : host.NoColons)
    {there : Bool → Prop} {init s : State} (hinit : init.Initial there) {acts : List Act}
    (hacts : ∀ act ∈ acts, act.Proper there) (hrun : Runs net host init acts s) :
    ∃ config, getProxyConfig s.files = .ok config ∧ s.AsShown lib there config := by
  have hsteady : s.Steady host there := by
    refine Run.history_invariant (fun acts s => (∀ act ∈ acts, act.Proper there) → s.Steady host there)
      (fun _ => hinit.steady) ?_ hrun hacts
    intro acts s act s' _ ih hstep hacts
    have hbefore := ih fun act hact => hacts act (List.mem_append_left _ hact)
    exact hbefore.step (hacts act (List.mem_append_right _ List.mem_cons_self)) hstep
  obtain ⟨config, hread, -⟩ := hsteady.fit.mode .proxy
  have hshown : ∀ values, s.files.Shows .proxy values →
      { shownSettings config with operation := values "operationMode".toList } = settingsOf values := by
    intro values hvalues
    obtain ⟨config', hread', hsettings⟩ := shown_of_shows hvalues
    obtain rfl := Except.ok.inj (hread.symm.trans hread')
    exact hsettings
  refine ⟨config, hread, ?_, ?_⟩
  · intro d hd hsignalled
    obtain ⟨values, certificates, hvalues, hserves, hthere, hargv⟩ := hsteady.proxy d hd hsignalled
    refine ⟨certificates, hthere, ?_⟩
    rw [hargv, readCommand_proxyArgv lib (hserves.words hcolons) certificates, ← hshown values hvalues]
    rfl
  · intro d hd hsignalled
    obtain ⟨values, hvalues, hfirewall⟩ := hsteady.kipfw d hd hsignalled
    exact (congrArg Settings.firewall (hshown values hvalues)).trans hfirewall

/-! ### A server behind a monitor -/

instance (s : Setting) (value : Text) : Decidable (Serves s value) :=
  decidable_of_iff (Plain value ∧ value ≠ [] ∧ (s.name = "interface".toList → Word value ∧ Literal value)
      ∧ (s.name = "bind".toList → Word value) ∧ (s.name = "port".toList → Unsplit value))
    ⟨fun ⟨hplain, hne, hinterface, hbind, hport⟩ => ⟨hplain, hne, hinterface, hbind, hport⟩,
      fun h => ⟨h.plain, h.ne_nil, h.interface, h.bind, h.port⟩⟩

def armoreHost : Host := ⟨true, ⟨fun _ => [], fun _ _ => rfl⟩⟩

/-- A server in each mode. -/
def startedValues (mode : Mode) (name : Text) : Text :=
  (List.lookup name [("operationMode".toList, mode.name), ("roleType".toList, "Server".toList),
    ("port".toList, "5555".toList), ("bind".toList, "127.0.0.2".toList), ("capture".toList, "NetMap".toList),
    ("encryption".toList, "Enabled".toList), ("firewall".toList, "Disabled".toList),
    ("managementIp".toList, "127.0.0.1".toList), ("managementMask".toList, "255.0.0.0".toList)]).getD "eth1".toList

def startedFiles : Files where
  armore := none
  proxy := some (Mode.proxy.template.render (startedValues .proxy))
  passive := none
  transparent := none
  backend := some (Mode.proxy.backendTemplate.render (startedValues .proxy))

def started : State := { files := startedFiles, certificates := true }

theorem serves_started (mode : Mode) : ∀ s, s ∈ mode.settings ∨ s ∈ armoreSettings → Serves s (startedValues mode s.name) := by
  have hserves : ∀ s ∈ mode.settings ++ armoreSettings, Serves s (startedValues mode s.name) := by
    cases mode <;> decide +kernel
  exact fun s hs => hserves s (List.mem_append.mpr hs)

theorem shows_started {files : Files} {mode : Mode}
    (hfile : files.mode mode = some (mode.template.render (startedValues mode))) :
    getConfig files mode.name = .ok (mode.template.reading (startedValues mode))
      ∧ files.Shows mode (startedValues mode) :=
  fitting_serves.shows (fun s hs => serves_started mode s (.inl hs)) hfile

theorem inStep_started : startedFiles.InStep Serves .proxy (startedValues .proxy) :=
  ⟨rfl, serves_started .proxy, rfl, (shows_started rfl).2⟩

/-- Each file of a mode is written so, or not there. -/
theorem fit_started {files : Files} (harmore : files.armore = none)
    (hmodes : ∀ mode, files.mode mode = none ∨ files.mode mode = some (mode.template.render (startedValues mode))) :
    files.Fit Serves := by
  refine ⟨?_, ∅, by rw [getArmoreConfig, harmore]; rfl, fun _ _ _ h => nomatch h⟩
  intro mode
  rcases hmodes mode with hnone | hsome
  · refine ⟨∅, ?_, fun _ _ _ h => nomatch h⟩
    rw [getConfig_name, hnone]
    rfl
  · exact ⟨_, (shows_started hsome).1,
      fitting_serves.old_reading mode.oldKeys fun s hs => serves_started mode s (.inl hs)⟩

theorem initial_started : started.Initial fun certificates => certificates = true := by
  have hfit : startedFiles.Fit Serves := by
    apply fit_started rfl
    intro mode
    cases mode with
    | proxy => exact .inr rfl
    | passive => exact .inl rfl
    | transparent => exact .inl rfl
  exact ⟨hfit, ⟨.proxy, startedValues .proxy, inStep_started⟩, rfl, rfl, rfl⟩

/-- At boot. -/
def booted : State := { started with services := start armoreHost true startedFiles.backend {} }

theorem proxy_booted : booted.services.proxy = some { argv := proxyArgv armoreHost true (settingsOf (startedValues .proxy)) } := by
  rcases start_cases armoreHost inStep_started true {} with ⟨hother, -⟩ | ⟨-, -, hproxy, -⟩
  · exact absurd hother (by decide)
  · exact hproxy

def noAddresses : AddressLibrary := ⟨fun _ => none, fun _ => none, fun _ => [], fun _ => 0⟩

theorem proxy_as_shown_booted : ∃ d config, booted.services.proxy = some d ∧ d.signalled = false
    ∧ getProxyConfig booted.files = .ok config
    ∧ booted.AsShown noAddresses (fun certificates => certificates = true) config := by
  have hrun : Runs noInterfaces armoreHost started [.start] booted := Run.single rfl
  have hacts : ∀ act ∈ [Act.start], act.Proper fun certificates => certificates = true := fun act hact => by
    rw [List.mem_singleton.mp hact]
    trivial
  obtain ⟨config, hread, hshown⟩ := proxy_as_shown noAddresses (fun _ _ => rfl) initial_started hacts hrun
  exact ⟨_, config, proxy_booted, rfl, hread, hshown⟩

/-! ### Another mode -/

/-- The acts of another mode, in which the proxy does not end by itself. -/
def Act.Elsewhere : Act → Prop
  | save form => form.Submits Serves ∧ ∃ mode, mode ≠ .proxy ∧ form.Names mode
  | update form => form.Submits Serves
  | ended process => process ≠ .proxy
  | _ => True

/-- The backend is that of another mode. -/
structure State.Elsewhere (s : State) : Prop where
  fit : s.files.Fit Serves
  inStep : ∃ mode values, mode ≠ .proxy ∧ s.files.InStep Serves mode values

theorem stop_elsewhere (host : Host) {files : Files} {mode : Mode} {values : Text → Text}
    (h : files.InStep Serves mode values) (hmode : mode ≠ .proxy) (services : Services) :
    (stop host files.backend services).proxy = services.proxy := by
  rcases stop_cases host h services with ⟨-, hproxy, -⟩ | ⟨hproxy, -⟩
  · exact hproxy
  · exact absurd hproxy hmode

/-- The stop of a save comes when the backend is the new one already. -/
theorem save_elsewhere {net : Netifaces} {host : Host} {s s' : State} (hfit : s.files.Fit Serves) {form : Dict}
    (hform : form.Submits Serves) {mode : Mode} (hmode : mode ≠ .proxy) (hnames : form.Names mode)
    (hstep : step net host s (.save form) = some s') : s'.Elsewhere ∧ s'.services.proxy = s.services.proxy := by
  obtain ⟨files, values, heq, hfit', hinStep, -⟩ := hfit.updateConfigEnforce fitting_serves net hform hnames
  simp only [step, heq] at hstep
  split at hstep
  · exact nomatch hstep
  · obtain rfl := Option.some.inj hstep
    exact ⟨⟨hfit', mode, values, hmode, hinStep⟩, stop_elsewhere host hinStep hmode s.services⟩

theorem State.Elsewhere.step {net : Netifaces} {host : Host} {s s' : State} {act : Act} (h : s.Elsewhere)
    (hact : act.Elsewhere) (hstep : step net host s act = some s') :
    s'.Elsewhere ∧ s'.services.proxy = s.services.proxy := by
  obtain ⟨mode, values, hmode, hinStep⟩ := h.inStep
  have hstart : (start host s.certificates s.files.backend s.services).proxy = s.services.proxy := by
    rcases start_cases host hinStep s.certificates s.services with ⟨-, hproxy, -⟩ | ⟨-, hproxy, -⟩
    · exact hproxy
    · exact absurd hproxy hmode
  cases act with
  | save form =>
      obtain ⟨hform, mode', hmode', hnames⟩ := hact
      exact save_elsewhere h.fit hform hmode' hnames hstep
  | restarted =>
      simp only [Service.step] at hstep
      split at hstep
      · obtain rfl := Option.some.inj hstep
        exact ⟨⟨h.fit, h.inStep⟩, hstart⟩
      · exact nomatch hstep
  | synchronize =>
      obtain ⟨files, aConf, heq, hfit, hinStep', -⟩ := hinStep.synchConfigs fitting_serves net h.fit
      simp only [Service.step, synchConfigsLeaving_of_ok heq, left] at hstep
      split at hstep
      · exact nomatch hstep
      · obtain rfl := Option.some.inj hstep
        exact ⟨⟨hfit, mode, values, hmode, hinStep'⟩, rfl⟩
  | update form =>
      obtain ⟨files, heq, hfit, hbackend, hmodes⟩ := h.fit.updateConfig_armore fitting_serves net hact
      simp only [Service.step, leaving_ok heq, left] at hstep
      split at hstep
      · exact nomatch hstep
      · obtain rfl := Option.some.inj hstep
        exact ⟨⟨hfit, mode, values, hmode, hbackend.trans hinStep.backend, hinStep.fits, hinStep.operation,
          hinStep.shows.of_mode_eq (hmodes mode)⟩, rfl⟩
  | start =>
      obtain rfl := Option.some.inj hstep
      exact ⟨⟨h.fit, h.inStep⟩, hstart⟩
  | stop =>
      obtain rfl := Option.some.inj hstep
      exact ⟨⟨h.fit, h.inStep⟩, stop_elsewhere host hinStep hmode s.services⟩
  | ended process =>
      obtain rfl := Option.some.inj hstep
      cases process with
      | proxy => exact absurd rfl hact
      | kipfw => exact ⟨⟨h.fit, h.inStep⟩, rfl⟩
      | bro => exact ⟨⟨h.fit, h.inStep⟩, rfl⟩
  | setCertificates certificates =>
      obtain rfl := Option.some.inj hstep
      exact ⟨⟨h.fit, h.inStep⟩, rfl⟩

/-- **Another mode does not stop the proxy.** From the form that sets the other mode on, a proxy that runs is not told
to end by any form for another mode, any restart and any stop of the services: it ends by itself or not at all. -/
theorem proxy_outlives_mode {net : Netifaces} {host : Host} {init s : State} (hfit : init.files.Fit Serves)
    {form : Dict} (hform : form.Submits Serves) {mode : Mode} (hmode : mode ≠ .proxy) (hnames : form.Names mode)
    {acts : List Act} (hacts : ∀ act ∈ acts, act.Elsewhere) (hrun : Runs net host init (.save form :: acts) s) :
    s.services.proxy = init.services.proxy := by
  have hsplit : Runs net host init ([.save form] ++ acts) s := hrun
  obtain ⟨saved, hsave, hrest⟩ := hsplit.split
  obtain ⟨hsaved, hproxy⟩ := save_elsewhere hfit hform hmode hnames hsave.of_single
  have hkept : s.Elsewhere ∧ s.services.proxy = saved.services.proxy := by
    refine Run.history_invariant
      (fun acts s => (∀ act ∈ acts, act.Elsewhere) → s.Elsewhere ∧ s.services.proxy = saved.services.proxy)
      (fun _ => ⟨hsaved, rfl⟩) ?_ hrest hacts
    intro acts s act s' _ ih hstep hacts
    obtain ⟨helsewhere, hproxy⟩ := ih fun act hact => hacts act (List.mem_append_left _ hact)
    obtain ⟨helsewhere', hproxy'⟩ :=
      helsewhere.step (hacts act (List.mem_append_right _ List.mem_cons_self)) hstep
    exact ⟨helsewhere', hproxy'.trans hproxy⟩
  exact hkept.2.trans hproxy

def monitorForm : Dict := [("operationMode".toList, some "Passive".toList), ("monIntPsv".toList, some "eth2".toList)]

theorem submits_monitorForm : monitorForm.Submits Serves := by
  refine ⟨?_, ?_⟩
  · intro name value hget
    have hbare : ∀ entry ∈ monitorForm, Bare (str entry.2) := by decide +kernel
    have hstr := bare_get hbare name
    rw [hget] at hstr
    exact hstr
  · have hserves : ∀ (mode : Mode), ∀ s ∈ mode.settings ++ armoreSettings, ∀ value ∈ s.submitted monitorForm, Serves s value := by
      intro mode
      cases mode <;> decide +kernel
    exact fun mode s hs value hvalue => hserves mode s (List.mem_append.mpr hs) value hvalue

/-- The monitor is set, and then the services are stopped: the proxy still runs. -/
theorem proxy_outlives_mode_stopped : ∃ s d, Runs noInterfaces armoreHost booted [.save monitorForm, .restarted, .stop] s
    ∧ booted.services.proxy = some d ∧ d.signalled = false ∧ s.services.proxy = some d := by
  have hfit : booted.files.Fit Serves := initial_started.fit
  have hnames : monitorForm.Names .passive := rfl
  obtain ⟨files, values, heq, -⟩ := hfit.updateConfigEnforce fitting_serves noInterfaces submits_monitorForm hnames
  have hsave : step noInterfaces armoreHost booted (.save monitorForm)
      = some { booted with files, services := stop armoreHost files.backend booted.services, restarting := true } := by
    simp only [step, heq]
    rfl
  have hrun : Runs noInterfaces armoreHost booted [.save monitorForm, .restarted, .stop] _ :=
    ((Run.single hsave).snoc rfl).snoc rfl
  refine ⟨_, _, hrun, proxy_booted, rfl, ?_⟩
  rw [proxy_outlives_mode hfit submits_monitorForm (by decide) hnames ?_ hrun]
  · exact proxy_booted
  · simp [Act.Elsewhere]

end Armore.Service
