import Armore.Lib.Shell

/-!
# The service script

`/etc/init.d/armoreconfig` reads the configuration of the backend with `grep` and `sed` and starts and stops what the
mode of operation asks for: the proxy with the arguments it makes of the settings, the firewall in front of it and
the monitor. It does nothing on another kernel than that of ARMORE.
-/

namespace Armore.Service

open Lib (Text)
open Lib.Shell

/-! ### The settings -/

/-- The variables that are read from the configuration, all of them empty without one. -/
@[ext]
structure Settings where
  operation : Text
  roletype : Text
  interface : Text
  encryption : Text
  bind : Text
  port : Text
  capture : Text
  firewall : Text
  deriving DecidableEq

/-- `$(cat $APROXYCFG | grep key\ = | sed 's/key\ =//' | sed 's/ //')`. -/
def setting (key aproxycfg : Text) : Text :=
  substitution ((grep (key ++ " =".toList) (lines aproxycfg)).map fun line =>
    delete " ".toList (delete (key ++ " =".toList) line))

def readSettings : Option Text → Settings
  | none => ⟨[], [], [], [], [], [], [], []⟩
  | some aproxycfg => {
      operation := setting "Operation".toList aproxycfg
      roletype := setting "Roletype".toList aproxycfg
      interface := setting "Interface".toList aproxycfg
      encryption := setting "Encryption".toList aproxycfg
      bind := setting "Bind".toList aproxycfg
      port := setting "Port".toList aproxycfg
      capture := setting "Capture".toList aproxycfg
      firewall := setting "Firewall".toList aproxycfg }

def ipfwInterface : Text := "vl1".toList

def kipfwInterface : Text := "valea:p0 valeb:p0".toList

/-! ### The processes -/

/-- A process that `start-stop-daemon` has put into the background. Once it has been sent a signal it is about to end. -/
structure Daemon where
  argv : List Text
  signalled : Bool := false
  deriving DecidableEq

/-- `start-stop-daemon --start`: nothing is started beside a process that is there, not even beside one that is about
to end. -/
def startDaemon (argv : List Text) : Option Daemon → Option Daemon
  | none => some { argv }
  | some daemon => some daemon

/-- `start-stop-daemon --stop --signal QUIT`, which does not wait for the end. -/
def stopDaemon (daemon : Option Daemon) : Option Daemon := daemon.map fun d => { d with signalled := true }

structure Services where
  proxy : Option Daemon := none
  kipfw : Option Daemon := none
  bro : Bool := false
  deriving DecidableEq

/-- Where the script runs: whether the kernel is that of ARMORE, and the directory in which it expands words. -/
structure Host where
  armoreKernel : Bool
  directory : Directory

structure Flags where
  roleflag : Text
  encryptionflag : Text
  captureflag : Text
  deriving DecidableEq

/-- The certificates have to be there for a proxy with encryption; the flag of the capture engine is made and not
used. -/
def doProxy (certificates : Bool) (s : Settings) : Flags where
  roleflag := if s.roletype = "Server".toList then "-s".toList else []
  encryptionflag := if s.encryption = "Enabled".toList ∧ certificates = true then "-e".toList else []
  captureflag :=
    if s.capture = "NetMap".toList then "-c netmap".toList
    else if s.capture = "Pcap".toList then "-c pcap".toList
    else []

/-- `DAEMON_ARGS`, and `DAEMON_ARGS_FW` for the interface of the firewall. -/
def daemonArgs (flags : Flags) (interface : Text) (s : Settings) : Text :=
  flags.roleflag ++ " ".toList ++ flags.encryptionflag ++ " ".toList ++ interface ++ " ".toList ++ s.bind ++ ":".toList
    ++ s.port

/-- The interface the proxy captures. -/
def captured (s : Settings) : Text := if s.firewall = "Enabled".toList then ipfwInterface else s.interface

/-- The words the proxy is started with. -/
def proxyArgv (host : Host) (certificates : Bool) (s : Settings) : List Text :=
  host.directory.words (daemonArgs (doProxy certificates s) (captured s) s)

def doMonitor (services : Services) : Services := { services with bro := true }

def doStart (host : Host) (certificates : Bool) (s : Settings) (services : Services) : Services :=
  if s.operation = "Proxy".toList then
    doMonitor { services with
      proxy := startDaemon (proxyArgv host certificates s) services.proxy
      kipfw :=
        if s.firewall = "Enabled".toList then startDaemon (host.directory.words kipfwInterface) services.kipfw
        else services.kipfw }
  else if s.operation = "Passive".toList ∨ s.operation = "Transparent".toList then doMonitor services
  else services

/-- The proxy is stopped in its own mode only. -/
def doStop (s : Settings) (services : Services) : Services :=
  if s.operation = "Proxy".toList then
    { proxy := stopDaemon services.proxy, kipfw := stopDaemon services.kipfw, bro := false }
  else { services with bro := false }

def start (host : Host) (certificates : Bool) (aproxycfg : Option Text) (services : Services) : Services :=
  if host.armoreKernel = true then doStart host certificates (readSettings aproxycfg) services else services

def stop (host : Host) (aproxycfg : Option Text) (services : Services) : Services :=
  if host.armoreKernel = true then doStop (readSettings aproxycfg) services else services

/-! ### What the script reads of a line -/

/-- The line of another key has the pattern of a key only when it ends with this key. -/
theorem infix_line_iff {key other value : Text} (hother : '=' ∉ other) (hvalue : '=' ∉ value) :
    key ++ " =".toList <:+: other ++ " = ".toList ++ value ↔ key <:+ other := by
  have hline : other ++ " = ".toList ++ value = (other ++ [' ']) ++ '=' :: (' ' :: value) := by
    simp
  constructor
  · rintro ⟨before, after, heq⟩
    have hpieces : (other ++ [' ']) ++ '=' :: (' ' :: value) = (before ++ key ++ [' ']) ++ '=' :: after := by
      rw [← hline, ← heq]
      simp
    rw [List.append_cons_inj_of_notMem (by simpa using hother) (by simpa using hvalue)] at hpieces
    exact ⟨before, (List.append_cancel_right hpieces.1).symm⟩
  · rintro ⟨before, rfl⟩
    exact ⟨before, ' ' :: value, by simp⟩

/-- The line of a key gives its value. -/
theorem delete_line (key value : Text) :
    delete " ".toList (delete (key ++ " =".toList) (key ++ " = ".toList ++ value)) = value := by
  have hline : key ++ " = ".toList ++ value = (key ++ " =".toList) ++ (" ".toList ++ value) := by simp
  rw [hline, delete_append (by simp), delete_append (by simp)]

end Armore.Service
