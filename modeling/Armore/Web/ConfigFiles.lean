import Armore.Lib.FileLines
import Armore.Lib.Raising
import Armore.Lib.Strip
import Armore.Lib.Table

/-!
# The configuration files

`domains/support/config.py`: the web server keeps a configuration for each mode of operation and one of the
addresses of ARMORE, and shares them with the configuration of the proxy, the backend. A file is written from
its template, whose variables are filled in, and read line by line as keys and values. `updateConfig` fills the
template of a mode with what a form has, or else with what the old file has; `synchConfigs` takes what the
backend has for a form and then writes the backend.
-/

namespace Armore.Web.ConfigFiles

open Lib Lib.Text

inductive Exn
  | attributeError
  | keyError
  | typeError
  | valueError
  deriving DecidableEq

/-! ### Reading -/

/-- The keys and values of a file. -/
abbrev Config := Table Text Text

/-- `re.sub(r'"', "", x.strip())`. -/
def unquote (x : Text) : Text := (strip whitespace x).filter (· ≠ '"')

/-- A line of a file, read into what the lines before gave. -/
def readLine (ret : Config) (l : Text) : Except Exn Config :=
  if (l.splitOn '=').length < 2 then .ok ret
  else
    match (l.rdropWhile whitespace).splitOn '=' with
    | [key, value] => .ok (ret.put (unquote key) (unquote value))
    | _ => .error .valueError

/-- A file that is not there has no keys. -/
def getConfigFromFile : Option Text → Except Exn Config
  | none => .ok ∅
  | some configFile => (readlines configFile).foldlM readLine ∅

structure Files where
  armore : Option Text
  proxy : Option Text
  passive : Option Text
  transparent : Option Text
  backend : Option Text
  deriving DecidableEq

def getArmoreConfigBackend (files : Files) : Except Exn Config := getConfigFromFile files.backend

def getArmoreConfig (files : Files) : Except Exn Config := getConfigFromFile files.armore

def getProxyConfig (files : Files) : Except Exn Config := getConfigFromFile files.proxy

def getTransparentConfig (files : Files) : Except Exn Config := getConfigFromFile files.transparent

def getPassiveConfig (files : Files) : Except Exn Config := getConfigFromFile files.passive

def getConfig (files : Files) (mode : Text) : Except Exn Config :=
  if lower mode = "proxy".toList then getProxyConfig files
  else if lower mode = "passive".toList then getPassiveConfig files
  else if lower mode = "transparent".toList then getTransparentConfig files
  else getArmoreConfig files

/-! ### Templates -/

/-- No character of the value ends the line, the key or the quotes. -/
def Bare (text : Text) : Prop := Unbroken text ∧ '=' ∉ text ∧ '"' ∉ text

/-- Nor is there a space at either end. -/
def Plain (text : Text) : Prop := Bare text ∧ strip whitespace text = text

instance (text : Text) : Decidable (Unbroken text) := inferInstanceAs (Decidable (_ ∧ _))

instance (text : Text) : Decidable (Bare text) := inferInstanceAs (Decidable (_ ∧ _))

instance (text : Text) : Decidable (Plain text) := inferInstanceAs (Decidable (_ ∧ _))

/-- What follows a key: text, or a variable. -/
inductive Source
  | constant (text : Text)
  | variable (name : Text)
  deriving DecidableEq

def Source.text (values : Text → Text) : Source → Text
  | .constant text => text
  | .variable name => values name

/-- Lines without a key, and then a line `key=value` for each setting: with spaces around the equals sign or
without, the value in quotes or not. A key that is there twice has the same value both times. -/
structure Template where
  header : List Text
  spaced : Bool
  quoted : Bool
  settings : List (Text × Source)
  header_plain : ∀ line ∈ header, Unbroken line ∧ '=' ∉ line := by decide +kernel
  keys_plain : ∀ setting ∈ settings, Plain setting.1 := by decide +kernel
  constants_plain : ∀ setting ∈ settings, Plain (setting.2.text fun _ => []) := by decide +kernel
  same_source : ∀ setting ∈ settings, ∀ other ∈ settings, setting.1 = other.1 → setting.2 = other.2 := by decide +kernel

/-- What is handed to a template: names and values, some of which are `None`. -/
abbrev Dict := List (Text × Option Text)

def Dict.get (config : Dict) (name : Text) : Option Text := (config.lookup name).join

/-- `str(value)`. -/
def str (value : Option Text) : Text := value.getD "None".toList

namespace Template

variable (t : Template)

def equals : Text := if t.spaced then " = ".toList else "=".toList

def quote : Text := if t.quoted then "\"".toList else []

def line (key value : Text) : Text := key ++ t.equals ++ t.quote ++ value ++ t.quote

/-- A variable without a value is a `KeyError`. -/
def substituteLine (inp : Dict) : Text × Source → Except Exn Text
  | (key, .constant text) => .ok (t.line key text)
  | (key, .variable name) =>
    match inp.lookup name with
    | some value => .ok (t.line key (str value))
    | none => .error .keyError

def substitute (inp : Dict) : Except Exn Text := do
  let lines ← t.settings.mapM (t.substituteLine inp)
  return ((t.header ++ lines).map (· ++ ['\n'])).flatten

end Template

def bash : List Text := ["#!/usr/bin/env bash".toList]

def armoreConfigTemplate : Template where
  header := bash
  spaced := false
  quoted := false
  settings := [
    ("Management_IP".toList, .variable "managementIp".toList),
    ("Management_Mask".toList, .variable "managementMask".toList),
    ("Management_Interface".toList, .variable "managementInterface".toList),
    ("Internal_IP".toList, .variable "internalIp".toList),
    ("Internal_Mask".toList, .variable "internalMask".toList),
    ("Internal_Interface".toList, .variable "internalInterface".toList),
    ("External_IP".toList, .variable "externalIp".toList),
    ("External_Mask".toList, .variable "externalMask".toList),
    ("External_Interface".toList, .variable "externalInterface".toList),
    ("Operation".toList, .variable "operationMode".toList)]

def proxyConfigTemplate : Template where
  header := bash
  spaced := false
  quoted := false
  settings := [
    ("Roletype".toList, .variable "roleType".toList),
    ("Port".toList, .variable "port".toList),
    ("Bind".toList, .variable "bind".toList),
    ("Capture".toList, .variable "capture".toList),
    ("Encryption".toList, .variable "encryption".toList),
    ("Firewall".toList, .variable "firewall".toList),
    ("Interface".toList, .variable "interface".toList),
    ("Firewall".toList, .variable "firewall".toList),
    ("Operation".toList, .constant "Proxy".toList)]

def passiveConfigTemplate : Template where
  header := bash
  spaced := false
  quoted := false
  settings := [
    ("Monitored_Interface".toList, .variable "monitored_interface".toList),
    ("Operation".toList, .constant "Passive".toList)]

def transparentConfigTemplate : Template where
  header := bash
  spaced := false
  quoted := true
  settings := [
    ("Netmask".toList, .variable "netmask".toList),
    ("BroadcastIp".toList, .variable "broadcastIp".toList),
    ("BridgeIp".toList, .variable "bridgeIp".toList),
    ("Interface1".toList, .variable "interface1".toList),
    ("Interface2".toList, .variable "interface2".toList),
    ("Gateway".toList, .variable "gateway".toList),
    ("Route".toList, .variable "route".toList),
    ("Operation".toList, .constant "Transparent".toList)]

def generated : List Text := [
  "###############################################################################".toList,
  "#This file automatically generated by /etc/armore/armoreproxycfg.sh ".toList,
  "###############################################################################".toList,
  "".toList]

def proxyConfigBackendTemplate : Template where
  header := generated
  spaced := true
  quoted := false
  settings := [
    ("Operation".toList, .variable "operationMode".toList),
    ("Roletype".toList, .variable "roleType".toList),
    ("Interface".toList, .variable "interface".toList),
    ("Encryption".toList, .variable "encryption".toList),
    ("Bind".toList, .variable "bind".toList),
    ("Port".toList, .variable "port".toList),
    ("Capture".toList, .variable "capture".toList),
    ("Firewall".toList, .variable "firewall".toList),
    ("ManagementIp".toList, .variable "managementIp".toList),
    ("ManagementInt".toList, .variable "managementInterface".toList),
    ("ManagementMask".toList, .variable "managementMask".toList)]

def passiveConfigBackendTemplate : Template where
  header := generated
  spaced := true
  quoted := false
  settings := [
    ("Operation".toList, .variable "operationMode".toList),
    ("Interface".toList, .variable "monitored_interface".toList),
    ("ManagementIp".toList, .variable "managementIp".toList),
    ("ManagementInt".toList, .variable "managementInterface".toList),
    ("ManagementMask".toList, .variable "managementMask".toList)]

def transparentConfigBackendTemplate : Template where
  header := generated
  spaced := true
  quoted := false
  settings := [
    ("Operation".toList, .variable "operationMode".toList),
    ("Interface".toList, .constant "br0".toList),
    ("Interface1".toList, .variable "interface1".toList),
    ("Interface2".toList, .variable "interface2".toList),
    ("Bind".toList, .variable "bridgeIp".toList),
    ("BroadcastIp".toList, .variable "broadcastIp".toList),
    ("Netmask".toList, .variable "netmask".toList),
    ("Gateway".toList, .variable "gateway".toList),
    ("Route".toList, .variable "route".toList),
    ("ManagementIp".toList, .variable "managementIp".toList),
    ("ManagementInt".toList, .variable "managementInterface".toList),
    ("ManagementMask".toList, .variable "managementMask".toList)]

/-! ### The modes -/

inductive Mode
  | proxy
  | passive
  | transparent
  deriving DecidableEq

namespace Mode

def name : Mode → Text
  | proxy => "Proxy".toList
  | passive => "Passive".toList
  | transparent => "Transparent".toList

def template : Mode → Template
  | proxy => proxyConfigTemplate
  | passive => passiveConfigTemplate
  | transparent => transparentConfigTemplate

def backendTemplate : Mode → Template
  | proxy => proxyConfigBackendTemplate
  | passive => passiveConfigBackendTemplate
  | transparent => transparentConfigBackendTemplate

end Mode

/-- The mode whose name is compared with. -/
def modeNamed (operationMode : Option Text) : Option Mode :=
  [Mode.proxy, Mode.passive, Mode.transparent].find? fun mode => operationMode = some mode.name

/-! ### Writing -/

inductive ConfType
  | mode
  | armore
  | backend
  deriving DecidableEq

/-- The file of a mode. -/
def Files.setMode (files : Files) (mode : Mode) (content : Text) : Files :=
  match mode with
  | .proxy => { files with proxy := some content }
  | .passive => { files with passive := some content }
  | .transparent => { files with transparent := some content }

/-- A mode without a name of its own is reported and nothing is written. -/
def writeConfig (files : Files) (config : Dict) (theType : ConfType) : Except Exn Files :=
  if theType = .armore then do
    return { files with armore := some (← armoreConfigTemplate.substitute config) }
  else
    match modeNamed (config.get "operationMode".toList) with
    | some mode => do return files.setMode mode (← mode.template.substitute config)
    | none => .ok files

/-- There is no template to open for another mode. -/
def writeBackendConfig (files : Files) (config : Dict) : Except Exn Files :=
  match modeNamed (config.get "operationMode".toList) with
  | some mode => do return { files with backend := some (← mode.backendTemplate.substitute config) }
  | none => .error .typeError

/-! ### Updating -/

/-- `a or b`. -/
def pyOr (a b : Option Text) : Option Text := if a.getD [] = [] then b else a

/-- A variable of a template, the names under which a form may have it and the key of the old file. -/
structure Setting where
  name : Text
  formNames : List Text
  oldKey : Text
  deriving DecidableEq

def Setting.newValue (s : Setting) (config : Dict) (oldConfig : Config) : Option Text :=
  s.formNames.foldr (fun name other => pyOr (config.get name) other) (oldConfig.get? s.oldKey)

def newConfig (settings : List Setting) (config : Dict) (oldConfig : Config) : Dict :=
  settings.map fun s => (s.name, s.newValue config oldConfig)

def roleType : Setting := ⟨"roleType".toList, ["networkRole".toList, "roleType".toList], "RoleType".toList⟩

def proxySettings : List Setting := [
  roleType,
  ⟨"port".toList, ["targetPort".toList, "port".toList], "Port".toList⟩,
  ⟨"bind".toList, ["targetIp".toList, "bind".toList], "Bind".toList⟩,
  ⟨"capture".toList, ["captureMode".toList, "capture".toList], "Capture".toList⟩,
  ⟨"encryption".toList, ["encryption".toList, "encryption".toList], "Encryption".toList⟩,
  ⟨"firewall".toList, ["firewall".toList, "firewall".toList], "Firewall".toList⟩,
  ⟨"interface".toList, ["monIntProxy".toList, "interface".toList], "Interface".toList⟩]

def passiveSettings : List Setting := [
  ⟨"monitored_interface".toList, ["monIntPsv".toList, "monitored_interface".toList], "Monitored_Interface".toList⟩]

def transparentSettings : List Setting := [
  ⟨"netmask".toList, ["netmask".toList], "Netmask".toList⟩,
  ⟨"broadcastIp".toList, ["broadcastIp".toList], "BroadcastIp".toList⟩,
  ⟨"bridgeIp".toList, ["bridgeIp".toList], "BridgeIp".toList⟩,
  ⟨"interface1".toList, ["brdgInt1".toList, "interface1".toList], "Interface1".toList⟩,
  ⟨"interface2".toList, ["brdgInt2".toList, "interface2".toList], "Interface2".toList⟩,
  ⟨"gateway".toList, ["gateway".toList], "Gateway".toList⟩,
  ⟨"route".toList, ["route".toList], "Route".toList⟩]

/-- What an update function makes of a form and the old file of its mode. -/
def updateModeConfig (settings : List Setting) (operationMode : Text) (config : Dict) (oldConfig : Config) : Dict :=
  newConfig settings config oldConfig ++ [("operationMode".toList, some operationMode)]

def updateProxyConfig (files : Files) (config : Dict) : Except Exn Dict := do
  return updateModeConfig proxySettings "Proxy".toList config (← getConfig files "proxy".toList)

def updatePassiveConfig (files : Files) (config : Dict) : Except Exn Dict := do
  return updateModeConfig passiveSettings "Passive".toList config (← getPassiveConfig files)

def updateTransparentConfig (files : Files) (config : Dict) : Except Exn Dict := do
  return updateModeConfig transparentSettings "Transparent".toList config (← getTransparentConfig files)

/-- `netifaces.ifaddresses`: address and netmask of the interface, when it has any of its own family, and `none`
for an interface that is not there. Both are written as words. -/
structure Netifaces where
  ifaddresses : Text → Option (Option (Text × Text))
  plain : ∀ interface addr netmask, ifaddresses interface = some (some (addr, netmask)) → Plain addr ∧ Plain netmask

/-- An interface that cannot be looked up has the empty address, one without an address has `None`. -/
def fromInt (net : Netifaces) (part : Text × Text → Text) (interface : Option Text) : Option Text :=
  match interface.bind net.ifaddresses with
  | some addresses => addresses.map part
  | none => some []

def getIpAddrFromInt (net : Netifaces) : Option Text → Option Text := fromInt net Prod.fst

def getNetmaskFromInt (net : Netifaces) : Option Text → Option Text := fromInt net Prod.snd

/-- The settings that a form and the old file decide on. -/
def armoreSettings : List Setting := [
  ⟨"operationMode".toList, ["operationMode".toList, "Operation".toList], "Operation".toList⟩,
  ⟨"managementIp".toList, ["mgtIp".toList, "managementIp".toList], "Management_IP".toList⟩,
  ⟨"managementMask".toList, ["mgtMsk".toList, "managementMask".toList], "Management_Mask".toList⟩,
  ⟨"managementInterface".toList, ["mgtInt".toList, "managementInterface".toList], "Management_Interface".toList⟩]

def internalInt : Setting := ⟨"internalInterface".toList, ["intInt".toList], "Internal_Interface".toList⟩

def externalInt : Setting := ⟨"externalInterface".toList, ["extInt".toList], "External_Interface".toList⟩

/-- The addresses of an interface: of the form, of the old file or of the interface itself. -/
def addresses (net : Netifaces) (int ip mask : Setting) (config : Dict) (oldConfig : Config) : Dict :=
  let interface := int.newValue config oldConfig
  [(int.name, interface),
    (ip.name, pyOr (ip.newValue config oldConfig) (getIpAddrFromInt net interface)),
    (mask.name, pyOr (mask.newValue config oldConfig) (getNetmaskFromInt net interface))]

def newArmoreConfig (net : Netifaces) (config : Dict) (oldConfig : Config) : Dict :=
  newConfig armoreSettings config oldConfig
    ++ addresses net internalInt ⟨"internalIp".toList, ["intIp".toList], "Internal_IP".toList⟩
      ⟨"internalMask".toList, ["intMsk".toList], "Internal_Mask".toList⟩ config oldConfig
    ++ addresses net externalInt ⟨"externalIp".toList, ["extIp".toList], "External_IP".toList⟩
      ⟨"externalMask".toList, ["extMsk".toList], "External_Mask".toList⟩ config oldConfig

/-- The new configuration, and whether the address of the web server changes. -/
def updateArmoreConfig (net : Netifaces) (files : Files) (config : Dict) : Except Exn (Dict × Bool) := do
  let oldConfig ← getArmoreConfig files
  let new := newArmoreConfig net config oldConfig
  return (new, decide (oldConfig.get? "Management_IP".toList ≠ new.get "managementIp".toList))

/-- The new configuration of a mode; `writeConfig` is handed `None` for another name. -/
def updateMode (files : Files) (config : Dict) (mode : Text) : Except Exn Dict :=
  if lower mode = "proxy".toList then updateProxyConfig files config
  else if lower mode = "passive".toList then updatePassiveConfig files config
  else if lower mode = "transparent".toList then updateTransparentConfig files config
  else .error .attributeError

/-- `updateConfig` without `enforce`, which neither a synchronization nor a plain call sets. -/
def updateConfig (net : Netifaces) (files : Files) (config : Dict) : ConfType → Except Exn Files
  | .mode =>
    match pyOr (config.get "operationMode".toList) (config.get "Operation".toList) with
    | none => .error .attributeError
    | some mode => do
      let new ← updateMode files config mode
      writeConfig files new .mode
  | .armore => do
    let (newArmoreConfig, _) ← updateArmoreConfig net files config
    writeConfig files newArmoreConfig .armore
  | .backend => writeBackendConfig files config

/-! ### Synchronization -/

/-- What the backend has under some keys, by the names of the variables. -/
def fromBackend (armoreBackConf : Config) (names : List (Text × Text)) : Dict :=
  names.map fun (name, key) => (name, armoreBackConf.get? key)

def proxyNames : List (Text × Text) := [
  ("roleType".toList, "Roletype".toList), ("port".toList, "Port".toList), ("bind".toList, "Bind".toList),
  ("capture".toList, "Capture".toList), ("encryption".toList, "Encryption".toList),
  ("firewall".toList, "Firewall".toList), ("interface".toList, "Interface".toList)]

def passiveNames : List (Text × Text) := [("monitored_interface".toList, "Interface".toList)]

def transparentNames : List (Text × Text) := [
  ("interface1".toList, "Interface1".toList), ("interface2".toList, "Interface2".toList),
  ("bridgeIp".toList, "Bind".toList), ("broadcastIp".toList, "BroadcastIp".toList),
  ("netmask".toList, "Netmask".toList), ("gateway".toList, "Gateway".toList), ("route".toList, "Route".toList)]

def managementNames : List (Text × Text) := [
  ("managementIp".toList, "ManagementIp".toList), ("managementInterface".toList, "ManagementInt".toList),
  ("managementMask".toList, "ManagementMask".toList)]

/-- `mConf`: what the backend has of the mode. -/
def synchMode (armoreBackConf : Config) (mode : Text) : Dict :=
  if mode = "Proxy".toList then
    fromBackend armoreBackConf proxyNames ++ [("operationMode".toList, some "Proxy".toList)]
  else if mode = "Passive".toList then
    fromBackend armoreBackConf passiveNames ++ [("operationMode".toList, some "Passive".toList)]
  else if mode = "Transparent".toList then
    fromBackend armoreBackConf transparentNames ++ [("Operation".toList, some "Transparent".toList)]
  else []

/-- `aConf`: what it has of ARMORE. The interface a passive ARMORE listens on is its internal one. -/
def synchArmore (net : Netifaces) (armoreBackConf : Config) (mode : Text) : Dict :=
  fromBackend armoreBackConf managementNames ++ [("operationMode".toList, some mode)]
    ++ if mode = "Passive".toList then
        let interface := armoreBackConf.get? "Interface".toList
        [("internalInterface".toList, interface), ("internalIp".toList, getIpAddrFromInt net interface)]
      else []

/-- Later entries go first in a dictionary, so those of `aConf` stand before those of `mConf`. -/
def synchConfigs (net : Netifaces) (files : Files) : Except Exn (Files × Option Dict) := do
  let armoreBackConf ← getArmoreConfigBackend files
  match armoreBackConf.get? "Operation".toList with
  | none => return (files, none)
  | some mode =>
    let mConf := synchMode armoreBackConf mode
    let aConf := synchArmore net armoreBackConf mode
    let files ← updateConfig net files mConf .mode
    let files ← updateConfig net files aConf .armore
    let maConf := aConf ++ mConf
    let files ← updateConfig net files maConf .backend
    return (files, some aConf)

end Armore.Web.ConfigFiles
