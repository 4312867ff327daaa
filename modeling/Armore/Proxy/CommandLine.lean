import Armore.Lib.Getopt
import Armore.Lib.Raising
import Armore.Proxy.AddressKeys
import Armore.Proxy.IPTable

/-!
# The command line of the proxy

`ARMOREProxy.cpp`: `main` reads its options in a loop over `getopt`, takes the two words that remain for the captured
interface and the end point, and starts its engines and the packet processor with what it has read. An option it does
not know, an engine it does not know and any other number of words print the usage and end the program; a netmask
that is no address ends it with an exception that nothing catches.
-/

namespace Armore.Proxy.CommandLine

open Lib (Text)
open Lib.Getopt

inductive ConsoleLoggerOption
  | zeroMQ
  | standard
  deriving DecidableEq

inductive CaptureEngineOption
  | netmap
  | pcap
  | dpdk
  deriving DecidableEq

inductive MiddlewareEngineOption
  | zeroMQ
  | dds
  deriving DecidableEq

/-- The variables of `main`, with the values they are given first. -/
@[ext]
structure Options where
  consoleLoggerOption : ConsoleLoggerOption := .zeroMQ
  captureEngineOption : CaptureEngineOption := .netmap
  middlewareEngineOption : MiddlewareEngineOption := .zeroMQ
  transparentOperation : Bool := false
  serverMode : Bool := false
  securityEnabled : Bool := false
  permissiveMode : Bool := false
  logToConsole : Bool := false
  verboseOutput : Bool := false
  feedbackInterval : Int64 := 1000
  inactiveClientTimeout : Int32 := 60
  inactiveIPTimeout : Int32 := 60
  macResolutionTimeout : Int32 := 10
  ipv4Netmask : AddressObject := .default

structure Command where
  options : Options
  interfaceName : Text
  endPoint : Text

/-- How the program ends before it starts. -/
inductive Exit
  | usage
  | outOfRange
  deriving DecidableEq

/-! ### Numbers -/

/-- `isspace` of the C locale. -/
def isspace (c : Char) : Bool := c = ' ' ∨ (9 ≤ c.toNat ∧ c.toNat ≤ 13)

/-- `strtol` in base ten, on a machine with a `long` of 64 bits: what follows the digits is left, and a number that is
too large becomes the largest one. -/
def strtol (text : Text) : Int :=
  let digits (ds : Text) : Int := Text.decimal (ds.takeWhile Char.isDigit)
  let value :=
    match text.dropWhile isspace with
    | '-' :: ds => -digits ds
    | '+' :: ds => digits ds
    | ds => digits ds
  max (-2 ^ 63) (min value (2 ^ 63 - 1))

def atol (text : Text) : Int64 := .ofInt (strtol text)

/-- The `long` is cut down to an `int`. -/
def atoi (text : Text) : Int32 := .ofInt (strtol text)

/-! ### Options -/

def optstring : Text := "hsepdvi:n:l:t:a:c:m:o:".toList

/-- The first choice whose name is the argument, as `strcasecmp` compares them. -/
def named {α : Type} (choices : List (Text × α)) (optarg : Text) : Except Exit α :=
  match choices.find? fun choice => choice.1.map Char.toLower = optarg.map Char.toLower with
  | some choice => .ok choice.2
  | none => .error .usage

def captureEngineNamed : Text → Except Exit CaptureEngineOption :=
  named [("netmap".toList, .netmap), ("pcap".toList, .pcap), ("dpdk".toList, .dpdk)]

def middlewareEngineNamed : Text → Except Exit MiddlewareEngineOption :=
  named [("zeromq".toList, .zeroMQ), ("dds".toList, .dds)]

def consoleLoggerNamed : Text → Except Exit ConsoleLoggerOption :=
  named [("zeromq".toList, .zeroMQ), ("std".toList, .standard)]

/-- A turn of the loop. A word that is no option stays for later. -/
def readOption (lib : AddressLibrary) (o : Options) : Item → Except Exit Options
  | .option 'h' _ => .ok { o with transparentOperation := true }
  | .option 's' _ => .ok { o with serverMode := true }
  | .option 'e' _ => .ok { o with securityEnabled := true }
  | .option 'p' _ => .ok { o with permissiveMode := true }
  | .option 'd' _ => .ok { o with logToConsole := true }
  | .option 'v' _ => .ok { o with verboseOutput := true }
  | .option 'i' (some optarg) => .ok { o with feedbackInterval := atol optarg }
  | .option 'n' (some optarg) =>
    match AddressObject.parse lib optarg false with
    | some ipv4Netmask => .ok { o with ipv4Netmask }
    | none => .error .outOfRange
  | .option 'l' (some optarg) => .ok { o with inactiveClientTimeout := atoi optarg }
  | .option 't' (some optarg) => .ok { o with inactiveIPTimeout := atoi optarg }
  | .option 'a' (some optarg) => .ok { o with macResolutionTimeout := atoi optarg }
  | .option 'c' (some optarg) => do return { o with captureEngineOption := ← captureEngineNamed optarg }
  | .option 'm' (some optarg) => do return { o with middlewareEngineOption := ← middlewareEngineNamed optarg }
  | .option 'o' (some optarg) => do return { o with consoleLoggerOption := ← consoleLoggerNamed optarg }
  | .operand _ => .ok o
  | _ => .error .usage

/-- What `main` has when it starts its engines. -/
def readCommand (lib : AddressLibrary) (argv : List Text) : Except Exit Command := do
  let items := getopt (kindOf optstring) argv
  let options ← items.foldlM (readOption lib) {}
  match operands items with
  | [interfaceName, endPoint] => return ⟨options, interfaceName, endPoint⟩
  | _ => throw .usage

/-- What the packet processor is constructed with: only a server is permissive, and without a netmask it takes the one
of the captured interface. -/
def Command.config (c : Command) (localMACAddress : MacAddress) (localIPv4NetMask : UInt32) : Config where
  transparentOperation := c.options.transparentOperation
  permissiveMode := c.options.permissiveMode && c.options.serverMode
  ipv4Netmask := if c.options.ipv4Netmask.ipv4Value = 0 then localIPv4NetMask else c.options.ipv4Netmask.ipv4Value
  inactiveIPTimeout := c.options.inactiveIPTimeout.toInt
  macResolutionTimeout := c.options.macResolutionTimeout.toInt
  localMACAddress := localMACAddress
  serverMode := c.options.serverMode

end Armore.Proxy.CommandLine
