import Syswatch.Config

/-! # The command line (`main.c`)

`getopt_long` is the one of the GNU C library: operands may stand between the
options unless `POSIXLY_CORRECT` is set, long options may be abbreviated, and
short ones written together. What it prints about a wrong option is left out,
and so is the usage text. -/

namespace Syswatch
open Lib.CText

/-! ## Options -/

/-- The values that `parse_args` switches on; `unknown` is the `'?'` of `getopt_long`. -/
inductive Opt where
  | interval
  | iterations
  | csv
  | config
  | validateConfig
  | version
  | noCpu
  | noMemory
  | noDisk
  | noNetwork
  | diskDetails
  | netDetails
  | includeLo
  | processes
  | top
  | procSort
  | help
  | unknown
  deriving DecidableEq

/-- `struct option`. -/
structure LongOption where
  name : Bytes
  requiredArgument : Bool
  val : Opt
  deriving DecidableEq

def longOpts : List LongOption :=
  [⟨ascii "interval", true, .interval⟩, ⟨ascii "iterations", true, .iterations⟩,
    ⟨ascii "csv", false, .csv⟩, ⟨ascii "config", true, .config⟩,
    ⟨ascii "validate-config", false, .validateConfig⟩, ⟨ascii "version", false, .version⟩,
    ⟨ascii "no-cpu", false, .noCpu⟩, ⟨ascii "no-memory", false, .noMemory⟩,
    ⟨ascii "no-disk", false, .noDisk⟩, ⟨ascii "no-network", false, .noNetwork⟩,
    ⟨ascii "disk-details", false, .diskDetails⟩, ⟨ascii "net-details", false, .netDetails⟩,
    ⟨ascii "include-lo", false, .includeLo⟩, ⟨ascii "processes", false, .processes⟩,
    ⟨ascii "top", true, .top⟩, ⟨ascii "proc-sort", true, .procSort⟩, ⟨ascii "help", false, .help⟩]

/-- `"i:n:cpt:s:h"`. -/
def shortOpts : List LongOption :=
  [⟨ascii "i", true, .interval⟩, ⟨ascii "n", true, .iterations⟩, ⟨ascii "c", false, .csv⟩,
    ⟨ascii "p", false, .processes⟩, ⟨ascii "t", true, .top⟩, ⟨ascii "s", true, .procSort⟩,
    ⟨ascii "h", false, .help⟩]

/-- What `getopt_long` returns, with `optarg` (empty where the option takes none). -/
structure Found where
  opt : Opt
  optarg : Bytes
  deriving DecidableEq

/-- The option of that name, or the only one that the name abbreviates. -/
def matchLong (name : Bytes) : Option LongOption :=
  match longOpts.find? fun o => o.name = name with
  | some o => some o
  | none =>
    match longOpts.filter fun o => name.isPrefixOf o.name with
    | [o] => some o
    | _ => none

/-- `--name` or `--name=value`: what it finds, and the option whose argument is
the next element of `argv`. -/
def longOption (body : Bytes) : List Found × Option Opt :=
  match matchLong (body.takeWhile (· != 61)), body.dropWhile (· != 61) with
  | none, _ => ([⟨.unknown, []⟩], none)
  | some o, [] => if o.requiredArgument then ([], some o.val) else ([⟨o.val, []⟩], none)
  | some o, _ :: value =>
    if o.requiredArgument then ([⟨o.val, value⟩], none) else ([⟨.unknown, []⟩], none)

/-- The characters behind one dash. -/
def shortOptions : Bytes → List Found × Option Opt
  | [] => ([], none)
  | c :: cs =>
    match shortOpts.find? fun o => o.name = [c] with
    | none => (⟨.unknown, []⟩ :: (shortOptions cs).1, (shortOptions cs).2)
    | some o =>
      if !o.requiredArgument then (⟨o.val, []⟩ :: (shortOptions cs).1, (shortOptions cs).2)
      else if cs = [] then ([], some o.val)
      else ([⟨o.val, cs⟩], none)

/-- The successive results of `getopt_long`, and the operands behind `optind` at
its end. `pending` is the option that takes the next element. -/
def getoptLong (posixlyCorrect : Bool) : Option Opt → List Bytes → List Found × List Bytes
  | none, [] => ([], [])
  | some _, [] => ([⟨.unknown, []⟩], [])
  | some opt, value :: rest =>
    (⟨opt, value⟩ :: (getoptLong posixlyCorrect none rest).1, (getoptLong posixlyCorrect none rest).2)
  | none, arg :: rest =>
    if arg = ascii "--" then ([], rest)
    else if arg.head? ≠ some 45 ∨ arg = ascii "-" then
      if posixlyCorrect then ([], arg :: rest)
      else ((getoptLong posixlyCorrect none rest).1, arg :: (getoptLong posixlyCorrect none rest).2)
    else
      let here := if (ascii "--").isPrefixOf arg then longOption (arg.drop 2) else shortOptions arg.tail
      (here.1 ++ (getoptLong posixlyCorrect here.2 rest).1,
        (getoptLong posixlyCorrect here.2 rest).2)

/-! ## `parse_args` -/

/-- How `parse_args` ends: it returns 0, it returns -1 after a message, or it
leaves the program with `exit(0)`. -/
inductive ParseResult where
  | ok (cfg : ConfigMemory)
  | failed (message : Bytes)
  | exited
  deriving DecidableEq

/-- An option with a whole number. -/
def setIntOption (what : Bytes) (minValue maxValue : Int) (optarg : Bytes)
    (set : Int32 → ConfigMemory) : ParseResult :=
  match parseBoundedInt optarg minValue maxValue with
  | none => .failed (ascii "Invalid " ++ what ++ ascii ": " ++ optarg)
  | some n => .ok (set n)

/-- One turn of the `switch`. -/
def handleOption (cfg : ConfigMemory) (o : Found) : ParseResult :=
  match o.opt with
  | .interval =>
    setIntOption (ascii "interval") 1 86400 o.optarg fun n => { cfg with intervalSec := n }
  | .iterations =>
    setIntOption (ascii "iterations") 0 1000000 o.optarg fun n => { cfg with iterations := n }
  | .csv => .ok { cfg with csvMode := true }
  | .processes => .ok { cfg with showProcesses := true }
  | .top => setIntOption (ascii "top value") 1 1000 o.optarg fun n => { cfg with topN := n }
  | .procSort =>
    if o.optarg = ascii "cpu" then .ok { cfg with processSort := .cpu }
    else if o.optarg = ascii "mem" then .ok { cfg with processSort := .mem }
    else .failed (ascii "Invalid process sort mode: " ++ o.optarg)
  | .help => .exited
  | .config => .ok { cfg with configPath := cfg.configPath.strncpy o.optarg 255 }
  | .validateConfig => .ok { cfg with validateOnly := true }
  | .version => .exited
  | .noCpu => .ok { cfg with showCpu := false }
  | .noMemory => .ok { cfg with showMemory := false }
  | .noDisk => .ok { cfg with showDisk := false }
  | .noNetwork => .ok { cfg with showNetwork := false }
  | .includeLo => .ok { cfg with includeLoopback := true }
  | .diskDetails => .ok { cfg with showDiskDetails := true }
  | .netDetails => .ok { cfg with showNetworkDetails := true }
  | .unknown => .failed []

/-- The `while` loop. -/
def handleOptions : ConfigMemory → List Found → ParseResult
  | cfg, [] => .ok cfg
  | cfg, o :: rest =>
    match handleOption cfg o with
    | .ok cfg => handleOptions cfg rest
    | stopped => stopped

/-- The check behind the operands. -/
def requireMetric (cfg : ConfigMemory) : ParseResult :=
  if !cfg.showCpu && !cfg.showMemory && !cfg.showDisk && !cfg.showNetwork && !cfg.showProcesses then
    .failed (ascii "All columns are disabled. Enable at least one metric.")
  else .ok cfg

/-- Behind the loop: with `--validate-config` an operand may name the file. -/
def finishArgs (cfg : ConfigMemory) : List Bytes → ParseResult
  | [] => requireMetric cfg
  | operand :: rest =>
    if cfg.validateOnly ∧ cfg.configPath.text = [] then
      match rest with
      | [] => requireMetric { cfg with configPath := cfg.configPath.strncpy operand 255 }
      | extra :: _ => .failed (ascii "Unexpected argument: " ++ extra)
    else .failed (ascii "Unexpected argument: " ++ operand)

/-- `parse_args(argc, argv, cfg)`. -/
def parseArgs (posixlyCorrect : Bool) (argv : List Bytes) (cfg : ConfigMemory) : ParseResult :=
  let scan := getoptLong posixlyCorrect none argv.tail
  match handleOptions cfg scan.1 with
  | .ok cfg => finishArgs cfg scan.2
  | stopped => stopped

/-! ## `main` up to the threads -/

/-- `main` exits with a code, or calls `output_init` with the configuration. -/
inductive MainSetup where
  | exits (code : Nat)
  | runs (cfg : ConfigMemory)
  deriving DecidableEq

def mainSetup (posixlyCorrect : Bool) (argv : List Bytes) (files : Files) : MainSetup :=
  match parseArgs posixlyCorrect argv .initDefaultConfig with
  | .exited => .exits 0
  | .failed _ => .exits 1
  | .ok cfg =>
    if cfg.configPath.text = [] then .exits 1
    else
      let load := loadConfigFile files cfg.configPath.text cfg
      if load.1 ≠ 0 then .exits 2
      else if load.2.2.validateOnly then
        if (validateConfig load.2.2).1 ≠ 0 then .exits 3 else .exits 0
      else .runs load.2.2

end Syswatch
