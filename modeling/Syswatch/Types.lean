import Syswatch.Lib.CText

/-! # Constants and data types of `syswatch.h`

Arrays with an element count are lists that carry their bound. A `double` is its
rational value; a `char[n]` field is a `CString n`. -/

namespace Syswatch
open Lib.CText

/-! The sizes of the `char` arrays. -/

instance neZero16 : NeZero 16 := ⟨by decide⟩
instance neZero32 : NeZero 32 := ⟨by decide⟩
instance neZero64 : NeZero 64 := ⟨by decide⟩
instance neZero128 : NeZero 128 := ⟨by decide⟩
instance neZero256 : NeZero 256 := ⟨by decide⟩

def MAX_INTERFACES : Nat := 32
def MAX_DISKS : Nat := 32
def MAX_CORES : Nat := 256
def MAX_QUEUE_DEPTH : Nat := 10000
def MAX_EVENT_SIZE : Nat := 4096
def SYSWATCH_VERSION : Bytes := ascii "0.1.1"

inductive ProcessSortMode where
  | cpu
  | mem
  deriving DecidableEq

structure Timespec where
  tvSec : Int
  tvNsec : Int
  deriving DecidableEq

/-- `syswatch_config_t`, less the fields of the removed display renderer, which
nothing reads. -/
structure SyswatchConfig where
  intervalSec : Int32
  iterations : Int32
  showCpu : Bool
  showMemory : Bool
  showDisk : Bool
  showNetwork : Bool
  showProcesses : Bool
  includeLoopback : Bool
  outputType : CString 16
  outputUrl : CString 256
  outputPath : CString 256
  outputAuthHeader : CString 256
  outputBatchSize : Int32
  outputBatchIntervalSeconds : Int32
  outputRetryMaxAttempts : Int32
  outputRetryBackoffSeconds : Int32
  hostOverride : CString 128
  deriving DecidableEq

/-- `init_default_config`. -/
def initDefaultConfig : SyswatchConfig where
  intervalSec := 1
  iterations := 0
  showCpu := true
  showMemory := true
  showDisk := true
  showNetwork := true
  showProcesses := false
  includeLoopback := false
  outputType := CString.ofBytes 16 (ascii "stdout")
  outputUrl := .empty 256
  outputPath := .empty 256
  outputAuthHeader := .empty 256
  outputBatchSize := 0
  outputBatchIntervalSeconds := 0
  outputRetryMaxAttempts := 0
  outputRetryBackoffSeconds := 0
  hostOverride := .empty 128

structure CpuTimes where
  user : UInt64
  nice : UInt64
  system : UInt64
  idle : UInt64
  iowait : UInt64
  irq : UInt64
  softirq : UInt64
  steal : UInt64
  deriving DecidableEq

structure CpuSnapshot where
  total : CpuTimes
  cores : List CpuTimes
  bound : cores.length ≤ MAX_CORES
  deriving DecidableEq

structure CpuStats where
  usagePct : ℚ
  userPct : ℚ
  systemPct : ℚ
  idlePct : ℚ
  coreCount : Nat
  coreUsagePct : List ℚ
  deriving DecidableEq

structure MemoryStats where
  memTotal : UInt64
  memAvailable : UInt64
  memFree : UInt64
  buffers : UInt64
  cached : UInt64
  swapTotal : UInt64
  swapFree : UInt64
  memUsed : UInt64
  swapUsed : UInt64
  deriving DecidableEq

structure DiskCounter where
  name : CString 32
  sectorsRead : UInt64
  sectorsWritten : UInt64
  deriving DecidableEq

structure DiskSnapshot where
  items : List DiskCounter
  bound : items.length ≤ MAX_DISKS
  deriving DecidableEq

structure DiskRateEntry where
  name : CString 32
  readBps : ℚ
  writeBps : ℚ
  deriving DecidableEq

structure DiskStats where
  items : List DiskRateEntry
  bound : items.length ≤ MAX_DISKS
  deriving DecidableEq

structure NetCounter where
  name : CString 32
  rxBytes : UInt64
  txBytes : UInt64
  deriving DecidableEq

structure NetSnapshot where
  items : List NetCounter
  bound : items.length ≤ MAX_INTERFACES
  deriving DecidableEq

structure NetRateEntry where
  name : CString 32
  rxBps : ℚ
  txBps : ℚ
  deriving DecidableEq

structure NetStats where
  items : List NetRateEntry
  bound : items.length ≤ MAX_INTERFACES
  deriving DecidableEq

structure InternalMetrics where
  bufferDepth : UInt64
  eventsDroppedTotal : UInt64
  eventsEmittedTotal : UInt64
  deriving DecidableEq

end Syswatch
