import PtPerf.Support.Text
import PtPerf.Compact.Symbols

/-! What `perf script` prints: the flags that the decoder puts on a branch, the line of a branch
sample and the line of an AUX trace error, and the flag of the compact format. -/

namespace PtPerf.Script

open PtPerf.Support PtPerf.Support.Text PtPerf.Trace PtPerf.Compact

namespace IpFlag

def branch : UInt32 := 0x1
def call : UInt32 := 0x2
def ret : UInt32 := 0x4
def conditional : UInt32 := 0x8
def syscallret : UInt32 := 0x10
def async : UInt32 := 0x20
def interrupt : UInt32 := 0x40
def txAbort : UInt32 := 0x80
def traceBegin : UInt32 := 0x100
def traceEnd : UInt32 := 0x200
def inTx : UInt32 := 0x400
def vmentry : UInt32 := 0x800
def vmexit : UInt32 := 0x1000
def intrDisable : UInt32 := 0x2000
def intrToggle : UInt32 := 0x4000

def chars : Str := lit "bcrosyiABExghDt"

end IpFlag

open IpFlag

section Decoder

inductive InsnOp
  | other | call | ret | jcc | jmp | loop | iret | int | syscall | sysret | vmentry

/-- What `intel_pt_sample_flags` reads of the decoder's state. -/
structure DecoderState where
  abortTx : Bool
  async : Bool
  inTx : Bool
  traceBegin : Bool
  traceEnd : Bool
  iflagChg : Bool
  fromIflag : Bool
  toIflag : Bool
  fromNr : Bool
  toNr : Bool
  fromIp : UInt64
  toIp : UInt64
  insnOp : InsnOp

def intelPtInsnType : InsnOp → UInt32
  | .other => 0
  | .call => branch ||| call
  | .ret => branch ||| ret
  | .jcc => branch ||| conditional
  | .jmp => branch
  | .loop => branch ||| conditional
  | .iret => branch ||| ret ||| interrupt
  | .int => branch ||| call ||| interrupt
  | .syscall => branch ||| call ||| syscallret
  | .sysret => branch ||| ret ||| syscallret
  | .vmentry => branch ||| call ||| vmentry

def intelPtSampleFlags (capEventTrace : Bool) (s : DecoderState) : UInt32 :=
  let flags :=
    if s.abortTx then branch ||| txAbort
    else if s.async then
      if s.toIp = 0 then branch ||| traceEnd
      else if s.fromNr && !s.toNr then branch ||| call ||| vmexit
      else branch ||| call ||| async ||| interrupt
    else
      (if s.fromIp ≠ 0 then intelPtInsnType s.insnOp else branch ||| traceBegin) |||
        if s.inTx then inTx else 0
  let flags := flags ||| if s.traceBegin then traceBegin else 0
  let flags := flags ||| if s.traceEnd then traceEnd else 0
  if !capEventTrace then flags
  else if s.iflagChg then
    flags ||| (if !s.fromIflag then intrDisable else 0) |||
      if s.fromIflag != s.toIflag then intrToggle else 0
  else flags ||| if !s.toIflag then intrDisable else 0

end Decoder

section Flags

def sampleFlags : List (UInt32 × Str) :=
  [(branch ||| call, lit "call"), (branch ||| ret, lit "return"),
    (branch ||| conditional, lit "jcc"), (branch, lit "jmp"),
    (branch ||| call ||| interrupt, lit "int"), (branch ||| ret ||| interrupt, lit "iret"),
    (branch ||| call ||| syscallret, lit "syscall"), (branch ||| ret ||| syscallret, lit "sysret"),
    (branch ||| async, lit "async"), (branch ||| call ||| async ||| interrupt, lit "hw int"),
    (branch ||| txAbort, lit "tx abrt"), (branch ||| traceBegin, lit "tr strt"),
    (branch ||| traceEnd, lit "tr end"), (branch ||| call ||| vmentry, lit "vmentry"),
    (branch ||| call ||| vmexit, lit "vmexit")]

def sampleFlagsNew : List (UInt32 × UInt8) :=
  [(branch ||| call, 0), (branch ||| ret, 1), (branch ||| conditional, 2), (branch, 3),
    (branch ||| traceBegin, 4), (branch ||| call ||| traceEnd, 5), (branch ||| ret ||| traceEnd, 6),
    (branch ||| call ||| async ||| interrupt ||| traceEnd, 7),
    (branch ||| call ||| syscallret ||| traceEnd, 8), (branch ||| traceEnd, 9),
    (branch ||| call ||| interrupt, 10), (branch ||| ret ||| interrupt, 11),
    (branch ||| call ||| syscallret, 12), (branch ||| ret ||| syscallret, 13),
    (branch ||| async, 14), (branch ||| call ||| async ||| interrupt, 15), (branch ||| txAbort, 16),
    (branch ||| call ||| vmentry, 17), (branch ||| call ||| vmexit, 18)]

def ptActionUnknownFlag : UInt8 := 19

def sampleFlagsToName (flags : UInt32) : Option Str :=
  (sampleFlags.find? fun e => e.1 == flags).map Prod.snd

def sampleFlagsToNew (flags : UInt32) : UInt8 :=
  ((sampleFlagsNew.find? fun e => e.1 == flags).map Prod.snd).getD ptActionUnknownFlag

def flagChars (flags : UInt32) : Str :=
  (List.range 32).filterMap fun i =>
    if flags.toNat.testBit i then some (chars.getD i '?'.toUInt8) else none

def sprintfFlags (flags : UInt32) : Str :=
  let xf := inTx ||| intrDisable ||| intrToggle
  let mark (f : UInt32) (s : String) : Str := if flags &&& f ≠ 0 then lit s else []
  let xs := if flags &&& xf ≠ 0 then
      lit "(" ++ mark inTx "x" ++ mark intrDisable "D" ++ mark intrToggle "t" ++ lit ")"
    else []
  let without (f : UInt32) : Option Str :=
    if flags &&& f ≠ 0 then sampleFlagsToName (flags &&& ~~~(xf ||| f)) else none
  match sampleFlagsToName (flags &&& ~~~xf) with
  | some name => padRight 15 name ++ padLeft 6 ' '.toUInt8 xs
  | none =>
    match without traceBegin with
    | some name => lit "tr strt " ++ padRight 7 name ++ padLeft 6 ' '.toUInt8 xs
    | none =>
      match without traceEnd with
      | some name => lit "tr end  " ++ padRight 7 name ++ padLeft 6 ' '.toUInt8 xs
      | none => flagChars flags

def fprintfFlags (flags : UInt32) : Str := lit "  " ++ padRight 21 (sprintfFlags flags) ++ lit " "

end Flags

section Lines

def nsecPerSec : UInt64 := 1000000000

def secs (time : UInt64) : UInt64 := time / nsecPerSec

def nsecs (time : UInt64) : UInt64 := time - secs time * nsecPerSec

/-- A branch sample with its two ends resolved; `ip` and `addr` are the addresses of the ends. -/
structure BranchEvent where
  tid : UInt32
  cpu : UInt32
  time : UInt64
  flags : UInt32
  src : Place
  dst : Place

def fprintfStart (x : BranchEvent) : Str :=
  padLeft 5 ' '.toUInt8 (signed x.tid.toInt32.toInt) ++ lit " " ++
    (lit "[" ++ signedZeros 3 x.cpu.toInt32.toInt ++ lit "] ") ++
    (padLeft 5 ' '.toUInt8 (digits 10 (secs x.time).toNat) ++ lit "." ++
      padLeft 9 '0'.toUInt8 (digits 10 (nsecs x.time).toNat) ++ lit ": ")

def fprintfSymnameOffs (pl : Place) : Str :=
  match pl.sym with
  | some sym => sym.name ++ lit "+0x" ++ digits 16 pl.offset.toNat
  | none => unknownSymbol

def fprintfPlace (pl : Place) : Str :=
  padLeft 16 ' '.toUInt8 (digits 16 pl.address.toNat) ++ lit " " ++ fprintfSymnameOffs pl

def fprintfBts (x : BranchEvent) : Str :=
  lit " " ++ fprintfPlace x.src ++ lit " => " ++ fprintfPlace x.dst

/-- The line of `process_event` for the fields that `perf_script` asks for. -/
def fprintfSample (x : BranchEvent) : Str := fprintfStart x ++ fprintfFlags x.flags ++ fprintfBts x

structure AuxtraceError where
  type : UInt32
  code : UInt32
  cpu : UInt32
  pid : UInt32
  tid : UInt32
  fmt : UInt32
  ip : UInt64
  time : UInt64
  msg : Str
  machinePid : UInt32
  vcpu : UInt32

def maxAuxtraceErrorMsg : ℕ := 64

def auxtraceSynthGuestError (type code cpu pid tid : UInt32) (ip : UInt64) (msg : Str)
    (timestamp : UInt64) (machinePid vcpu : UInt32) : AuxtraceError where
  type := type
  code := code
  cpu := cpu
  pid := pid
  tid := tid
  fmt := if machinePid ≠ 0 then 2 else 1
  ip := ip
  time := timestamp
  msg := msg.take (maxAuxtraceErrorMsg - 1)
  machinePid := machinePid
  vcpu := if machinePid ≠ 0 then vcpu else 0

def intelPtErrMsgs : List Str :=
  [lit "Memory allocation failed", lit "Internal error", lit "Bad packet", lit "No more data",
    lit "Failed to get instruction", lit "Trace doesn't match instruction", lit "Overflow packet",
    lit "Lost trace data", lit "Unknown error!",
    lit "Never-ending loop (refer perf config intel-pt.max-loops)", lit "Broken emulated ptwrite"]

def intelPtErrUnk : ℕ := 9

def intelPtErrLost : UInt32 := 8

/-- The messages of the codes from 1 on; any other code counts as the unknown one. -/
def intelPtStrerror (code : UInt32) : Str :=
  intelPtErrMsgs.getD ((if code = 0 ∨ intelPtErrMsgs.length < code.toNat then intelPtErrUnk
    else code.toNat) - 1) []

def intelPtSynthError (code cpu pid tid : UInt32) (ip timestamp : UInt64)
    (machinePid vcpu : UInt32) : AuxtraceError :=
  auxtraceSynthGuestError 1 code cpu pid tid ip (intelPtStrerror code) timestamp machinePid vcpu

/-- A lost-data error of the decoder. -/
structure LostData where
  cpu : UInt32
  pid : UInt32
  tid : UInt32
  ip : UInt64
  time : UInt64
  machinePid : UInt32
  vcpu : UInt32

def LostData.event (l : LostData) : AuxtraceError :=
  intelPtSynthError intelPtErrLost l.cpu l.pid l.tid l.ip l.time l.machinePid l.vcpu

def auxtraceErrorName (type : UInt32) : Str :=
  if type = 1 then lit "instruction trace" else lit "unknown AUX"

/-- The string that starts at the time field: its bytes, and then the message. -/
def timeAsMsg (e : AuxtraceError) : Str :=
  ((List.range 8).map (fun i => (e.time >>> UInt64.ofNat (8 * i)).toUInt8) ++ e.msg).takeWhile (· ≠ 0)

def fprintfAuxtraceError (e : AuxtraceError) : Str :=
  lit " " ++ auxtraceErrorName e.type ++ lit " error type " ++ digits 10 e.type.toNat ++
    (if e.fmt ≠ 0 ∧ e.time ≠ 0 then
      lit " time " ++ digits 10 (secs e.time).toNat ++ lit "." ++
        padLeft 9 '0'.toUInt8 (digits 10 (nsecs e.time).toNat)
    else lit " time 0") ++
    (if e.fmt ≥ 2 ∧ e.machinePid ≠ 0 then
      lit " machine_pid " ++ signed e.machinePid.toInt32.toInt ++ lit " vcpu " ++
        signed e.vcpu.toInt32.toInt
    else []) ++
    (lit " cpu " ++ signed e.cpu.toInt32.toInt ++ lit " pid " ++ signed e.pid.toInt32.toInt ++
      lit " tid " ++ signed e.tid.toInt32.toInt ++ lit " ip " ++ hashHex e.ip.toNat ++
      lit " code " ++ digits 10 e.code.toNat ++ lit ": " ++
      if e.fmt = 0 then timeAsMsg e else e.msg)

end Lines

section Compact

/-- The sample as `perf_sample__fprint_compact` writes it. -/
def BranchEvent.compact (x : BranchEvent) : BranchSample where
  tid := x.tid
  time := x.time
  flag := sampleFlagsToNew x.flags
  src := x.src
  dst := x.dst

def AuxtraceError.compact (e : AuxtraceError) : ErrorRecord := ⟨e.tid, e.time, e.code.toUInt8⟩

end Compact

end PtPerf.Script
