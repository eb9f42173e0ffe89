import PtPerf.Support.Peek

/-! The packets of a trace, as `intel-pt-pkt-decoder.c` reads them. A function that is given `buf` and
`len` is a reader: what it asks for with `need` is what the source compares `len` with, and it sees
no other bytes. -/

namespace PtPerf.Decode

open PtPerf.Support.Peek

inductive PktType where
  | bad | pad | tnt | tipPgd | tipPge | tsc | tma | modeExec | modeTsx | mtc | tip | fup | cyc | vmcs
  | psb | psbEnd | cbr | traceStop | pip | ovf | mnt | ptWrite | ptWriteIp | exStop | exStopIp | mwait
  | pwre | pwrx | bbp | bip | bep | bepIp | cfe | cfeIp | evd
  deriving DecidableEq, Repr

/-- `struct intel_pt_pkt`. -/
structure Packet where
  type : PktType
  count : ℕ
  payload : ℕ
  deriving DecidableEq, Repr

inductive PktCtx where
  | noCtx
  | blk4
  | blk8
  deriving DecidableEq, Repr

abbrev Reader := List UInt8 → Peeked Packet

def pktMaxSz : ℕ := 16

/-- A little-endian number. -/
def le (bs : List UInt8) : ℕ := bs.foldr (fun b v => b.toNat + 256 * v) 0

def byteAt (bs : List UInt8) (i : ℕ) : ℕ := (bs.getD i 0).toNat

/-- The number in the `n` bytes from position `i` on. -/
def field (bs : List UInt8) (i n : ℕ) : ℕ := le ((bs.drop i).take n)

/-- `for (; count; count--) { if (v & BIT(top)) break; v <<= 1; }`, in `w` bits. -/
def stopBit (top w : ℕ) : ℕ → ℕ → ℕ × ℕ
  | 0, v => (0, v)
  | count + 1, v => if v.testBit top then (count + 1, v) else stopBit top w count (v * 2 % 2 ^ w)

def getLongTnt : Reader := need 8 fun b =>
  let r := stopBit 63 64 47 (field b 0 8)
  done ⟨.tnt, r.1, r.2 * 2 % 2 ^ 64⟩ 8

def getPip : Reader := need 8 fun b => done ⟨.pip, 0, field b 2 6⟩ 8

def getTracestop : Reader := done ⟨.traceStop, 0, 0⟩ 2

def getCbr : Reader := need 4 fun b => done ⟨.cbr, 0, field b 2 2⟩ 4

/-- The count is `(52 - 5) >> 3`. -/
def getVmcs : Reader := need 7 fun b => done ⟨.vmcs, 5, field b 2 5⟩ 7

def getOvf : Reader := done ⟨.ovf, 0, 0⟩ 2

def getPsb : Reader := need 16 fun b =>
  if [2, 4, 6, 8, 10, 12, 14].all fun i => byteAt b i == 2 && byteAt b (i + 1) == 0x82 then
    done ⟨.psb, 0, 0⟩ 16
  else fail

def getPsbend : Reader := done ⟨.psbEnd, 0, 0⟩ 2

def getTma : Reader := need 7 fun b =>
  done ⟨.tma, byteAt b 5 ||| (byteAt b 6 &&& 1) <<< 8, byteAt b 2 ||| byteAt b 3 <<< 8⟩ 7

def getPad : Reader := done ⟨.pad, 0, 0⟩ 1

def getMnt : Reader := need 11 fun b => done ⟨.mnt, 0, field b 3 8⟩ 11

def get3byte : Reader := need 3 fun b => if byteAt b 2 = 0x88 then getMnt else fail

def getPtwrite (b : List UInt8) : Reader :=
  let count := byteAt b 1 >>> 5 &&& 3
  let type := if (byteAt b 1).testBit 7 then PktType.ptWriteIp else .ptWrite
  match count with
  | 0 => need 6 fun b => done ⟨type, count, field b 2 4⟩ 6
  | 1 => need 10 fun b => done ⟨type, count, field b 2 8⟩ 10
  | _ => fail

def getExstop : Reader := done ⟨.exStop, 0, 0⟩ 2

def getExstopIp : Reader := done ⟨.exStopIp, 0, 0⟩ 2

def getMwait : Reader := need 10 fun b => done ⟨.mwait, 0, field b 2 8⟩ 10

def getPwre : Reader := need 4 fun b => done ⟨.pwre, 0, field b 2 2⟩ 4

def getPwrx : Reader := need 7 fun b => done ⟨.pwrx, 0, field b 2 5⟩ 7

def getBbp : Reader := need 3 fun b => done ⟨.bbp, byteAt b 2 >>> 7, byteAt b 2 &&& 0x1f⟩ 3

def getBip4 : Reader := need 5 fun b => done ⟨.bip, byteAt b 0 >>> 3, field b 1 4⟩ 5

def getBip8 : Reader := need 9 fun b => done ⟨.bip, byteAt b 0 >>> 3, field b 1 8⟩ 9

def getBep : Reader := need 2 fun _ => done ⟨.bep, 0, 0⟩ 2

def getBepIp : Reader := need 2 fun _ => done ⟨.bepIp, 0, 0⟩ 2

def getCfe : Reader := need 4 fun b =>
  done ⟨if (byteAt b 2).testBit 7 then .cfeIp else .cfe, byteAt b 2 &&& 0x1f, byteAt b 3⟩ 4

def getEvd : Reader := need 11 fun b => done ⟨.evd, byteAt b 2 &&& 0x3f, field b 3 8⟩ 11

def getExt : Reader := need 2 fun b =>
  if byteAt b 1 &&& 0x1f = 0x12 then getPtwrite b
  else match byteAt b 1 with
    | 0xa3 => getLongTnt
    | 0x43 => getPip
    | 0x83 => getTracestop
    | 0x03 => getCbr
    | 0xc8 => getVmcs
    | 0xf3 => getOvf
    | 0x82 => getPsb
    | 0x23 => getPsbend
    | 0x73 => getTma
    | 0xc3 => get3byte
    | 0x62 => getExstop
    | 0xe2 => getExstopIp
    | 0xc2 => getMwait
    | 0x22 => getPwre
    | 0xa2 => getPwrx
    | 0x63 => getBbp
    | 0x33 => getBep
    | 0xb3 => getBepIp
    | 0x13 => getCfe
    | 0x53 => getEvd
    | _ => fail

def getShortTnt (byte : ℕ) : Reader :=
  let r := stopBit 7 32 6 byte
  done ⟨.tnt, r.1, r.2 <<< 57 % 2 ^ 64⟩ 1

/-- The loop of `intel_pt_get_cyc`, when `left` more bytes are allowed; `offs` is `10 - left`. -/
def getCycMore : ℕ → ℕ → ℕ → ℕ → ℕ → Reader
  | left, offs, byte, shift, payload =>
    if byte.testBit 0 then
      match left with
      | 0 => fail
      | left + 1 => need (offs + 1) fun b =>
        getCycMore left (offs + 1) (byteAt b offs) (shift + 7)
          (payload ||| (byteAt b offs >>> 1) <<< shift % 2 ^ 64)
    else done ⟨.cyc, 0, payload⟩ offs

def getCyc (byte : ℕ) : Reader := getCycMore 9 1 (byte >>> 2) 5 (byte >>> 3)

def getIp (type : PktType) (byte : ℕ) : Reader :=
  let count := byte >>> 5
  match count with
  | 0 => done ⟨type, count, 0⟩ 1
  | 1 => need 3 fun b => done ⟨type, count, field b 1 2⟩ 3
  | 2 => need 5 fun b => done ⟨type, count, field b 1 4⟩ 5
  | 3 => need 7 fun b => done ⟨type, count, field b 1 6⟩ 7
  | 4 => need 7 fun b => done ⟨type, count, field b 1 6⟩ 7
  | 6 => need 9 fun b => done ⟨type, count, field b 1 8⟩ 9
  | _ => fail

def getMode : Reader := need 2 fun b =>
  match byteAt b 1 >>> 5 with
  | 0 => match byteAt b 1 &&& 3 with
    | 0 => done ⟨.modeExec, byteAt b 1, 16⟩ 2
    | 1 => done ⟨.modeExec, byteAt b 1, 64⟩ 2
    | 2 => done ⟨.modeExec, byteAt b 1, 32⟩ 2
    | _ => fail
  | 1 => if byteAt b 1 &&& 3 = 3 then fail else done ⟨.modeTsx, 0, byteAt b 1 &&& 3⟩ 2
  | _ => fail

def getTsc : Reader := need 8 fun b => done ⟨.tsc, 0, field b 1 7⟩ 8

def getMtc : Reader := need 2 fun b => done ⟨.mtc, 0, byteAt b 1⟩ 2

/-- What `intel_pt_do_get_packet` does outside of a block. -/
def getPlain (byte : ℕ) : Reader :=
  if !byte.testBit 0 then
    if byte = 0 then getPad
    else if byte = 2 then getExt
    else getShortTnt byte
  else if byte.testBit 1 then getCyc byte
  else match byte &&& 0x1f with
    | 0x0d => getIp .tip byte
    | 0x11 => getIp .tipPge byte
    | 0x01 => getIp .tipPgd byte
    | 0x1d => getIp .fup byte
    | 0x19 => match byte with
      | 0x99 => getMode
      | 0x19 => getTsc
      | 0x59 => getMtc
      | _ => fail
    | _ => fail

def doGetPacket (ctx : PktCtx) : Reader := need 1 fun b =>
  match ctx with
  | .noCtx => getPlain (byteAt b 0)
  | .blk4 => if byteAt b 0 &&& 7 = 4 then getBip4 else getPlain (byteAt b 0)
  | .blk8 => if byteAt b 0 &&& 7 = 4 then getBip8 else getPlain (byteAt b 0)

/-- `intel_pt_upd_pkt_ctx`. -/
def updPktCtx (packet : Packet) (ctx : PktCtx) : PktCtx :=
  match packet.type with
  | .bad | .pad | .tsc | .tma | .mtc | .fup | .cyc | .cbr | .mnt | .exStop | .exStopIp | .pwre | .pwrx
  | .bip => ctx
  | .bbp => if packet.count ≠ 0 then .blk4 else .blk8
  | _ => .noCtx

/-- `while (ret < 8 && len > ret && !buf[ret]) ret += 1`, in at most `fuel` steps. -/
def absorb (buf : List UInt8) : ℕ → ℕ → ℕ
  | 0, ret => ret
  | fuel + 1, ret => if ret < 8 && buf[ret]? = some 0 then absorb buf fuel (ret + 1) else ret

/-- `intel_pt_get_packet`: a packet takes the padding after it along. -/
def getPacket (ctx : PktCtx) (buf : List UInt8) : Peeked (Packet × PktCtx) :=
  match doGetPacket ctx buf with
  | .more => .more
  | .bad => .bad
  | .ok packet ret => .ok (packet, updPktCtx packet ctx) (absorb buf 8 ret)

section Settled

/-- The readers that ask once. -/
lemma settled_fixed {lo n : ℕ} (hlo : lo ≤ n) (hn : n ≤ 16) (p : List UInt8 → Packet) :
    Settled lo 16 (need n fun b => done (p b) n) :=
  .need hlo hn fun _ _ => .done _ n 16

lemma settled_getPtwrite (b : List UInt8) : Settled 2 16 (getPtwrite b) := by
  unfold getPtwrite
  generalize (if (byteAt b 1).testBit 7 then PktType.ptWriteIp else .ptWrite) = type
  dsimp only
  split
  · exact settled_fixed (by decide) (by decide) _
  · exact settled_fixed (by decide) (by decide) _
  · exact .fail 2 16

lemma settled_getExt : Settled 1 16 getExt := by
  refine .need (by decide) (by decide) fun b hb => ?_
  split_ifs
  · exact settled_getPtwrite b
  · split
    case h_7 =>
      refine .need (by decide) (by decide) fun b _ => ?_
      split_ifs
      · exact .done _ 16 16
      · exact .fail 16 16
    case h_10 =>
      refine .need (by decide) (by decide) fun b _ => ?_
      split_ifs
      · exact settled_fixed (by decide) (by decide) _
      · exact .fail 3 16
    case h_21 => exact .fail 2 16
    all_goals first
      | exact .done _ 2 16
      | exact settled_fixed (by decide) (by decide) _

lemma settled_getCycMore (left offs byte shift payload : ℕ) (h : left + offs = 10) :
    Settled offs 16 (getCycMore left offs byte shift payload) := by
  induction left generalizing offs byte shift payload with
  | zero =>
    rw [getCycMore]
    split_ifs
    · exact .fail offs 16
    · exact .done _ offs 16
  | succ left ih =>
    rw [getCycMore]
    split_ifs
    · exact .need (Nat.le_succ offs) (by omega) fun b _ => ih _ _ _ _ (by omega)
    · exact .done _ offs 16

lemma settled_getIp (type : PktType) (byte : ℕ) : Settled 1 16 (getIp type byte) := by
  unfold getIp
  dsimp only
  split
  · exact .done _ 1 16
  all_goals first
    | exact settled_fixed (by decide) (by decide) _
    | exact .fail 1 16

lemma settled_getMode : Settled 1 16 getMode := by
  refine .need (by decide) (by decide) fun b _ => ?_
  split
  · split
    all_goals first
      | exact .done _ 2 16
      | exact .fail 2 16
  · split_ifs
    · exact .fail 2 16
    · exact .done _ 2 16
  · exact .fail 2 16

lemma settled_getPlain (byte : ℕ) : Settled 1 16 (getPlain byte) := by
  unfold getPlain
  split_ifs
  · exact .done _ 1 16
  · exact settled_getExt
  · exact .done _ 1 16
  · exact settled_getCycMore 9 1 _ _ _ rfl
  · split
    · exact settled_getIp _ _
    · exact settled_getIp _ _
    · exact settled_getIp _ _
    · exact settled_getIp _ _
    · split
      · exact settled_getMode
      · exact settled_fixed (by decide) (by decide) _
      · exact settled_fixed (by decide) (by decide) _
      · exact .fail 1 16
    · exact .fail 1 16

/-- What the first packet is does not depend on what follows it, and 16 bytes are enough for it. -/
lemma settled_doGetPacket (ctx : PktCtx) {lo : ℕ} (hlo : lo ≤ 1) : Settled lo 16 (doGetPacket ctx) := by
  refine .need hlo (by decide) fun b _ => ?_
  cases ctx with
  | noCtx => exact settled_getPlain _
  | blk4 =>
    dsimp only
    split_ifs
    · exact settled_fixed (by decide) (by decide) _
    · exact settled_getPlain _
  | blk8 =>
    dsimp only
    split_ifs
    · exact settled_fixed (by decide) (by decide) _
    · exact settled_getPlain _

end Settled

end PtPerf.Decode
