import PtPerf.Trace.Action

/-! The encoding of single records in `pt_compact_format.h`. A pointer into the read buffer is
the list of the bytes from there to the end of what was read. -/

namespace PtPerf.Compact

open PtPerf.Trace

inductive ReadFault
  | pastEnd
  | symbolOutOfOrder
  | unknownSymbol
  deriving DecidableEq, Repr

def write1bytes (n : UInt64) : List UInt8 := [n.toUInt8]

def write2bytes (n : UInt64) : List UInt8 := [(n >>> 8).toUInt8, n.toUInt8]

def write3bytes (n : UInt64) : List UInt8 := [(n >>> 16).toUInt8, (n >>> 8).toUInt8, n.toUInt8]

def write4bytes (n : UInt64) : List UInt8 :=
  [(n >>> 24).toUInt8, (n >>> 16).toUInt8, (n >>> 8).toUInt8, n.toUInt8]

def write8bytes (n : UInt64) : List UInt8 := write4bytes (n >>> 32) ++ write4bytes n

def read1bytes : List UInt8 → Except ReadFault UInt8
  | a :: _ => .ok a
  | _ => .error .pastEnd

def read2bytes : List UInt8 → Except ReadFault UInt16
  | a :: b :: _ => .ok ((a.toUInt64 <<< 8) ||| b.toUInt64).toUInt16
  | _ => .error .pastEnd

def read3bytes : List UInt8 → Except ReadFault UInt32
  | a :: b :: c :: _ => .ok ((a.toUInt32 <<< 16) ||| (b.toUInt32 <<< 8) ||| c.toUInt32)
  | _ => .error .pastEnd

def read4bytes : List UInt8 → Except ReadFault UInt32
  | a :: b :: c :: d :: _ =>
    .ok ((a.toUInt32 <<< 24) ||| (b.toUInt32 <<< 16) ||| (c.toUInt32 <<< 8) ||| d.toUInt32)
  | _ => .error .pastEnd

def read8bytes (ptr : List UInt8) : Except ReadFault UInt64 := do
  let high ← read4bytes ptr
  let low ← read4bytes (ptr.drop 4)
  return (high.toUInt64 <<< 32) ||| low.toUInt64

def writeCompressed (n : UInt64) : List UInt8 :=
  if n < 0x80 then write1bytes n
  else if n < 0x4000 then write2bytes (n ||| 0x8000)
  else if n < 0x200000 then write3bytes (n ||| 0xC00000)
  else if n < 0x10000000 then write4bytes (n ||| 0xE0000000)
  else write1bytes 0xF0 ++ write4bytes n

def readCompressed (ptr : List UInt8) : Except ReadFault UInt64 := do
  let val ← read1bytes ptr
  if val < 0x80 then return val.toUInt64
  else if val < 0xC0 then return (← read2bytes ptr).toUInt64 &&& 0x3FFF
  else if val < 0xE0 then return (← read3bytes ptr).toUInt64 &&& 0x1FFFFF
  else if val < 0xF0 then return (← read4bytes ptr).toUInt64 &&& 0xFFFFFFF
  else return (← read4bytes (ptr.drop 1)).toUInt64

def getCompressedSize (n : UInt64) : ℕ :=
  if n < 0x80 then 1
  else if n < 0x4000 then 2
  else if n < 0x200000 then 3
  else if n < 0x10000000 then 4
  else 5

structure BranchRecord where
  tid : UInt32
  ts : UInt64
  flag : UInt8
  fromId : UInt32
  toId : UInt32
  deriving DecidableEq, Repr

/-- The name is the bytes before its terminating zero. -/
structure SymbolRecord where
  id : UInt32
  addr : UInt64
  offset : UInt32
  name : Str
  deriving DecidableEq, Repr

structure ErrorRecord where
  tid : UInt32
  ts : UInt64
  code : UInt8
  deriving DecidableEq, Repr

inductive Record
  | branch (r : BranchRecord)
  | symbol (r : SymbolRecord)
  | error (r : ErrorRecord)
  deriving DecidableEq, Repr

def BranchRecord.bytes (r : BranchRecord) : List UInt8 :=
  write1bytes ptActionTypeBranch.toUInt64 ++ (writeCompressed r.tid.toUInt64 ++
    (write1bytes r.flag.toUInt64 ++ (write8bytes r.ts ++
      (writeCompressed r.fromId.toUInt64 ++ writeCompressed r.toId.toUInt64))))

def SymbolRecord.bytes (r : SymbolRecord) : List UInt8 :=
  write1bytes ptActionTypeSymbol.toUInt64 ++ (write4bytes r.id.toUInt64 ++ (write8bytes r.addr ++
    (write4bytes r.offset.toUInt64 ++ (write4bytes (UInt64.ofNat r.name.length) ++ r.name))))

def ErrorRecord.bytes (r : ErrorRecord) : List UInt8 :=
  write1bytes ptActionTypeError.toUInt64 ++ (writeCompressed r.tid.toUInt64 ++
    (write8bytes r.ts ++ write1bytes r.code.toUInt64))

def Record.bytes : Record → List UInt8
  | .branch r => r.bytes
  | .symbol r => r.bytes
  | .error r => r.bytes

def ptReadBranchAction (ptr : List UInt8) : Except ReadFault (BranchRecord × List UInt8) := do
  let tid := (← readCompressed ptr).toUInt32
  let ptr := ptr.drop (getCompressedSize tid.toUInt64)
  let flag ← read1bytes ptr
  let ptr := ptr.drop 1
  let ts ← read8bytes ptr
  let ptr := ptr.drop 8
  let fromId := (← readCompressed ptr).toUInt32
  let ptr := ptr.drop (getCompressedSize fromId.toUInt64)
  let toId := (← readCompressed ptr).toUInt32
  let ptr := ptr.drop (getCompressedSize toId.toUInt64)
  return (⟨tid, ts, flag, fromId, toId⟩, ptr)

def ptReadSymbolAction (ptr : List UInt8) : Except ReadFault (SymbolRecord × List UInt8) := do
  let id ← read4bytes ptr
  let ptr := ptr.drop 4
  let addr ← read8bytes ptr
  let ptr := ptr.drop 8
  let offset ← read4bytes ptr
  let ptr := ptr.drop 4
  let nameLen ← read4bytes ptr
  let ptr := ptr.drop 4
  if ptr.length < nameLen.toNat then throw .pastEnd
  return (⟨id, addr, offset, ptr.take nameLen.toNat⟩, ptr.drop nameLen.toNat)

def ptReadErrorAction (ptr : List UInt8) : Except ReadFault (ErrorRecord × List UInt8) := do
  let tid := (← readCompressed ptr).toUInt32
  let ptr := ptr.drop (getCompressedSize tid.toUInt64)
  let ts ← read8bytes ptr
  let ptr := ptr.drop 8
  let code ← read1bytes ptr
  let ptr := ptr.drop 1
  return (⟨tid, ts, code⟩, ptr)

section Words

lemma mul_two_pow_or (x b k : ℕ) (h : b < 2 ^ k) : x * 2 ^ k ||| b = x * 2 ^ k + b := by
  rw [Nat.mul_comm, Nat.two_pow_add_eq_or_of_lt h]

def bigEndian (bytes : List UInt8) : ℕ := bytes.foldl (fun n b => n * 2 ^ 8 + b.toNat) 0

lemma read2bytes_toNat (a b : UInt8) (rest : List UInt8) :
    (read2bytes (a :: b :: rest)).map UInt16.toNat = .ok (bigEndian [a, b]) := by
  have ha := a.toNat_lt
  have hb := b.toNat_lt
  have h := mul_two_pow_or a.toNat b.toNat 8 hb
  refine congrArg Except.ok ?_
  simp only [bigEndian, List.foldl_cons, List.foldl_nil, UInt64.toNat_toUInt16, UInt64.toNat_or,
    UInt64.toNat_shiftLeft, UInt8.toNat_toUInt64, Nat.shiftLeft_eq, UInt64.toNat_ofNat,
    Nat.reduceMod, Nat.reducePow] at h ⊢
  rw [Nat.mod_eq_of_lt (show a.toNat * 256 < 18446744073709551616 by omega), h]
  omega

lemma read3bytes_toNat (a b c : UInt8) (rest : List UInt8) :
    (read3bytes (a :: b :: c :: rest)).map UInt32.toNat = .ok (bigEndian [a, b, c]) := by
  have ha := a.toNat_lt
  have hb := b.toNat_lt
  have hc := c.toNat_lt
  have h₁ := mul_two_pow_or a.toNat (b.toNat * 2 ^ 8) 16 (by omega)
  have h₂ := mul_two_pow_or (a.toNat * 2 ^ 8 + b.toNat) c.toNat 8 hc
  refine congrArg Except.ok ?_
  simp only [bigEndian, List.foldl_cons, List.foldl_nil, UInt32.toNat_or,
    UInt32.toNat_shiftLeft, UInt8.toNat_toUInt32, Nat.shiftLeft_eq, UInt32.toNat_ofNat,
    Nat.reduceMod, Nat.reducePow] at h₁ h₂ ⊢
  rw [Nat.mod_eq_of_lt (show a.toNat * 65536 < 4294967296 by omega),
    Nat.mod_eq_of_lt (show b.toNat * 256 < 4294967296 by omega), h₁,
    show a.toNat * 65536 + b.toNat * 256 = (a.toNat * 256 + b.toNat) * 256 by omega, h₂]
  omega

lemma read4bytes_toNat (a b c d : UInt8) (rest : List UInt8) :
    (read4bytes (a :: b :: c :: d :: rest)).map UInt32.toNat = .ok (bigEndian [a, b, c, d]) := by
  have ha := a.toNat_lt
  have hb := b.toNat_lt
  have hc := c.toNat_lt
  have hd := d.toNat_lt
  have h₁ := mul_two_pow_or a.toNat (b.toNat * 2 ^ 16) 24 (by omega)
  have h₂ := mul_two_pow_or (a.toNat * 2 ^ 8 + b.toNat) (c.toNat * 2 ^ 8) 16 (by omega)
  have h₃ := mul_two_pow_or ((a.toNat * 2 ^ 8 + b.toNat) * 2 ^ 8 + c.toNat) d.toNat 8 hd
  refine congrArg Except.ok ?_
  simp only [bigEndian, List.foldl_cons, List.foldl_nil, UInt32.toNat_or,
    UInt32.toNat_shiftLeft, UInt8.toNat_toUInt32, Nat.shiftLeft_eq, UInt32.toNat_ofNat,
    Nat.reduceMod, Nat.reducePow] at h₁ h₂ h₃ ⊢
  rw [Nat.mod_eq_of_lt (show a.toNat * 16777216 < 4294967296 by omega),
    Nat.mod_eq_of_lt (show b.toNat * 65536 < 4294967296 by omega),
    Nat.mod_eq_of_lt (show c.toNat * 256 < 4294967296 by omega), h₁,
    show a.toNat * 16777216 + b.toNat * 65536 = (a.toNat * 256 + b.toNat) * 65536 by omega, h₂,
    show (a.toNat * 256 + b.toNat) * 65536 + c.toNat * 256 =
      ((a.toNat * 256 + b.toNat) * 256 + c.toNat) * 256 by omega, h₃]
  omega

variable (n : UInt64)

lemma bigEndian_write2bytes : bigEndian (write2bytes n) = n.toNat % 2 ^ 16 := by
  simp [bigEndian, write2bytes, Nat.shiftRight_eq_div_pow]
  omega

lemma bigEndian_write3bytes : bigEndian (write3bytes n) = n.toNat % 2 ^ 24 := by
  simp [bigEndian, write3bytes, Nat.shiftRight_eq_div_pow]
  omega

lemma bigEndian_write4bytes : bigEndian (write4bytes n) = n.toNat % 2 ^ 32 := by
  simp [bigEndian, write4bytes, Nat.shiftRight_eq_div_pow]
  omega

lemma ok_of_map_eq {ε α β : Type} {f : α → β} (hf : Function.Injective f) {x : Except ε α} {a : α}
    (h : x.map f = .ok (f a)) : x = .ok a := by
  cases x with
  | error e => cases h
  | ok b => exact congrArg Except.ok (hf (Except.ok.inj h))

lemma toNat_injective32 : Function.Injective UInt32.toNat := fun _ _ h => UInt32.toNat_inj.mp h

@[simp] lemma read4bytes_write4bytes (rest : List UInt8) :
    read4bytes (write4bytes n ++ rest) = .ok n.toUInt32 := by
  apply ok_of_map_eq toNat_injective32
  refine (read4bytes_toNat _ _ _ _ rest).trans (congrArg Except.ok ?_)
  refine (bigEndian_write4bytes n).trans ?_
  simp

@[simp] lemma read8bytes_write8bytes (rest : List UInt8) :
    read8bytes (write8bytes n ++ rest) = .ok n := by
  have hhigh : read4bytes (write8bytes n ++ rest) = .ok (n >>> 32).toUInt32 := by
    rw [write8bytes, List.append_assoc, read4bytes_write4bytes]
  have hlow : read4bytes ((write8bytes n ++ rest).drop 4) = .ok n.toUInt32 :=
    read4bytes_write4bytes n rest
  simp only [read8bytes, hhigh, hlow, bind, Except.bind, pure, Except.pure]
  refine congrArg Except.ok (UInt64.toNat_inj.mp ?_)
  have hn := n.toNat_lt
  have hor := mul_two_pow_or (n.toNat / 2 ^ 32) (n.toNat % 2 ^ 32) 32 (Nat.mod_lt _ (by decide))
  simp only [UInt64.toNat_or, UInt64.toNat_shiftLeft, UInt32.toNat_toUInt64, UInt64.toNat_toUInt32,
    UInt64.toNat_shiftRight, Nat.shiftLeft_eq, Nat.shiftRight_eq_div_pow, UInt64.toNat_ofNat,
    Nat.reduceMod, Nat.reducePow] at hor ⊢
  rw [Nat.mod_eq_of_lt (show n.toNat / 4294967296 < 4294967296 by omega),
    Nat.mod_eq_of_lt (show n.toNat / 4294967296 * 4294967296 < 18446744073709551616 by omega), hor]
  omega

lemma toNat_or_mark (mark : UInt64) (k a : ℕ) (hm : mark.toNat = a * 2 ^ k) (hn : n.toNat < 2 ^ k) :
    (n ||| mark).toNat = mark.toNat + n.toNat := by
  rw [UInt64.toNat_or, Nat.or_comm, hm, mul_two_pow_or a n.toNat k hn]

lemma toNat_and_mask (mask : UInt64) (k : ℕ) (hm : mask.toNat = 2 ^ k - 1) :
    (n &&& mask).toNat = n.toNat % 2 ^ k := by
  rw [UInt64.toNat_and, hm, Nat.and_two_pow_sub_one_eq_mod]

lemma length_writeCompressed : (writeCompressed n).length = getCompressedSize n := by
  unfold writeCompressed getCompressedSize
  split
  · rfl
  split
  · rfl
  split
  · rfl
  split <;> rfl

lemma read2bytes_write2bytes (rest : List UInt8) :
    read2bytes (write2bytes n ++ rest) = .ok n.toUInt16 := by
  apply ok_of_map_eq fun _ _ h => UInt16.toNat_inj.mp h
  refine (read2bytes_toNat _ _ rest).trans (congrArg Except.ok ?_)
  refine (bigEndian_write2bytes n).trans ?_
  simp

lemma read3bytes_write3bytes (rest : List UInt8) :
    read3bytes (write3bytes n ++ rest) = .ok (UInt32.ofNat (n.toNat % 2 ^ 24)) := by
  apply ok_of_map_eq toNat_injective32
  refine (read3bytes_toNat _ _ _ rest).trans (congrArg Except.ok ?_)
  refine (bigEndian_write3bytes n).trans ?_
  rw [UInt32.toNat_ofNat_of_lt']
  exact (Nat.mod_lt _ (by decide)).trans (by decide)

lemma toNat_shifted_byte (k : UInt64) (hk : k.toNat < 64) :
    (n >>> k).toUInt8.toNat = n.toNat / 2 ^ k.toNat % 256 := by
  rw [UInt64.toNat_toUInt8, UInt64.toNat_shiftRight, Nat.mod_eq_of_lt hk,
    Nat.shiftRight_eq_div_pow]

section Compressed

variable {m n : UInt64} (rest : List UInt8)

lemma readCompressed_one (hn : n.toNat < 0x80) :
    readCompressed (write1bytes n ++ rest) = .ok n := by
  have hv : n.toUInt8.toNat = n.toNat := by
    rw [UInt64.toNat_toUInt8]
    omega
  simp only [readCompressed, write1bytes, List.cons_append, read1bytes, UInt8.lt_iff_toNat_lt,
    hv, UInt8.reduceToNat, bind, Except.bind, pure, Except.pure]
  rw [if_pos hn]
  exact congrArg Except.ok (UInt64.toNat_inj.mp (by rw [UInt8.toNat_toUInt64, hv]))

lemma readCompressed_two (hm : m.toNat = 0x8000 + n.toNat) (hn : n.toNat < 0x4000) :
    readCompressed (write2bytes m ++ rest) = .ok n := by
  have hv : read1bytes (write2bytes m ++ rest) = .ok (m >>> 8).toUInt8 := rfl
  have hb := toNat_shifted_byte m 8 (by decide)
  have hval := toNat_and_mask m.toUInt16.toUInt64 0x3FFF 14 rfl
  simp only [UInt64.reduceToNat, UInt16.toNat_toUInt64, UInt64.toNat_toUInt16] at hb hval
  simp only [readCompressed, hv, UInt8.lt_iff_toNat_lt, read2bytes_write2bytes, hb, UInt8.reduceToNat,
    bind, Except.bind, pure, Except.pure]
  rw [if_neg (by omega), if_pos (by omega)]
  exact congrArg Except.ok (UInt64.toNat_inj.mp (by omega))

lemma readCompressed_three (hm : m.toNat = 0xC00000 + n.toNat) (hn : n.toNat < 0x200000) :
    readCompressed (write3bytes m ++ rest) = .ok n := by
  have hv : read1bytes (write3bytes m ++ rest) = .ok (m >>> 16).toUInt8 := rfl
  have hb := toNat_shifted_byte m 16 (by decide)
  have hval := toNat_and_mask (UInt32.ofNat (m.toNat % 2 ^ 24)).toUInt64 0x1FFFFF 21 rfl
  have hlt : m.toNat % 2 ^ 24 < UInt32.size := (Nat.mod_lt _ (by decide)).trans (by decide)
  rw [UInt32.toNat_toUInt64, UInt32.toNat_ofNat_of_lt' hlt] at hval
  simp only [UInt64.reduceToNat] at hb
  simp only [readCompressed, hv, UInt8.lt_iff_toNat_lt, read3bytes_write3bytes, hb, UInt8.reduceToNat,
    bind, Except.bind, pure, Except.pure]
  rw [if_neg (by omega), if_neg (by omega), if_pos (by omega)]
  exact congrArg Except.ok (UInt64.toNat_inj.mp (by omega))

lemma readCompressed_four (hm : m.toNat = 0xE0000000 + n.toNat) (hn : n.toNat < 0x10000000) :
    readCompressed (write4bytes m ++ rest) = .ok n := by
  have hv : read1bytes (write4bytes m ++ rest) = .ok (m >>> 24).toUInt8 := rfl
  have hb := toNat_shifted_byte m 24 (by decide)
  have hval := toNat_and_mask m.toUInt32.toUInt64 0xFFFFFFF 28 rfl
  simp only [UInt64.reduceToNat, UInt32.toNat_toUInt64, UInt64.toNat_toUInt32] at hb hval
  simp only [readCompressed, hv, UInt8.lt_iff_toNat_lt, read4bytes_write4bytes, hb, UInt8.reduceToNat,
    bind, Except.bind, pure, Except.pure]
  rw [if_neg (by omega), if_neg (by omega), if_neg (by omega), if_pos (by omega)]
  exact congrArg Except.ok (UInt64.toNat_inj.mp (by omega))

lemma readCompressed_five (hn : n.toNat < 2 ^ 32) :
    readCompressed (write1bytes 0xF0 ++ write4bytes n ++ rest) = .ok n := by
  have hr : read4bytes ((write1bytes 0xF0 ++ write4bytes n ++ rest).drop 1) = .ok n.toUInt32 :=
    read4bytes_write4bytes n rest
  have hv : read1bytes (write1bytes 0xF0 ++ write4bytes n ++ rest) = .ok 0xF0 := rfl
  simp only [readCompressed, hv, hr, bind, Except.bind, pure, Except.pure]
  refine congrArg Except.ok (UInt64.toNat_inj.mp ?_)
  rw [UInt32.toNat_toUInt64, UInt64.toNat_toUInt32, Nat.mod_eq_of_lt hn]

theorem readCompressed_writeCompressed (hn : n.toNat < 2 ^ 32) :
    readCompressed (writeCompressed n ++ rest) = .ok n := by
  unfold writeCompressed
  simp only [UInt64.lt_iff_toNat_lt, UInt64.reduceToNat]
  split
  · exact readCompressed_one rest ‹_›
  split
  · exact readCompressed_two rest (toNat_or_mark n 0x8000 14 2 rfl ‹_›) ‹_›
  split
  · exact readCompressed_three rest (toNat_or_mark n 0xC00000 21 6 rfl ‹_›) ‹_›
  split
  · exact readCompressed_four rest (toNat_or_mark n 0xE0000000 28 14 rfl ‹_›) ‹_›
  · exact readCompressed_five rest hn

end Compressed

end Words

section Records

variable (rest : List UInt8)

lemma readCompressed_word (w : UInt32) :
    readCompressed (writeCompressed w.toUInt64 ++ rest) = .ok w.toUInt64 := by
  apply readCompressed_writeCompressed
  rw [UInt32.toNat_toUInt64]
  exact w.toNat_lt

@[simp] lemma drop_writeCompressed (n : UInt64) :
    (writeCompressed n ++ rest).drop (getCompressedSize n) = rest := by
  rw [← length_writeCompressed, List.drop_left]

@[simp] lemma drop_write8bytes (n : UInt64) : (write8bytes n ++ rest).drop 8 = rest := rfl

@[simp] lemma drop_write4bytes (n : UInt64) : (write4bytes n ++ rest).drop 4 = rest := rfl

lemma ptReadBranchAction_bytes (r : BranchRecord) :
    ptReadBranchAction (r.bytes.tail ++ rest) = .ok (r, rest) := by
  simp [BranchRecord.bytes, write1bytes, ptReadBranchAction, readCompressed_word, read1bytes, bind,
    Except.bind, pure, Except.pure]

lemma ptReadSymbolAction_bytes (r : SymbolRecord) (hname : r.name.length < 2 ^ 32) :
    ptReadSymbolAction (r.bytes.tail ++ rest) = .ok (r, rest) := by
  have hlen : r.name.length % 4294967296 = r.name.length := Nat.mod_eq_of_lt hname
  simp [SymbolRecord.bytes, write1bytes, ptReadSymbolAction, hlen, bind, Except.bind, pure,
    Except.pure]

lemma ptReadErrorAction_bytes (r : ErrorRecord) :
    ptReadErrorAction (r.bytes.tail ++ rest) = .ok (r, rest) := by
  simp [ErrorRecord.bytes, write1bytes, ptReadErrorAction, readCompressed_word, read1bytes, bind,
    Except.bind, pure, Except.pure]

end Records

end PtPerf.Compact
