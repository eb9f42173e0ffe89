import PtPerf.Decode.PacketStream

/-! What the packets of a trace say. The format is stated here from the side of the processor, which
writes branches, addresses and times; reading the packets back gives the same. -/

namespace PtPerf.Decode

open PtPerf.Support.Peek

/-- `intel_pt_calc_ip`. -/
def calcIp (packet : Packet) (lastIp : ℕ) : ℕ :=
  match packet.count with
  | 1 => lastIp &&& 0xffffffffffff0000 ||| packet.payload
  | 2 => lastIp &&& 0xffffffff00000000 ||| packet.payload
  | 3 => if packet.payload.testBit 47 then packet.payload ||| 0xffff000000000000 else packet.payload
  | 4 => lastIp &&& 0xffff000000000000 ||| packet.payload
  | 6 => packet.payload
  | _ => 0

/-- The branches that `intel_pt_walk_tnt` takes, one after the other. -/
def branches : ℕ → ℕ → List Bool
  | 0, _ => []
  | count + 1, payload => payload.testBit 63 :: branches count (payload * 2 % 2 ^ 64)

inductive Sense where
  | branches (taken : List Bool)
  | noIp (type : PktType)
  | ip (type : PktType) (ip : ℕ)
  | cycles (n : ℕ)
  | tsc (t : ℕ)
  | mtc (n : ℕ)
  deriving DecidableEq, Repr

/-- What a packet says, and the last address after it. -/
def Packet.sense (lastIp : ℕ) (p : Packet) : Option Sense × ℕ :=
  match p.type with
  | .tnt => (some (.branches (branches p.count p.payload)), lastIp)
  | .tip | .tipPge | .tipPgd | .fup =>
    if p.count = 0 then (some (.noIp p.type), lastIp)
    else (some (.ip p.type (calcIp p lastIp)), calcIp p lastIp)
  | .cyc => (some (.cycles p.payload), lastIp)
  | .tsc => (some (.tsc p.payload), lastIp)
  | .mtc => (some (.mtc p.payload), lastIp)
  | _ => (none, lastIp)

def senses : ℕ → List Packet → List Sense
  | _, [] => []
  | lastIp, p :: ps => (p.sense lastIp).1.toList ++ senses (p.sense lastIp).2 ps

inductive IpKind where
  | tip
  | tipPge
  | tipPgd
  | fup
  deriving DecidableEq, Repr

def IpKind.type : IpKind → PktType
  | .tip => .tip
  | .tipPge => .tipPge
  | .tipPgd => .tipPgd
  | .fup => .fup

def IpKind.opcode : IpKind → ℕ
  | .tip => 0x0d
  | .tipPge => 0x11
  | .tipPgd => 0x01
  | .fup => 0x1d

/-- How much of an address is written. -/
inductive IpBytes where
  | update16
  | update32
  | extend48
  | update48
  | full
  deriving DecidableEq, Repr

namespace IpBytes

def count : IpBytes → ℕ
  | .update16 => 1
  | .update32 => 2
  | .extend48 => 3
  | .update48 => 4
  | .full => 6

def length : IpBytes → ℕ
  | .update16 => 2
  | .update32 => 4
  | .extend48 => 6
  | .update48 => 6
  | .full => 8

/-- The address can be written this way after the last one. -/
def Fits (lastIp ip : ℕ) : IpBytes → Prop
  | .update16 => ip / 2 ^ 16 = lastIp / 2 ^ 16
  | .update32 => ip / 2 ^ 32 = lastIp / 2 ^ 32
  | .extend48 => ip < 2 ^ 47 ∨ 2 ^ 64 - 2 ^ 47 ≤ ip
  | .update48 => ip / 2 ^ 48 = lastIp / 2 ^ 48
  | .full => True

end IpBytes

/-- What the processor writes. -/
inductive Item where
  | tnt (taken : List Bool)
  | longTnt (taken : List Bool)
  | noIp (kind : IpKind)
  | ip (kind : IpKind) (size : IpBytes) (ip : ℕ)
  | cyc (n : ℕ)
  | tsc (t : ℕ)
  | mtc (n : ℕ)
  | pad
  deriving DecidableEq, Repr

def leBytes : ℕ → ℕ → List UInt8
  | 0, _ => []
  | n + 1, v => UInt8.ofNat v :: leBytes n (v / 256)

def bitsValue : List Bool → ℕ
  | [] => 0
  | b :: bs => b.toNat * 2 ^ bs.length + bitsValue bs

/-- The branches behind the stop bit. -/
def stopped (taken : List Bool) : ℕ := 2 ^ taken.length + bitsValue taken

/-- Seven bits a byte; the lowest bit says whether another byte follows. -/
def cycRest (n : ℕ) : List UInt8 :=
  if n < 128 then [UInt8.ofNat (2 * n)] else UInt8.ofNat (2 * (n % 128) + 1) :: cycRest (n / 128)
decreasing_by omega

namespace Item

def bytes : Item → List UInt8
  | .tnt taken => [UInt8.ofNat (2 * stopped taken)]
  | .longTnt taken => 2 :: 0xa3 :: leBytes 6 (stopped taken)
  | .noIp kind => [UInt8.ofNat kind.opcode]
  | .ip kind size a => UInt8.ofNat (32 * size.count + kind.opcode) :: leBytes size.length a
  | .cyc n => if n < 32 then [UInt8.ofNat (8 * n + 3)] else UInt8.ofNat (8 * (n % 32) + 7) :: cycRest (n / 32)
  | .tsc t => 0x19 :: leBytes 7 t
  | .mtc n => [0x59, UInt8.ofNat n]
  | .pad => [0]

def sense : Item → Option Sense
  | .tnt taken => some (.branches taken)
  | .longTnt taken => some (.branches taken)
  | .noIp kind => some (.noIp kind.type)
  | .ip kind _ a => some (.ip kind.type a)
  | .cyc n => some (.cycles n)
  | .tsc t => some (.tsc t)
  | .mtc n => some (.mtc n)
  | .pad => none

def lastIp (last : ℕ) : Item → ℕ
  | .ip _ _ a => a
  | _ => last

/-- The item can be written after the address `last`. -/
def Fits (last : ℕ) : Item → Prop
  | .tnt taken => taken ≠ [] ∧ taken.length ≤ 6
  | .longTnt taken => taken ≠ [] ∧ taken.length ≤ 47
  | .ip _ size a => a < 2 ^ 64 ∧ size.Fits last a
  | .cyc n => n < 2 ^ 64
  | .tsc t => t < 2 ^ 56
  | .mtc n => n < 256
  | _ => True

end Item

def Written : ℕ → List Item → Prop
  | _, [] => True
  | last, i :: is => i.Fits last ∧ Written (i.lastIp last) is

section Numbers

@[simp] lemma length_leBytes (n v : ℕ) : (leBytes n v).length = n := by
  induction n generalizing v with
  | zero => rfl
  | succ n ih => rw [leBytes, List.length_cons, ih]

lemma le_leBytes (n v : ℕ) : le (leBytes n v) = v % 256 ^ n := by
  induction n generalizing v with
  | zero => simp [leBytes, le, Nat.mod_one]
  | succ n ih =>
    have hrest := ih (v / 256)
    have hbyte : (UInt8.ofNat v).toNat = v % 256 := UInt8.toNat_ofNat'
    simp only [le, leBytes, List.foldr_cons, hbyte] at hrest ⊢
    rw [hrest, pow_succ, Nat.mul_comm (256 ^ n) 256, Nat.mod_mul]

lemma bitsValue_lt (bs : List Bool) : bitsValue bs < 2 ^ bs.length := by
  induction bs with
  | nil => exact Nat.one_pos
  | cons b bs ih =>
    rw [bitsValue, List.length_cons, pow_succ]
    cases b <;> simp only [Bool.toNat_false, Bool.toNat_true] <;> omega

/-- The branches are read from the top of the payload, whatever is below them. -/
lemma branches_eq (bs : List Bool) (r : ℕ) (hlen : bs.length ≤ 64) (hr : r < 2 ^ (64 - bs.length)) :
    branches bs.length (bitsValue bs * 2 ^ (64 - bs.length) + r) = bs := by
  induction bs generalizing r with
  | nil => rfl
  | cons b bs ih =>
    rw [List.length_cons] at hlen hr ⊢
    have hlt := bitsValue_lt bs
    have hpow : 2 ^ (64 - bs.length) = 2 * 2 ^ (64 - (bs.length + 1)) := by
      rw [← pow_succ']
      congr 1
      omega
    have htop : 2 ^ bs.length * 2 ^ (64 - (bs.length + 1)) = 2 ^ 63 := by
      rw [← pow_add]
      congr 1
      omega
    obtain ⟨low, hlow⟩ : ∃ low, low = bitsValue bs * 2 ^ (64 - (bs.length + 1)) + r := ⟨_, rfl⟩
    have hlow_lt : low < 2 ^ 63 := by
      rw [← htop, hlow]
      calc bitsValue bs * 2 ^ (64 - (bs.length + 1)) + r
          < bitsValue bs * 2 ^ (64 - (bs.length + 1)) + 2 ^ (64 - (bs.length + 1)) := by omega
        _ = (bitsValue bs + 1) * 2 ^ (64 - (bs.length + 1)) := by ring
        _ ≤ 2 ^ bs.length * 2 ^ (64 - (bs.length + 1)) := Nat.mul_le_mul_right _ hlt
    have hpayload : bitsValue (b :: bs) * 2 ^ (64 - (bs.length + 1)) + r = b.toNat * 2 ^ 63 + low := by
      rw [bitsValue, hlow, ← htop]
      ring
    have hnext : (b.toNat * 2 ^ 63 + low) * 2 % 2 ^ 64 = bitsValue bs * 2 ^ (64 - bs.length) + 2 * r := by
      have htwice : low * 2 = bitsValue bs * 2 ^ (64 - bs.length) + 2 * r := by
        rw [hlow, hpow]
        ring
      rw [← htwice]
      cases b <;> simp only [Bool.toNat_false, Bool.toNat_true] <;> omega
    have hbit : (b.toNat * 2 ^ 63 + low).testBit 63 = b := by
      have hdiv : (b.toNat * 2 ^ 63 + low) / 2 ^ 63 = b.toNat := by
        rw [Nat.mul_comm, Nat.mul_add_div (Nat.two_pow_pos 63), Nat.div_eq_of_lt hlow_lt, Nat.add_zero]
      rw [Nat.testBit_eq_decide_div_mod_eq, hdiv]
      cases b <;> rfl
    rw [hpayload, branches, hbit, hnext, ih (2 * r) (by omega) (by omega)]

/-- The loop moves the stop bit to the top. -/
lemma stopBit_eq (top w count k v : ℕ) (hk : k ≤ count) (hcount : count ≤ top) (htop : top < w)
    (hlow : 2 ^ (top - (count - k)) ≤ v) (hhigh : v < 2 ^ (top - (count - k) + 1)) :
    0 < k → stopBit top w count v = (k, v * 2 ^ (count - k)) := by
  intro hpos
  induction count generalizing v with
  | zero => omega
  | succ count ih =>
    rw [stopBit]
    by_cases heq : k = count + 1
    · have hbit : v.testBit top = true := by
        rw [heq, Nat.sub_self, Nat.sub_zero] at hlow hhigh
        rw [Nat.testBit_eq_decide_div_mod_eq, decide_eq_true_eq]
        have hdiv : v / 2 ^ top = 1 := by
          rw [Nat.div_eq_iff (Nat.two_pow_pos _)]
          constructor
          · omega
          · rw [pow_succ] at hhigh
            omega
        rw [hdiv]
      rw [if_pos hbit, heq, Nat.sub_self, pow_zero, Nat.mul_one]
    · have hsmall : v < 2 ^ top := hhigh.trans_le (Nat.pow_le_pow_right two_pos (by omega))
      have hbit : ¬ v.testBit top = true := by
        rw [Nat.testBit_lt_two_pow hsmall]
        exact Bool.false_ne_true
      have hmod : v * 2 % 2 ^ w = v * 2 := by
        refine Nat.mod_eq_of_lt (lt_of_lt_of_le (b := 2 ^ (top + 1)) ?_ (Nat.pow_le_pow_right two_pos htop))
        rw [pow_succ]
        omega
      have hexp : top - (count - k) = top - (count + 1 - k) + 1 := by omega
      rw [if_neg hbit, hmod, ih (v * 2) (by omega) (by omega)]
      · rw [show count + 1 - k = count - k + 1 by omega, pow_succ]
        congr 1
        ring
      · rw [hexp, pow_succ]
        omega
      · rw [hexp, pow_succ]
        omega

lemma stopped_shift (bs : List Bool) (r : ℕ) (hlen : bs.length ≤ 64) (hr : r < 2 ^ (64 - bs.length)) :
    (stopped bs * 2 ^ (64 - bs.length) + r) % 2 ^ 64 = bitsValue bs * 2 ^ (64 - bs.length) + r := by
  have htop : 2 ^ bs.length * 2 ^ (64 - bs.length) = 2 ^ 64 := by
    rw [← pow_add]
    congr 1
    omega
  have hlt : bitsValue bs * 2 ^ (64 - bs.length) + r < 2 ^ 64 := by
    rw [← htop]
    calc bitsValue bs * 2 ^ (64 - bs.length) + r
        < bitsValue bs * 2 ^ (64 - bs.length) + 2 ^ (64 - bs.length) := by omega
      _ = (bitsValue bs + 1) * 2 ^ (64 - bs.length) := by ring
      _ ≤ 2 ^ bs.length * 2 ^ (64 - bs.length) := Nat.mul_le_mul_right _ (bitsValue_lt bs)
  rw [stopped, Nat.add_mul, htop, Nat.add_assoc, Nat.add_mod_left, Nat.mod_eq_of_lt hlt]

lemma stopped_bounds (bs : List Bool) : 2 ^ bs.length ≤ stopped bs ∧ stopped bs < 2 ^ (bs.length + 1) := by
  have hlt := bitsValue_lt bs
  rw [stopped, pow_succ]
  omega

/-- Masking keeps the high bits of the last address. -/
lemma and_high (last k : ℕ) (hlast : last < 2 ^ 64) :
    last &&& (2 ^ (64 - k) - 1) * 2 ^ k = last / 2 ^ k * 2 ^ k := by
  rw [← Nat.shiftLeft_eq, ← Nat.shiftLeft_eq, ← Nat.shiftRight_eq_div_pow]
  refine Nat.eq_of_testBit_eq fun i => ?_
  rw [Nat.testBit_and, Nat.testBit_shiftLeft, Nat.testBit_shiftLeft, Nat.testBit_two_pow_sub_one,
    Nat.testBit_shiftRight]
  by_cases hk : k ≤ i
  · rw [Nat.add_sub_of_le hk]
    by_cases hi : i < 64
    · simp [hk, show i - k < 64 - k by omega]
    · have hfalse : last.testBit i = false :=
        Nat.testBit_lt_two_pow (hlast.trans_le (Nat.pow_le_pow_right two_pos (by omega)))
      simp [hfalse]
  · simp [hk]

/-- The low bits of an address that shares its high bits with the last one. -/
lemma update_low (last a k : ℕ) (ha : a < 2 ^ 64) (hk : k ≤ 64) (hhigh : a / 2 ^ k = last / 2 ^ k) :
    last &&& (2 ^ (64 - k) - 1) * 2 ^ k ||| a % 2 ^ k = a := by
  have hlast : last < 2 ^ 64 := by
    have hpow : 2 ^ 64 = 2 ^ k * 2 ^ (64 - k) := by
      rw [← pow_add]
      congr 1
      omega
    have hdiv : a / 2 ^ k < 2 ^ (64 - k) := Nat.div_lt_of_lt_mul (hpow ▸ ha)
    rw [hhigh, Nat.div_lt_iff_lt_mul (Nat.two_pow_pos k), Nat.mul_comm] at hdiv
    rwa [hpow]
  rw [and_high last k hlast, ← hhigh, Nat.mul_comm,
    ← Nat.two_pow_add_eq_or_of_lt (Nat.mod_lt a (Nat.two_pow_pos k)), Nat.div_add_mod]

lemma cycRest_ne_nil (m : ℕ) : cycRest m ≠ [] := by
  rw [cycRest]
  split_ifs <;> exact List.cons_ne_nil _ _

lemma length_cycRest (k m : ℕ) (h : m < 128 ^ (k + 1)) : (cycRest m).length ≤ k + 1 := by
  induction k generalizing m with
  | zero =>
    rw [cycRest, if_pos (by omega)]
    exact le_rfl
  | succ k ih =>
    rw [cycRest]
    split_ifs
    · exact Nat.succ_le_succ (Nat.zero_le _)
    · have hdiv : m / 128 < 128 ^ (k + 1) := Nat.div_lt_of_lt_mul (by rwa [pow_succ'] at h)
      exact Nat.succ_le_succ (ih _ hdiv)

end Numbers

section Packets

lemma doGetPacket_cons (b : UInt8) (rest : List UInt8) :
    doGetPacket .noCtx (b :: rest) = getPlain b.toNat (b :: rest) := by
  rw [doGetPacket, need, if_neg (by simp)]
  rfl

lemma need_whole {n : ℕ} {buf : List UInt8} (h : buf.length = n) (k : List UInt8 → Reader) :
    need n k buf = k buf buf := by
  rw [need, if_neg (by omega), List.take_of_length_le h.le]

lemma field_tail (b : UInt8) (bs : List UInt8) (n : ℕ) (h : bs.length = n) : field (b :: bs) 1 n = le bs := by
  rw [field, List.drop_succ_cons, List.drop_zero, List.take_of_length_le h.le]

lemma getPlain_ip (kind : IpKind) (size : IpBytes) :
    getPlain (32 * size.count + kind.opcode) = need (size.length + 1) fun b =>
      done ⟨kind.type, size.count, field b 1 size.length⟩ (size.length + 1) := by
  cases kind <;> cases size <;> rfl

lemma calcIp_eq (type : PktType) (size : IpBytes) {last a : ℕ} (ha : a < 2 ^ 64) (h : size.Fits last a) :
    calcIp ⟨type, size.count, a % 256 ^ size.length⟩ last = a := by
  cases size with
  | update16 => exact update_low last a 16 ha (by decide) h
  | update32 => exact update_low last a 32 ha (by decide) h
  | update48 => exact update_low last a 48 ha (by decide) h
  | full => exact Nat.mod_eq_of_lt ha
  | extend48 =>
    change (if (a % 256 ^ 6).testBit 47 = true then a % 256 ^ 6 ||| 0xffff000000000000 else a % 256 ^ 6) = a
    have hpow : 256 ^ 6 = 2 ^ 48 := by norm_num
    simp only [hpow, Nat.testBit_eq_decide_div_mod_eq, decide_eq_true_eq]
    rcases h with hlow | hhigh
    · rw [if_neg (by omega)]
      exact Nat.mod_eq_of_lt (by omega)
    · rw [if_pos (by omega), Nat.or_comm, show (0xffff000000000000 : ℕ) = 2 ^ 48 * 0xffff by norm_num,
        ← Nat.two_pow_add_eq_or_of_lt (Nat.mod_lt a (Nat.two_pow_pos 48))]
      omega

lemma getCycMore_last (left offs shift payload : ℕ) {byte : ℕ} (h : byte.testBit 0 = false) :
    getCycMore left offs byte shift payload = done ⟨.cyc, 0, payload⟩ offs := by
  cases left <;> rw [getCycMore, h] <;> rfl

lemma getCycMore_eq (left m offs byte shift payload : ℕ) (before : List UInt8) (hlen : before.length = offs)
    (hbit : byte.testBit 0 = true) (hleft : (cycRest m).length ≤ left) (hpay : payload < 2 ^ shift)
    (hfit : payload + m * 2 ^ shift < 2 ^ 64) :
    getCycMore left offs byte shift payload (before ++ cycRest m) =
      .ok ⟨.cyc, 0, payload + m * 2 ^ shift⟩ (offs + (cycRest m).length) := by
  induction left generalizing m offs byte shift payload before with
  | zero => exact absurd (List.length_eq_zero_iff.mp (Nat.le_zero.mp hleft)) (cycRest_ne_nil m)
  | succ left ih =>
    have hor : ∀ x, x < 128 → x * 2 ^ shift < 2 ^ 64 →
        payload ||| x <<< shift % 2 ^ 64 = payload + x * 2 ^ shift := by
      intro x _ hx
      rw [Nat.shiftLeft_eq, Nat.mod_eq_of_lt hx, Nat.or_comm, Nat.mul_comm,
        ← Nat.two_pow_add_eq_or_of_lt hpay, Nat.add_comm]
    -- the next byte
    obtain ⟨c, rest, hc⟩ := List.exists_cons_of_ne_nil (cycRest_ne_nil m)
    have htake : (before ++ cycRest m).take (offs + 1) = before ++ [c] := by
      rw [hc, ← hlen, List.take_length_add_append]
      rfl
    have hbyte : byteAt (before ++ [c]) offs = c.toNat := by
      rw [byteAt, ← hlen]
      simp
    have hstep : getCycMore (left + 1) offs byte shift payload (before ++ cycRest m) =
        getCycMore left (offs + 1) c.toNat (shift + 7) (payload ||| (c.toNat >>> 1) <<< shift % 2 ^ 64)
          (before ++ cycRest m) := by
      have hroom : ¬ (before ++ cycRest m).length < offs + 1 := by
        rw [List.length_append, hc, List.length_cons]
        omega
      rw [getCycMore, if_pos hbit, need, if_neg hroom, htake, hbyte]
    rw [hstep]
    by_cases hm : m < 128
    · have hrest : cycRest m = [UInt8.ofNat (2 * m)] := by rw [cycRest, if_pos hm]
      rw [hrest] at hc
      cases hc
      have hval : (UInt8.ofNat (2 * m)).toNat = 2 * m := by
        rw [UInt8.toNat_ofNat']
        omega
      have hlast : (2 * m).testBit 0 = false := by simp [Nat.testBit_zero]
      have hhalf : (2 * m) >>> 1 = m := by
        rw [Nat.shiftRight_eq_div_pow]
        omega
      rw [hval, hhalf, hor m hm (by omega), getCycMore_last _ _ _ _ hlast, hrest]
      rfl
    · have hrest : cycRest m = UInt8.ofNat (2 * (m % 128) + 1) :: cycRest (m / 128) := by
        rw [cycRest, if_neg hm]
      rw [hrest] at hc
      cases hc
      have hval : (UInt8.ofNat (2 * (m % 128) + 1)).toNat = 2 * (m % 128) + 1 := by
        rw [UInt8.toNat_ofNat']
        omega
      have hhalf : (2 * (m % 128) + 1) >>> 1 = m % 128 := by
        rw [Nat.shiftRight_eq_div_pow]
        omega
      have hmod : m % 128 * 2 ^ shift + m / 128 * 2 ^ (shift + 7) = m * 2 ^ shift := by
        conv_rhs => rw [← Nat.mod_add_div m 128]
        rw [pow_add]
        ring
      have hlow : m % 128 * 2 ^ shift < 2 ^ 64 := by omega
      have hpay' : payload + m % 128 * 2 ^ shift < 2 ^ (shift + 7) := by
        have hle : m % 128 + 1 ≤ 128 := Nat.mod_lt m (by decide)
        calc payload + m % 128 * 2 ^ shift < 2 ^ shift + m % 128 * 2 ^ shift := by omega
          _ = (m % 128 + 1) * 2 ^ shift := by ring
          _ ≤ 128 * 2 ^ shift := Nat.mul_le_mul_right _ hle
          _ = 2 ^ (shift + 7) := by ring
      rw [hrest, List.length_cons] at hleft
      rw [hval, hhalf, hor _ (Nat.mod_lt m (by decide)) hlow, hrest, List.append_cons,
        ih (m / 128) (offs + 1) _ (shift + 7) _ _ (by simp [hlen]) (by simp [Nat.testBit_zero]) (by omega) hpay'
          (by omega)]
      rw [Nat.add_assoc payload, hmod, List.length_cons]
      congr 1
      omega

/-- What reading an item gives. -/
structure Item.Reads (last : ℕ) (i : Item) (p : Packet) : Prop where
  packet : doGetPacket .noCtx i.bytes = .ok p i.bytes.length
  ctx : updPktCtx p .noCtx = .noCtx
  sense : p.sense last = (i.sense, i.lastIp last)
  pad : i.sense = none → p.type = .pad

variable (last : ℕ)

lemma reads_tnt {taken : List Bool} (hne : taken ≠ []) (hlen : taken.length ≤ 6) :
    ∃ p, (Item.tnt taken).Reads last p := by
  have hpos : 0 < taken.length := List.length_pos_iff.mpr hne
  obtain ⟨hlow, hhigh⟩ := stopped_bounds taken
  have htwo : 2 ≤ stopped taken := (Nat.pow_le_pow_right two_pos hpos).trans hlow
  have hsmall : stopped taken < 2 ^ 7 := hhigh.trans_le (Nat.pow_le_pow_right two_pos (by omega))
  have hval : (UInt8.ofNat (2 * stopped taken)).toNat = 2 * stopped taken := by
    rw [UInt8.toNat_ofNat']
    omega
  have hplain : getPlain (2 * stopped taken) = getShortTnt (2 * stopped taken) := by
    unfold getPlain
    rw [if_pos (by simp [Nat.testBit_zero]), if_neg (by omega), if_neg (by omega)]
  have hexp : 7 - (6 - taken.length) = taken.length + 1 := by omega
  have hstop : stopBit 7 32 6 (2 * stopped taken) =
      (taken.length, 2 * stopped taken * 2 ^ (6 - taken.length)) := by
    refine stopBit_eq 7 32 6 _ _ hlen (by decide) (by decide) ?_ ?_ hpos
    · rw [hexp, pow_succ]
      omega
    · rw [hexp, pow_succ]
      omega
  have hpayload : (2 * stopped taken * 2 ^ (6 - taken.length)) <<< 57 % 2 ^ 64 =
      bitsValue taken * 2 ^ (64 - taken.length) + 0 := by
    rw [← stopped_shift taken 0 (by omega) (Nat.two_pow_pos _), Nat.shiftLeft_eq, Nat.add_zero,
      show 64 - taken.length = 1 + (6 - taken.length) + 57 by omega, pow_add, pow_add, pow_one]
    congr 1
    ring
  refine ⟨⟨.tnt, taken.length, bitsValue taken * 2 ^ (64 - taken.length) + 0⟩, ?_, rfl, ?_, fun h => by cases h⟩
  · rw [Item.bytes, doGetPacket_cons, hval, hplain, getShortTnt, hstop, hpayload]
    rfl
  · exact congrArg (fun bs => (some (Sense.branches bs), last))
      (branches_eq taken 0 (by omega) (Nat.two_pow_pos _))

lemma reads_longTnt {taken : List Bool} (hne : taken ≠ []) (hlen : taken.length ≤ 47) :
    ∃ p, (Item.longTnt taken).Reads last p := by
  have hpos : 0 < taken.length := List.length_pos_iff.mpr hne
  obtain ⟨hlow, hhigh⟩ := stopped_bounds taken
  have hsmall : stopped taken < 256 ^ 6 :=
    hhigh.trans_le ((Nat.pow_le_pow_right two_pos (by omega)).trans_eq (by norm_num : 2 ^ 48 = 256 ^ 6))
  have hvalue : field (2 :: 0xa3 :: leBytes 6 (stopped taken)) 0 8 = 0xa302 + 2 ^ 16 * stopped taken := by
    have hle := le_leBytes 6 (stopped taken)
    rw [Nat.mod_eq_of_lt hsmall] at hle
    rw [field, List.drop_zero, List.take_of_length_le (by simp)]
    simp only [le, List.foldr_cons] at hle ⊢
    rw [hle]
    change 2 + 256 * (163 + 256 * stopped taken) = _
    omega
  have hexp : 63 - (47 - taken.length) = taken.length + 16 := by omega
  have hstop : stopBit 63 64 47 (0xa302 + 2 ^ 16 * stopped taken) =
      (taken.length, (0xa302 + 2 ^ 16 * stopped taken) * 2 ^ (47 - taken.length)) := by
    refine stopBit_eq 63 64 47 _ _ hlen (by decide) (by decide) ?_ ?_ hpos
    · rw [hexp, pow_add 2 taken.length 16]
      omega
    · rw [pow_succ] at hhigh
      rw [hexp, pow_succ 2 (taken.length + 16), pow_add 2 taken.length 16]
      omega
  have hrest : 0xa302 * 2 ^ (48 - taken.length) < 2 ^ (64 - taken.length) := by
    rw [show 64 - taken.length = 16 + (48 - taken.length) by omega, pow_add]
    exact Nat.mul_lt_mul_of_pos_right (by decide) (Nat.two_pow_pos _)
  have hpayload : (0xa302 + 2 ^ 16 * stopped taken) * 2 ^ (47 - taken.length) * 2 % 2 ^ 64 =
      bitsValue taken * 2 ^ (64 - taken.length) + 0xa302 * 2 ^ (48 - taken.length) := by
    rw [← stopped_shift taken _ (by omega) hrest, show 64 - taken.length = 16 + (47 - taken.length) + 1 by omega,
      show 48 - taken.length = 47 - taken.length + 1 by omega, pow_succ, pow_succ, pow_add]
    congr 1
    ring
  refine ⟨⟨.tnt, taken.length, bitsValue taken * 2 ^ (64 - taken.length) + 0xa302 * 2 ^ (48 - taken.length)⟩, ?_,
    rfl, ?_, fun h => by cases h⟩
  · have hbytes : (2 :: 0xa3 :: leBytes 6 (stopped taken)).length = 8 := by simp
    have hread : doGetPacket .noCtx (2 :: 0xa3 :: leBytes 6 (stopped taken)) =
        getLongTnt (2 :: 0xa3 :: leBytes 6 (stopped taken)) := by
      rw [doGetPacket_cons, show getPlain (UInt8.toNat 2) = getExt from rfl, getExt, need, if_neg (by omega),
        show byteAt ((2 :: 0xa3 :: leBytes 6 (stopped taken)).take 2) 1 = 0xa3 from rfl]
      rfl
    rw [Item.bytes, hread, getLongTnt, need_whole hbytes, hvalue, hstop, hpayload, hbytes]
    rfl
  · exact congrArg (fun bs => (some (Sense.branches bs), last)) (branches_eq taken _ (by omega) hrest)

lemma reads_ip (kind : IpKind) (size : IpBytes) {a : ℕ} (ha : a < 2 ^ 64) (hfits : size.Fits last a) :
    ∃ p, (Item.ip kind size a).Reads last p := by
  have hval : (UInt8.ofNat (32 * size.count + kind.opcode)).toNat = 32 * size.count + kind.opcode := by
    cases size <;> cases kind <;> rfl
  have hcalc := calcIp_eq kind.type size ha hfits
  refine ⟨⟨kind.type, size.count, a % 256 ^ size.length⟩, ?_, ?_, ?_, fun h => by cases h⟩
  · rw [Item.bytes, doGetPacket_cons, hval, getPlain_ip, need_whole (by simp), field_tail _ _ _ (by simp),
      le_leBytes, List.length_cons, length_leBytes]
    rfl
  · cases kind <;> rfl
  · have hne : size.count ≠ 0 := by cases size <;> decide
    cases kind <;> simp only [Packet.sense, IpKind.type, if_neg hne] at hcalc ⊢ <;> rw [hcalc] <;> rfl

lemma reads_cyc {n : ℕ} (hn : n < 2 ^ 64) : ∃ p, (Item.cyc n).Reads last p := by
  refine ⟨⟨.cyc, 0, n⟩, ?_, rfl, rfl, fun h => by cases h⟩
  have hplain : ∀ byte, byte % 4 = 3 → getPlain byte = getCyc byte := by
    intro byte hbyte
    unfold getPlain
    have hbit : byte.testBit 0 = true := by
      rw [Nat.testBit_zero, decide_eq_true_eq]
      omega
    have hbit' : byte.testBit 1 = true := by
      rw [Nat.testBit_eq_decide_div_mod_eq, decide_eq_true_eq]
      omega
    rw [if_neg (by simp [hbit]), if_pos hbit']
  rw [Item.bytes]
  split_ifs with hsmall
  · have hval : (UInt8.ofNat (8 * n + 3)).toNat = 8 * n + 3 := by
      rw [UInt8.toNat_ofNat']
      omega
    have hbit : ((8 * n + 3) >>> 2).testBit 0 = false := by
      rw [Nat.shiftRight_eq_div_pow, Nat.testBit_zero, decide_eq_false_iff_not]
      omega
    have hpay : (8 * n + 3) >>> 3 = n := by
      rw [Nat.shiftRight_eq_div_pow]
      omega
    rw [doGetPacket_cons, hval, hplain _ (by omega), getCyc, getCycMore_last _ _ _ _ hbit, hpay]
    rfl
  · have hval : (UInt8.ofNat (8 * (n % 32) + 7)).toNat = 8 * (n % 32) + 7 := by
      rw [UInt8.toNat_ofNat']
      omega
    have hbit : ((8 * (n % 32) + 7) >>> 2).testBit 0 = true := by
      rw [Nat.shiftRight_eq_div_pow, Nat.testBit_zero, decide_eq_true_eq]
      omega
    have hpay : (8 * (n % 32) + 7) >>> 3 = n % 32 := by
      rw [Nat.shiftRight_eq_div_pow]
      omega
    have hlen : (cycRest (n / 32)).length ≤ 9 := length_cycRest 8 _ (by norm_num; omega)
    have hmore := getCycMore_eq 9 (n / 32) 1 _ 5 (n % 32) [UInt8.ofNat (8 * (n % 32) + 7)] rfl hbit hlen
      (Nat.mod_lt n (by decide)) (by omega)
    rw [doGetPacket_cons, hval, hplain _ (by omega), getCyc, hpay]
    rw [List.singleton_append, show n % 32 + n / 32 * 2 ^ 5 = n by omega, Nat.add_comm 1] at hmore
    exact hmore

lemma Item.Fits.reads {last : ℕ} {i : Item} (h : i.Fits last) : ∃ p, i.Reads last p := by
  cases i with
  | tnt taken => exact reads_tnt last h.1 h.2
  | longTnt taken => exact reads_longTnt last h.1 h.2
  | noIp kind => cases kind <;> exact ⟨_, rfl, rfl, rfl, fun h => by cases h⟩
  | ip kind size a => exact reads_ip last kind size h.1 h.2
  | cyc n => exact reads_cyc last h
  | tsc t =>
    refine ⟨⟨.tsc, 0, t⟩, ?_, rfl, rfl, fun h => by cases h⟩
    have hle := le_leBytes 7 t
    rw [Nat.mod_eq_of_lt (lt_of_lt_of_eq h (by norm_num))] at hle
    have hplain : getPlain (UInt8.toNat 0x19) = getTsc := rfl
    rw [Item.bytes, doGetPacket_cons, hplain, getTsc, need_whole (by simp), field_tail _ _ _ (by simp),
      hle, List.length_cons, length_leBytes]
    rfl
  | mtc n =>
    refine ⟨⟨.mtc, 0, n⟩, ?_, rfl, rfl, fun h => by cases h⟩
    have hval : (UInt8.ofNat n).toNat = n := by
      rw [UInt8.toNat_ofNat']
      exact Nat.mod_eq_of_lt h
    have hplain : getPlain (UInt8.toNat 0x59) = getMtc := rfl
    rw [Item.bytes, doGetPacket_cons, hplain, getMtc, need_whole (n := 2) rfl, byteAt]
    exact congrArg (fun v => Peeked.ok (Packet.mk .mtc 0 v) 2) hval
  | pad => exact ⟨⟨.pad, 0, 0⟩, rfl, rfl, rfl, fun _ => rfl⟩

lemma Packet.sense_pad {p : Packet} (h : p.type = .pad) : p.sense last = (none, last) := by
  rw [Packet.sense, h]

lemma Written.parses (bitsPerLong : ℕ) {last : ℕ} {items : List Item} (h : Written last items) (pos : ℕ) :
    ∃ ps, Parses bitsPerLong .noCtx pos (items.flatMap Item.bytes) ps .noData ∧
      senses last (ps.map Prod.snd) = items.filterMap Item.sense := by
  induction items generalizing last pos with
  | nil => exact ⟨[], .ended, rfl⟩
  | cons i items ih =>
    obtain ⟨hfits, hrest⟩ := h
    obtain ⟨p, hreads⟩ := hfits.reads
    obtain ⟨ps, hparse, hsenses⟩ := ih hrest (pos + i.bytes.length)
    have hok : doGetPacket .noCtx (i.bytes ++ items.flatMap Item.bytes) = .ok p i.bytes.length := by
      rw [← hreads.packet]
      refine (settled_doGetPacket _ (Nat.zero_le 1)).extend _ _ (Nat.zero_le _) ?_
      rw [hreads.packet]
      exact fun h => by cases h
    have hdrop : (i.bytes ++ items.flatMap Item.bytes).drop i.bytes.length = items.flatMap Item.bytes :=
      List.drop_left
    rw [← hdrop, ← hreads.ctx] at hparse
    have hsense := hreads.sense
    rw [List.flatMap_cons, List.filterMap_cons]
    by_cases hp : p.type = .pad
    · refine ⟨ps, .pad hok hp hparse, ?_⟩
      rw [Packet.sense_pad last hp, Prod.mk.injEq] at hsense
      rw [← hsense.2] at hsenses
      rw [← hsense.1]
      exact hsenses
    · refine ⟨(pos, p) :: ps, .packet hok hp hparse, ?_⟩
      rw [List.map_cons, senses, hsense, hsenses]
      cases hi : i.sense with
      | none => exact absurd (hreads.pad hi) hp
      | some s => rfl

end Packets

/-- Branches, addresses and times come out as the processor wrote them, whichever way an address was
shortened, wherever there is padding, and however the trace is divided into buffers where split packets
are put together. -/
theorem trace_reads_back {items : List Item} (h : Written 0 items) {buffers : List Buffer}
    (hb : Consecutive buffers) (hsame : (buffers.map Buffer.bytes).flatten = items.flatMap Item.bytes)
    {bitsPerLong : ℕ} (hbits : bitsPerLong = 32 ∨ buffers.length ≤ 1) :
    (decodePackets bitsPerLong buffers).2 = .noData ∧
      senses 0 ((decodePackets bitsPerLong buffers).1.map Prod.snd) = items.filterMap Item.sense := by
  obtain ⟨ps, hparse, hsenses⟩ := h.parses bitsPerLong 0
  rw [← hsame] at hparse
  rw [decodePackets_eq hb hbits hparse]
  exact ⟨rfl, hsenses⟩

/-- A short trace, in two buffers of which the first ends within an address. -/
def shortTrace : List Item :=
  [.tsc 5, .pad, .ip .tipPge .full 0x7f0012345678, .tnt [true, false], .pad, .pad, .longTnt [false, true, true],
    .ip .tip .update16 0x7f0012349999, .noIp .tipPgd, .mtc 3]

theorem trace_reads_back_split :
    (decodePackets 32 [⟨(shortTrace.flatMap Item.bytes).take 16, true⟩,
      ⟨(shortTrace.flatMap Item.bytes).drop 16, true⟩]).2 = .noData ∧
    senses 0 ((decodePackets 32 [⟨(shortTrace.flatMap Item.bytes).take 16, true⟩,
      ⟨(shortTrace.flatMap Item.bytes).drop 16, true⟩]).1.map Prod.snd) = shortTrace.filterMap Item.sense := by
  refine trace_reads_back ?_ ?_ ?_ (Or.inl rfl)
  · simp [shortTrace, Written, Item.Fits, IpBytes.Fits, Item.lastIp]
  · refine ⟨?_, ?_⟩ <;> simp [shortTrace, Item.bytes, IpBytes.length, pktMaxSz]
  · simp

end PtPerf.Decode
