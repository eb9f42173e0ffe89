import PtPerf.Decode.Packets
import PtPerf.Support.Runs

/-! Reading the packets of a trace that comes in several buffers. `intel_pt_get_next_packet` passes
over padding; where a packet is split between two buffers, `intel_pt_get_split_packet` puts it
together, which the source does on 32-bit machines only. -/

namespace PtPerf.Decode

open PtPerf.Support.Peek

structure Buffer where
  bytes : List UInt8
  consecutive : Bool
  deriving DecidableEq, Repr

/-- `-ENODATA`, `-ENOLINK` and `-EBADMSG`. -/
inductive DecodeError where
  | noData
  | noLink
  | badPacket
  deriving DecidableEq, Repr

structure PacketDecoder where
  buf : List UInt8
  nextBuf : Option (List UInt8)
  pktStep : ℕ
  pos : ℕ
  pktCtx : PktCtx
  packet : Packet
  /-- What `get_trace` has to give. -/
  buffers : List Buffer
  deriving DecidableEq, Repr

namespace PacketDecoder

def getData (d : PacketDecoder) : Except DecodeError PacketDecoder :=
  match d.buffers with
  | [] => .error .noData
  | b :: bs =>
    if b.bytes = [] then .error .noData
    else if !b.consecutive then .error .noLink
    else .ok { d with buf := b.bytes, pktStep := 0, buffers := bs }

def getNextData (d : PacketDecoder) : Except DecodeError PacketDecoder :=
  match d.nextBuf with
  | none => d.getData
  | some next => .ok { d with buf := next, nextBuf := none }

def getSplitPacket (d : PacketDecoder) : Except DecodeError PacketDecoder := do
  let d' ← d.getData
  let temp := d.buf ++ d'.buf.take (pktMaxSz - d.buf.length)
  match getPacket d.pktCtx temp with
  | .ok (packet, ctx) ret =>
    if ret < d.buf.length then .error .badPacket
    else .ok { d' with buf := temp.take ret, nextBuf := some (d'.buf.drop (ret - d.buf.length))
                       pktStep := ret, packet := packet, pktCtx := ctx }
  | _ => .error .badPacket

def advance (d : PacketDecoder) : Except DecodeError PacketDecoder :=
  let d := { d with pos := d.pos + d.pktStep, buf := d.buf.drop d.pktStep }
  if d.buf = [] then d.getNextData else .ok d

def readPacket (bitsPerLong : ℕ) (d : PacketDecoder) : Except DecodeError PacketDecoder :=
  match getPacket d.pktCtx d.buf with
  | .ok (packet, ctx) ret => .ok { d with pktStep := ret, packet := packet, pktCtx := ctx }
  | .bad => .error .badPacket
  | .more =>
    if bitsPerLong = 32 ∧ d.buf.length < pktMaxSz ∧ d.nextBuf = none then d.getSplitPacket
    else .error .badPacket

/-- `intel_pt_get_next_packet`, with a bound on the number of paddings. -/
def getNextPacket (bitsPerLong : ℕ) : ℕ → PacketDecoder → Except DecodeError PacketDecoder
  | 0, _ => .error .noData
  | fuel + 1, d => do
    let d ← d.advance
    let d ← d.readPacket bitsPerLong
    if d.packet.type = .pad then getNextPacket bitsPerLong fuel d else return d

/-- The packets with their positions, and the error at which they end. -/
def packets (bitsPerLong : ℕ) : ℕ → PacketDecoder → List (ℕ × Packet) × DecodeError
  | 0, _ => ([], .noData)
  | fuel + 1, d =>
    match d.getNextPacket bitsPerLong (fuel + 1) with
    | .error e => ([], e)
    | .ok d => ((d.pos, d.packet) :: (packets bitsPerLong fuel d).1, (packets bitsPerLong fuel d).2)

def start (buffers : List Buffer) : PacketDecoder := ⟨[], none, 0, 0, .noCtx, ⟨.bad, 0, 0⟩, buffers⟩

def data (d : PacketDecoder) : List UInt8 :=
  d.buf.drop d.pktStep ++ (d.nextBuf.getD [] ++ (d.buffers.map Buffer.bytes).flatten)

end PacketDecoder

def decodePackets (bitsPerLong : ℕ) (buffers : List Buffer) : List (ℕ × Packet) × DecodeError :=
  (PacketDecoder.start buffers).packets bitsPerLong ((PacketDecoder.start buffers).data.length + 1)

/-- How a packet is reported that the trace breaks off in. -/
def cutShort (bitsPerLong : ℕ) : DecodeError := if bitsPerLong = 32 then .noData else .badPacket

inductive Parses (bitsPerLong : ℕ) : PktCtx → ℕ → List UInt8 → List (ℕ × Packet) → DecodeError → Prop
  | ended {ctx : PktCtx} {pos : ℕ} : Parses bitsPerLong ctx pos [] [] .noData
  | short {ctx : PktCtx} {pos : ℕ} {data : List UInt8} (h : doGetPacket ctx data = .more)
      (hne : data ≠ []) : Parses bitsPerLong ctx pos data [] (cutShort bitsPerLong)
  | bad {ctx : PktCtx} {pos : ℕ} {data : List UInt8} (h : doGetPacket ctx data = .bad) :
      Parses bitsPerLong ctx pos data [] .badPacket
  | pad {ctx : PktCtx} {pos n : ℕ} {data : List UInt8} {p : Packet} {ps : List (ℕ × Packet)}
      {e : DecodeError} (h : doGetPacket ctx data = .ok p n) (hp : p.type = .pad)
      (hrest : Parses bitsPerLong (updPktCtx p ctx) (pos + n) (data.drop n) ps e) :
      Parses bitsPerLong ctx pos data ps e
  | packet {ctx : PktCtx} {pos n : ℕ} {data : List UInt8} {p : Packet} {ps : List (ℕ × Packet)}
      {e : DecodeError} (h : doGetPacket ctx data = .ok p n) (hp : p.type ≠ .pad)
      (hrest : Parses bitsPerLong (updPktCtx p ctx) (pos + n) (data.drop n) ps e) :
      Parses bitsPerLong ctx pos data ((pos, p) :: ps) e

section Parsing

variable {bitsPerLong : ℕ} {ctx : PktCtx} {pos n : ℕ} {data : List UInt8} {p : Packet}
  {ps : List (ℕ × Packet)} {e : DecodeError}

lemma ok_bounds (h : doGetPacket ctx data = .ok p n) : 0 < n ∧ n ≤ data.length := by
  have hpos : 0 < data.length := by
    rw [List.length_pos_iff]
    rintro rfl
    cases h
  obtain ⟨hn, hle, -⟩ := (settled_doGetPacket ctx le_rfl).alone data p n hpos h
  exact ⟨hn, hle⟩

lemma exists_parses (bitsPerLong : ℕ) (ctx : PktCtx) (pos : ℕ) (data : List UInt8) :
    ∃ ps e, Parses bitsPerLong ctx pos data ps e := by
  induction hlen : data.length using Nat.strong_induction_on generalizing ctx pos data with
  | _ len ih =>
    subst hlen
    cases h : doGetPacket ctx data with
    | more =>
      by_cases hne : data = []
      · subst hne
        exact ⟨[], .noData, .ended⟩
      · exact ⟨[], cutShort bitsPerLong, .short h hne⟩
    | bad => exact ⟨[], .badPacket, .bad h⟩
    | ok p n =>
      obtain ⟨hn, hle⟩ := ok_bounds h
      have hlt : (data.drop n).length < data.length := by
        rw [List.length_drop]
        omega
      obtain ⟨ps, e, hrest⟩ := ih _ hlt (updPktCtx p ctx) (pos + n) (data.drop n) rfl
      by_cases hp : p.type = .pad
      · exact ⟨ps, e, .pad h hp hrest⟩
      · exact ⟨(pos, p) :: ps, e, .packet h hp hrest⟩

lemma doGetPacket_zero (ctx : PktCtx) (data : List UInt8) :
    doGetPacket ctx (0 :: data) = .ok ⟨.pad, 0, 0⟩ 1 := by
  have hzero : doGetPacket ctx [0] = .ok ⟨.pad, 0, 0⟩ 1 := by cases ctx <;> rfl
  rw [← hzero]
  refine (settled_doGetPacket ctx le_rfl).extend [0] data le_rfl ?_
  rw [hzero]
  exact fun h => by cases h

/-- A zero is padding in every context. -/
lemma Parses.skip_zero (h : Parses bitsPerLong ctx pos (0 :: data) ps e) :
    Parses bitsPerLong ctx (pos + 1) data ps e := by
  cases h with
  | short h _ =>
    rw [doGetPacket_zero] at h
    cases h
  | bad h =>
    rw [doGetPacket_zero] at h
    cases h
  | pad h hp hrest =>
    rw [doGetPacket_zero] at h
    cases h
    exact hrest
  | packet h hp hrest =>
    rw [doGetPacket_zero] at h
    cases h
    exact absurd rfl hp

lemma absorb_bounds (buf : List UInt8) (fuel ret : ℕ) (h : ret ≤ buf.length) :
    ret ≤ absorb buf fuel ret ∧ absorb buf fuel ret ≤ buf.length := by
  induction fuel generalizing ret with
  | zero => exact ⟨le_rfl, h⟩
  | succ fuel ih =>
    rw [absorb]
    split_ifs with hzero
    · simp only [Bool.and_eq_true, decide_eq_true_eq] at hzero
      obtain ⟨hlt, -⟩ := List.getElem?_eq_some_iff.mp hzero.2
      obtain ⟨hle, hle'⟩ := ih (ret + 1) hlt
      exact ⟨(Nat.le_succ ret).trans hle, hle'⟩
    · exact ⟨le_rfl, h⟩

/-- Padding may be taken along with the packet before it. -/
lemma Parses.absorb {buf rest : List UInt8} (fuel ret : ℕ)
    (h : Parses bitsPerLong ctx (pos + ret) ((buf ++ rest).drop ret) ps e) :
    Parses bitsPerLong ctx (pos + absorb buf fuel ret) ((buf ++ rest).drop (absorb buf fuel ret)) ps e := by
  induction fuel generalizing ret with
  | zero => exact h
  | succ fuel ih =>
    rw [Decode.absorb]
    split_ifs with hzero
    · simp only [Bool.and_eq_true, decide_eq_true_eq] at hzero
      obtain ⟨hlt, hbyte⟩ := List.getElem?_eq_some_iff.mp hzero.2
      have hdrop : (buf ++ rest).drop ret = 0 :: (buf ++ rest).drop (ret + 1) := by
        rw [List.drop_eq_getElem_cons (by rw [List.length_append]; omega),
          List.getElem_append_left hlt, hbyte]
      rw [hdrop] at h
      exact ih (ret + 1) h.skip_zero
    · exact h

end Parsing

namespace PacketDecoder

section Reading

variable {bitsPerLong : ℕ} {d : PacketDecoder} {ps : List (ℕ × Packet)} {e : DecodeError}

/-- What is left of a buffer after a split packet is the next one, and the buffers that a packet may
run into are long enough for it. Where split packets are not put together there is one buffer only. -/
structure Ready (bitsPerLong : ℕ) (d : PacketDecoder) : Prop where
  next : d.nextBuf = none ∨ d.buf.drop d.pktStep = [] ∧ ∃ next, d.nextBuf = some next ∧ next ≠ []
  buffers : ∀ b ∈ d.buffers, b.consecutive = true ∧ b.bytes ≠ []
  later : ∀ b ∈ d.buffers.tail, pktMaxSz ≤ b.bytes.length
  long : d.buf.drop d.pktStep = [] ∧ d.nextBuf = none ∨ ∀ b ∈ d.buffers, pktMaxSz ≤ b.bytes.length
  few : bitsPerLong = 32 ∨ d.buffers = [] ∨ d.buf.drop d.pktStep = [] ∧ d.nextBuf = none ∧ d.buffers.length = 1

structure AtPacket (bitsPerLong : ℕ) (d : PacketDecoder) : Prop where
  nonempty : d.buf ≠ []
  next : d.nextBuf = none
  buffers : ∀ b ∈ d.buffers, b.consecutive = true ∧ b.bytes ≠ []
  long : ∀ b ∈ d.buffers, pktMaxSz ≤ b.bytes.length
  few : bitsPerLong = 32 ∨ d.buffers = []

def coming (d : PacketDecoder) : List UInt8 := (d.buffers.map Buffer.bytes).flatten

lemma getData_of_cons {b : Buffer} {bs : List Buffer} (hbs : d.buffers = b :: bs)
    (hcons : b.consecutive = true) (hne : b.bytes ≠ []) :
    d.getData = .ok { d with buf := b.bytes, pktStep := 0, buffers := bs } := by
  rw [getData, hbs]
  simp [hne, hcons]

lemma Ready.few_of_coming (h : d.Ready bitsPerLong) (hcoming : d.buf.drop d.pktStep ≠ [] ∨ d.nextBuf ≠ none) :
    bitsPerLong = 32 ∨ d.buffers = [] := by
  rcases h.few with hbits | hnil | ⟨hbuf, hnext, -⟩
  · exact Or.inl hbits
  · exact Or.inr hnil
  · rcases hcoming with hne | hne
    · exact absurd hbuf hne
    · exact absurd hnext hne

lemma Ready.long_of_coming (h : d.Ready bitsPerLong) (hcoming : d.buf.drop d.pktStep ≠ [] ∨ d.nextBuf ≠ none) :
    ∀ b ∈ d.buffers, pktMaxSz ≤ b.bytes.length := by
  refine h.long.resolve_left fun ⟨hbuf, hnext⟩ => ?_
  exact hcoming.elim (absurd hbuf) (absurd hnext)

lemma Ready.few_of_cons (h : d.Ready bitsPerLong) {b : Buffer} {bs : List Buffer}
    (hbs : d.buffers = b :: bs) : bitsPerLong = 32 ∨ bs = [] := by
  rcases h.few with hbits | hnil | ⟨-, -, hone⟩
  · exact Or.inl hbits
  · cases hbs.symm.trans hnil
  · rw [hbs, List.length_cons] at hone
    exact Or.inr (List.length_eq_zero_iff.mp (Nat.succ_injective hone))

lemma advance_spec (h : d.Ready bitsPerLong) :
    (d.data = [] ∧ d.advance = .error .noData) ∨
      ∃ d', d.advance = .ok d' ∧ d'.AtPacket bitsPerLong ∧ d'.buf ++ d'.coming = d.data ∧
        d'.pos = d.pos + d.pktStep ∧ d'.pktCtx = d.pktCtx := by
  by_cases hbuf : d.buf.drop d.pktStep = []
  · rcases h.next with hnone | ⟨-, next, hnext, hne⟩
    · cases hbs : d.buffers with
      | nil =>
        refine Or.inl ⟨by simp [data, hbuf, hnone, hbs], ?_⟩
        simp [advance, hbuf, getNextData, hnone, getData, hbs]
      | cons b bs =>
        obtain ⟨hcons, hne⟩ := h.buffers b (by rw [hbs]; exact List.mem_cons_self)
        have hget := getData_of_cons (d := { d with pos := d.pos + d.pktStep, buf := d.buf.drop d.pktStep })
          hbs hcons hne
        refine Or.inr ⟨{ d with pos := d.pos + d.pktStep, buf := b.bytes, pktStep := 0, buffers := bs }, ?_,
          ⟨hne, hnone, ?_, ?_, h.few_of_cons hbs⟩, ?_, rfl, rfl⟩
        · rw [advance]
          simp only [hbuf, if_true, getNextData, hnone]
          simpa only [hbuf, hnone] using hget
        · intro b' hb'
          exact h.buffers b' (by rw [hbs]; exact List.mem_cons_of_mem b hb')
        · intro b' hb'
          exact h.later b' (by rwa [hbs])
        · simp [data, hbuf, hnone, hbs, coming]
    · refine Or.inr ⟨{ d with pos := d.pos + d.pktStep, buf := next, nextBuf := none }, ?_,
        ⟨hne, rfl, h.buffers, h.long_of_coming (Or.inr (by simp [hnext])),
          h.few_of_coming (Or.inr (by simp [hnext]))⟩, ?_, rfl, rfl⟩
      · simp [advance, hbuf, getNextData, hnext]
      · simp [data, hbuf, hnext, coming]
  · rcases h.next with hnone | ⟨hnil, -⟩
    · refine Or.inr ⟨{ d with pos := d.pos + d.pktStep, buf := d.buf.drop d.pktStep }, ?_,
        ⟨hbuf, hnone, h.buffers, h.long_of_coming (Or.inl hbuf), h.few_of_coming (Or.inl hbuf)⟩,
        ?_, rfl, rfl⟩
      · simp [advance, hbuf]
      · simp [data, hnone, coming]
    · exact absurd hnil hbuf

/-- After a packet the decoder goes on behind it and the padding that was taken along. -/
structure Passed (bitsPerLong : ℕ) (d d' : PacketDecoder) (p : Packet) (n : ℕ) : Prop where
  packet : d'.packet = p
  pos : d'.pos = d.pos
  ready : d'.Ready bitsPerLong
  later : ∀ ps e,
    Parses bitsPerLong (updPktCtx p d.pktCtx) (d.pos + n) ((d.buf ++ d.coming).drop n) ps e →
      Parses bitsPerLong d'.pktCtx (d'.pos + d'.pktStep) d'.data ps e
  shorter : d'.data.length < (d.buf ++ d.coming).length

lemma AtPacket.readPacket_whole (h : d.AtPacket bitsPerLong) {p : Packet} {n : ℕ}
    (hok : doGetPacket d.pktCtx d.buf = .ok p n) :
    ∃ d', d.readPacket bitsPerLong = .ok d' ∧ Passed bitsPerLong d d' p n := by
  obtain ⟨hn, hle⟩ := ok_bounds hok
  obtain ⟨hge, hle'⟩ := absorb_bounds d.buf 8 n hle
  have hdata : (d.buf ++ d.coming).drop (absorb d.buf 8 n) =
      d.buf.drop (absorb d.buf 8 n) ++ d.coming := List.drop_append_of_le_length hle'
  refine ⟨{ d with pktStep := absorb d.buf 8 n, packet := p, pktCtx := updPktCtx p d.pktCtx }, ?_, rfl, rfl,
    ⟨Or.inl h.next, h.buffers, fun b hb => h.long b (List.mem_of_mem_tail hb), Or.inr h.long,
      h.few.imp_right Or.inl⟩, fun ps e hparse => ?_, ?_⟩
  · rw [readPacket, getPacket, hok]
  · have habs := hparse.absorb 8 n
    rw [hdata] at habs
    simpa [data, h.next, coming] using habs
  · simp only [data, h.next, Option.getD_none, List.nil_append, List.length_append, List.length_drop]
    rw [coming]
    omega

lemma AtPacket.getSplitPacket_spec (h : d.AtPacket 32) (hmore : doGetPacket d.pktCtx d.buf = .more)
    {b : Buffer} {bs : List Buffer} (hbs : d.buffers = b :: bs) :
    (doGetPacket d.pktCtx (d.buf ++ d.coming) = .bad ∧ d.getSplitPacket = .error .badPacket) ∨
      ∃ p n d', doGetPacket d.pktCtx (d.buf ++ d.coming) = .ok p n ∧ d.getSplitPacket = .ok d' ∧
        Passed 32 d d' p n := by
  have hmem : b ∈ d.buffers := by
    rw [hbs]
    exact List.mem_cons_self
  have hlater : ∀ b' ∈ bs, b' ∈ d.buffers := by
    rw [hbs]
    exact fun b' => List.mem_cons_of_mem b
  obtain ⟨hcons, hne⟩ := h.buffers b hmem
  have hlen := h.long b hmem
  have hsettled := settled_doGetPacket d.pktCtx (Nat.zero_le 1)
  have hpos : 0 < d.buf.length := List.length_pos_iff.mpr h.nonempty
  have hshort : d.buf.length < pktMaxSz := by
    by_contra hle
    exact hsettled.enough d.buf (not_lt.mp hle) hmore
  have hcoming : d.coming = b.bytes ++ (bs.map Buffer.bytes).flatten := by simp [coming, hbs]
  -- the sixteen bytes that are read
  obtain ⟨temp, htemp⟩ : ∃ temp, temp = d.buf ++ b.bytes.take (pktMaxSz - d.buf.length) := ⟨_, rfl⟩
  have hsixteen : temp.length = pktMaxSz := by
    rw [htemp, List.length_append, List.length_take_of_le (by omega)]
    omega
  have hwhole : d.buf ++ d.coming =
      temp ++ (b.bytes.drop (pktMaxSz - d.buf.length) ++ (bs.map Buffer.bytes).flatten) := by
    rw [htemp, hcoming, List.append_assoc, ← List.append_assoc (b.bytes.take _), List.take_append_drop]
  have hext : doGetPacket d.pktCtx (d.buf ++ d.coming) = doGetPacket d.pktCtx temp := by
    rw [hwhole]
    exact hsettled.extend temp _ (Nat.zero_le _) (hsettled.enough temp hsixteen.ge)
  have hsplit : d.getSplitPacket = match getPacket d.pktCtx temp with
      | .ok (packet, ctx) ret =>
        if ret < d.buf.length then .error .badPacket
        else .ok { d with buf := temp.take ret, nextBuf := some (b.bytes.drop (ret - d.buf.length))
                          pktStep := ret, packet := packet, pktCtx := ctx, buffers := bs }
      | _ => .error .badPacket := by
    rw [getSplitPacket, getData_of_cons hbs hcons hne, Support.Runs.ok_bind]
    dsimp only
    rw [← htemp]
  cases hres : doGetPacket d.pktCtx temp with
  | more => exact absurd hres (hsettled.enough temp hsixteen.ge)
  | bad =>
    refine Or.inl ⟨hext.trans hres, ?_⟩
    rw [hsplit, getPacket, hres]
  | ok p n =>
    have hlong : d.buf.length < n := by
      rw [htemp] at hres
      exact hsettled.short (Nat.zero_le _) hmore hres
    obtain ⟨hge, hle⟩ := absorb_bounds temp 8 n (ok_bounds hres).2
    rw [hsixteen] at hle
    set ret := absorb temp 8 n with hret
    have hdrop : (d.buf ++ d.coming).drop ret =
        b.bytes.drop (ret - d.buf.length) ++ (bs.map Buffer.bytes).flatten := by
      rw [hcoming, List.drop_append, List.drop_eq_nil_of_le (by omega), List.nil_append,
        List.drop_append_of_le_length (by omega)]
    have hdata : (temp.take ret).drop ret = [] :=
      List.drop_eq_nil_of_le (List.length_take_le ret temp)
    refine Or.inr ⟨p, n, { d with
      buf := temp.take ret
      nextBuf := some (b.bytes.drop (ret - d.buf.length))
      pktStep := ret
      packet := p
      pktCtx := updPktCtx p d.pktCtx
      buffers := bs }, hext.trans hres, ?_, rfl, rfl, ⟨Or.inr ⟨hdata, _, rfl, ?_⟩,
      fun b' hb' => h.buffers b' (hlater b' hb'),
      fun b' hb' => h.long b' (hlater b' (List.mem_of_mem_tail hb')),
      Or.inr fun b' hb' => h.long b' (hlater b' hb'), Or.inl rfl⟩, fun ps e hparse => ?_, ?_⟩
    · rw [hsplit, getPacket, hres]
      exact if_neg (by omega)
    · rw [Ne, List.drop_eq_nil_iff]
      omega
    · rw [hwhole] at hparse
      have habs := hparse.absorb 8 n
      rw [← hwhole, ← hret, hdrop] at habs
      simpa [data, hdata] using habs
    · have hlt : ((d.buf ++ d.coming).drop ret).length < (d.buf ++ d.coming).length := by
        rw [List.length_drop, List.length_append]
        omega
      rw [hdrop] at hlt
      simpa [data, hdata] using hlt

lemma AtPacket.readPacket_spec (h : d.AtPacket bitsPerLong) :
    (doGetPacket d.pktCtx (d.buf ++ d.coming) = .more ∧
        d.readPacket bitsPerLong = .error (cutShort bitsPerLong)) ∨
      (doGetPacket d.pktCtx (d.buf ++ d.coming) = .bad ∧ d.readPacket bitsPerLong = .error .badPacket) ∨
      ∃ p n d', doGetPacket d.pktCtx (d.buf ++ d.coming) = .ok p n ∧ d.readPacket bitsPerLong = .ok d' ∧
        Passed bitsPerLong d d' p n := by
  have hsettled := settled_doGetPacket d.pktCtx (Nat.zero_le 1)
  cases hres : doGetPacket d.pktCtx d.buf with
  | bad =>
    have hext := hsettled.extend d.buf d.coming (Nat.zero_le _) (by rw [hres]; exact fun h => by cases h)
    exact Or.inr (Or.inl ⟨hext.trans hres, by rw [readPacket, getPacket, hres]⟩)
  | ok p n =>
    have hext := hsettled.extend d.buf d.coming (Nat.zero_le _) (by rw [hres]; exact fun h => by cases h)
    obtain ⟨d', hread, hpassed⟩ := h.readPacket_whole hres
    exact Or.inr (Or.inr ⟨p, n, d', hext.trans hres, hread, hpassed⟩)
  | more =>
    have hshort : d.buf.length < pktMaxSz := by
      by_contra hle
      exact hsettled.enough d.buf (not_lt.mp hle) hres
    by_cases hbits : bitsPerLong = 32
    · subst hbits
      have hread : d.readPacket 32 = d.getSplitPacket := by
        rw [readPacket, getPacket, hres]
        exact if_pos ⟨rfl, hshort, h.next⟩
      cases hbs : d.buffers with
      | nil =>
        refine Or.inl ⟨by simpa [coming, hbs] using hres, ?_⟩
        rw [hread, getSplitPacket, getData, hbs]
        rfl
      | cons b bs =>
        rw [hread]
        exact Or.inr (h.getSplitPacket_spec hres hbs)
    · have hlast : d.buffers = [] := h.few.resolve_left hbits
      refine Or.inl ⟨by simpa [coming, hlast] using hres, ?_⟩
      rw [readPacket, getPacket, hres, cutShort, if_neg hbits]
      exact if_neg fun hsplit => hbits hsplit.1

lemma Ready.getNextPacket (h : d.Ready bitsPerLong) {fuel : ℕ} (hfuel : d.data.length < fuel)
    (hparse : Parses bitsPerLong d.pktCtx (d.pos + d.pktStep) d.data ps e) :
    (ps = [] ∧ d.getNextPacket bitsPerLong fuel = .error e) ∨
      ∃ d' ps', d.getNextPacket bitsPerLong fuel = .ok d' ∧ ps = (d'.pos, d'.packet) :: ps' ∧
        d'.Ready bitsPerLong ∧ Parses bitsPerLong d'.pktCtx (d'.pos + d'.pktStep) d'.data ps' e ∧
        d'.data.length < d.data.length := by
  induction fuel generalizing d with
  | zero => exact absurd hfuel (Nat.not_lt_zero _)
  | succ fuel ih =>
    rw [PacketDecoder.getNextPacket]
    rcases advance_spec h with ⟨hnil, hadv⟩ | ⟨d₁, hadv, hat, hdata, hpos, hctx⟩
    · rw [hnil] at hparse
      cases hparse with
      | ended => exact Or.inl ⟨rfl, by rw [hadv]; rfl⟩
      | short _ hne => exact absurd rfl hne
      | bad hbad => cases hbad
      | pad hok _ _ => cases hok
      | packet hok _ _ => cases hok
    · rw [hadv, Support.Runs.ok_bind]
      rw [← hdata, ← hpos, ← hctx] at hparse
      -- the decoder stands at a byte, so the trace has not ended
      have hne : d₁.buf ++ d₁.coming ≠ [] := List.append_ne_nil_of_left_ne_nil hat.nonempty _
      obtain ⟨data, hwhole⟩ : ∃ data, data = d₁.buf ++ d₁.coming := ⟨_, rfl⟩
      rw [← hwhole] at hparse hne
      rcases hat.readPacket_spec with ⟨hmore, hread⟩ | ⟨hbad, hread⟩ | ⟨p, n, d₂, hok, hread, hpassed⟩
      · rw [hread]
        rw [← hwhole] at hmore
        cases hparse with
        | ended => exact absurd rfl hne
        | short _ _ => exact Or.inl ⟨rfl, rfl⟩
        | bad hbad => cases hmore.symm.trans hbad
        | pad hok _ _ => cases hmore.symm.trans hok
        | packet hok _ _ => cases hmore.symm.trans hok
      · rw [hread]
        rw [← hwhole] at hbad
        cases hparse with
        | ended => exact absurd rfl hne
        | short hmore _ => cases hbad.symm.trans hmore
        | bad _ => exact Or.inl ⟨rfl, rfl⟩
        | pad hok _ _ => cases hbad.symm.trans hok
        | packet hok _ _ => cases hbad.symm.trans hok
      · rw [hread, Support.Runs.ok_bind, hpassed.packet]
        have hshorter := hpassed.shorter
        have hlater := hpassed.later
        rw [hdata] at hshorter
        rw [← hwhole] at hok hlater
        cases hparse with
        | ended => exact absurd rfl hne
        | short hmore _ => cases hok.symm.trans hmore
        | bad hbad => cases hok.symm.trans hbad
        | pad hok' hp hrest =>
          cases hok.symm.trans hok'
          rw [if_pos hp]
          rcases ih hpassed.ready (by omega) (hlater _ _ hrest) with
            hend | ⟨d', ps', hnext, hps, hready, hparse', hlen⟩
          · exact Or.inl hend
          · exact Or.inr ⟨d', ps', hnext, hps, hready, hparse', hlen.trans hshorter⟩
        | packet hok' hp hrest =>
          cases hok.symm.trans hok'
          rw [if_neg hp]
          refine Or.inr ⟨d₂, _, rfl, ?_, hpassed.ready, hlater _ _ hrest, hshorter⟩
          rw [hpassed.packet, hpassed.pos]

lemma Ready.packets (h : d.Ready bitsPerLong) {fuel : ℕ} (hfuel : d.data.length < fuel)
    (hparse : Parses bitsPerLong d.pktCtx (d.pos + d.pktStep) d.data ps e) :
    d.packets bitsPerLong fuel = (ps, e) := by
  induction fuel generalizing d ps with
  | zero => exact absurd hfuel (Nat.not_lt_zero _)
  | succ fuel ih =>
    rw [PacketDecoder.packets]
    rcases h.getNextPacket hfuel hparse with ⟨rfl, hend⟩ | ⟨d', ps', hnext, rfl, hready, hparse', hlen⟩
    · rw [hend]
    · rw [hnext]
      dsimp only
      rw [ih hready (by omega) hparse']

end Reading

end PacketDecoder

/-- The buffers follow one another without a gap, and a packet that starts in one of them does not
reach beyond the next. -/
structure Consecutive (buffers : List Buffer) : Prop where
  linked : ∀ b ∈ buffers, b.consecutive = true ∧ b.bytes ≠ []
  later : ∀ b ∈ buffers.tail, pktMaxSz ≤ b.bytes.length

lemma decodePackets_eq {bitsPerLong : ℕ} {buffers : List Buffer} (h : Consecutive buffers)
    (hbits : bitsPerLong = 32 ∨ buffers.length ≤ 1) {ps : List (ℕ × Packet)} {e : DecodeError}
    (hparse : Parses bitsPerLong .noCtx 0 (buffers.map Buffer.bytes).flatten ps e) :
    decodePackets bitsPerLong buffers = (ps, e) := by
  have hfew : bitsPerLong = 32 ∨ buffers = [] ∨ buffers.length = 1 :=
    hbits.imp_right fun hlen => (Nat.le_one_iff_eq_zero_or_eq_one.mp hlen).imp_left List.length_eq_zero_iff.mp
  have hready : (PacketDecoder.start buffers).Ready bitsPerLong :=
    ⟨Or.inl rfl, h.linked, h.later, Or.inl ⟨rfl, rfl⟩,
      hfew.imp_right (Or.imp_right fun hone => ⟨rfl, rfl, hone⟩)⟩
  exact hready.packets (Nat.lt_succ_self _) hparse

theorem packets_division_independent {buffers buffers' : List Buffer} (h : Consecutive buffers)
    (h' : Consecutive buffers')
    (hsame : (buffers.map Buffer.bytes).flatten = (buffers'.map Buffer.bytes).flatten) :
    decodePackets 32 buffers = decodePackets 32 buffers' := by
  obtain ⟨ps, e, hparse⟩ := exists_parses 32 .noCtx 0 (buffers.map Buffer.bytes).flatten
  rw [decodePackets_eq h (Or.inl rfl) hparse]
  rw [hsame] at hparse
  rw [decodePackets_eq h' (Or.inl rfl) hparse]

/-- A packet of eight bytes, of which the first buffer has four. -/
theorem packets_division_independent_split :
    decodePackets 32 [⟨[0x19, 1, 2, 3], true⟩, ⟨[4, 5, 6, 7] ++ List.replicate 12 0, true⟩] =
      decodePackets 32 [⟨[0x19, 1, 2, 3, 4, 5, 6, 7] ++ List.replicate 12 0, true⟩] :=
  packets_division_independent ⟨by simp, by simp [pktMaxSz]⟩ ⟨by simp, by simp⟩ rfl

example : decodePackets 32 [⟨[0x19], true⟩, ⟨[1, 2, 3, 4], true⟩, ⟨[5, 6, 7], true⟩] = ([], .badPacket) := by
  decide

end PtPerf.Decode
