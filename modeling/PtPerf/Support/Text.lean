import PtPerf.Support.Search

/-! Byte strings as `printf` fills them in and as `std::string` searches, cuts and converts them.
A position that was not found (`npos`) is `none`. -/

namespace PtPerf.Support.Text

/-- Ways in which a conversion or a cut stops the program. -/
inductive Failure
  | invalidArgument
  | outOfRange
  | abort
  deriving DecidableEq, Repr

section Print

def digits (b n : ℕ) : List UInt8 := (Nat.toDigits b n).map Char.toUInt8

def padLeft (w : ℕ) (c : UInt8) (s : List UInt8) : List UInt8 := List.replicate (w - s.length) c ++ s

def padRight (w : ℕ) (s : List UInt8) : List UInt8 :=
  s ++ List.replicate (w - s.length) ' '.toUInt8

def sign (i : ℤ) : List UInt8 := if i < 0 then ['-'.toUInt8] else []

/-- `%d` -/
def signed (i : ℤ) : List UInt8 := sign i ++ digits 10 i.natAbs

/-- `%0wd`: the sign counts as one of the `w` characters. -/
def signedZeros (w : ℕ) (i : ℤ) : List UInt8 :=
  sign i ++ padLeft (w - (sign i).length) '0'.toUInt8 (digits 10 i.natAbs)

/-- `%#x`: a zero stands alone. -/
def hashHex (n : ℕ) : List UInt8 :=
  if n = 0 then digits 16 n else '0'.toUInt8 :: 'x'.toUInt8 :: digits 16 n

end Print

section Find

def find (pat s : List UInt8) (pos : Option ℕ) : Option ℕ :=
  pos.bind fun p => (memmem pat (s.drop p)).map (p + ·)

def findFirstOf (c : UInt8) (s : List UInt8) (pos : Option ℕ) : Option ℕ := find [c] s pos

def findFirstNotOf (c : UInt8) (s : List UInt8) (pos : ℕ) : Option ℕ :=
  ((s.drop pos).findIdx? (· != c)).map (pos + ·)

def findLastOf (c : UInt8) (s : List UInt8) : Option ℕ :=
  (s.reverse.findIdx? (· == c)).map (s.length - 1 - ·)

/-- `pos + k`, which wraps around from `npos`. -/
def after (pos : Option ℕ) (k : ℕ) : ℕ :=
  match pos with
  | some p => p + k
  | none => k - 1

def substr (s : List UInt8) (pos count : ℕ) : Except Failure (List UInt8) :=
  if pos ≤ s.length then .ok ((s.drop pos).take count) else .error .outOfRange

/-- `s.substr(start, stop - start)`; the difference wraps around when `stop` comes first. -/
def cut (s : List UInt8) (start stop : Option ℕ) : Except Failure (List UInt8) :=
  match start with
  | none => .error .outOfRange
  | some p => substr s p (match stop with
    | none => s.length
    | some e => if e < p then s.length else e - p)

end Find

section Scan

def isSpace (c : UInt8) : Bool := c == ' '.toUInt8 || (9 ≤ c && c ≤ 13)

/-- The value of a digit or letter as a digit of some base, 36 for any other byte. -/
def digitValue (c : UInt8) : ℕ :=
  if '0'.toUInt8 ≤ c ∧ c ≤ '9'.toUInt8 then (c - '0'.toUInt8).toNat
  else if 'a'.toUInt8 ≤ c ∧ c ≤ 'z'.toUInt8 then (c - 'a'.toUInt8).toNat + 10
  else if 'A'.toUInt8 ≤ c ∧ c ≤ 'Z'.toUInt8 then (c - 'A'.toUInt8).toNat + 10
  else 36

def leadingDigits (b : ℕ) (s : List UInt8) : List ℕ := (s.map digitValue).takeWhile (· < b)

def valueOf (b : ℕ) (ds : List ℕ) : ℕ := ds.foldl (fun n d => b * n + d) 0

def skipSign : List UInt8 → Bool × List UInt8
  | [] => (false, [])
  | c :: s =>
    if c = '-'.toUInt8 then (true, s) else if c = '+'.toUInt8 then (false, s) else (false, c :: s)

/-- A hexadecimal number may start with `0x`, if a digit follows. -/
def skipBase (b : ℕ) : List UInt8 → List UInt8
  | z :: x :: c :: s =>
    if b = 16 ∧ z = '0'.toUInt8 ∧ (x = 'x'.toUInt8 ∨ x = 'X'.toUInt8) ∧ digitValue c < 16 then c :: s
    else z :: x :: c :: s
  | s => s

def scan (b : ℕ) (s : List UInt8) : Option ℕ :=
  let ds := leadingDigits b (skipBase b s)
  if ds = [] then none else some (valueOf b ds)

/-- What `strtol` reads: whether a minus sign came first, and the number after it. -/
def number (b : ℕ) (s : List UInt8) : Option (Bool × ℕ) :=
  let signed := skipSign (s.dropWhile isSpace)
  (scan b signed.2).map fun n => (signed.1, n)

def stol (b : ℕ) (s : List UInt8) : Except Failure ℤ :=
  match number b s with
  | none => .error .invalidArgument
  | some (neg, n) =>
    let v : ℤ := if neg then -n else n
    if -2 ^ 63 ≤ v ∧ v < 2 ^ 63 then .ok v else .error .outOfRange

def stoull (b : ℕ) (s : List UInt8) : Except Failure UInt64 :=
  match number b s with
  | none => .error .invalidArgument
  | some (neg, n) =>
    if n < 2 ^ 64 then .ok (if neg then -UInt64.ofNat n else UInt64.ofNat n) else .error .outOfRange

end Scan

section Digits

variable {b : ℕ}

lemma digitValue_digitChar : ∀ d < 16, digitValue (Nat.digitChar d).toUInt8 = d := by decide

lemma digits_eq (hb : 1 < b) (n : ℕ) :
    digits b n = if n < b then [(Nat.digitChar n).toUInt8]
      else digits b (n / b) ++ [(Nat.digitChar (n % b)).toUInt8] := by
  rw [digits, Nat.toDigits_eq_if hb]
  split
  · rfl
  · rw [List.map_append, digits]
    rfl

lemma digits_ne_nil (hb : 1 < b) (n : ℕ) : digits b n ≠ [] := by
  rw [digits_eq hb]
  split <;> simp

lemma valueOf_append_singleton (ds : List ℕ) (d : ℕ) :
    valueOf b (ds ++ [d]) = b * valueOf b ds + d := by
  simp [valueOf, List.foldl_append]

/-- Induction on the number, whose last digit is printed last. -/
lemma map_digitValue_digits (hb : 1 < b) (hb' : b ≤ 16) (n : ℕ) :
    (∀ d ∈ (digits b n).map digitValue, d < b) ∧ valueOf b ((digits b n).map digitValue) = n := by
  induction n using Nat.strong_induction_on with
  | _ n ih =>
    rw [digits_eq hb]
    split
    · rename_i hn
      rw [List.map_singleton, digitValue_digitChar n (hn.trans_le hb')]
      simpa [valueOf] using hn
    · rename_i hn
      have hlt : n % b < b := Nat.mod_lt n (by omega)
      obtain ⟨hds, hval⟩ := ih (n / b) (Nat.div_lt_self (by omega) hb)
      rw [List.map_append, List.map_singleton, digitValue_digitChar _ (hlt.trans_le hb'),
        valueOf_append_singleton, hval, Nat.div_add_mod]
      refine ⟨?_, rfl⟩
      intro d hd
      rcases List.mem_append.mp hd with hd | hd
      · exact hds d hd
      · rw [List.mem_singleton.mp hd]
        exact hlt

lemma not_mem_digits (hb : 1 < b) (hb' : b ≤ 16) {c : UInt8} (hc : b ≤ digitValue c) (n : ℕ) :
    c ∉ digits b n := fun h =>
  absurd ((map_digitValue_digits hb hb' n).1 _ (List.mem_map_of_mem h)) (Nat.not_lt.mpr hc)

lemma not_mem_padLeft {c z : UInt8} {s : List UInt8} (hz : c ≠ z) (hs : c ∉ s) (w : ℕ) :
    c ∉ padLeft w z s := by
  rw [padLeft, List.mem_append, not_or]
  exact ⟨fun h => hz (List.eq_of_mem_replicate h), hs⟩

lemma not_mem_sign {c : UInt8} (hsign : c ≠ '-'.toUInt8) (i : ℤ) : c ∉ sign i := by
  rw [sign]
  split
  · simpa using hsign
  · exact List.not_mem_nil

lemma not_mem_signed {c : UInt8} (hc : 10 ≤ digitValue c) (hsign : c ≠ '-'.toUInt8) (i : ℤ) :
    c ∉ signed i := by
  rw [signed, List.mem_append, not_or]
  exact ⟨not_mem_sign hsign i, not_mem_digits (by decide) (by decide) hc i.natAbs⟩

lemma not_mem_signedZeros {c : UInt8} (hc : 10 ≤ digitValue c) (hsign : c ≠ '-'.toUInt8) (w : ℕ)
    (i : ℤ) : c ∉ signedZeros w i := by
  have hz : c ≠ '0'.toUInt8 := by
    rintro rfl
    exact absurd hc (by decide)
  rw [signedZeros, List.mem_append, not_or]
  exact ⟨not_mem_sign hsign i,
    not_mem_padLeft hz (not_mem_digits (by decide) (by decide) hc i.natAbs) _⟩

end Digits

section Read

variable {b : ℕ} {rest : List UInt8}

/-- The text does not continue a number. -/
def Ends (b : ℕ) (rest : List UInt8) : Prop := leadingDigits b rest = []

lemma leadingDigits_padLeft (hb : 1 < b) (hb' : b ≤ 16) (n k : ℕ) (hrest : Ends b rest) :
    leadingDigits b (List.replicate k '0'.toUInt8 ++ (digits b n ++ rest)) =
      List.replicate k 0 ++ (digits b n).map digitValue := by
  have hzero : digitValue '0'.toUInt8 = 0 := by decide
  have hlow : ∀ d ∈ List.replicate k 0 ++ (digits b n).map digitValue, decide (d < b) = true := by
    intro d hd
    rw [decide_eq_true_eq]
    rcases List.mem_append.mp hd with hd | hd
    · rw [List.eq_of_mem_replicate hd]
      omega
    · exact (map_digitValue_digits hb hb' n).1 d hd
  have hends : (rest.map digitValue).takeWhile (fun d => decide (d < b)) = [] := hrest
  rw [leadingDigits, List.map_append, List.map_append, List.map_replicate, hzero, ← List.append_assoc,
    List.takeWhile_append_of_pos hlow, hends, List.append_nil]

lemma valueOf_padded (n k : ℕ) (hb : 1 < b) (hb' : b ≤ 16) :
    valueOf b (List.replicate k 0 ++ (digits b n).map digitValue) = n := by
  have hzeros : ∀ k, List.foldl (fun n d => b * n + d) 0 (List.replicate k 0) = 0 := by
    intro k
    induction k with
    | zero => rfl
    | succ k ih => simpa [List.replicate_succ] using ih
  have hval := (map_digitValue_digits hb hb' n).2
  rw [valueOf, List.foldl_append, hzeros]
  exact hval

lemma dropWhile_isSpace_replicate (k : ℕ) (s : List UInt8) :
    (List.replicate k ' '.toUInt8 ++ s).dropWhile isSpace = s.dropWhile isSpace := by
  apply List.dropWhile_append_of_pos
  intro c hc
  rw [List.eq_of_mem_replicate hc]
  decide

lemma skipBase_of_ne (hb : b ≠ 16) (s : List UInt8) : skipBase b s = s := by
  unfold skipBase
  split
  · rw [if_neg (fun h => hb h.1)]
  · rfl

lemma skipBase_of_digits (n : ℕ) : skipBase 16 (digits 16 n) = digits 16 n := by
  have hx := not_mem_digits (b := 16) (c := 'x'.toUInt8) (by decide) le_rfl (by decide) n
  have hX := not_mem_digits (b := 16) (c := 'X'.toUInt8) (by decide) le_rfl (by decide) n
  unfold skipBase
  split
  · rename_i z x c s heq
    rw [heq] at hx hX
    rw [if_neg, heq]
    rintro ⟨-, -, rfl | rfl, -⟩
    · exact hx (by simp)
    · exact hX (by simp)
  · rfl

lemma skipBase_hex (n : ℕ) (rest : List UInt8) :
    skipBase 16 ('0'.toUInt8 :: 'x'.toUInt8 :: (digits 16 n ++ rest)) = digits 16 n ++ rest := by
  have hlow := (map_digitValue_digits (b := 16) (by decide) le_rfl n).1
  cases hd : digits 16 n with
  | nil => exact absurd hd (digits_ne_nil (by decide) n)
  | cons c s =>
    rw [hd] at hlow
    have hc : digitValue c < 16 := hlow _ (by simp)
    simp [skipBase, hc]

lemma scan_of_skip (hb : 1 < b) (hb' : b ≤ 16) {s : List UInt8} (n k : ℕ)
    (hskip : skipBase b s = List.replicate k '0'.toUInt8 ++ (digits b n ++ rest))
    (hrest : Ends b rest) : scan b s = some n := by
  have hds := leadingDigits_padLeft hb hb' n k hrest
  rw [← hskip] at hds
  simp only [scan, hds, valueOf_padded n k hb hb']
  exact if_neg (by simp [digits_ne_nil hb])

lemma scan_padded (n k : ℕ) (hrest : Ends 10 rest) :
    scan 10 (List.replicate k '0'.toUInt8 ++ (digits 10 n ++ rest)) = some n :=
  scan_of_skip (by decide) (by decide) n k (skipBase_of_ne (by decide) _) hrest

lemma scan_hex (n : ℕ) : scan 16 (digits 16 n) = some n := by
  have hskip : skipBase 16 (digits 16 n) = List.replicate 0 '0'.toUInt8 ++ (digits 16 n ++ []) := by
    simpa using skipBase_of_digits n
  exact scan_of_skip (by decide) le_rfl n 0 hskip rfl

lemma scan_hex_marked (n : ℕ) (hrest : Ends 16 rest) :
    scan 16 ('0'.toUInt8 :: 'x'.toUInt8 :: (digits 16 n ++ rest)) = some n :=
  scan_of_skip (by decide) le_rfl n 0 (skipBase_hex n rest) hrest

lemma head_of_scan (hb : b ≤ 16) {s : List UInt8} {n : ℕ} (h : scan b s = some n) :
    ∃ c t, s = c :: t ∧ digitValue c < 16 := by
  have hne : leadingDigits b (skipBase b s) ≠ [] := by
    intro hnil
    rw [scan, if_pos hnil] at h
    cases h
  cases s with
  | nil => exact absurd rfl hne
  | cons c t =>
    refine ⟨c, t, rfl, ?_⟩
    by_contra hbig
    have hz : c ≠ '0'.toUInt8 := by
      rintro rfl
      exact hbig (by decide)
    have hskip : skipBase b (c :: t) = c :: t := by
      unfold skipBase
      split
      · rename_i heq
        rw [if_neg, ← heq]
        rintro ⟨-, rfl, -⟩
        exact hz (List.cons.inj heq).1
      · rfl
    rw [hskip, leadingDigits, List.map_cons, List.takeWhile_cons_of_neg] at hne
    · exact hne rfl
    · simp only [decide_eq_true_eq]
      omega

lemma digit_not_space_sign {c : UInt8} (hc : digitValue c < 16) :
    isSpace c = false ∧ c ≠ '-'.toUInt8 ∧ c ≠ '+'.toUInt8 := by
  have h : ∀ n : Fin 256, digitValue (UInt8.ofNat n) < 16 → isSpace (UInt8.ofNat n) = false ∧
      UInt8.ofNat n ≠ '-'.toUInt8 ∧ UInt8.ofNat n ≠ '+'.toUInt8 := by decide +kernel
  have hn := h ⟨c.toNat, c.toNat_lt⟩
  simp only [UInt8.ofNat_toNat] at hn
  exact hn hc

lemma number_of_scan (hb : b ≤ 16) {s : List UInt8} {n : ℕ} (h : scan b s = some n) (k : ℕ) :
    number b (List.replicate k ' '.toUInt8 ++ s) = some (false, n) := by
  obtain ⟨c, t, rfl, hc⟩ := head_of_scan hb h
  obtain ⟨hspace, hminus, hplus⟩ := digit_not_space_sign hc
  have hdrop : (c :: t).dropWhile isSpace = c :: t := List.dropWhile_cons_of_neg (by simp [hspace])
  have hsign : skipSign (c :: t) = (false, c :: t) := by
    rw [skipSign, if_neg hminus, if_neg hplus]
  simp only [number, dropWhile_isSpace_replicate, hdrop, hsign, h, Option.map_some]

lemma number_minus_of_scan {s : List UInt8} {n : ℕ} (h : scan b s = some n) (k : ℕ) :
    number b (List.replicate k ' '.toUInt8 ++ '-'.toUInt8 :: s) = some (true, n) := by
  have hdrop : ('-'.toUInt8 :: s).dropWhile isSpace = '-'.toUInt8 :: s :=
    List.dropWhile_cons_of_neg (by decide)
  have hsign : skipSign ('-'.toUInt8 :: s) = (true, s) := by rw [skipSign, if_pos rfl]
  simp only [number, dropWhile_isSpace_replicate, hdrop, hsign, h, Option.map_some]

lemma stol_of_number {s : List UInt8} {n : ℕ} (h : number b s = some (false, n)) :
    stol b s = if n < 2 ^ 63 then .ok (n : ℤ) else .error .outOfRange := by
  simp only [stol, h, Bool.false_eq_true, if_false]
  by_cases hn : n < 2 ^ 63
  · rw [if_pos (by omega), if_pos hn]
  · rw [if_neg (by omega), if_neg hn]

lemma stol_padded (n j k : ℕ) (hn : n < 2 ^ 63) (hrest : Ends 10 rest) :
    stol 10 (List.replicate j ' '.toUInt8 ++ (List.replicate k '0'.toUInt8 ++
      (digits 10 n ++ rest))) = .ok (n : ℤ) := by
  rw [stol_of_number (number_of_scan (by decide) (scan_padded n k hrest) j), if_pos hn]

lemma stol_signed (i : ℤ) (j : ℕ) (hlow : -2 ^ 63 ≤ i) (hhigh : i < 2 ^ 63) (hrest : Ends 10 rest) :
    stol 10 (List.replicate j ' '.toUInt8 ++ (signed i ++ rest)) = .ok i := by
  have hscan := scan_padded i.natAbs 0 hrest
  rw [List.replicate_zero, List.nil_append] at hscan
  rw [signed, sign]
  by_cases hi : i < 0
  · have hneg : -(i.natAbs : ℤ) = i := by omega
    rw [if_pos hi, List.append_assoc, List.singleton_append]
    simp only [stol, number_minus_of_scan hscan j, if_true, hneg]
    rw [if_pos ⟨hlow, hhigh⟩]
  · have hpos : (i.natAbs : ℤ) = i := by omega
    rw [if_neg hi, List.nil_append, stol_of_number (number_of_scan (by decide) hscan j),
      if_pos (by omega), hpos]

lemma stol_hex (n : ℕ) (hrest : Ends 16 rest) :
    stol 16 ('0'.toUInt8 :: 'x'.toUInt8 :: (digits 16 n ++ rest)) =
      if n < 2 ^ 63 then .ok (n : ℤ) else .error .outOfRange :=
  stol_of_number (number_of_scan le_rfl (scan_hex_marked n hrest) 0)

lemma stoull_of_scan (hb : b ≤ 16) {s : List UInt8} {n : UInt64} (h : scan b s = some n.toNat) :
    stoull b s = .ok n := by
  have hnum : number b s = some (false, n.toNat) := number_of_scan hb h 0
  simp only [stoull, hnum, Bool.false_eq_true, if_false, UInt64.ofNat_toNat]
  exact if_pos n.toNat_lt

lemma stoull_hex (n : UInt64) : stoull 16 (digits 16 n.toNat) = .ok n :=
  stoull_of_scan le_rfl (scan_hex n.toNat)

lemma stoull_dec (n : UInt64) : stoull 10 (digits 10 n.toNat) = .ok n := by
  have hscan := scan_padded n.toNat 0 (show Ends 10 [] from rfl)
  rw [List.replicate_zero, List.nil_append, List.append_nil] at hscan
  exact stoull_of_scan (by decide) hscan

end Read

/-! A position together with the text that is left from there on. -/

structure At (s : List UInt8) (n : ℕ) (t : List UInt8) : Prop where
  le : n ≤ s.length
  rest : s.drop n = t

namespace At

variable {s ys zs t pat : List UInt8} {n k : ℕ} {c d : UInt8}

lemma start (h : s = t) : At s 0 t := ⟨Nat.zero_le _, h⟩

lemma length (h : At s n t) : s.length = n + t.length := by
  have hlen := congrArg List.length h.rest
  have hle := h.le
  rw [List.length_drop] at hlen
  omega

lemma skip (h : At s n (ys ++ zs)) : At s (n + ys.length) zs := by
  have hlen := h.length
  rw [List.length_append] at hlen
  refine ⟨by omega, ?_⟩
  rw [← List.drop_drop, h.rest, List.drop_left]

lemma substr (h : At s n (ys ++ zs)) : substr s n ys.length = .ok ys := by
  rw [Text.substr, if_pos h.le, h.rest, List.take_left]

lemma substr_rest (h : At s n t) (hk : t.length ≤ k) : Text.substr s n k = .ok t := by
  rw [Text.substr, if_pos h.le, h.rest, List.take_of_length_le hk]

lemma cut (h : At s n (ys ++ zs)) : cut s (some n) (some (n + ys.length)) = .ok ys := by
  have hcount : (if n + ys.length < n then s.length else n + ys.length - n) = ys.length := by
    rw [if_neg (by omega), Nat.add_sub_cancel_left]
  simp only [Text.cut, hcount]
  exact h.substr

lemma cut_between {m : ℕ} (h : At s n (ys ++ zs)) (h' : At s m zs) :
    Text.cut s (some n) (some m) = .ok ys := by
  have hm : m = n + ys.length := by
    have hn := h.length
    have hm := h'.length
    rw [List.length_append] at hn
    omega
  rw [hm]
  exact h.cut

lemma cut_end (h : At s n t) : Text.cut s (some n) (some s.length) = .ok t := by
  rw [h.length]
  have hall : At s n (t ++ []) := by rwa [List.append_nil]
  exact hall.cut

lemma find (h : At s n (ys ++ (pat ++ zs))) (hpat : pat ≠ []) (hno : ¬ pat <:+: ys ++ pat.dropLast) :
    ∃ e, Text.find pat s (some n) = some e ∧ Text.cut s (some n) (some e) = .ok ys ∧
      At s (e + pat.length) zs := by
  refine ⟨n + ys.length, ?_, h.cut, h.skip.skip⟩
  rw [Text.find, Option.bind_some, h.rest, memmem_append hpat hno]
  rfl

lemma findFirstOf (h : At s n (ys ++ c :: zs)) (hc : c ∉ ys) :
    ∃ e, Text.findFirstOf c s (some n) = some e ∧ Text.cut s (some n) (some e) = .ok ys ∧
      At s (e + 1) zs := by
  have hsplit : At s n (ys ++ ([c] ++ zs)) := h
  refine hsplit.find (List.cons_ne_nil c []) ?_
  rw [List.dropLast_singleton, List.append_nil, List.singleton_infix_iff]
  exact hc

lemma findFirstNotOf (h : At s n (List.replicate k c ++ d :: zs)) (hd : d ≠ c) :
    ∃ p, Text.findFirstNotOf c s n = some p ∧ At s p (d :: zs) := by
  refine ⟨n + k, ?_, by simpa using h.skip⟩
  have hidx : (List.replicate k c ++ d :: zs).findIdx? (· != c) = some k := by
    rw [List.findIdx?_append, List.findIdx?_replicate]
    simp [List.findIdx?_cons, hd]
  rw [Text.findFirstNotOf, h.rest, hidx]
  rfl

end At

/-! A text of words, each with a blank before it. -/

def words (ws : List (List UInt8)) : List UInt8 := ws.flatMap (' '.toUInt8 :: ·)

lemma words_append (vs ws : List (List UInt8)) : words (vs ++ ws) = words vs ++ words ws :=
  List.flatMap_append

lemma not_mem_words {c : UInt8} {ws : List (List UInt8)} (hc : c ≠ ' '.toUInt8)
    (h : ∀ w ∈ ws, c ∉ w) : c ∉ words ws := by
  intro hin
  obtain ⟨w, hw, hcw⟩ := List.mem_flatMap.mp hin
  rcases List.mem_cons.mp hcw with rfl | hcw
  · exact hc rfl
  · exact h w hw hcw

section Words

variable {pat rest : List UInt8} {ws : List (List UInt8)}

lemma infix_append_words_iff (hb : ' '.toUInt8 ∉ pat) (xs : List UInt8) :
    pat <:+: xs ++ words ws ↔ pat <:+: xs ∨ ∃ w ∈ ws, pat <:+: w := by
  induction ws generalizing xs with
  | nil => simp [words]
  | cons w ws ih =>
    have hcons : words (w :: ws) = ' '.toUInt8 :: (w ++ words ws) := by simp [words]
    rw [hcons, infix_append_cons_iff hb, ih]
    simp

lemma memmem_words {u : List UInt8} (hb : ' '.toUInt8 ∉ pat) (hpat : pat ≠ []) (hws : ∀ w ∈ ws, ¬ pat <:+: w)
    (hu : ¬ pat <:+: u ++ pat.dropLast) :
    memmem pat (words ws ++ ' '.toUInt8 :: (u ++ (pat ++ rest))) =
      some (words ws ++ ' '.toUInt8 :: u).length := by
  have hsplit : words ws ++ ' '.toUInt8 :: (u ++ (pat ++ rest)) =
      (words ws ++ ' '.toUInt8 :: u) ++ (pat ++ rest) := by
    rw [List.append_assoc, List.cons_append]
  rw [hsplit, memmem_append hpat]
  have hnil : ¬ pat <:+: ([] : List UInt8) := by simpa using hpat
  have hno := mt (infix_append_words_iff hb []).mp (not_or.mpr ⟨hnil, by simpa using hws⟩)
  rw [List.append_assoc, List.cons_append, infix_append_cons_iff hb, not_or]
  exact ⟨hno, hu⟩

lemma find_words {s : List UInt8} (ws : List (List UInt8)) (u : List UInt8)
    (hs : s = words ws ++ ' '.toUInt8 :: (u ++ (pat ++ rest)))
    (hb : ' '.toUInt8 ∉ pat) (hpat : pat ≠ []) (hws : ∀ w ∈ ws, ¬ pat <:+: w)
    (hu : ¬ pat <:+: u ++ pat.dropLast) :
    ∃ e, find pat s (some 0) = some e ∧ At s e (pat ++ rest) := by
  refine ⟨(words ws ++ ' '.toUInt8 :: u).length, ?_, ?_⟩
  · rw [find, Option.bind_some, List.drop_zero, hs, memmem_words hb hpat hws hu]
    simp
  · have hat : At s 0 ((words ws ++ ' '.toUInt8 :: u) ++ (pat ++ rest)) := by
      apply At.start
      rw [hs, List.append_assoc, List.cons_append]
    simpa using hat.skip

end Words

lemma not_infix_of_not_mem {pat w : List UInt8} {c : UInt8} (hc : c ∈ pat) (hw : c ∉ w) :
    ¬ pat <:+: w := fun h => hw (h.subset hc)

lemma find_isSome_iff {pat s : List UInt8} : (find pat s (some 0)).isSome ↔ pat <:+: s := by
  rw [← memmem_isSome_iff, find, Option.bind_some, List.drop_zero, Option.isSome_map]

lemma find_eq_none_iff {pat s : List UInt8} : find pat s (some 0) = none ↔ ¬ pat <:+: s := by
  rw [← find_isSome_iff, Option.not_isSome_iff_eq_none]

lemma findFirstOf_none {c : UInt8} {s : List UInt8} {p : ℕ} (hc : c ∉ s.drop p) :
    findFirstOf c s (some p) = none := by
  have hno := mt memmem_isSome_iff.mp (mt (List.singleton_infix_iff c _).mp hc)
  rw [Option.not_isSome_iff_eq_none] at hno
  rw [findFirstOf, find, Option.bind_some, hno]
  rfl

lemma findLastOf_eq_none_iff {c : UInt8} {s : List UInt8} : findLastOf c s = none ↔ c ∉ s := by
  rw [findLastOf, Option.map_eq_none_iff, List.findIdx?_eq_none_iff]
  simp only [List.mem_reverse, beq_eq_false_iff_ne]
  exact List.forall_mem_ne'

lemma findLastOf_append {c : UInt8} (xs : List UInt8) {zs : List UInt8} (hc : c ∉ zs) :
    findLastOf c (xs ++ c :: zs) = some xs.length := by
  have hidx : (xs ++ c :: zs).reverse.findIdx? (· == c) = some zs.length := by
    rw [List.reverse_append, List.reverse_cons, List.append_assoc, List.findIdx?_append]
    have hnone : zs.reverse.findIdx? (· == c) = none := by
      rw [List.findIdx?_eq_none_iff]
      intro d hd
      rw [List.mem_reverse] at hd
      simpa using ne_of_mem_of_not_mem hd hc
    simp [hnone, List.findIdx?_cons]
  rw [findLastOf, hidx, Option.map_some]
  congr 1
  simp

end PtPerf.Support.Text
