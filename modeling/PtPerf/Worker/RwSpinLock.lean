import PtPerf.Support.Interleave
import Mathlib.Algebra.BigOperators.Group.Finset.Piecewise
import Mathlib.Algebra.Order.BigOperators.Group.Finset

/-! The `RwSpinLock`: one signed word that every reader counts down by one and a writer by `WRITE`. -/

namespace PtPerf.Worker

open PtPerf.Support

/-- Where a thread is in the methods of the lock. -/
inductive LockAt
  | outside
  | sLoad
  | sExchange (lk : Int32)
  | sHeld
  | xLock
  | xSub
  | xLoad
  | xHeld
  | xUnlock
  deriving DecidableEq

structure RwSpinLock (n : ℕ) where
  word : Int32
  writer : Option (Fin n)
  place : Fin n → LockAt

namespace RwSpinLock

variable {n : ℕ}

/-- The constant `WRITE`. -/
def write : Int32 := 0x20000000

def init : RwSpinLock n where
  word := write
  writer := none
  place _ := .outside

def goTo (s : RwSpinLock n) (i : Fin n) (a : LockAt) : RwSpinLock n :=
  { s with place := Function.update s.place i a }

lemma goTo_self (s : RwSpinLock n) (i : Fin n) (a : LockAt) : (s.goTo i a).place i = a := by
  dsimp only [goTo]
  rw [Function.update_self]

lemma goTo_of_ne (s : RwSpinLock n) {i j : Fin n} (h : j ≠ i) (a : LockAt) :
    (s.goTo i a).place j = s.place j := by
  dsimp only [goTo]
  rw [Function.update_of_ne h]

inductive Move
  | sLock
  | xLock
  | go
  | spurious

/-- One atomic operation of a thread. The exchange is the weak one: it may fail for no reason. -/
def step (s : RwSpinLock n) : Fin n × Move → Option (RwSpinLock n)
  | (i, .sLock) =>
    match s.place i with
    | .outside => some (s.goTo i .sLoad)
    | _ => none
  | (i, .xLock) =>
    match s.place i with
    | .outside => some (s.goTo i .xLock)
    | _ => none
  | (i, .go) =>
    match s.place i with
    | .outside => none
    | .sLoad => some (s.goTo i (if s.word > 0 then .sExchange s.word else .sLoad))
    | .sExchange lk =>
      if s.word = lk then some { s.goTo i .sHeld with word := lk - 1 } else some (s.goTo i .sLoad)
    | .sHeld => some { s.goTo i .outside with word := s.word + 1 }
    | .xLock => if s.writer = none then some { s.goTo i .xSub with writer := some i } else none
    | .xSub => some { s.goTo i (if s.word = 0 then .xHeld else .xLoad) with word := s.word - write }
    | .xLoad => some (s.goTo i (if s.word = 0 then .xHeld else .xLoad))
    | .xHeld => some { s.goTo i .xUnlock with word := s.word + write }
    | .xUnlock => some { s.goTo i .outside with writer := none }
  | (i, .spurious) =>
    match s.place i with
    | .sExchange _ => some (s.goTo i .sLoad)
    | _ => none

inductive Step (s : RwSpinLock n) (i : Fin n) : RwSpinLock n → Prop
  | enterS : s.place i = .outside → Step s i (s.goTo i .sLoad)
  | enterX : s.place i = .outside → Step s i (s.goTo i .xLock)
  | seen : s.place i = .sLoad → 0 < s.word → Step s i (s.goTo i (.sExchange s.word))
  | unseen : s.place i = .sLoad → Step s i (s.goTo i .sLoad)
  | exchanged {lk : Int32} : s.place i = .sExchange lk → s.word = lk →
      Step s i { s.goTo i .sHeld with word := lk - 1 }
  | again {lk : Int32} : s.place i = .sExchange lk → Step s i (s.goTo i .sLoad)
  | sUnlock : s.place i = .sHeld → Step s i { s.goTo i .outside with word := s.word + 1 }
  | xLock : s.place i = .xLock → s.writer = none →
      Step s i { s.goTo i .xSub with writer := some i }
  | counted : s.place i = .xSub → s.word ≠ 0 →
      Step s i { s.goTo i .xLoad with word := s.word - write }
  | countedFree : s.place i = .xSub → s.word = 0 →
      Step s i { s.goTo i .xHeld with word := s.word - write }
  | waits : s.place i = .xLoad → Step s i (s.goTo i .xLoad)
  | free : s.place i = .xLoad → s.word = 0 → Step s i (s.goTo i .xHeld)
  | uncounted : s.place i = .xHeld → Step s i { s.goTo i .xUnlock with word := s.word + write }
  | xUnlock : s.place i = .xUnlock → Step s i { s.goTo i .outside with writer := none }

lemma step_cases {s t : RwSpinLock n} {m : Fin n × Move} (h : s.step m = some t) : Step s m.1 t := by
  obtain ⟨i, m⟩ := m
  cases m with
  | sLock =>
    rw [step] at h
    split at h
    · next hp =>
      cases h
      exact .enterS hp
    · cases h
  | xLock =>
    rw [step] at h
    split at h
    · next hp =>
      cases h
      exact .enterX hp
    · cases h
  | spurious =>
    rw [step] at h
    split at h
    · next hp =>
      cases h
      exact .again hp
    · cases h
  | go =>
    rw [step] at h
    cases hp : s.place i with
    | outside =>
      simp only [hp] at h
      cases h
    | sLoad =>
      simp only [hp] at h
      cases h
      split
      · next hpos => exact .seen hp hpos
      · exact .unseen hp
    | sExchange lk =>
      simp only [hp] at h
      split at h
      · next hw =>
        cases h
        exact .exchanged hp hw
      · cases h
        exact .again hp
    | xLock =>
      simp only [hp] at h
      split at h
      · next hw =>
        cases h
        exact .xLock hp hw
      · cases h
    | xSub =>
      simp only [hp] at h
      cases h
      split
      · next hw => exact .countedFree hp hw
      · next hw => exact .counted hp hw
    | xLoad =>
      simp only [hp] at h
      cases h
      split
      · next hw => exact .free hp hw
      · exact .waits hp
    | sHeld =>
      simp only [hp] at h
      cases h
      exact .sUnlock hp
    | xHeld =>
      simp only [hp, Option.some.injEq] at h
      rw [← h]
      exact .uncounted hp
    | xUnlock =>
      simp only [hp] at h
      cases h
      exact .xUnlock hp

end RwSpinLock

/-- What a thread at this place has taken from the word. -/
def LockAt.weight : LockAt → ℤ
  | .sHeld => 1
  | .xLoad | .xHeld => 2 ^ 29
  | _ => 0

/-- The places at which a thread has `m_writer`. -/
def LockAt.owns : LockAt → Bool
  | .xSub | .xLoad | .xHeld | .xUnlock => true
  | _ => false

lemma LockAt.weight_nonneg (a : LockAt) : 0 ≤ a.weight := by
  cases a <;> simp [LockAt.weight]

lemma LockAt.weight_le_one {a : LockAt} (h : a.owns = false) : a.weight ≤ 1 := by
  cases a with
  | xSub | xLoad | xHeld | xUnlock => cases h
  | _ => simp [LockAt.weight]

namespace RwSpinLock

variable {n : ℕ} {s t : RwSpinLock n} {i j : Fin n}

def load (s : RwSpinLock n) : ℤ := ∑ i, (s.place i).weight

lemma load_goTo (s : RwSpinLock n) (i : Fin n) (a : LockAt) :
    (s.goTo i a).load = s.load - (s.place i).weight + a.weight := by
  have hcomp : ∀ j, (Function.update s.place i a j).weight =
      Function.update (fun j => (s.place j).weight) i a.weight j := by
    intro j
    by_cases hj : j = i
    · rw [hj, Function.update_self, Function.update_self]
    · rw [Function.update_of_ne hj, Function.update_of_ne hj]
  have hsum := Finset.add_sum_erase Finset.univ (fun j => (s.place j).weight) (Finset.mem_univ i)
  rw [load, load, goTo]
  simp only [hcomp]
  rw [Finset.sum_update_of_mem (Finset.mem_univ i), ← Finset.erase_eq, ← hsum]
  ring

structure Inv (s : RwSpinLock n) : Prop where
  word : s.word = Int32.ofInt (2 ^ 29 - s.load)
  owner : ∀ i, (s.place i).owns = true ↔ s.writer = some i
  positive : ∀ i lk, s.place i = .sExchange lk → 0 < lk
  exclusive : ∀ i, s.place i = .xHeld → ∀ j, s.place j ≠ .sHeld

lemma Inv.owner_unique (h : s.Inv) (hi : (s.place i).owns = true) (hj : (s.place j).owns = true) : i = j :=
  Option.some.inj (((h.owner i).mp hi).symm.trans ((h.owner j).mp hj))

/-- The threads other than `i` that have the lock, when `i` has `m_writer` or nobody has. -/
def others (s : RwSpinLock n) (i : Fin n) : ℤ := ∑ j ∈ Finset.univ.erase i, (s.place j).weight

lemma load_eq (s : RwSpinLock n) (i : Fin n) : s.load = (s.place i).weight + s.others i :=
  (Finset.add_sum_erase Finset.univ (fun j => (s.place j).weight) (Finset.mem_univ i)).symm

lemma others_nonneg (s : RwSpinLock n) (i : Fin n) : 0 ≤ s.others i :=
  Finset.sum_nonneg fun _ _ => LockAt.weight_nonneg _

lemma Inv.others_lt (h : s.Inv) (hi : (s.place i).owns = true) : s.others i < n := by
  have hle : s.others i ≤ (Finset.univ.erase i).card • (1 : ℤ) := by
    apply Finset.sum_le_card_nsmul
    intro j hj
    apply LockAt.weight_le_one
    by_contra hne
    exact Finset.ne_of_mem_erase hj (h.owner_unique (Bool.eq_true_of_not_eq_false hne) hi)
  rw [Finset.card_erase_of_mem (Finset.mem_univ i), Finset.card_univ, Fintype.card_fin, nsmul_one] at hle
  have hpos := i.pos
  omega

lemma Inv.toInt_word (h : s.Inv) (hlo : -2 ^ 31 ≤ 2 ^ 29 - s.load) (hhi : 2 ^ 29 - s.load < 2 ^ 31) :
    s.word.toInt = 2 ^ 29 - s.load := by
  rw [h.word, Int32.toInt_ofInt_of_le hlo hhi]

lemma Inv.toInt_of_counted (h : s.Inv) (hn : n < 2 ^ 29) (hi : s.place i = .xLoad ∨ s.place i = .xHeld) :
    s.word.toInt = - s.others i := by
  have howns : (s.place i).owns = true := by rcases hi with hi | hi <;> rw [hi] <;> rfl
  have hweight : (s.place i).weight = 2 ^ 29 := by rcases hi with hi | hi <;> rw [hi] <;> rfl
  have hlt := h.others_lt howns
  have hnonneg := s.others_nonneg i
  have hload : 2 ^ 29 - s.load = - s.others i := by
    rw [s.load_eq i, hweight]
    ring
  rw [h.toInt_word (by omega) (by omega), hload]

lemma Inv.no_reader (h : s.Inv) (hn : n < 2 ^ 29) (hi : s.place i = .xLoad) (hw : s.word = 0) (j : Fin n) :
    s.place j ≠ .sHeld := by
  intro hj
  have hzero := h.toInt_of_counted hn (Or.inl hi)
  rw [hw] at hzero
  have hne : j ≠ i := by
    rintro rfl
    rw [hi] at hj
    cases hj
  have hle : (s.place j).weight ≤ s.others i :=
    Finset.single_le_sum (f := fun j => (s.place j).weight) (fun _ _ => LockAt.weight_nonneg _)
      (Finset.mem_erase.mpr ⟨hne, Finset.mem_univ j⟩)
  rw [hj, LockAt.weight] at hle
  have hz : (0 : Int32).toInt = 0 := rfl
  omega

lemma Inv.no_writer (h : s.Inv) (hn : n < 2 ^ 29) (hw : 0 < s.word) (i : Fin n) :
    s.place i ≠ .xLoad ∧ s.place i ≠ .xHeld := by
  rw [← not_or]
  intro hi
  have hword := h.toInt_of_counted hn hi
  rw [Int32.lt_iff_toInt_lt, hword] at hw
  have hnonneg := s.others_nonneg i
  have hz : (0 : Int32).toInt = 0 := rfl
  omega

/-- The owner of `m_writer` that is not counted yet does not find zero: there are too few readers. -/
lemma Inv.word_ne_zero (h : s.Inv) (hn : n < 2 ^ 29) (hi : s.place i = .xSub) : s.word ≠ 0 := by
  intro hw
  have howns : (s.place i).owns = true := by rw [hi]; rfl
  have hlt := h.others_lt howns
  have hnonneg := s.others_nonneg i
  have hload : s.load = s.others i := by
    rw [s.load_eq i, hi]
    exact zero_add _
  have hword := h.toInt_word (by omega) (by omega)
  rw [hw] at hword
  have hz : (0 : Int32).toInt = 0 := rfl
  omega

lemma Inv.goTo (h : s.Inv) {a : LockAt} {w : Int32} {o : Option (Fin n)}
    (hword : w = s.word + Int32.ofInt ((s.place i).weight - a.weight))
    (howner : ∀ j, ((s.goTo i a).place j).owns = true ↔ o = some j)
    (hpos : ∀ lk, a = .sExchange lk → 0 < lk)
    (hread : a = .sHeld → ∀ j, s.place j ≠ .xHeld) (hwrite : a = .xHeld → ∀ j, s.place j ≠ .sHeld) :
    Inv { s.goTo i a with word := w, writer := o } where
  word := by
    have hload : 2 ^ 29 - (s.goTo i a).load = 2 ^ 29 - s.load + ((s.place i).weight - a.weight) := by
      rw [load_goTo]
      ring
    rw [hword, h.word, ← Int32.ofInt_add, ← hload]
    rfl
  owner := howner
  positive j lk hj := by
    change (s.goTo i a).place j = _ at hj
    by_cases hji : j = i
    · rw [hji, goTo_self] at hj
      exact hpos lk hj
    · rw [goTo_of_ne s hji] at hj
      exact h.positive j lk hj
  exclusive j hj k hk := by
    change (s.goTo i a).place j = _ at hj
    change (s.goTo i a).place k = _ at hk
    by_cases hji : j = i
    · rw [hji, goTo_self] at hj
      by_cases hki : k = i
      · rw [hki, goTo_self, hj] at hk
        cases hk
      · rw [goTo_of_ne s hki] at hk
        exact hwrite hj k hk
    · rw [goTo_of_ne s hji] at hj
      by_cases hki : k = i
      · rw [hki, goTo_self] at hk
        exact hread hk j hj
      · rw [goTo_of_ne s hki] at hk
        exact h.exclusive j hj k hk

lemma Inv.owner_goTo (h : s.Inv) {a : LockAt} (ha : a.owns = (s.place i).owns) (j : Fin n) :
    ((s.goTo i a).place j).owns = true ↔ s.writer = some j := by
  by_cases hj : j = i
  · rw [hj, goTo_self, ha]
    exact h.owner i
  · rw [goTo_of_ne s hj]
    exact h.owner j

lemma Inv.stay (h : s.Inv) {a : LockAt} (hweight : a.weight = (s.place i).weight)
    (howns : a.owns = (s.place i).owns) (hpos : ∀ lk, a = .sExchange lk → 0 < lk)
    (hread : a ≠ .sHeld) (hwrite : a = .xHeld → ∀ j, s.place j ≠ .sHeld) : (s.goTo i a).Inv := by
  refine h.goTo ?_ (h.owner_goTo howns) hpos (fun ha => absurd ha hread) hwrite
  rw [hweight, sub_self]
  exact (Int32.add_zero _).symm

lemma Inv.owner_xLock (h : s.Inv) (hw : s.writer = none) (j : Fin n) :
    ((s.goTo i .xSub).place j).owns = true ↔ some i = some j := by
  by_cases hj : j = i
  · rw [hj, goTo_self]
    exact iff_of_true rfl rfl
  · rw [goTo_of_ne s hj, h.owner j, hw]
    exact iff_of_false (fun hn => by cases hn) fun he => hj (Option.some.inj he).symm

lemma Inv.owner_xUnlock (h : s.Inv) (hp : s.place i = .xUnlock) (j : Fin n) :
    ((s.goTo i .outside).place j).owns = true ↔ none = some j := by
  refine iff_of_false ?_ fun hn => by cases hn
  by_cases hj : j = i
  · rw [hj, goTo_self]
    exact fun ho => by cases ho
  · rw [goTo_of_ne s hj]
    exact fun ho => hj (h.owner_unique ho (by rw [hp]; rfl))

lemma Inv.step (h : s.Inv) (hn : n < 2 ^ 29) (hm : Step s i t) : t.Inv := by
  cases hm with
  | enterS hp | enterX hp | unseen hp | again hp | waits hp =>
    exact h.stay (congrArg LockAt.weight hp).symm (congrArg LockAt.owns hp).symm (fun _ ha => by cases ha)
      (fun ha => by cases ha) fun ha => by cases ha
  | seen hp hw =>
    refine h.stay (congrArg LockAt.weight hp).symm (congrArg LockAt.owns hp).symm (fun lk ha => ?_)
      (fun ha => by cases ha) fun ha => by cases ha
    cases ha
    exact hw
  | free hp hw =>
    exact h.stay (congrArg LockAt.weight hp).symm (congrArg LockAt.owns hp).symm (fun _ ha => by cases ha)
      (fun ha => by cases ha) fun _ => h.no_reader hn hp hw
  | @exchanged lk hp hw =>
    refine h.goTo ?_ (h.owner_goTo (by rw [hp]; rfl)) (fun _ ha => by cases ha) (fun _ j => ?_)
      fun ha => by cases ha
    · rw [hp, hw]
      exact Int32.sub_eq_add_neg lk 1
    · rw [← hw] at hp
      exact (h.no_writer hn (h.positive i _ hp) j).2
  | sUnlock hp =>
    refine h.goTo ?_ (h.owner_goTo (by rw [hp]; rfl)) (fun _ ha => by cases ha) (fun ha => by cases ha)
      fun ha => by cases ha
    rw [hp]
    rfl
  | xLock hp hw =>
    refine h.goTo ?_ (h.owner_xLock hw) (fun _ ha => by cases ha) (fun ha => by cases ha)
      fun ha => by cases ha
    rw [hp]
    exact (Int32.add_zero _).symm
  | counted hp =>
    refine h.goTo ?_ (h.owner_goTo (by rw [hp]; rfl)) (fun _ ha => by cases ha) (fun ha => by cases ha)
      fun ha => by cases ha
    rw [hp]
    exact Int32.sub_eq_add_neg s.word write
  | countedFree hp hw => exact absurd hw (h.word_ne_zero hn hp)
  | uncounted hp =>
    refine h.goTo ?_ (h.owner_goTo (by rw [hp]; rfl)) (fun _ ha => by cases ha) (fun ha => by cases ha)
      fun ha => by cases ha
    rw [hp]
    rfl
  | xUnlock hp =>
    refine h.goTo ?_ (h.owner_xUnlock hp) (fun _ ha => by cases ha) (fun ha => by cases ha)
      fun ha => by cases ha
    rw [hp]
    exact (Int32.add_zero _).symm

lemma inv_init : (init : RwSpinLock n).Inv where
  word := by
    have hload : (init : RwSpinLock n).load = 0 := Finset.sum_const_zero
    rw [hload]
    rfl
  owner i := iff_of_false (fun ho => by cases ho) fun hw => by cases hw
  positive i lk hp := by cases hp
  exclusive i hp := by cases hp

end RwSpinLock

open RwSpinLock in
/-- After any moves of fewer than `2 ^ 29` threads at most one of them has the lock exclusively, and
then nobody shares it; the word comes back to `WRITE`. -/
theorem rw_spin_lock_excludes {n : ℕ} (hn : n < 2 ^ 29) (ms : List (Fin n × Move)) (s : RwSpinLock n)
    (h : Interleave.after RwSpinLock.step init ms = some s) :
    (∀ i j, s.place i = .xHeld → s.place j = .xHeld → i = j) ∧
      (∀ i j, s.place i = .xHeld → s.place j ≠ .sHeld) ∧
      ((∀ i, s.place i = .outside ∨ s.place i = .xUnlock) → s.word = 0x20000000) := by
  have hinv : s.Inv := Interleave.after_inv (fun _ _ _ hs hm => hs.step hn (step_cases hm)) inv_init h
  refine ⟨fun i j hi hj => ?_, fun i j hi => hinv.exclusive i hi j, fun hout => ?_⟩
  · apply hinv.owner_unique
    · rw [hi]
      rfl
    · rw [hj]
      rfl
  · have hload : s.load = 0 := by
      apply Finset.sum_eq_zero
      intro i _
      rcases hout i with hi | hi <;> rw [hi] <;> rfl
    rw [hinv.word, hload]
    rfl

open RwSpinLock in
/-- A reader leaves, and the writer that waits for it gets the lock. -/
theorem writer_after_reader :
    ∃ s, Interleave.after RwSpinLock.step init
        [((0 : Fin 2), .sLock), (0, .go), (0, .go), (1, .xLock), (1, .go), (1, .go), (1, .go), (0, .go),
          (1, .go)] = some s ∧ s.place 1 = .xHeld ∧ s.place 0 ≠ .sHeld := by
  have hrun : ((Interleave.after RwSpinLock.step init
      [((0 : Fin 2), .sLock), (0, .go), (0, .go), (1, .xLock), (1, .go), (1, .go), (1, .go), (0, .go),
        (1, .go)]).map fun s => s.place 1) = some .xHeld := by decide +kernel
  obtain ⟨s, hs, hx⟩ := Option.map_eq_some_iff.mp hrun
  exact ⟨s, hs, hx, (rw_spin_lock_excludes (by decide) _ s hs).2.1 1 0 hx⟩

end PtPerf.Worker
