import PtPerf.Support.Tally

/-! A finite map under other keys. Entries whose keys become equal are added up; an entry stays an entry
even where its value is zero. -/

namespace PtPerf.Support.TallyMap

variable {K L V W : Type} [DecidableEq K] [DecidableEq L]

lemma keys_zero : (0 : TallyMap K V).keys = ∅ :=
  Finset.eq_empty_of_forall_notMem notMem_keys_zero

variable [AddCommMonoid V] [AddCommMonoid W]

lemma ext_get {m n : TallyMap K V} (hkeys : m.keys = n.keys) (hget : ∀ k, m.get k = n.get k) : m = n := by
  apply ext
  intro k
  have hmem : (m.lookup k).isSome = (n.lookup k).isSome := by
    rw [Bool.eq_iff_iff, ← mem_keys, ← mem_keys, hkeys]
  have hval := hget k
  rw [get, get] at hval
  cases hm : m.lookup k with
  | none =>
    rw [hm] at hmem
    exact (Option.not_isSome_iff_eq_none.mp (by simp [← hmem])).symm
  | some v =>
    rw [hm] at hmem hval
    obtain ⟨w, hw⟩ := Option.isSome_iff_exists.mp hmem.symm
    rw [hw] at hval ⊢
    exact congrArg some hval

lemma keys_add (m n : TallyMap K V) : (m + n).keys = m.keys ∪ n.keys := by
  ext k
  simp only [Finset.mem_union, mem_keys_add]

lemma keys_single (k : K) (v : V) : (single k v).keys = {k} := by
  ext j
  simp only [Finset.mem_singleton, mem_keys_single, eq_comm]

lemma keys_eq_empty {m : TallyMap K V} : m.keys = ∅ ↔ m = 0 := by
  constructor
  · intro h
    apply ext_get
    · rw [h, keys_zero]
    · intro k
      rw [get_zero, get_of_notMem_keys (by simp [h])]
  · rintro rfl
    exact keys_zero

def getHom (k : K) : TallyMap K V →+ V where
  toFun m := m.get k
  map_zero' := get_zero k
  map_add' m n := get_add m n k

def rekey (f : K → L) (g : V →+ W) (m : TallyMap K V) : TallyMap L W :=
  ∑ k ∈ m.keys, single (f k) (g (m.get k))

variable (f : K → L) (g : V →+ W)

lemma keys_sum_single (s : Finset K) (v : K → W) : (∑ k ∈ s, single (f k) (v k)).keys = s.image f := by
  induction s using Finset.induction_on with
  | empty => simp [keys_zero]
  | insert k s hk ih => rw [Finset.sum_insert hk, keys_add, keys_single, ih, Finset.image_insert, Finset.insert_eq]

lemma keys_rekey (m : TallyMap K V) : (rekey f g m).keys = m.keys.image f :=
  keys_sum_single f m.keys _

lemma get_rekey (m : TallyMap K V) (j : L) :
    (rekey f g m).get j = sumHom (fun k => if j = f k then g else 0) m := by
  change getHom j (rekey f g m) = _
  rw [rekey, map_sum, sumHom_apply]
  apply Finset.sum_congr rfl
  intro k _
  change (single (f k) _).get j = _
  rw [get_single]
  split <;> rfl

lemma rekey_zero : rekey f g 0 = 0 := by
  rw [rekey, keys_zero, Finset.sum_empty]

lemma rekey_add (m n : TallyMap K V) : rekey f g (m + n) = rekey f g m + rekey f g n := by
  apply ext_get
  · simp only [keys_rekey, keys_add, Finset.image_union]
  · intro j
    simp only [get_add, get_rekey, map_add]

def rekeyHom : TallyMap K V →+ TallyMap L W where
  toFun := rekey f g
  map_zero' := rekey_zero f g
  map_add' := rekey_add f g

lemma rekey_single (k : K) (v : V) : rekey f g (single k v) = single (f k) (g v) := by
  rw [rekey, keys_single, Finset.sum_singleton, get_single, if_pos rfl]

lemma rekey_bump (m : TallyMap K V) (k : K) (v : V) :
    rekey f g (m.bump k v) = (rekey f g m).bump (f k) (g v) := by
  rw [bump_eq_add, rekey_add, rekey_single, ← bump_eq_add]

lemma rekey_eq_zero {m : TallyMap K V} : rekey f g m = 0 ↔ m = 0 := by
  rw [← keys_eq_empty, keys_rekey, Finset.image_eq_empty, keys_eq_empty]

lemma rekey_id (m : TallyMap K V) : rekey id (AddMonoidHom.id V) m = m := by
  apply ext_get
  · rw [keys_rekey, Finset.image_id]
  · intro j
    rw [get_rekey, sumHom_apply, Finset.sum_eq_single j]
    · rw [if_pos (show j = id j from rfl)]
      rfl
    · intro k _ hk
      rw [if_neg (show ¬j = id k from fun h => hk h.symm)]
      rfl
    · intro hj
      rw [get_of_notMem_keys hj, map_zero]

end PtPerf.Support.TallyMap
