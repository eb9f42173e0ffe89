import Mathlib.Data.Finmap
import Mathlib.Algebra.BigOperators.Group.List.Basic
import Mathlib.Tactic

/-! Finite maps and growable vectors whose entries are summed position by position. -/

namespace PtPerf.Support

def TallyMap (K V : Type) := Finmap (fun _ : K => V)

namespace TallyMap

variable {K V : Type} [DecidableEq K]

instance [DecidableEq V] : DecidableEq (TallyMap K V) :=
  inferInstanceAs (DecidableEq (Finmap (fun _ : K => V)))

instance : Zero (TallyMap K V) := ⟨(∅ : Finmap (fun _ : K => V))⟩

def lookup (m : TallyMap K V) (k : K) : Option V := Finmap.lookup k m

lemma ext {m n : TallyMap K V} (h : ∀ k, m.lookup k = n.lookup k) : m = n :=
  Finmap.ext_lookup h

@[simp] lemma lookup_zero (k : K) : (0 : TallyMap K V).lookup k = none :=
  Finmap.lookup_empty k

def set (m : TallyMap K V) (k : K) (v : V) : TallyMap K V := Finmap.insert k v m

lemma lookup_set (m : TallyMap K V) (k j : K) (v : V) :
    (m.set k v).lookup j = if j = k then some v else m.lookup j := by
  by_cases h : j = k
  · subst j
    rw [if_pos rfl]
    exact Finmap.lookup_insert m
  · rw [if_neg h]
    exact Finmap.lookup_insert_of_ne m h

def keys (m : TallyMap K V) : Finset K := Finmap.keys m

lemma mem_keys {m : TallyMap K V} {k : K} : k ∈ m.keys ↔ (m.lookup k).isSome :=
  Finmap.mem_keys.trans Finmap.lookup_isSome.symm

lemma notMem_keys_zero (k : K) : k ∉ (0 : TallyMap K V).keys := by
  simp [mem_keys]

/-- The entries recorded under `k` in a list of keyed values. -/
def valuesAt (entries : List (K × V)) (k : K) : List V :=
  (entries.filter (fun e => e.1 = k)).map Prod.snd

lemma length_valuesAt_le (entries : List (K × V)) (k : K) :
    (valuesAt entries k).length ≤ entries.length := by
  rw [valuesAt, List.length_map]
  exact List.length_filter_le _ _

variable [AddCommMonoid V]

def get (m : TallyMap K V) (k : K) : V := (m.lookup k).getD 0

def bump (m : TallyMap K V) (k : K) (v : V) : TallyMap K V := m.set k (m.get k + v)

lemma lookup_bump (m : TallyMap K V) (k j : K) (v : V) :
    (m.bump k v).lookup j = if j = k then some (m.get k + v) else m.lookup j :=
  lookup_set m k j (m.get k + v)

lemma get_bump (m : TallyMap K V) (k j : K) (v : V) :
    (m.bump k v).get j = if j = k then m.get k + v else m.get j := by
  simp only [get, lookup_bump]
  split <;> rfl

lemma bump_right_comm (m : TallyMap K V) (k₁ : K) (v₁ : V) (k₂ : K) (v₂ : V) :
    (m.bump k₁ v₁).bump k₂ v₂ = (m.bump k₂ v₂).bump k₁ v₁ := by
  apply ext
  intro j
  simp only [lookup_bump, get_bump]
  by_cases h₁ : j = k₁
  · subst j
    by_cases h₂ : k₁ = k₂
    · subst k₂
      simp only [if_true, add_assoc, add_comm v₁ v₂]
    · simp only [h₂, if_false, if_true]
  · by_cases h₂ : j = k₂
    · subst j
      simp only [h₁, if_false, if_true]
    · simp only [h₁, h₂, if_false]

def merge (m n : TallyMap K V) : TallyMap K V :=
  Finmap.foldl (fun acc k v => bump acc k v) bump_right_comm m n

lemma lookup_foldl_bump (entries : List (Sigma fun _ : K => V)) (m : TallyMap K V) (k : K)
    (h : entries.NodupKeys) :
    (entries.foldl (fun acc e => bump acc e.1 e.2) m).lookup k =
      Option.merge (· + ·) (m.lookup k) (entries.dlookup k) := by
  induction entries generalizing m with
  | nil => simp
  | cons e entries ih =>
    obtain ⟨hk, hn⟩ := List.nodupKeys_cons.mp h
    rw [List.foldl_cons, ih _ hn, lookup_bump]
    by_cases he : k = e.1
    · subst k
      have hnone : entries.dlookup e.1 = none := List.dlookup_eq_none.mpr hk
      rw [if_pos rfl, hnone, List.dlookup_cons_eq]
      cases hm : m.lookup e.1 <;> simp [get, hm]
    · rw [if_neg he, List.dlookup_cons_ne _ e he]

lemma lookup_merge (m n : TallyMap K V) (k : K) :
    (m.merge n).lookup k = Option.merge (· + ·) (m.lookup k) (n.lookup k) := by
  induction n using Finmap.induction_on with
  | H s => exact lookup_foldl_bump s.entries m k s.nodupKeys

instance : Add (TallyMap K V) := ⟨merge⟩

@[simp] lemma lookup_add (m n : TallyMap K V) (k : K) :
    (m + n).lookup k = Option.merge (· + ·) (m.lookup k) (n.lookup k) :=
  lookup_merge m n k

lemma get_add (m n : TallyMap K V) (k : K) : (m + n).get k = m.get k + n.get k := by
  simp only [get, lookup_add]
  cases m.lookup k <;> cases n.lookup k <;> simp

@[simp] lemma get_zero (k : K) : (0 : TallyMap K V).get k = 0 := by
  simp [get]

lemma merge_option_assoc (a b c : Option V) :
    Option.merge (· + ·) (Option.merge (· + ·) a b) c =
      Option.merge (· + ·) a (Option.merge (· + ·) b c) := by
  cases a <;> cases b <;> cases c <;> simp [add_assoc]

lemma merge_option_comm (a b : Option V) :
    Option.merge (· + ·) a b = Option.merge (· + ·) b a := by
  cases a <;> cases b <;> simp [add_comm]

instance : AddCommMonoid (TallyMap K V) where
  add_assoc a b c := ext fun k => by simp only [lookup_add, merge_option_assoc]
  zero_add a := ext fun k => by simp
  add_zero a := ext fun k => by simp
  add_comm a b := ext fun k => by simp only [lookup_add, merge_option_comm]
  nsmul := nsmulRec

def single (k : K) (v : V) : TallyMap K V := bump 0 k v

lemma lookup_single (k j : K) (v : V) :
    (single k v).lookup j = if j = k then some v else none := by
  simp [single, lookup_bump]

lemma get_single (k j : K) (v : V) : (single k v).get j = if j = k then v else 0 := by
  rw [get, lookup_single]
  split <;> rfl

lemma bump_eq_add (m : TallyMap K V) (k : K) (v : V) : m.bump k v = m + single k v := by
  apply ext
  intro j
  rw [lookup_bump, lookup_add, lookup_single]
  by_cases h : j = k
  · subst j
    cases hm : m.lookup k <;> simp [get, hm]
  · simp [h]

@[simp] lemma bump_ne_zero (m : TallyMap K V) (k : K) (v : V) : m.bump k v ≠ 0 := by
  intro h
  have hk := congrArg (fun n => lookup n k) h
  simp [lookup_bump] at hk

lemma mem_keys_add {m n : TallyMap K V} {k : K} : k ∈ (m + n).keys ↔ k ∈ m.keys ∨ k ∈ n.keys := by
  rw [mem_keys, mem_keys, mem_keys, lookup_add]
  cases m.lookup k <;> cases n.lookup k <;> simp

lemma mem_keys_single {k j : K} {v : V} : j ∈ (single k v).keys ↔ k = j := by
  rw [mem_keys, lookup_single]
  by_cases h : j = k
  · simp [h]
  · simp [h, Ne.symm h]

lemma get_of_notMem_keys {m : TallyMap K V} {k : K} (h : k ∉ m.keys) : m.get k = 0 := by
  rw [mem_keys, Option.not_isSome_iff_eq_none] at h
  rw [get, h]
  rfl

section Sums

variable {W : Type} [AddCommMonoid W]

lemma sum_keys_eq (f : K → V →+ W) {m : TallyMap K V} {s : Finset K} (h : m.keys ⊆ s) :
    ∑ k ∈ m.keys, f k (m.get k) = ∑ k ∈ s, f k (m.get k) := by
  apply Finset.sum_subset h
  intro k _ hk
  rw [get_of_notMem_keys hk, map_zero]

def sumHom (f : K → V →+ W) : TallyMap K V →+ W where
  toFun m := ∑ k ∈ m.keys, f k (m.get k)
  map_zero' := by
    apply Finset.sum_eq_zero
    intro k _
    rw [get_zero, map_zero]
  map_add' m n := by
    have hkeys : (m + n).keys ⊆ m.keys ∪ n.keys := fun k hk =>
      Finset.mem_union.mpr (mem_keys_add.mp hk)
    rw [sum_keys_eq f hkeys, sum_keys_eq f Finset.subset_union_left,
      sum_keys_eq f Finset.subset_union_right, ← Finset.sum_add_distrib]
    exact Finset.sum_congr rfl fun k _ => by rw [get_add, map_add]

lemma sumHom_apply (f : K → V →+ W) (m : TallyMap K V) :
    sumHom f m = ∑ k ∈ m.keys, f k (m.get k) := rfl

lemma sumHom_single (f : K → V →+ W) (k : K) (v : V) : sumHom f (single k v) = f k v := by
  have hkeys : (single k v).keys ⊆ {k} := fun j hj =>
    Finset.mem_singleton.mpr (mem_keys_single.mp hj).symm
  rw [sumHom_apply, sum_keys_eq f hkeys, Finset.sum_singleton, get, lookup_single, if_pos rfl]
  rfl

end Sums

def ofEntries (entries : List (K × V)) : TallyMap K V :=
  (entries.map fun e => single e.1 e.2).sum

lemma lookup_ofEntries (entries : List (K × V)) (k : K) :
    (ofEntries entries).lookup k =
      if valuesAt entries k = [] then none else some (valuesAt entries k).sum := by
  induction entries with
  | nil => simp [ofEntries, valuesAt]
  | cons e entries ih =>
    have hs : ofEntries (e :: entries) = single e.1 e.2 + ofEntries entries := by
      simp [ofEntries]
    rw [hs, lookup_add, ih, lookup_single]
    by_cases hk : k = e.1
    · subst k
      have hv : valuesAt (e :: entries) e.1 = e.2 :: valuesAt entries e.1 := by simp [valuesAt]
      rw [hv, if_pos rfl]
      by_cases hn : valuesAt entries e.1 = [] <;> simp [hn]
    · have hv : valuesAt (e :: entries) k = valuesAt entries k := by
        simp [valuesAt, Ne.symm hk]
      rw [hv, if_neg hk]
      simp

lemma ofEntries_append (a b : List (K × V)) :
    ofEntries (a ++ b) = ofEntries a + ofEntries b := by
  simp [ofEntries]

end TallyMap

/-! Vectors that grow on demand: a missing entry counts as zero. -/

namespace PaddedSum

variable {V : Type} [AddCommMonoid V]

def add : List V → List V → List V
  | [], ys => ys
  | xs, [] => xs
  | x :: xs, y :: ys => (x + y) :: add xs ys

@[simp] lemma nil_add (ys : List V) : add [] ys = ys := by
  cases ys <;> rfl

@[simp] lemma add_nil (xs : List V) : add xs [] = xs := by
  cases xs <;> rfl

@[simp] lemma cons_add_cons (x y : V) (xs ys : List V) :
    add (x :: xs) (y :: ys) = (x + y) :: add xs ys := rfl

lemma pad_comm (xs ys : List V) : add xs ys = add ys xs := by
  induction xs generalizing ys with
  | nil => simp
  | cons x xs ih =>
    cases ys with
    | nil => simp
    | cons y ys => rw [cons_add_cons, cons_add_cons, ih, add_comm x y]

lemma pad_assoc (xs ys zs : List V) : add (add xs ys) zs = add xs (add ys zs) := by
  induction xs generalizing ys zs with
  | nil => simp
  | cons x xs ih =>
    cases ys with
    | nil => simp
    | cons y ys =>
      cases zs with
      | nil => simp
      | cons z zs => simp only [cons_add_cons, ih, add_assoc]

lemma getD_add (xs ys : List V) (i : ℕ) :
    (add xs ys).getD i 0 = xs.getD i 0 + ys.getD i 0 := by
  induction xs generalizing ys i with
  | nil => simp
  | cons x xs ih =>
    cases ys with
    | nil => simp
    | cons y ys =>
      cases i with
      | zero => simp
      | succ i => simpa using ih ys i

lemma length_add_le_iff (xs ys : List V) (n : ℕ) :
    (add xs ys).length ≤ n ↔ xs.length ≤ n ∧ ys.length ≤ n := by
  induction xs generalizing ys n with
  | nil => simp
  | cons x xs ih =>
    cases ys with
    | nil => simp
    | cons y ys =>
      cases n with
      | zero => simp
      | succ n => simpa using ih ys n

end PaddedSum

/-! Accumulators that take in single values, and what another one holds. Over the multisets they
keep what was taken in; any other reading of the values follows from that one. -/

namespace Accumulate

inductive Op (ι α : Type)
  | insert (d : ι) (a : α)
  | merge (d e : ι)

variable {ι α M N : Type} [DecidableEq ι] [AddCommMonoid M] [AddCommMonoid N]

def Op.apply (f : α → M) (s : ι → M) : Op ι α → ι → M
  | .insert d a => Function.update s d (s d + f a)
  | .merge d e => Function.update s d (s d + s e)

def taken (ops : List (Op ι α)) : ι → Multiset α := ops.foldl (Op.apply fun a => {a}) 0

lemma Op.map_apply (φ : M →+ N) (f : α → M) (s : ι → M) (op : Op ι α) :
    φ ∘ op.apply f s = op.apply (φ ∘ f) (φ ∘ s) := by
  cases op with
  | insert d a => simp only [Op.apply, Function.comp_update, Function.comp_apply, map_add]
  | merge d e => simp only [Op.apply, Function.comp_update, Function.comp_apply, map_add]

lemma map_foldl_apply (φ : M →+ N) (f : α → M) (s : ι → M) (ops : List (Op ι α)) :
    φ ∘ ops.foldl (Op.apply f) s = ops.foldl (Op.apply (φ ∘ f)) (φ ∘ s) := by
  induction ops generalizing s with
  | nil => rfl
  | cons op ops ih => rw [List.foldl_cons, List.foldl_cons, ih, op.map_apply]

lemma foldl_apply_eq (f : α → M) (ops : List (Op ι α)) :
    ops.foldl (Op.apply f) 0 = fun d => ((taken ops d).map f).sum := by
  have h := map_foldl_apply ((Multiset.sumAddMonoidHom).comp (Multiset.mapAddMonoidHom f))
    (fun a => {a}) (0 : ι → Multiset α) ops
  have hf : ((Multiset.sumAddMonoidHom).comp (Multiset.mapAddMonoidHom f)) ∘ (fun a => {a}) = f := by
    funext a
    simp
  have h0 : ((Multiset.sumAddMonoidHom).comp (Multiset.mapAddMonoidHom f)) ∘ (0 : ι → Multiset α) = 0 := by
    funext d
    simp
  rw [hf, h0] at h
  exact h.symm

lemma Op.mem_apply {op : Op ι α} {s : ι → Multiset α} {d : ι} {a : α}
    (h : a ∈ op.apply (fun a => {a}) s d) : (∃ e, a ∈ s e) ∨ ∃ e, op = .insert e a := by
  cases op with
  | insert d' b =>
    by_cases hd : d = d'
    · rw [hd, Op.apply, Function.update_self, Multiset.mem_add, Multiset.mem_singleton] at h
      rcases h with h | rfl
      · exact Or.inl ⟨d', h⟩
      · exact Or.inr ⟨d', rfl⟩
    · rw [Op.apply, Function.update_of_ne hd] at h
      exact Or.inl ⟨d, h⟩
  | merge d' e' =>
    by_cases hd : d = d'
    · rw [hd, Op.apply, Function.update_self, Multiset.mem_add] at h
      exact h.elim (fun h => Or.inl ⟨d', h⟩) fun h => Or.inl ⟨e', h⟩
    · rw [Op.apply, Function.update_of_ne hd] at h
      exact Or.inl ⟨d, h⟩

lemma mem_foldl_apply {ops : List (Op ι α)} {s : ι → Multiset α} {d : ι} {a : α}
    (h : a ∈ ops.foldl (Op.apply fun a => {a}) s d) :
    (∃ e, a ∈ s e) ∨ ∃ e, Op.insert e a ∈ ops := by
  induction ops generalizing s with
  | nil => exact Or.inl ⟨d, h⟩
  | cons op ops ih =>
    rcases ih h with ⟨e, he⟩ | ⟨e, he⟩
    · rcases Op.mem_apply he with hs | ⟨e', rfl⟩
      · exact Or.inl hs
      · exact Or.inr ⟨e', List.mem_cons_self⟩
    · exact Or.inr ⟨e, List.mem_cons_of_mem _ he⟩

lemma mem_taken {ops : List (Op ι α)} {d : ι} {a : α} (h : a ∈ taken ops d) :
    ∃ e, Op.insert e a ∈ ops := by
  rcases mem_foldl_apply h with ⟨e, he⟩ | hop
  · exact absurd he (Multiset.notMem_zero a)
  · exact hop

end Accumulate

end PtPerf.Support
