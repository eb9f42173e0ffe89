import PtPerf.Analysis.Moves

/-! Code blocks are measured from the cursor. The number of the action it points at is followed
beside the run, together with the number of the last trace error. -/

namespace PtPerf.Analysis

open PtPerf.Support PtPerf.Trace PtPerf.Stats

/-- The round calls `add_code_block`. -/
def addsBlock (p : Param) (s : State) (a : Action) : Bool := p.codeBlock && measuresBlock p s a

/-- The block is empty: `add_code_block` returns at once. -/
def emptyBlock (s : State) (a : Action) : Bool :=
  a.type.isJump && internal a && s.cursor.any fun c => a.fromSym.offset == c.toSym.offset

def setsCursor (p : Param) (s : State) (a : Action) : Bool :=
  starts s a || handled p s a && !emptyBlock s a

/-- The numbers of the action at the cursor and of the last trace error. -/
structure Trail where
  cursor : Option ℕ
  error : Option ℕ
  deriving DecidableEq, Repr

def Trail.next (p : Param) (i : ℕ) (s : State) (a : Action) (t : Trail) : Trail where
  cursor := if setsCursor p s a then some i else t.cursor
  error := if a.isError then some i else t.error

/-- The cursor holds a copy of an action that comes after the last trace error. -/
def CursorValid (actions : List Action) (s : State) (t : Trail) : Prop :=
  ∃ k c b, s.cursor = some c ∧ t.cursor = some k ∧ actions[k]? = some b ∧
    (c = b ∨ c = rewriteJump b) ∧ ∀ e ∈ t.error, e < k

/-- Whenever a round from number `i` on calls `add_code_block`, the cursor is valid. -/
def CursorsValid (p : Param) (actions : List Action) : State → Trail → ℕ → List Action → Prop
  | _, _, _, [] => True
  | s, t, i, a :: rest =>
    (addsBlock p s a = true → CursorValid actions s t) ∧
      ∀ r, step p s a rest = .ok r → CursorsValid p actions r.1 (t.next p i s a) (i + 1) rest

/-- Whether, since the beginning or the last trace error, no round has started the target or
reached the switch. -/
def nextIdle (p : Param) (s : State) (a : Action) (idle : Bool) : Bool :=
  if a.isError then true else if starts s a || handled p s a then false else idle

/-- The first round that starts the target or reaches the switch does not call
`add_code_block`, at the beginning and after every trace error. -/
def NoBlockFirst (p : Param) : State → Bool → List Action → Prop
  | _, _, [] => True
  | s, idle, a :: rest =>
    (idle = true → addsBlock p s a = false) ∧
      ∀ r, step p s a rest = .ok r → NoBlockFirst p r.1 (nextIdle p s a idle) rest

section Following

variable {p : Param} {actions : List Action} {i : ℕ} {s s' : State} {a : Action} {rest : List Action}
  {es : List Effect} {t : Trail} {idle : Bool}

/-- The cursor of the state is the one of the trail. -/
def Points (actions : List Action) (s : State) (t : Trail) : Prop :=
  (s.cursor = none ∧ t.cursor = none) ∨ ∃ k c b, s.cursor = some c ∧ t.cursor = some k ∧
    actions[k]? = some b ∧ (c = b ∨ c = rewriteJump b)

structure Follows (actions : List Action) (i : ℕ) (s : State) (t : Trail) (idle : Bool) : Prop where
  points : Points actions s t
  cursor : ∀ k ∈ t.cursor, k < i
  error : ∀ e ∈ t.error, e < i
  stale : idle = true → ∀ k ∈ t.cursor, ∃ e ∈ t.error, k < e
  fresh : idle = false → ∃ k ∈ t.cursor, ∀ e ∈ t.error, e < k

lemma Follows.valid_iff (h : Follows actions i s t idle) :
    CursorValid actions s t ↔ idle = false := by
  constructor
  · rintro ⟨k, c, b, -, hk, -, -, herr⟩
    cases idle with
    | false => rfl
    | true =>
      obtain ⟨e, he, hlt⟩ := h.stale rfl k hk
      exact absurd (herr e he) hlt.le.not_gt
  · intro hidle
    obtain ⟨k, hk, herr⟩ := h.fresh hidle
    rcases h.points with ⟨-, hnone⟩ | ⟨k', c, b, hc, hk', hb, hcopy⟩
    · rw [hnone] at hk
      cases hk
    · obtain rfl : k' = k := Option.some.inj (hk'.symm.trans hk)
      exact ⟨k', c, b, hc, hk', hb, hcopy, herr⟩

lemma Move.cursor (h : Move p s a s' es) :
    (setsCursor p s a = true ∧ (s'.cursor = some a ∨ s'.cursor = some (rewriteJump a))) ∨
      (setsCursor p s a = false ∧ s'.cursor = s.cursor) := by
  cases h with
  | error he => exact Or.inr ⟨by simp [setsCursor, starts, handled, he], rfl⟩
  | start hs => exact Or.inl ⟨by simp [setsCursor, hs], Or.inl rfl⟩
  | pass _ hs hh => exact Or.inr ⟨by simp [setsCursor, hs, hh], rfl⟩
  | schedBegin _ hs hh => exact Or.inr ⟨by simp [setsCursor, hs, hh], rfl⟩
  | schedEnd _ hs hh => exact Or.inr ⟨by simp [setsCursor, hs, hh], rfl⟩
  | jump hh hin _ hc hb =>
    cases hb with
    | still hoff =>
      exact Or.inr ⟨by simp [setsCursor, handled_starts hh, emptyBlock, hin, hc, hoff], rfl⟩
    | record hoff =>
      exact Or.inl ⟨by simp [setsCursor, hh, emptyBlock, hc, hoff], Or.inl rfl⟩
  | switch hh hin => exact Or.inl ⟨by simp [setsCursor, hh, emptyBlock, hin], Or.inr rfl⟩

lemma Move.emptyBlock_addsBlock (h : Move p s a s' es) (hh : handled p s a = true)
    (hempty : emptyBlock s a = true) : addsBlock p s a = true := by
  rw [emptyBlock, Bool.and_eq_true] at hempty
  have hc : p.codeBlock = true := by
    cases h with
    | error he => simp [handled, he] at hh
    | start hs => simp [handled, hs] at hh
    | jump _ _ hc => exact hc
    | switch _ hin => exact absurd (hempty.1.symm.trans hin) (by simp)
    | _ => simp_all
  rw [addsBlock, hc, measuresBlock, hh, hempty.1]
  rfl

/-- A round keeps the trail, provided that it does not measure a block from a stale cursor. -/
lemma Follows.next (hm : Move p s a s' es) (h : Follows actions i s t idle)
    (ha : actions[i]? = some a) (hblock : idle = true → addsBlock p s a = false) :
    Follows actions (i + 1) s' (t.next p i s a) (nextIdle p s a idle) := by
  have hle : ∀ {k}, k < i → k < i + 1 := fun hk => hk.trans (Nat.lt_succ_self i)
  rcases hm.cursor with ⟨hset, hcur⟩ | ⟨hset, hcur⟩
  · have herror : a.isError = false := by
      cases he : a.isError with
      | false => rfl
      | true => simp [setsCursor, starts, handled, he] at hset
    have htouch : (starts s a || handled p s a) = true := by
      rw [setsCursor] at hset
      revert hset
      cases starts s a <;> cases handled p s a <;> simp
    have htrail : t.next p i s a = ⟨some i, t.error⟩ := by simp [Trail.next, hset, herror]
    have hidle : nextIdle p s a idle = false := by simp [nextIdle, herror, htouch]
    rw [htrail, hidle]
    refine ⟨?_, by simp, fun e he => hle (h.error e he), fun hidle => (by cases hidle),
      fun _ => ⟨i, rfl, h.error⟩⟩
    rcases hcur with hcur | hcur
    · exact Or.inr ⟨i, a, a, hcur, rfl, ha, Or.inl rfl⟩
    · exact Or.inr ⟨i, rewriteJump a, a, hcur, rfl, ha, Or.inr rfl⟩
  · have hpoints : Points actions s' (t.next p i s a) := by
      have hsame : (t.next p i s a).cursor = t.cursor := by simp [Trail.next, hset]
      rw [Points, hcur, hsame]
      exact h.points
    cases he : a.isError with
    | true =>
      have htrail : t.next p i s a = ⟨t.cursor, some i⟩ := by simp [Trail.next, hset, he]
      have hidle : nextIdle p s a idle = true := by simp [nextIdle, he]
      rw [htrail] at hpoints ⊢
      rw [hidle]
      exact ⟨hpoints, fun k hk => hle (h.cursor k hk), by simp, fun _ k hk => ⟨i, rfl, h.cursor k hk⟩,
        fun hidle => by cases hidle⟩
    | false =>
      have htrail : t.next p i s a = t := by simp [Trail.next, hset, he]
      have hidle : nextIdle p s a idle = idle := by
        rw [setsCursor, Bool.or_eq_false_iff] at hset
        cases hh : handled p s a with
        | false => simp [nextIdle, he, hset.1, hh]
        | true =>
          have hempty : emptyBlock s a = true := by simpa [hh] using hset.2
          cases idle with
          | false => simp [nextIdle, he, hh]
          | true => exact absurd (hblock rfl) (by rw [hm.emptyBlock_addsBlock hh hempty]; simp)
      rw [htrail] at hpoints ⊢
      rw [hidle]
      exact ⟨hpoints, fun k hk => hle (h.cursor k hk), fun e he => hle (h.error e he), h.stale, h.fresh⟩

lemma cursorsValid_iff (xs : List Action) (hdrop : actions.drop i = xs)
    (h : Follows actions i s t idle) :
    CursorsValid p actions s t i xs ↔ NoBlockFirst p s idle xs := by
  induction xs generalizing i s t idle with
  | nil => exact Iff.rfl
  | cons a rest ih =>
    obtain ⟨ha, hdrop'⟩ := Spans.getElem?_of_drop hdrop
    have hhead : (addsBlock p s a = true → CursorValid actions s t) ↔
        (idle = true → addsBlock p s a = false) := by
      rw [h.valid_iff]
      cases idle <;> cases addsBlock p s a <;> simp
    rw [CursorsValid, NoBlockFirst, hhead]
    refine and_congr_right fun hblock => forall_congr' fun r => forall_congr' fun hr => ?_
    obtain ⟨s', es⟩ := r
    exact ih hdrop' (h.next (move_of_step hr) ha hblock)

lemma follows_init (actions : List Action) : Follows actions 0 .init ⟨none, none⟩ true := by
  refine ⟨Or.inl ⟨rfl, rfl⟩, ?_, ?_, ?_, ?_⟩
  · intro k hk
    cases hk
  · intro e he
    cases he
  · intro _ k hk
    cases hk
  · intro hidle
    cases hidle

end Following

theorem code_block_cursor_iff (p : Param) (actions : List Action) :
    CursorsValid p actions .init ⟨none, none⟩ 0 actions ↔ NoBlockFirst p .init true actions :=
  cursorsValid_iff actions rfl (follows_init actions)

namespace Sample

def callOut (ts : UInt64) : Action := branchOf param .call ts (target 32) (callee 0)

end Sample

open Sample in
/-- A list that begins with a call out of the target, and one in which such a call is the first
action after a loss: the block from the entry at `10` to the call at `30` spans the loss at `20`. -/
theorem cursor_before_loss :
    ¬ CursorsValid (param.withCodeBlock true) [callOut 30] .init ⟨none, none⟩ 0 [callOut 30] ∧
      step (param.withCodeBlock true) .init (callOut 30) [] = .error .nullCursor ∧
      ¬ CursorsValid (param.withCodeBlock true) [enter 10, lostData 20, callOut 30] .init ⟨none, none⟩ 0
        [enter 10, lostData 20, callOut 30] := by
  refine ⟨fun h => ?_, rfl, fun h => ?_⟩
  · have hfirst := (cursorsValid_iff [callOut 30] rfl (follows_init _)).mp h
    exact absurd (hfirst.1 rfl) (by decide)
  · have hfirst := (cursorsValid_iff [enter 10, lostData 20, callOut 30] rfl (follows_init _)).mp h
    exact absurd (((hfirst.2 _ rfl).2 _ rfl).1 rfl) (by decide)

end PtPerf.Analysis
