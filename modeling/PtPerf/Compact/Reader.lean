import PtPerf.Compact.Writer

/-! `create_action_from_binary` and `read_actions_from_compact_file`. -/

namespace PtPerf.Compact

open PtPerf.Support PtPerf.Trace

/-- The symbols of a `SymbolMgr` in the order of their ids. -/
abbrev SymbolVec := List Symbol

namespace SymbolVec

def create (symbols : SymbolVec) (r : SymbolRecord) : Except ReadFault SymbolVec :=
  if r.id.toNat = symbols.length then .ok (symbols ++ [⟨r.name, r.addr, r.offset⟩])
  else .error .symbolOutOfOrder

def getById (symbols : SymbolVec) (id : UInt32) : Except ReadFault Symbol :=
  match symbols[id.toNat]? with
  | some sym => .ok sym
  | none => .error .unknownSymbol

end SymbolVec

/-- One call of `create_action_from_binary`: the record it decoded, the action it leaves, the
symbols, and the pointer it returns. -/
structure Reading where
  record : Option Record
  action : Action
  symbols : SymbolVec
  next : Option (List UInt8)

def createActionFromBinary (symbols : SymbolVec) (action : Action) (ptr : List UInt8) :
    Except ReadFault Reading := do
  let ptType ← read1bytes ptr
  let action := { action with isError := false, ptType := ptType }
  let ptr := ptr.drop 1
  if ptType == ptActionTypeUndefine then return ⟨none, action, symbols, none⟩
  else if ptType == ptActionTypeBranch then
    let (r, ptr) ← ptReadBranchAction ptr
    let src ← symbols.getById r.fromId
    let dst ← symbols.getById r.toId
    let action := { action with
      tid := r.tid.toInt32, ts := r.ts, type := .ofCode r.flag, fromSym := src, toSym := dst }
    return ⟨some (.branch r), action, symbols, some ptr⟩
  else if ptType == ptActionTypeSymbol then
    let (r, ptr) ← ptReadSymbolAction ptr
    return ⟨some (.symbol r), action, ← symbols.create r, some ptr⟩
  else if ptType == ptActionTypeError then
    let (r, ptr) ← ptReadErrorAction ptr
    let action := { action with tid := r.tid.toInt32, ts := r.ts }
    let action :=
      if r.code != 8 then { action with ptType := ptActionTypeUndefine }
      else { action with isError := true }
    return ⟨some (.error r), action, symbols, some ptr⟩
  else return ⟨none, action, symbols, some ptr⟩

/-- What `init_func` is called on, with the record that was decoded for it. -/
structure Delivery where
  record : Option Record
  action : Action

/-- The loop over one buffer. Every round but the last moves the pointer on, so the length of
the buffer bounds the rounds. -/
def readBlock : ℕ → SymbolVec → Action → List UInt8 → Except ReadFault (List Delivery × SymbolVec)
  | 0, symbols, _, _ => .ok ([], symbols)
  | fuel + 1, symbols, action, ptr =>
    if ptr = [] then .ok ([], symbols)
    else do
      let r ← createActionFromBinary symbols action ptr
      match r.next with
      | none => return ([⟨r.record, r.action⟩], r.symbols)
      | some ptr =>
        let (out, symbols) ← readBlock fuel r.symbols r.action ptr
        return (⟨r.record, r.action⟩ :: out, symbols)

/-- The loop over the file: it ends after a read that does not fill the buffer. The action of
each round starts out uninitialised, as some `fresh` value. -/
def readBlocks (fresh : ℕ → Action) :
    ℕ → SymbolVec → List UInt8 → Except ReadFault (List Delivery × SymbolVec)
  | 0, symbols, _ => .ok ([], symbols)
  | fuel + 1, symbols, content => do
    let buffer := content.take ptFileBlockSize
    let (out, symbols) ← readBlock buffer.length symbols (fresh fuel) buffer
    if buffer.length < ptFileBlockSize then return (out, symbols)
    else
      let (out', symbols) ← readBlocks fresh fuel symbols (content.drop ptFileBlockSize)
      return (out ++ out', symbols)

def readActionsFromCompactFile (fresh : ℕ → Action) (symbols : SymbolVec) (content : List UInt8) :
    Except ReadFault (List Delivery × SymbolVec) :=
  readBlocks fresh (content.length / ptFileBlockSize + 1) symbols content

section Reading

variable {symbols : SymbolVec} {action : Action} (rest : List UInt8)

/-- The reader can place the record: its symbols are known, or its id is the next one. -/
def Record.Admissible (symbols : SymbolVec) : Record → Prop
  | .branch r => r.fromId.toNat < symbols.length ∧ r.toId.toNat < symbols.length
  | .symbol r => r.id.toNat = symbols.length
  | .error _ => True

def Record.symbolsAfter (symbols : SymbolVec) : Record → SymbolVec
  | .symbol r => symbols ++ [⟨r.name, r.addr, r.offset⟩]
  | _ => symbols

/-- What `action` becomes by reading the record. -/
def Record.store (symbols : SymbolVec) (action : Action) : Record → Action
  | .branch r => { action with
      isError := false, ptType := ptActionTypeBranch, tid := r.tid.toInt32, ts := r.ts
      type := .ofCode r.flag, fromSym := symbols.getD r.fromId.toNat default
      toSym := symbols.getD r.toId.toNat default }
  | .symbol _ => { action with isError := false, ptType := ptActionTypeSymbol }
  | .error r => { action with
      isError := r.code == 8, tid := r.tid.toInt32, ts := r.ts
      ptType := if r.code = 8 then ptActionTypeError else ptActionTypeUndefine }

lemma SymbolVec.getById_eq {id : UInt32} (h : id.toNat < symbols.length) :
    symbols.getById id = .ok (symbols.getD id.toNat default) := by
  simp [SymbolVec.getById, List.getD, List.getElem?_eq_getElem h]

lemma createActionFromBinary_branch (r : BranchRecord)
    (ha : (Record.branch r).Admissible symbols) :
    createActionFromBinary symbols action (r.bytes ++ rest) =
      .ok ⟨some (.branch r), (Record.branch r).store symbols action, symbols, some rest⟩ := by
  have htype : read1bytes (r.bytes ++ rest) = .ok ptActionTypeBranch := rfl
  have hdrop : (r.bytes ++ rest).drop 1 = r.bytes.tail ++ rest := rfl
  simp only [createActionFromBinary, htype, hdrop, ptReadBranchAction_bytes,
    SymbolVec.getById_eq ha.1, SymbolVec.getById_eq ha.2, bind, Except.bind, pure, Except.pure]
  rfl

lemma createActionFromBinary_symbolBytes (r : SymbolRecord) (hname : r.name.length < 2 ^ 32) :
    createActionFromBinary symbols action (r.bytes ++ rest) =
      (symbols.create r).map fun table =>
        ⟨some (.symbol r), (Record.symbol r).store symbols action, table, some rest⟩ := by
  have htype : read1bytes (r.bytes ++ rest) = .ok ptActionTypeSymbol := rfl
  have hdrop : (r.bytes ++ rest).drop 1 = r.bytes.tail ++ rest := rfl
  simp only [createActionFromBinary, htype, hdrop, ptReadSymbolAction_bytes rest r hname, bind,
    Except.bind, pure, Except.pure]
  cases symbols.create r <;> rfl

lemma createActionFromBinary_symbol (r : SymbolRecord) (hname : r.name.length < 2 ^ 32)
    (ha : (Record.symbol r).Admissible symbols) :
    createActionFromBinary symbols action (r.bytes ++ rest) =
      .ok ⟨some (.symbol r), (Record.symbol r).store symbols action,
        symbols ++ [⟨r.name, r.addr, r.offset⟩], some rest⟩ := by
  have hcreate : symbols.create r = .ok (symbols ++ [⟨r.name, r.addr, r.offset⟩]) := if_pos ha
  rw [createActionFromBinary_symbolBytes rest r hname, hcreate]
  rfl

lemma createActionFromBinary_error (r : ErrorRecord) :
    createActionFromBinary symbols action (r.bytes ++ rest) =
      .ok ⟨some (.error r), (Record.error r).store symbols action, symbols, some rest⟩ := by
  have htype : read1bytes (r.bytes ++ rest) = .ok ptActionTypeError := rfl
  have hdrop : (r.bytes ++ rest).drop 1 = r.bytes.tail ++ rest := rfl
  have hstore : (if r.code != 8 then
      ({ action with isError := false, ptType := ptActionTypeUndefine, tid := r.tid.toInt32,
                     ts := r.ts } : Action)
      else { action with isError := true, ptType := ptActionTypeError, tid := r.tid.toInt32,
                         ts := r.ts }) = (Record.error r).store symbols action := by
    by_cases h : r.code = 8 <;> simp [Record.store, h]
  simp only [createActionFromBinary, htype, hdrop, ptReadErrorAction_bytes, bind, Except.bind, pure,
    Except.pure]
  rw [← hstore]
  rfl

/-- A record that fits into a block has a name whose length is written without loss. -/
lemma Record.createActionFromBinary_bytes (r : Record) (action : Action) (rest : List UInt8)
    (hfit : r.bytes.length ≤ ptFileBlockSize) (ha : r.Admissible symbols) :
    createActionFromBinary symbols action (r.bytes ++ rest) =
      .ok ⟨some r, r.store symbols action, r.symbolsAfter symbols, some rest⟩ := by
  cases r with
  | branch r => exact createActionFromBinary_branch rest r ha
  | symbol r =>
    refine createActionFromBinary_symbol rest r ?_ ha
    have hle : r.name.length ≤ r.bytes.length := by simp [SymbolRecord.bytes]; omega
    exact (hle.trans hfit).trans_lt (by decide)
  | error r => exact createActionFromBinary_error rest r

lemma Record.bytes_ne_nil (r : Record) : r.bytes ≠ [] := by
  cases r <;> exact List.cons_ne_nil _ _

end Reading

end PtPerf.Compact
