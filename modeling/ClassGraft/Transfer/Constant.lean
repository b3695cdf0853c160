import ClassGraft.Layout
import ClassGraft.Log
import ClassGraft.Pool.Interner

/-!
# Transfer of constants

Carries constants from a source pool into a target pool that grows as needed.  A constant is transferred together with
everything it refers to: references go down from method handles through members and classes to texts, so at most four
transfers are ever nested.  Every source index is transferred once and remembered.  A transfer that fails keeps
what it has added to the target.
-/

namespace ClassGraft

/-- Why something cannot be carried into the target pool. -/
inductive TransferError where
  | index (error : IndexError)
  | overflow (error : PoolOverflow)
  | narrowOperand (offset : Nat) (index : Index)
  | bytecode (error : BytecodeError)
  | malformed (name : String) (fault : LayoutFault)
deriving DecidableEq, Repr

/-- The wording of a transfer error. -/
def TransferError.message : TransferError → String
  | .index error => error.message
  | .overflow error => error.message
  | .narrowOperand offset wanted =>
    s!"ldc at offset {offset} would need constant #{wanted}, which doesn't fit in one byte"
  | .bytecode error => error.message
  | .malformed name fault => s!"malformed {name} attribute: {fault.message}"

/-- The growing target and the source indices transferred so far. -/
structure Transfer where
  target : Interner
  transferred : Std.HashMap Index Index

/-- Starts a transfer into a pool. -/
def Transfer.into (target : Pool) : Transfer := ⟨.ofPool target, ∅⟩

/-- A step of a transfer, which keeps its additions and notes when it fails. -/
abbrev TransferM := ExceptT TransferError (StateT Transfer Logged)

namespace TransferM

/-- What an index leads to in the source. -/
def resolved {α : Type} : Except IndexError α → TransferM α
  | .ok a => return a
  | .error error => throw (.index error)

/-- The target index of a constant of the target. -/
def intern (constant : Constant) : TransferM Index := do
  let outcome ← modifyGet fun transfer =>
    let (outcome, target) := (Interner.intern constant).run transfer.target
    (outcome, { transfer with target := target })
  match outcome with
  | .ok index => return index
  | .error error => throw (.overflow error)

/-- The target index of a source index, with the constant to put there when it has none yet. -/
def remember (index : Index) (build : TransferM Constant) : TransferM Index := do
  match (← get).transferred[index]? with
  | some known => return known
  | none =>
    let new ← intern (← build)
    modify fun transfer => { transfer with transferred := transfer.transferred.insert index new }
    return new

section

variable (source : Pool)

/-- Transfers an index that has to lead to a text. -/
def text (index : Index) : TransferM Index := do
  match ← resolved (source.get index) with
  | .utf8 stored => remember index (return .utf8 stored)
  | other => throw (.index (.wrongTag index (.entry .utf8) other.tag))

/-- Transfers the constant at an index that consists of one text. -/
def named (index : Index) (kind : NamedKind) (name : Index) : TransferM Index :=
  remember index do return .named kind (← text source name)

/-- Transfers the name and type at an index. -/
def nameAndType (index name descriptor : Index) : TransferM Index :=
  remember index do
    let name ← text source name
    let descriptor ← text source descriptor
    return .nameAndType name descriptor

/-- Transfers an index that has to lead to a class with a name. -/
def owner (index : Index) : TransferM Index := do
  discard (resolved (source.className index))
  match ← resolved (source.get index) with
  | .named kind name => named source index kind name
  | other => throw (.index (.wrongTag index (.entry .classInfo) other.tag))

/-- Transfers an index that has to lead to a name and type with both texts. -/
def signature (index : Index) : TransferM Index := do
  discard (resolved (source.nameAndType index))
  match ← resolved (source.get index) with
  | .nameAndType name descriptor => nameAndType source index name descriptor
  | other => throw (.index (.wrongTag index (.entry .nameAndType) other.tag))

/-- Transfers the member reference at an index. -/
def member (index : Index) (kind : MemberKind) (ownerIndex signatureIndex : Index) : TransferM Index :=
  remember index do
    let ownerIndex ← owner source ownerIndex
    let signatureIndex ← signature source signatureIndex
    return .member kind ownerIndex signatureIndex

/-- Transfers an index that has to lead to a member reference. -/
def handleTarget (index : Index) : TransferM Index := do
  match ← resolved (source.get index) with
  | .member kind ownerIndex signatureIndex => member source index kind ownerIndex signatureIndex
  | other => throw (.index (.wrongTag index .memberRef other.tag))

/-- Transfers the computed constant at an index.  Its bootstrap method is not carried over, only its number. -/
def dynamic (index : Index) (kind : DynamicKind) (bootstrap : UInt16) (signatureIndex : Index) : TransferM Index :=
  remember index do
    let what := match kind with
      | .value => "dynamic"
      | .callSite => "invokedynamic"
    note .warning s!"Keeping bootstrap method index {bootstrap} of {what} constant #{index} as is"
    let signatureIndex ← signature source signatureIndex
    return .dynamic kind bootstrap signatureIndex

/-- Transfers an index with everything that its entry refers to. -/
def constant (index : Index) : TransferM Index := do
  match ← resolved (source.get index) with
  | .named kind name => named source index kind name
  | .member kind ownerIndex signatureIndex => member source index kind ownerIndex signatureIndex
  | .nameAndType name descriptor => nameAndType source index name descriptor
  | .methodHandle kind target =>
    remember index do return .methodHandle kind (← handleTarget source target)
  | .dynamic kind bootstrap signatureIndex => dynamic source index kind bootstrap signatureIndex
  | literal => remember index (return literal)

/-- Transfers an index where zero stands for no entry. -/
def optional (index : Index) : TransferM Index :=
  if index = 0 then return 0 else constant source index

/-- Transfers the index in a slot. -/
def slot : Slot → TransferM Bytes
  | .narrow offset index => do
    let new ← constant source index.toUInt16
    if 255 < new then throw (.narrowOperand offset new)
    return [new.toUInt8]
  | .wide index => u16Bytes <$> constant source index
  | .optional index => u16Bytes <$> optional source index

/-- Transfers the slots of a piece. -/
def piece : Piece → TransferM Bytes
  | .fixed bytes => return bytes
  | .slot place => slot source place

/-- Transfers the slots of a template in order, then reports why its reading stopped, and gives the new bytes and those
left over. -/
def template {ε : Type} (wrap : ε → TransferError) (template : Template ε) : TransferM (Bytes × Bytes) := do
  let bytes ← template.pieces.mapM (piece source)
  match template.outcome with
  | .error stop => throw (wrap stop)
  | .ok leftOver => return (bytes.flatten, leftOver)

end

end TransferM

end ClassGraft
