import ClassGraft.Method.Parsed
import ClassGraft.Transfer.Constant

/-!
# Transfer of methods

Carries a method decoded against the source pool into the target pool.  Instructions keep their lengths, and the
contents of attributes change in their indices only.  Attributes whose layout is not known cannot be carried over and
are left out, and so are code attributes inside code attributes.
-/

namespace ClassGraft.TransferM

variable (source : Pool)

/-- Transfers the constant operands of a code array. -/
def instructions (code : Bytes) : TransferM Bytes :=
  Prod.fst <$> template source .bytecode (Instruction.template code)

/-- Transfers the contents of an attribute of a known layout, noting bytes left over, which are left out. -/
def contents (name : String) (layout : Layout) (info : Bytes) : TransferM Bytes := do
  let (bytes, leftOver) ← template source (.malformed name) (layout.template info)
  unless leftOver.isEmpty do
    note .warning s!"{name} attribute has {leftOver.length} unused trailing bytes"
  return bytes

/-- Puts a name in front of transferred contents. -/
def finish (name : String) (info : Bytes) : TransferM Attribute :=
  return ⟨← intern (.utf8 (.ofText name)), info⟩

/-- Transfers an exception handler. -/
def handler (handler : ExceptionHandler) : TransferM ExceptionHandler :=
  return { handler with catchType := ← optional source handler.catchType }

/-- Transfers an attribute of a code attribute, if it can be carried over. -/
def codeAttribute : ParsedAttribute → TransferM (Option Attribute)
  | .code .. => do
    note .warning "Dropping Code attribute nested inside Code"
    return none
  | .raw _ name info => do
    if name = "LineNumberTable" then return some (← finish name info)
    match Layout.ofCodeAttribute? name with
    | some layout => return some (← finish name (← contents source name layout info))
    | none =>
      note .warning s!"Dropping code attribute {name} that can't be remapped"
      return none

/-- Transfers the contents of a code attribute. -/
def code (body : CodeBody) (attributes : List ParsedAttribute) : TransferM Code := do
  let instructions ← instructions source body.code
  let handlers ← body.handlers.mapM (handler source)
  let attributes ← attributes.filterMapM (codeAttribute source)
  return ⟨{ body with code := instructions, handlers := handlers }, attributes⟩

/-- Transfers an attribute of a method, if it can be carried over. -/
def methodAttribute : ParsedAttribute → TransferM (Option Attribute)
  | .code _ _ body attributes => do return some (← finish codeName (← code source body attributes).bytes)
  | .raw _ name info => do
    if name = "Deprecated" || name = "Synthetic" then return some (← finish name info)
    match Layout.ofMethodAttribute? name with
    | some layout => return some (← finish name (← contents source name layout info))
    | none =>
      note .warning s!"Dropping method attribute {name} that can't be remapped"
      return none

/-- Transfers a method decoded against the source pool. -/
def method (method : ParsedMethod) : TransferM Method := do
  let nameIndex ← text source method.nameIndex
  let descriptorIndex ← text source method.descriptorIndex
  let attributes ← method.attributes.filterMapM (methodAttribute source)
  let added := (← get).target.added
  note .info s!"Copied method {method.signature} ({added} constants added to target pool)"
  return ⟨method.accessFlags, nameIndex, descriptorIndex, attributes⟩

end ClassGraft.TransferM
