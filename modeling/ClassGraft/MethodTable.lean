import ClassGraft.ClassFile.Basic
import ClassGraft.Method.Parsed

/-!
# The methods of a class

Finding, removing, adding and editing methods.  A method is known by its name and descriptor, and the class initializer
by its name alone.  A method whose name or descriptor leads nowhere is never found.
-/

namespace ClassGraft

/-- The kinds of methods that their names tell apart. -/
inductive MethodKind where
  | constructor
  | classInitializer
  | ordinary
deriving DecidableEq, Repr

/-- The kind of method that a name stands for. -/
def MethodKind.ofName (name : String) : MethodKind :=
  if name = "<init>" then constructor
  else if name = "<clinit>" then classInitializer
  else ordinary

/-- Whether the text at an index is the given one. -/
def Pool.isText (pool : Pool) (index : Index) (text : String) : Bool :=
  match pool.text index with
  | .ok found => found = text
  | .error _ => false

/-- Whether a method is the one with the given name and descriptor. -/
def Member.isMethod (pool : Pool) (name descriptor : String) (method : Method) : Bool :=
  pool.isText method.nameIndex name &&
    match MethodKind.ofName name with
    | .classInitializer => true
    | _ => pool.isText method.descriptorIndex descriptor

namespace ClassFile

/-- The position of the first method with the given name and descriptor. -/
def findMethod? (file : ClassFile) (name descriptor : String) : Option Nat :=
  file.methods.findIdx? (Member.isMethod file.pool name descriptor)

/-- Removes the first method with the given name and descriptor, if there is one. -/
def removeMethod (file : ClassFile) (name descriptor : String) : Logged (Option Method × ClassFile) := do
  match file.findMethod? name descriptor with
  | some position =>
    note .info s!"Removing existing method {name}{descriptor}"
    return (file.methods[position]?, { file with methods := file.methods.eraseIdx position })
  | none =>
    note .info s!"No existing method {name}{descriptor} (new method?)"
    return (none, file)

/-- Removes the first method with the given name and descriptor and adds a method at the end; says whether one was
removed. -/
def addOrReplace (file : ClassFile) (name descriptor : String) (method : Method) : Logged (Bool × ClassFile) := do
  let (removed, file) ← file.removeMethod name descriptor
  return (removed.isSome, { file with methods := file.methods ++ [method] })

end ClassFile

/-- Puts the first code attribute of a decoded method in place of the first one of a method, or adds it at the end when
there is none; nothing when the decoded method has none either. -/
def Member.replaceCode (pool : Pool) (patch : ParsedMethod) (method : Method) : Logged (Option Method) := do
  match patch.codeAttribute? with
  | some (.code nameIndex length body nested) =>
    note .info
      s!"Replacing code ({body.code.length} bytes, max stack {body.maxStack}, max locals {body.maxLocals})"
    let replacement := (ParsedAttribute.code nameIndex length body nested).toAttribute
    match method.codePosition? pool with
    | some position => return some { method with attributes := method.attributes.set position replacement }
    | none =>
      note .warning "Target method had no Code attribute, adding one"
      return some { method with attributes := method.attributes ++ [replacement] }
  | _ => return none

end ClassGraft
