import ClassGraft.Text.ModifiedUtf8
import ClassGraft.Decimal.Shortest

/-!
# Constants

The entries of a constant pool.  A constant holds a literal or names other entries of its pool by index.  Kinds that
differ only in their tag share a constructor: an entry `named` by one text, a `member` of a class, and a constant that
a bootstrap method computes.
-/

namespace ClassGraft

/-- A position in a constant pool. -/
abbrev Index := UInt16

/-- The kinds of constants that a class file tells apart. -/
inductive Tag where
  | utf8
  | integer
  | float
  | long
  | double
  | classInfo
  | string
  | fieldRef
  | methodRef
  | interfaceMethodRef
  | nameAndType
  | methodHandle
  | methodType
  | dynamic
  | invokeDynamic
  | moduleInfo
  | packageInfo
deriving DecidableEq, Repr

namespace Tag

/-- The byte that marks a constant of this kind. -/
def code : Tag → UInt8
  | utf8 => 1
  | integer => 3
  | float => 4
  | long => 5
  | double => 6
  | classInfo => 7
  | string => 8
  | fieldRef => 9
  | methodRef => 10
  | interfaceMethodRef => 11
  | nameAndType => 12
  | methodHandle => 15
  | methodType => 16
  | dynamic => 17
  | invokeDynamic => 18
  | moduleInfo => 19
  | packageInfo => 20

/-- The kind that a byte marks. -/
def ofCode? (code : UInt8) : Option Tag :=
  match code.toNat with
  | 1 => some utf8
  | 3 => some integer
  | 4 => some float
  | 5 => some long
  | 6 => some double
  | 7 => some classInfo
  | 8 => some string
  | 9 => some fieldRef
  | 10 => some methodRef
  | 11 => some interfaceMethodRef
  | 12 => some nameAndType
  | 15 => some methodHandle
  | 16 => some methodType
  | 17 => some dynamic
  | 18 => some invokeDynamic
  | 19 => some moduleInfo
  | 20 => some packageInfo
  | _ => none

/-- The word for constants of this kind in messages. -/
def label : Tag → String
  | utf8 => "Utf8"
  | integer => "Integer"
  | float => "Float"
  | long => "Long"
  | double => "Double"
  | classInfo => "Class"
  | string => "String"
  | fieldRef => "Fieldref"
  | methodRef => "Methodref"
  | interfaceMethodRef => "InterfaceMethodref"
  | nameAndType => "NameAndType"
  | methodHandle => "MethodHandle"
  | methodType => "MethodType"
  | dynamic => "Dynamic"
  | invokeDynamic => "InvokeDynamic"
  | moduleInfo => "Module"
  | packageInfo => "Package"

theorem ofCode?_code (tag : Tag) : ofCode? tag.code = some tag := by
  cases tag <;> rfl

theorem ofCode?_eq_some {code : UInt8} {tag : Tag} (h : ofCode? code = some tag) : tag.code = code := by
  unfold ofCode? at h
  split at h <;> simp only [Option.some.injEq, reduceCtorEq] at h <;> subst h <;>
    exact UInt8.toNat_inj.1 (by simp_all [Tag.code])

end Tag

/-- What a constant that consists of one text stands for. -/
inductive NamedKind where
  | classInfo
  | string
  | methodType
  | moduleInfo
  | packageInfo
deriving DecidableEq, Repr

/-- What a member of a class is. -/
inductive MemberKind where
  | field
  | method
  | interfaceMethod
deriving DecidableEq, Repr

/-- What a bootstrap method computes. -/
inductive DynamicKind where
  | value
  | callSite
deriving DecidableEq, Repr

/-- What a method handle does with its member. -/
inductive HandleKind where
  | getField
  | getStatic
  | putField
  | putStatic
  | invokeVirtual
  | invokeStatic
  | invokeSpecial
  | newInvokeSpecial
  | invokeInterface
deriving DecidableEq, Repr

/-- The tag of a constant that consists of one text. -/
def NamedKind.tag : NamedKind → Tag
  | classInfo => .classInfo
  | string => .string
  | methodType => .methodType
  | moduleInfo => .moduleInfo
  | packageInfo => .packageInfo

/-- The tag of a reference to a member. -/
def MemberKind.tag : MemberKind → Tag
  | field => .fieldRef
  | method => .methodRef
  | interfaceMethod => .interfaceMethodRef

/-- The tag of a computed constant. -/
def DynamicKind.tag : DynamicKind → Tag
  | value => .dynamic
  | callSite => .invokeDynamic

namespace HandleKind

/-- The byte of a handle kind. -/
def code : HandleKind → UInt8
  | getField => 1
  | getStatic => 2
  | putField => 3
  | putStatic => 4
  | invokeVirtual => 5
  | invokeStatic => 6
  | invokeSpecial => 7
  | newInvokeSpecial => 8
  | invokeInterface => 9

/-- The handle kind of a byte. -/
def ofCode? (code : UInt8) : Option HandleKind :=
  match code.toNat with
  | 1 => some getField
  | 2 => some getStatic
  | 3 => some putField
  | 4 => some putStatic
  | 5 => some invokeVirtual
  | 6 => some invokeStatic
  | 7 => some invokeSpecial
  | 8 => some newInvokeSpecial
  | 9 => some invokeInterface
  | _ => none

/-- The word for a handle kind. -/
def label : HandleKind → String
  | getField => "GetField"
  | getStatic => "GetStatic"
  | putField => "PutField"
  | putStatic => "PutStatic"
  | invokeVirtual => "InvokeVirtual"
  | invokeStatic => "InvokeStatic"
  | invokeSpecial => "InvokeSpecial"
  | newInvokeSpecial => "NewInvokeSpecial"
  | invokeInterface => "InvokeInterface"

theorem ofCode?_code (kind : HandleKind) : ofCode? kind.code = some kind := by
  cases kind <;> rfl

theorem ofCode?_eq_some {code : UInt8} {kind : HandleKind} (h : ofCode? code = some kind) : kind.code = code := by
  unfold ofCode? at h
  split at h <;> simp only [Option.some.injEq, reduceCtorEq] at h <;> subst h <;>
    exact UInt8.toNat_inj.1 (by simp_all [HandleKind.code])

end HandleKind

/-- An entry of a constant pool.  Floating-point literals are kept as bits. -/
inductive Constant where
  | utf8 (text : StoredText)
  | integer (value : Int32)
  | float (bits : UInt32)
  | long (value : Int64)
  | double (bits : UInt64)
  | named (kind : NamedKind) (text : Index)
  | member (kind : MemberKind) (owner signature : Index)
  | nameAndType (name descriptor : Index)
  | methodHandle (kind : HandleKind) (target : Index)
  | dynamic (kind : DynamicKind) (bootstrap : UInt16) (signature : Index)
deriving DecidableEq, Repr

namespace Constant

/-- The kind of a constant. -/
def tag : Constant → Tag
  | .utf8 _ => .utf8
  | .integer _ => .integer
  | .float _ => .float
  | .long _ => .long
  | .double _ => .double
  | .named kind _ => kind.tag
  | .member kind _ _ => kind.tag
  | .nameAndType _ _ => .nameAndType
  | .methodHandle _ _ => .methodHandle
  | .dynamic kind _ _ => kind.tag

/-- The number of indices that a constant takes up: two for the eight-byte literals, otherwise one. -/
def width : Constant → Nat
  | .long _ => 2
  | .double _ => 2
  | _ => 1

/-- Whether two constants are equal when floating-point literals are compared as numbers. -/
def sameValue : Constant → Constant → Bool
  | .float a, .float b => binary32.sameNumber a.toNat b.toNat
  | .double a, .double b => binary64.sameNumber a.toNat b.toNat
  | a, b => a = b

theorem width_pos (c : Constant) : 0 < c.width := by
  cases c <;> simp [width]

theorem width_le_two (c : Constant) : c.width ≤ 2 := by
  cases c <;> simp [width]

theorem width_eq_two_iff {c : Constant} :
    c.width = 2 ↔ (∃ value, c = .long value) ∨ ∃ bits, c = .double bits := by
  cases c <;> simp [width]

end Constant

end ClassGraft
