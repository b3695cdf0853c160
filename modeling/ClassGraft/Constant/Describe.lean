import ClassGraft.Constant.Basic
import ClassGraft.Text.Quoted

/-!
# Constants in messages

The long form in which a message shows a constant: the kind, and then its fields with their names or, where the kind
says it all, without.  Indices carry the kind of entry that they lead to.
-/

namespace ClassGraft.Constant

private def atIndex (i : Index) : String := s!"ConstantIndex({i})"

private def atUtf8 (i : Index) : String := s!"Utf8ConstantIndex({atIndex i})"

private def atClass (i : Index) : String := s!"ClassConstantIndex({atIndex i})"

private def atNameAndType (i : Index) : String := s!"NameAndTypeConstantIndex({atIndex i})"

/-- A list of fields with their names, in braces after the kind. -/
private def withFields (kind : String) (fields : List (String × String)) : String :=
  kind ++ " \x7b " ++ ", ".intercalate (fields.map fun (name, value) => name ++ ": " ++ value) ++ " \x7d"

private def describeNamed (kind : NamedKind) (text : Index) : String :=
  match kind with
  | .classInfo => s!"Class({atUtf8 text})"
  | .string => s!"String({atUtf8 text})"
  | .methodType => withFields "MethodType" [("descriptor", atUtf8 text)]
  | .moduleInfo => s!"Module({atUtf8 text})"
  | .packageInfo => s!"Package({atUtf8 text})"

private def describeMember (kind : MemberKind) (owner signature : Index) : String :=
  let fields := [("class", atClass owner), ("name_and_type", atNameAndType signature)]
  match kind with
  | .field => withFields "FieldRef" fields
  | .method => withFields "MethodRef" (fields ++ [("is_interface", "false")])
  | .interfaceMethod => withFields "MethodRef" (fields ++ [("is_interface", "true")])

private def describeDynamic (kind : DynamicKind) (bootstrap : UInt16) (signature : Index) : String :=
  let bootstrapField := ("bootstrap_method", toString bootstrap.toNat)
  match kind with
  | .value => withFields "Dynamic" [bootstrapField, ("name_and_type", atNameAndType signature)]
  | .callSite => withFields "InvokeDynamic" [bootstrapField, ("method_descriptor", atNameAndType signature)]

private def describeStored (stored : StoredText) : String :=
  let bytes := "[" ++ ", ".intercalate (stored.encoded.map fun b => toString b.toNat) ++ "]"
  withFields "Utf8Text" [("text", quoteText stored.text), ("encoded", bytes)]

/-- A constant as a message shows it. -/
def describe : Constant → String
  | .utf8 stored => s!"Utf8({describeStored stored})"
  | .integer value => s!"Integer({value.toInt})"
  | .float bits => s!"Float({Decimal.textOfBits binary32 bits.toNat})"
  | .long value => s!"Long({value.toInt})"
  | .double bits => s!"Double({Decimal.textOfBits binary64 bits.toNat})"
  | .named kind text => describeNamed kind text
  | .member kind owner signature => describeMember kind owner signature
  | .nameAndType name descriptor =>
    withFields "NameAndType" [("name", atUtf8 name), ("descriptor", atUtf8 descriptor)]
  | .methodHandle kind target => withFields "MethodHandle" [("handle_kind", kind.label), ("member", atIndex target)]
  | .dynamic kind bootstrap signature => describeDynamic kind bootstrap signature

end ClassGraft.Constant
