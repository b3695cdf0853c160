import ClassGraft.Layout

/-!
# The grammar of attributes

What the contents of an attribute look like, as pieces, without saying how they are read: tables behind their counts,
annotations and element values nested to any depth, and stack map frames with their verification types.
-/

namespace ClassGraft.Layout

/-- Runs of pieces of one kind, behind their count. -/
inductive Counted (width : OperandWidth) (Kind : List Piece → Prop) : List Piece → Prop
  | intro {runs : List (List Piece)} (hcount : runs.length < Nat.pow 256 width.size) (hkind : ∀ run ∈ runs, Kind run) :
      Counted width Kind (.fixed (bigEndian width.size runs.length) :: runs.flatten)

/-- An index of an entry. -/
inductive IndexField : List Piece → Prop
  | intro (index : Index) : IndexField [.slot (.wide index)]

/-- A formal parameter: its name, which may be missing, and its access flags. -/
inductive Parameter : List Piece → Prop
  | intro (name : Index) {flags : Bytes} (hflags : flags.length = 2) :
      Parameter [.slot (.optional name), .fixed flags]

/-- A local variable: the start and the length of its range, its name, its descriptor or signature, and its number. -/
inductive LocalVariable : List Piece → Prop
  | intro {range number : Bytes} (hrange : range.length = 4) (name type : Index) (hnumber : number.length = 2) :
      LocalVariable [.fixed range, .slot (.wide name), .slot (.wide type), .fixed number]

mutual

/-- An annotation: its type and its elements. -/
inductive Annotation : List Piece → Prop
  | intro (type : Index) {elements : List Piece} (helements : Counted .wide Element elements) :
      Annotation (.slot (.wide type) :: elements)

/-- An element of an annotation: its name and its value. -/
inductive Element : List Piece → Prop
  | intro (name : Index) {value : List Piece} (hvalue : ElementValue value) : Element (.slot (.wide name) :: value)

/-- The value of an element, behind its tag: a constant, an enumeration constant by its type and name, an annotation
or an array of values. -/
inductive ElementValue : List Piece → Prop
  | constant {tag : Char} (htag : tag ∈ "BCDFIJSZsc".toList) (index : Index) :
      ElementValue [.fixed [tag.toUInt8], .slot (.wide index)]
  | enumeration (type name : Index) :
      ElementValue [.fixed ['e'.toUInt8], .slot (.wide type), .slot (.wide name)]
  | nested {pieces : List Piece} (h : Annotation pieces) : ElementValue (.fixed ['@'.toUInt8] :: pieces)
  | array {values : List Piece} (h : Counted .wide ElementValue values) :
      ElementValue (.fixed ['['.toUInt8] :: values)

end

/-- A verification type, behind its tag: one that says everything, a class, or the offset of the instruction that
made an object which is not initialized. -/
inductive VerificationType : List Piece → Prop
  | plain {tag : UInt8} (htag : tag ≤ 6) : VerificationType [.fixed [tag]]
  | object (index : Index) : VerificationType [.fixed [7], .slot (.wide index)]
  | uninitialized {offset : Bytes} (hoffset : offset.length = 2) : VerificationType [.fixed [8], .fixed offset]

/-- A stack map frame, behind its tag, which also gives the distance from the frame before or the number of locals that
come or go. -/
inductive Frame : List Piece → Prop
  | same {tag : UInt8} (htag : tag ≤ 63) : Frame [.fixed [tag]]
  | sameWithItem {tag : UInt8} (hlow : 64 ≤ tag) (hhigh : tag ≤ 127) {item : List Piece}
      (hitem : VerificationType item) : Frame (.fixed [tag] :: item)
  | sameWithItemExtended {delta : Bytes} (hdelta : delta.length = 2) {item : List Piece}
      (hitem : VerificationType item) : Frame (.fixed [247] :: .fixed delta :: item)
  | chopOrSameExtended {tag : UInt8} (hlow : 248 ≤ tag) (hhigh : tag ≤ 251) {delta : Bytes}
      (hdelta : delta.length = 2) : Frame [.fixed [tag], .fixed delta]
  | append {tag : UInt8} (hlow : 252 ≤ tag) (hhigh : tag ≤ 254) {delta : Bytes} (hdelta : delta.length = 2)
      {locals : List (List Piece)} (hcount : locals.length = tag.toNat - 251)
      (hlocals : ∀ item ∈ locals, VerificationType item) : Frame (.fixed [tag] :: .fixed delta :: locals.flatten)
  | full {delta : Bytes} (hdelta : delta.length = 2) {locals stack : List Piece}
      (hlocals : Counted .wide VerificationType locals) (hstack : Counted .wide VerificationType stack) :
      Frame (.fixed [255] :: .fixed delta :: (locals ++ stack))

/-- The pieces that contents of a layout consist of. -/
def Shape : Layout → List Piece → Prop
  | exceptions => Counted .wide IndexField
  | signature => IndexField
  | methodParameters => Counted .narrow Parameter
  | annotations => Counted .wide Annotation
  | parameterAnnotations => Counted .narrow (Counted .wide Annotation)
  | annotationDefault => ElementValue
  | stackMapTable => Counted .wide Frame
  | localVariables => Counted .wide LocalVariable

end ClassGraft.Layout
