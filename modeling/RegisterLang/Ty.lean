/-! # Value types

A type is a primitive kind with qualifiers: constant, pointer to some depth, array of some length.
Its width in bits is what a value needs when it is written out as an immediate. Agreement of types,
`Ty.agrees`, is coarser than equality: it ignores `const`, lengths and widths, and any two constant
strings agree.
-/

namespace RegisterLang

inductive Primitive where
  | unknown
  | void
  | byte
  | int
  | uint
  | float
  | any
  deriving DecidableEq, Repr, Inhabited

namespace Primitive

def all : List Primitive :=
  [.unknown, .void, .byte, .int, .uint, .float, .any]

/-- The tag that names a kind in a codefile. -/
def tag : Primitive → UInt8
  | unknown => 0
  | void => 1
  | byte => 2
  | int => 3
  | uint => 4
  | float => 5
  | any => 6

def ofTag? (tag : UInt8) : Option Primitive :=
  all.find? (·.tag = tag)

/-- The name of a kind; all but the unknown kind are words of the language. -/
def name : Primitive → String
  | unknown => "<unknown>"
  | void => "Void"
  | byte => "Byte"
  | int => "Int"
  | uint => "UInt"
  | float => "Float"
  | any => "Any"

/-- The kind that a word of the language names. -/
def ofName? : String → Option Primitive
  | "Void" => some void
  | "Byte" => some byte
  | "Int" => some int
  | "UInt" => some uint
  | "Float" => some float
  | "Any" => some any
  | _ => none

def naturalBits : Primitive → Nat
  | unknown | void => 0
  | byte => 8
  | int | uint | float | any => 64

/-- The kinds of whole numbers. -/
def isInteger : Primitive → Bool
  | byte | int | uint => true
  | unknown | void | float | any => false

end Primitive

structure Ty where
  primitive : Primitive
  isConst : Bool
  isPointer : Bool
  isArray : Bool
  /-- How many pointers deep the type is, at most 255. -/
  depth : Nat
  /-- The number of elements, zero when the initializer decides it. -/
  arrayLen : Nat
  /-- The width of the value as an immediate. -/
  bits : Nat
  deriving DecidableEq, Repr

namespace Ty

/-- The largest depth that is told apart. -/
def maxDepth : Nat := 255

/-- The plain type of a kind. -/
def scalar (p : Primitive) : Ty :=
  ⟨p, false, false, false, 0, 0, p.naturalBits⟩

def unknown : Ty := scalar .unknown

instance : Inhabited Ty := ⟨unknown⟩

def void : Ty := scalar .void

def byte : Ty := scalar .byte

def int : Ty := scalar .int

def uint : Ty := scalar .uint

def float : Ty := scalar .float

def any : Ty := scalar .any

/-- The type of an integer literal that needs the given width. -/
def intLiteral (bits : Nat) : Ty :=
  { int with bits }

/-- The type with the constant qualifier. -/
def constant (t : Ty) : Ty :=
  { t with isConst := true }

def pointerTo (t : Ty) : Ty :=
  { t with isPointer := true, depth := min (t.depth + 1) maxDepth, bits := 64 }

/-- The type of an array of `len` values of type `t`. -/
def arrayOf (t : Ty) (len : Nat) : Ty :=
  { t with isArray := true, arrayLen := len, bits := 64 }

def constString : Ty :=
  byte.constant.pointerTo

/-- The type of an element of an array type. -/
def element (t : Ty) : Ty :=
  { t with
    isArray := false
    arrayLen := 0
    bits := if t.isPointer then 64 else t.primitive.naturalBits }

/-- Neither a pointer nor an array. -/
def isScalar (t : Ty) : Bool :=
  !t.isPointer && !t.isArray

def isVoid (t : Ty) : Bool :=
  t.primitive = .void && t.isScalar

def isFloat (t : Ty) : Bool :=
  t.isScalar && t.primitive = .float

def isInteger (t : Ty) : Bool :=
  t.isScalar && t.primitive.isInteger

def isUnsigned (t : Ty) : Bool :=
  t.isScalar && (t.primitive = .uint || t.primitive = .byte)

/-- A value that may stand for a value of every type. -/
def isAny (t : Ty) : Bool :=
  t.isScalar && t.primitive = .any

/-- A constant `Byte` behind one pointer or in an array. -/
def isConstString (t : Ty) : Bool :=
  t.primitive = .byte && t.isConst && (t.isPointer || t.isArray) && t.depth < 2

/-- An array that its declaration creates and the end of the function frees. -/
def isOwnedArray (t : Ty) : Bool :=
  t.isArray && !t.isConst

/-- Whether two types agree. -/
def agrees (a b : Ty) : Bool :=
  (a.isConstString && b.isConstString) ||
    (a.primitive = b.primitive && a.isPointer = b.isPointer && a.isArray = b.isArray &&
      a.depth = b.depth)

/-- Whether a value of type `value` may be stored in a place of type `t`. An integer literal fits
every integer place, and `Any` takes and gives every value. -/
def accepts (t value : Ty) (literal : Bool) : Bool :=
  t.agrees value || t.isAny || value.isAny || (literal && t.isInteger && value.isInteger)

/-- The written form of a type. -/
def text (t : Ty) : String :=
  (if t.isConst then "const " else "") ++ t.primitive.name ++
    String.ofList (List.replicate t.depth '*') ++
    (if t.isArray then (if t.arrayLen > 0 then s!"[{t.arrayLen}]" else "[]") else "")

end Ty

end RegisterLang
