/-! # JSON values

Settings and diagnostics are exchanged as JSON. A number is kept as written in decimal, so a whole number
is one without decimal places.
-/

namespace RegisterLang

inductive Json where
  | null
  | bool (value : Bool)
  /-- The number `mantissa / 10 ^ places`. -/
  | num (mantissa : Int) (places : Nat)
  | str (value : String)
  | arr (items : List Json)
  | obj (fields : List (String × Json))
  deriving Repr, Inhabited

namespace Json

def nat (n : Nat) : Json :=
  num n 0

def ofOption : Option Json → Json
  | some j => j
  | none => null

def field? : Json → String → Option Json
  | obj fields, key => fields.lookup key
  | _, _ => none

def bool? : Json → Option Bool
  | bool value => some value
  | _ => none

def str? : Json → Option String
  | str value => some value
  | _ => none

/-- A whole number from zero on and below a bound. -/
def natBelow? (bound : Nat) : Json → Option Nat
  | num (.ofNat n) 0 => if n < bound then some n else none
  | _ => none

def word? : Json → Option Nat :=
  natBelow? UInt64.size

def list? {α : Type} (item : Json → Option α) : Json → Option (List α)
  | arr items => items.mapM item
  | _ => none

/-- A value that `null` stands for the absence of. -/
def nullable? {α : Type} (value : Json → Option α) : Json → Option (Option α)
  | null => some none
  | j => (value j).map some

/-- One of several names: as a string, or as an object whose only key is the name, with `null`. -/
def choice? {α : Type} (ofName? : String → Option α) : Json → Option α
  | str name => ofName? name
  | obj [(name, null)] => ofName? name
  | _ => none

/-- The values of a record's fields: by key, or as a list in the order of the fields, which may end
early. Other keys are ignored. -/
def record? (keys : List String) : Json → Option (List (Option Json))
  | obj fields => some (keys.map fun key => fields.lookup key)
  | arr items =>
    if items.length ≤ keys.length then
      some (items.map some ++ List.replicate (keys.length - items.length) none)
    else none
  | _ => none

def orDefault? {α : Type} (value : Json → Option α) (fallback : α) : Option Json → Option α
  | some j => value j
  | none => some fallback

end Json

end RegisterLang
