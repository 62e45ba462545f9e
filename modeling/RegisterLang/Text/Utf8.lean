/-! # UTF-8

Strings are written as UTF-8. Bytes that are not UTF-8 can still be shown: every maximal piece of a
broken sequence is shown as one replacement character.
-/

namespace RegisterLang.Utf8

def encode (text : String) : List UInt8 :=
  text.toUTF8.toList

def decode? (bytes : List UInt8) : Option String :=
  String.fromUTF8? ⟨bytes.toArray⟩

def replacement : Char := '�'

def isContinuation (b : UInt8) : Bool :=
  0x80 ≤ b && b ≤ 0xBF

/-- Whether `b` can follow the first byte `a` of a sequence of three. -/
def follows3 (a b : UInt8) : Bool :=
  if a = 0xE0 then 0xA0 ≤ b && b ≤ 0xBF
  else if a = 0xED then 0x80 ≤ b && b ≤ 0x9F
  else isContinuation b

/-- Whether `b` can follow the first byte `a` of a sequence of four. -/
def follows4 (a b : UInt8) : Bool :=
  if a = 0xF0 then 0x90 ≤ b && b ≤ 0xBF
  else if a = 0xF4 then 0x80 ≤ b && b ≤ 0x8F
  else isContinuation b

def payload (b : UInt8) : Nat :=
  b.toNat % 64

/-- Decode with replacement characters; `shown` holds, last first, what was decoded before. -/
def decodeLossyFrom (shown : List Char) : List UInt8 → List Char
  | [] => shown.reverse
  | a :: rest =>
    if a < 0x80 then decodeLossyFrom (Char.ofNat a.toNat :: shown) rest
    else if 0xC2 ≤ a && a ≤ 0xDF then
      match rest with
      | b :: more =>
        if isContinuation b then
          decodeLossyFrom (Char.ofNat (a.toNat % 32 * 64 + payload b) :: shown) more
        else decodeLossyFrom (replacement :: shown) (b :: more)
      | [] => (replacement :: shown).reverse
    else if 0xE0 ≤ a && a ≤ 0xEF then
      match rest with
      | b :: more =>
        if follows3 a b then
          match more with
          | c :: tail =>
            if isContinuation c then
              decodeLossyFrom
                (Char.ofNat (a.toNat % 16 * 4096 + payload b * 64 + payload c) :: shown) tail
            else decodeLossyFrom (replacement :: shown) (c :: tail)
          | [] => (replacement :: shown).reverse
        else decodeLossyFrom (replacement :: shown) (b :: more)
      | [] => (replacement :: shown).reverse
    else if 0xF0 ≤ a && a ≤ 0xF4 then
      match rest with
      | b :: more =>
        if follows4 a b then
          match more with
          | c :: tail =>
            if isContinuation c then
              match tail with
              | d :: last =>
                if isContinuation d then
                  decodeLossyFrom
                    (Char.ofNat (a.toNat % 8 * 262144 + payload b * 4096 + payload c * 64 +
                      payload d) :: shown) last
                else decodeLossyFrom (replacement :: shown) (d :: last)
              | [] => (replacement :: shown).reverse
            else decodeLossyFrom (replacement :: shown) (c :: tail)
          | [] => (replacement :: shown).reverse
        else decodeLossyFrom (replacement :: shown) (b :: more)
      | [] => (replacement :: shown).reverse
    else decodeLossyFrom (replacement :: shown) rest

def decodeLossy (bytes : List UInt8) : String :=
  String.ofList (decodeLossyFrom [] bytes)

end RegisterLang.Utf8
