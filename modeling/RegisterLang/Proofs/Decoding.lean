import RegisterLang.Proofs.Codec

/-! # Reading arbitrary bytes

Any bytes can be read, also those that no instruction was written as. They start with an instruction, or end
too early for one, or start with a byte that is no opcode. Main statements: `decodeAt_exact`, which of the
three it is and how an instruction is related to its bytes, and `decodeAll_flatMap_encode_eq_zip`, the code
of a list of instructions is read back as that list.
-/

namespace RegisterLang

open LittleEndian List

variable {op : Opcode}

theorem Opcode.byte_of_ofByte? {b : UInt8} (found : Opcode.ofByte? b = some op) : op.byte = b := by
  unfold Opcode.ofByte? at found
  split at found
  all_goals first
    | cases found
      rename_i same
      exact UInt8.toNat.inj same.symm
    | cases found

theorem Opcode.byte_inj {op' : Opcode} (same : op.byte = op'.byte) : op = op' := by
  have found := Opcode.ofByte?_byte op
  rw [same, Opcode.ofByte?_byte] at found
  exact (Option.some.inj found).symm

namespace Instruction

/-! ## Halves of bytes and words -/

theorem high_lt (b : UInt8) : high b < 16 := by
  exact Nat.div_lt_of_lt_mul b.toNat_lt

theorem low_lt (b : UInt8) : low b < 16 := by
  exact Nat.mod_lt _ (by decide)

theorem pack_high_low (b : UInt8) : pack (high b) (low b) = b := by
  have bound := b.toNat_lt
  apply UInt8.toNat.inj
  simp only [pack, high, low, UInt8.toNat_add, UInt8.toNat_mul, UInt8.toNat_div, UInt8.toNat_mod, UInt8.reduceToNat]
  omega

theorem pack_high_zero (b : UInt8) : pack (high b) 0 = b - low b := by
  apply UInt8.toNat.inj
  simp only [pack, high, low, UInt8.toNat_add, UInt8.toNat_mul, UInt8.toNat_div, UInt8.toNat_mod,
    UInt8.toNat_sub, UInt8.reduceToNat]
  omega

theorem word16_read16 (a b : UInt8) : word16 (read16 a b) = [a, b] := by
  have bound := decode_lt [a, b]
  simp only [length_cons, length_nil, Nat.reduceAdd, Nat.reducePow] at bound
  rw [word16, read16, UInt16.toNat_ofNat_of_lt' bound]
  exact encode_decode [a, b]

theorem word32_read32 (a b c d : UInt8) : word32 (read32 a b c d) = [a, b, c, d] := by
  have bound := decode_lt [a, b, c, d]
  simp only [length_cons, length_nil, Nat.reduceAdd, Nat.reducePow] at bound
  rw [word32, read32, UInt32.toNat_ofNat_of_lt' bound]
  exact encode_decode [a, b, c, d]

theorem word64_read64 (a b c d e f g h : UInt8) :
    word64 (read64 a b c d e f g h) = [a, b, c, d, e, f, g, h] := by
  have bound := decode_lt [a, b, c, d, e, f, g, h]
  simp only [length_cons, length_nil, Nat.reduceAdd, Nat.reducePow] at bound
  rw [word64, read64, UInt64.toNat_ofNat_of_lt' bound]
  exact encode_decode [a, b, c, d, e, f, g, h]

/-! ## Operands -/

/-- The bytes of an instruction when the half that it does not use is cleared. There is one when the number
of its fields of four bits is odd: the low half of the byte of the last of them. -/
def clearSpare (i : Instruction) (bytes : List UInt8) : List UInt8 :=
  if i.nibbles.length % 2 = 1 then
    bytes.modify (i.nibbles.length / 2 + 1) fun b => b - low b
  else bytes

/-- An instruction that was read from an opcode and operands. -/
structure ReadFrom (i : Instruction) (op : Opcode) (operands : List UInt8) : Prop where
  opcode : i.opcode = op
  length : operands.length = lengthOf op - 1
  fits : i.Encodable
  encode : i.encode = i.clearSpare (op.byte :: operands)

/-- An instruction is read from the operand bytes that its opcode needs, and from no others. -/
theorem ofOperands?_cases (op : Opcode) (operands : List UInt8) :
    (∃ i, ofOperands? op operands = some i ∧ ReadFrom i op operands) ∨
      ofOperands? op operands = none ∧ operands.length ≠ lengthOf op - 1 := by
  -- No opcode needs more than nine bytes, so that one list more than those covers all that are too long.
  cases op <;>
    rcases operands with _ | ⟨a0, _ | ⟨a1, _ | ⟨a2, _ | ⟨a3, _ | ⟨a4, _ | ⟨a5, _ | ⟨a6, _ | ⟨a7, _ |
      ⟨a8, _ | ⟨a9, operands⟩⟩⟩⟩⟩⟩⟩⟩⟩⟩ <;>
    first
      | exact .inr ⟨rfl, by simp only [lengthOf, length_cons, length_nil]; omega⟩
      | exact .inl ⟨_, rfl, rfl, rfl,
          by simp only [Encodable, nibbles, forall_mem_cons, not_mem_nil, false_imp_iff,
            implies_true, high_lt, low_lt, and_self],
          by simp [Instruction.encode, Instruction.opcode, operandBytes, clearSpare, nibbles, pack_high_low,
            pack_high_zero, word16_read16, word32_read32, word64_read64]⟩

theorem readFrom_of_ofOperands? {operands : List UInt8} {i : Instruction}
    (spelled : ofOperands? op operands = some i) : ReadFrom i op operands := by
  rcases ofOperands?_cases op operands with ⟨i', spelled', readFrom⟩ | ⟨none, -⟩
  · cases spelled.symm.trans spelled'
    exact readFrom
  · cases spelled.symm.trans none

theorem exists_ofOperands? {operands : List UInt8} (length : operands.length = lengthOf op - 1) :
    ∃ i, ofOperands? op operands = some i := by
  rcases ofOperands?_cases op operands with ⟨i, spelled, -⟩ | ⟨-, other⟩
  · exact ⟨i, spelled⟩
  · exact absurd length other

theorem exists_opcode_eq (op : Opcode) : ∃ i : Instruction, i.opcode = op := by
  obtain ⟨i, spelled⟩ := exists_ofOperands? (length_replicate (n := lengthOf op - 1) (a := 0))
  exact ⟨i, (readFrom_of_ofOperands? spelled).opcode⟩

/-! ## Instructions -/

/-- What reading the bytes at an offset can give. -/
inductive Reads (offset : Nat) : List UInt8 → Except DecodeError (Instruction × List UInt8) → Prop where
  | nothing : Reads offset [] (.error (.truncated offset))
  | unassigned {b : UInt8} {rest : List UInt8} (other : ∀ op : Opcode, op.byte ≠ b) :
      Reads offset (b :: rest) (.error (.invalidOpcode b offset))
  | short {i : Instruction} {rest : List UInt8} (few : rest.length + 1 < i.length) :
      Reads offset (i.opcode.byte :: rest) (.error (.truncated offset))
  | instruction {i : Instruction} {operands rest : List UInt8}
      (readFrom : ReadFrom i i.opcode operands) :
      Reads offset (i.opcode.byte :: (operands ++ rest)) (.ok (i, rest))

theorem reads_decode (offset : Nat) (bytes : List UInt8) : Reads offset bytes (decode offset bytes) := by
  cases bytes with
  | nil => exact .nothing
  | cons b rest =>
    rw [decode]
    cases found : Opcode.ofByte? b with
    | none =>
      refine .unassigned fun op same => ?_
      rw [← same, Opcode.ofByte?_byte] at found
      cases found
    | some op =>
      cases Opcode.byte_of_ofByte? found
      dsimp only
      cases spelled : ofOperands? op (rest.take (lengthOf op - 1)) with
      | none =>
        have few : rest.length < lengthOf op - 1 := by
          refine Nat.lt_of_not_le fun enough => ?_
          obtain ⟨i, spelled'⟩ := exists_ofOperands? (length_take_of_le enough)
          cases spelled.symm.trans spelled'
        obtain ⟨i, rfl⟩ := exists_opcode_eq op
        exact .short (Nat.add_lt_of_lt_sub few)
      | some i =>
        have readFrom := readFrom_of_ofOperands? spelled
        cases readFrom.opcode
        have read : Reads offset _ (.ok (i, rest.drop (lengthOf i.opcode - 1))) :=
          .instruction readFrom
        rwa [take_append_drop] at read

/-- Reading the bytes at an offset finds no opcode exactly when the byte there is none; it finds too few bytes
exactly when there is none at all, or fewer than the instructions with that opcode have; otherwise it finds an
instruction whose fields fit, which lies within the code and is written as its bytes there, but for the half
of a byte that it does not use. -/
theorem decodeAt_exact (code : List UInt8) (offset : Nat) :
    (∀ b start, decodeAt code offset = .error (.invalidOpcode b start) ↔
      start = offset ∧ code[offset]? = some b ∧ ∀ op : Opcode, op.byte ≠ b) ∧
    (∀ start, decodeAt code offset = .error (.truncated start) ↔
      start = offset ∧ (code.length ≤ offset ∨ ∃ i : Instruction,
        code[offset]? = some i.opcode.byte ∧ code.length < offset + i.encode.length)) ∧
    ∀ i length, decodeAt code offset = .ok (i, length) →
      i.Encodable ∧ length = i.length ∧ offset + length ≤ code.length ∧
        i.encode = i.clearSpare ((code.drop offset).take length) := by
  have reads := reads_decode offset (code.drop offset)
  have first : code[offset]? = (code.drop offset).head? := List.head?_drop.symm
  have size : (code.drop offset).length = code.length - offset := List.length_drop
  rw [decodeAt, first]
  generalize code.drop offset = bytes at reads size
  generalize decode offset bytes = result at reads
  cases reads with
  | nothing =>
    have outside : code.length ≤ offset := Nat.le_of_sub_eq_zero size.symm
    refine ⟨fun b start => ⟨nofun, nofun⟩, fun start => ⟨?_, ?_⟩, nofun⟩
    · rintro ⟨⟩
      exact ⟨rfl, .inl outside⟩
    · rintro ⟨rfl, -⟩
      rfl
  | @unassigned b rest other =>
    refine ⟨fun b' start => ⟨?_, ?_⟩, fun start => ⟨nofun, ?_⟩, nofun⟩
    · rintro ⟨⟩
      exact ⟨rfl, rfl, other⟩
    · rintro ⟨rfl, ⟨⟩, -⟩
      rfl
    · rw [List.length_cons] at size
      rintro ⟨-, outside | ⟨i, starts, -⟩⟩
      · omega
      · cases starts
        exact absurd rfl (other i.opcode)
  | @short i rest few =>
    rw [List.length_cons] at size
    refine ⟨fun b start => ⟨nofun, ?_⟩, fun start => ⟨?_, ?_⟩, nofun⟩
    · rintro ⟨-, ⟨⟩, other⟩
      exact absurd rfl (other i.opcode)
    · rintro ⟨⟩
      refine ⟨rfl, .inr ⟨i, rfl, ?_⟩⟩
      rw [length_encode]
      omega
    · rintro ⟨rfl, -⟩
      rfl
  | @instruction i operands rest readFrom =>
    have whole : operands.length + 1 = i.length := by
      rw [readFrom.length]
      exact Nat.sub_add_cancel (length_pos i)
    rw [List.length_cons, List.length_append] at size
    refine ⟨fun b start => ⟨nofun, ?_⟩, fun start => ⟨nofun, ?_⟩, fun i' length given => ?_⟩
    · rintro ⟨-, ⟨⟩, other⟩
      exact absurd rfl (other i.opcode)
    · rintro ⟨-, outside | ⟨i', starts, few⟩⟩
      · omega
      · have same : i.opcode = i'.opcode := Opcode.byte_inj (Option.some.inj starts)
        have equal : i'.length = i.length := congrArg lengthOf same.symm
        rw [length_encode] at few
        omega
    · cases given
      refine ⟨readFrom.fits, rfl, by omega, ?_⟩
      rw [← whole, List.take_succ_cons, List.take_left]
      exact readFrom.encode

theorem decodeAt_exact_spare : decodeAt [0x00, 0x10, 0x12, 0x3F, 0x62] 1 = .ok (arith .add .signed 1 2 3, 3) ∧
      (arith .add .signed 1 2 3).encode = (arith .add .signed 1 2 3).clearSpare [0x10, 0x12, 0x3F] := by
  have read : decodeAt [0x00, 0x10, 0x12, 0x3F, 0x62] 1 = .ok (arith .add .signed 1 2 3, 3) := by
    decide
  obtain ⟨-, -, -, encode⟩ := (decodeAt_exact [0x00, 0x10, 0x12, 0x3F, 0x62] 1).2.2 _ _ read
  exact ⟨read, encode⟩

/-! ## Lists of instructions -/

theorem located_eq_zip (offset : Nat) (is : List Instruction) :
    located offset is = ((is.map length).scanl (· + ·) offset).zip is := by
  induction is generalizing offset with
  | nil => rfl
  | cons i is ih => rw [located, ih, map_cons, scanl_cons, zip_cons_cons]

/-- The code of instructions whose fields fit is read back as those instructions, each with the sum of the
lengths of those before it. -/
theorem decodeAll_flatMap_encode_eq_zip {is : List Instruction} (fits : ∀ i ∈ is, i.Encodable) :
    decodeAll (is.flatMap encode) = .ok (((is.map length).scanl (· + ·) 0).zip is) := by
  rw [decodeAll_flatMap_encode fits, located_eq_zip]

theorem decodeAll_flatMap_encode_eq_zip_shapes :
    decodeAll ([ldi4 3 15, ldf 2 0x7FF8000000000001, jump16 .gt 513, arraySet 5 6 15, retLocal 2].flatMap
      encode) = .ok [(0, ldi4 3 15), (2, ldf 2 0x7FF8000000000001), (12, jump16 .gt 513),
        (15, arraySet 5 6 15), (18, retLocal 2)] :=
  decodeAll_flatMap_encode_eq_zip (by decide)

end Instruction

end RegisterLang
