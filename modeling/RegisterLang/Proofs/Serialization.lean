import RegisterLang.Codefile.Read
import RegisterLang.Codefile.Write
import RegisterLang.Proofs.Layout

/-! # Codefiles and their bytes

Each reader of the format takes the bytes that spell its result and no others, and what spells a result is
what the writer writes for it. Main statements: `decode_encode_of_fits`, what was written is read back, and
`encode_of_decode`, what is read is what would be written.
-/

namespace RegisterLang

open List LittleEndian

namespace LittleEndian

theorem encode_mod (width n : Nat) : encode width (n % 256 ^ width) = encode width n := by
  rw [← decode_encode]
  have again := encode_decode (encode width n)
  rwa [length_encode] at again

theorem encode_add (low high n : Nat) : encode (low + high) n = encode low n ++ encode high (n / 256 ^ low) := by
  induction low generalizing n with
  | zero => simp [encode]
  | succ low ih =>
    rw [Nat.succ_add, encode, ih, encode, cons_append, Nat.div_div_eq_div_mul, Nat.pow_succ', Nat.mul_comm]

end LittleEndian

theorem Primitive.ofTag?_eq_some {tag : UInt8} {p : Primitive} : ofTag? tag = some p ↔ p.tag = tag := by
  constructor
  · intro found
    simpa using find?_some found
  · rintro rfl
    cases p <;> rfl

theorem FileType.ofByte?_eq_some {byte : UInt8} {t : FileType} : ofByte? byte = some t ↔ t.byte = byte := by
  constructor
  · intro found
    unfold ofByte? at found
    split at found <;> cases found <;> rfl
  · rintro rfl
    cases t <;> rfl

namespace Codefile

variable {bytes tables : List UInt8} {f : Codefile} {n : Nat}

/-! ## What is written for an entry -/

theorem encodeCount_eq_ok {what : String} :
    encodeCount n what = .ok bytes ↔ n < 2 ^ 32 ∧ bytes = LittleEndian.encode 4 n := by
  rw [encodeCount]
  split
  · next small =>
    rw [Except.ok.injEq, eq_comm]
    exact ⟨fun same => ⟨small, same⟩, And.right⟩
  · next large =>
    constructor
    · intro written
      cases written
    · rintro ⟨small, -⟩
      exact (large small).elim

theorem encodeFunction_bytecode {localReserve stackArgs : UInt16} {code : List UInt8} :
    encodeFunction (.bytecode localReserve stackArgs code) = .ok bytes ↔ code.length < 2 ^ 32 ∧
      bytes = word32 0 ++ word16 localReserve ++
        LittleEndian.word16 stackArgs ++ LittleEndian.encode 4 code.length ++ code := by
  rw [encodeFunction, bind_eq_ok]
  constructor
  · rintro ⟨size, counted, written⟩
    obtain ⟨small, rfl⟩ := encodeCount_eq_ok.1 counted
    cases written
    exact ⟨small, rfl⟩
  · rintro ⟨small, rfl⟩
    exact ⟨_, encodeCount_eq_ok.2 ⟨small, rfl⟩, rfl⟩

theorem encodeFunction_flags {f : FunctionEntry} (written : encodeFunction f = .ok bytes) :
    ∃ back, bytes = LittleEndian.encode 4 f.flags.toNat ++ back := by
  cases f with
  | bytecode localReserve stackArgs code =>
    obtain ⟨-, rfl⟩ := encodeFunction_bytecode.1 written
    exact ⟨_, by rw [word32, append_assoc, append_assoc, append_assoc]; rfl⟩
  | native library symbol =>
    cases written
    exact ⟨_, by rw [LittleEndian.word32, append_assoc]⟩

theorem encodeString_eq_ok {s : List UInt8} : encodeString s = .ok bytes ↔
      s.length < 2 ^ 16 ∧ bytes = LittleEndian.encode 2 s.length ++ s := by
  rw [encodeString]
  split
  · next small =>
    constructor
    · intro written
      cases written
      exact ⟨small, rfl⟩
    · rintro ⟨-, rfl⟩
      rfl
  · next large =>
    constructor
    · intro written
      cases written
    · rintro ⟨small, -⟩
      exact (large small).elim

namespace Reader

variable {α β : Type} {spells : α → List UInt8 → Prop} {reader : Reader α}

/-! ## Readers that take what they read -/

/-- A reader takes exactly the bytes that spell its result, whatever comes after them. -/
def Takes (reader : Reader α) (spells : α → List UInt8 → Prop) : Prop :=
  ∀ (input : Input) (a : α) (input' : Input), reader.run input = .ok (a, input') ↔
    ∃ bytes, spells a bytes ∧ input.rest = bytes ++ input'.rest ∧ input'.offset = input.offset + bytes.length

/-- A reader that ends the input gives a result just when the input spells it. -/
def Ends (reader : Reader α) (spells : α → List UInt8 → Prop) : Prop :=
  ∀ (input : Input) (a : α), (∃ input', reader.run input = .ok (a, input')) ↔ spells a input.rest

variable {spellsNext : α → β → List UInt8 → Prop} {next : α → Reader β}

namespace Takes

variable {reader : Reader α} {spells spells' : α → List UInt8 → Prop}

theorem congr (takes : Takes reader spells) (same : ∀ a bytes, spells a bytes ↔ spells' a bytes) :
    Takes reader spells' := by
  intro input a input'
  simp only [takes input a input', same]

theorem of_pure (a : α) : Takes (pure a) fun a' bytes => a' = a ∧ bytes = [] := by
  intro input a' input'
  obtain ⟨offset, rest⟩ := input
  obtain ⟨offset', rest'⟩ := input'
  constructor
  · intro ran
    cases ran
    exact ⟨[], ⟨rfl, rfl⟩, rfl, rfl⟩
  · rintro ⟨_, ⟨rfl, rfl⟩, same, moved⟩
    cases same
    cases moved
    rfl

theorem of_refuse (cause : Malformed) : Takes (refuse cause : Reader α) fun _ _ => False := by
  intro input a input'
  constructor
  · intro ran
    cases ran
  · rintro ⟨_, impossible, -⟩
    exact impossible.elim

theorem bind (first : Takes reader spells) (second : ∀ a, Takes (next a) (spellsNext a)) :
    Takes (reader >>= next) fun b bytes => ∃ a front back, spells a front ∧ spellsNext a b back ∧
      bytes = front ++ back := by
  intro input b input''
  rw [StateT.run_bind, bind_eq_ok]
  constructor
  · rintro ⟨⟨a, input'⟩, ran, ran'⟩
    obtain ⟨front, spelled, same, moved⟩ := (first input a input').1 ran
    obtain ⟨back, spelled', same', moved'⟩ := (second a input' b input'').1 ran'
    refine ⟨front ++ back, ⟨a, front, back, spelled, spelled', rfl⟩, ?_, ?_⟩
    · rw [same, same', append_assoc]
    · rw [moved', moved, length_append, Nat.add_assoc]
  · rintro ⟨_, ⟨a, front, back, spelled, spelled', rfl⟩, same, moved⟩
    refine ⟨(a, ⟨input.offset + front.length, back ++ input''.rest⟩),
      (first input a _).2 ⟨front, spelled, by rw [same, append_assoc], rfl⟩,
      (second a _ b input'').2 ⟨back, spelled', rfl, ?_⟩⟩
    rw [moved, length_append, Nat.add_assoc]

theorem map {f : α → β} (takes : Takes reader spells) :
    Takes (f <$> reader) fun b bytes => ∃ a, spells a bytes ∧ b = f a := by
  rw [← bind_pure_comp]
  refine (takes.bind fun a => of_pure (f a)).congr fun b bytes => ?_
  constructor
  · rintro ⟨a, front, _, spelled, ⟨rfl, rfl⟩, rfl⟩
    exact ⟨a, by simpa using spelled, rfl⟩
  · rintro ⟨a, spelled, rfl⟩
    exact ⟨a, bytes, [], spelled, ⟨rfl, rfl⟩, by simp⟩

/-- What a reader takes from the front of some bytes, and what it leaves, is determined by them. -/
theorem unique (takes : Takes reader spells) {a a' : α} {front front' back back' : List UInt8}
    (spelled : spells a front) (spelled' : spells a' front')
    (same : front ++ back = front' ++ back') : a = a' ∧ back = back' := by
  have ran := (takes ⟨0, front ++ back⟩ a ⟨front.length, back⟩).2 ⟨front, spelled, rfl, (Nat.zero_add _).symm⟩
  have ran' := (takes ⟨0, front ++ back⟩ a' ⟨front'.length, back'⟩).2 ⟨front', spelled', same, (Nat.zero_add _).symm⟩
  have both := Except.ok.inj (ran.symm.trans ran')
  exact ⟨congrArg Prod.fst both, congrArg (fun x => x.2.rest) both⟩

end Takes

theorem Ends.bind (first : Takes reader spells) (second : ∀ a, Ends (next a) (spellsNext a)) :
    Ends (reader >>= next) fun b bytes => ∃ a front back, spells a front ∧ spellsNext a b back ∧
      bytes = front ++ back := by
  intro input b
  constructor
  · rintro ⟨input'', ran⟩
    rw [StateT.run_bind, bind_eq_ok] at ran
    obtain ⟨⟨a, input'⟩, ran, ran'⟩ := ran
    obtain ⟨front, spelled, same, -⟩ := (first input a input').1 ran
    exact ⟨a, front, input'.rest, spelled, (second a input' b).1 ⟨_, ran'⟩, same⟩
  · rintro ⟨a, front, back, spelled, spelled', same⟩
    obtain ⟨input'', ran'⟩ := (second a ⟨input.offset + front.length, back⟩ b).2 spelled'
    refine ⟨input'', ?_⟩
    rw [StateT.run_bind, bind_eq_ok]
    exact ⟨_, (first input a _).2 ⟨front, spelled, same, rfl⟩, ran'⟩

theorem Ends.congr {spells' : α → List UInt8 → Prop} (ends : Ends reader spells)
    (same : ∀ a bytes, spells a bytes ↔ spells' a bytes) : Ends reader spells' := by
  intro input a
  rw [ends input a, same]

theorem Ends.check {c : Prop} [Decidable c] {cause : Malformed} {next : β → Reader α} (ends : Ends reader spells) :
    Ends (if c then refuse cause >>= next else reader) fun a bytes => ¬ c ∧ spells a bytes := by
  intro input a
  split
  · next refused =>
    constructor
    · rintro ⟨_, ran⟩
      cases ran
    · rintro ⟨accepted, -⟩
      exact (accepted refused).elim
  · next accepted =>
    rw [ends input a]
    exact ⟨fun spelled => ⟨accepted, spelled⟩, And.right⟩

theorem Ends.of_pure (a : α) : Ends (pure a) fun a' _ => a' = a := by
  intro input a'
  constructor
  · rintro ⟨_, ran⟩
    cases ran
    rfl
  · rintro rfl
    exact ⟨input, rfl⟩

theorem Ends.checkRest {next : Reader α} {spells : α → Prop} {cause : Input → Malformed}
    {onwards : β → Reader α} (ends : Ends next fun a _ => spells a) : Ends (get >>= fun input =>
        if input.rest.length ≠ 0 then refuse (cause input) >>= onwards else next)
      fun a bytes => bytes = [] ∧ spells a := by
  intro input a
  have checked : Ends (if input.rest.length ≠ 0 then refuse (cause input) >>= onwards else next) _ :=
    ends.check
  refine (checked input a).trans (and_congr_left' ?_)
  rw [Decidable.not_not, length_eq_zero_iff]

/-! ## Fields -/

theorem takes_take (n : Nat) : Takes (take n) fun taken bytes => taken = bytes ∧ bytes.length = n := by
  intro input taken input'
  obtain ⟨offset, rest⟩ := input
  obtain ⟨offset', rest'⟩ := input'
  simp only [StateT.run, take]
  constructor
  · intro ran
    split at ran
    · next long =>
      cases ran
      exact ⟨_, ⟨rfl, long⟩, (take_append_drop n rest).symm, by rw [long]⟩
    · cases ran
  · rintro ⟨bytes, ⟨rfl, rfl⟩, rfl, rfl⟩
    simp

theorem takes_number (width : Nat) :
    Takes (number width) fun n bytes => n < 256 ^ width ∧ bytes = LittleEndian.encode width n := by
  refine ((takes_take width).bind fun taken => .of_pure _).congr fun n bytes => ?_
  constructor
  · rintro ⟨taken, front, _, ⟨rfl, rfl⟩, ⟨rfl, rfl⟩, rfl⟩
    exact ⟨decode_lt taken, by rw [encode_decode, append_nil]⟩
  · rintro ⟨small, rfl⟩
    refine ⟨_, _, [], ⟨rfl, LittleEndian.length_encode width n⟩, ⟨?_, rfl⟩, by simp⟩
    rw [decode_encode, Nat.mod_eq_of_lt small]

theorem takes_byte : Takes byte fun b bytes => bytes = [b] := by
  refine (takes_number 1).map.congr fun b bytes => ?_
  constructor
  · rintro ⟨n, ⟨-, rfl⟩, rfl⟩
    rfl
  · rintro rfl
    exact ⟨b.toNat, ⟨b.toNat_lt, by simp [LittleEndian.encode]⟩, by simp⟩

theorem takes_word32 : Takes word32 fun w bytes => bytes = LittleEndian.word32 w := by
  refine (takes_number 4).map.congr fun w bytes => ?_
  constructor
  · rintro ⟨n, ⟨small, rfl⟩, rfl⟩
    rw [LittleEndian.word32, UInt32.toNat_ofNat_of_lt' small]
  · rintro rfl
    exact ⟨w.toNat, ⟨w.toNat_lt, rfl⟩, by simp⟩

/-! ## Tables -/

/-- Items in a row are spelled by what spells each of them. -/
inductive SpellsAll (spells : α → List UInt8 → Prop) : List α → List UInt8 → Prop where
  | nil : SpellsAll spells [] []
  | cons {a : α} {items : List α} {front back : List UInt8} (first : spells a front)
      (others : SpellsAll spells items back) : SpellsAll spells (a :: items) (front ++ back)

variable {item : Reader α}

theorem takes_repeated (takes : Takes item spells) (n : Nat) (found : List α) :
    Takes (repeated item n found) fun all bytes => ∃ items, all = found.reverse ++ items ∧
      items.length = n ∧ SpellsAll spells items bytes := by
  induction n generalizing found with
  | zero =>
    refine (Takes.of_pure _).congr fun all bytes => ?_
    constructor
    · rintro ⟨rfl, rfl⟩
      exact ⟨[], by simp, rfl, .nil⟩
    · rintro ⟨items, rfl, none, spelled⟩
      cases length_eq_zero_iff.1 none
      cases spelled
      exact ⟨by simp, rfl⟩
  | succ n ih =>
    refine (takes.bind fun a => ih (a :: found)).congr fun all bytes => ?_
    constructor
    · rintro ⟨a, front, back, first, ⟨items, rfl, rfl, others⟩, rfl⟩
      exact ⟨a :: items, by simp, rfl, .cons first others⟩
    · rintro ⟨items, rfl, long, spelled⟩
      cases spelled with
      | nil => cases long
      | cons first others =>
        exact ⟨_, _, _, first, ⟨_, by simp, Nat.succ.inj long, others⟩, rfl⟩

theorem takes_table (takes : Takes item spells) :
    Takes (table item) fun items bytes => items.length < 2 ^ 32 ∧ ∃ back, SpellsAll spells items back ∧
        bytes = LittleEndian.encode 4 items.length ++ back := by
  refine ((takes_number 4).bind fun n => takes_repeated takes n []).congr fun items bytes => ?_
  constructor
  · rintro ⟨n, _, back, ⟨small, rfl⟩, ⟨items, rfl, rfl, spelled⟩, rfl⟩
    exact ⟨small, back, spelled, rfl⟩
  · rintro ⟨small, back, spelled, rfl⟩
    exact ⟨_, _, back, ⟨small, rfl⟩, ⟨items, rfl, rfl, spelled⟩, rfl⟩

theorem encode_sizes (small : n < 256 ^ 4) :
    LittleEndian.encode 4 n = LittleEndian.word16 (UInt16.ofNat n) ++
      word16 (UInt16.ofNat (n / 2 ^ 16)) := by
  have high : n / 2 ^ 16 < 2 ^ 16 := by omega
  rw [encode_add 2 2 n, word16, word16,
    UInt16.toNat_ofNat', UInt16.toNat_ofNat_of_lt' high]
  exact congrArg (· ++ _) (encode_mod 2 n).symm

theorem exists_sizes (localReserve stackArgs : UInt16) :
    ∃ n, n < 256 ^ 4 ∧ UInt16.ofNat n = localReserve ∧ UInt16.ofNat (n / 2 ^ 16) = stackArgs := by
  have low := localReserve.toNat_lt
  have high := stackArgs.toNat_lt
  refine ⟨localReserve.toNat + 2 ^ 16 * stackArgs.toNat, by omega, ?_, ?_⟩
  · apply UInt16.toNat.inj
    rw [UInt16.toNat_ofNat']
    omega
  · have upper : (localReserve.toNat + 2 ^ 16 * stackArgs.toNat) / 2 ^ 16 = stackArgs.toNat := by
      omega
    rw [upper, UInt16.ofNat_toNat]

theorem takes_code : Takes (do
      let sizes ← number 4
      let code ← take (← number 4)
      return FunctionEntry.bytecode (UInt16.ofNat sizes) (UInt16.ofNat (sizes / 2 ^ 16)) code)
    fun f bytes => f.flags.toNat = 0 ∧ encodeFunction f = .ok (LittleEndian.encode 4 0 ++ bytes) := by
  refine ((takes_number 4).bind fun sizes => (takes_number 4).bind fun size =>
    (takes_take size).bind fun code => .of_pure _).congr fun f bytes => ?_
  constructor
  · rintro ⟨sizes, _, _, ⟨small, rfl⟩,
      ⟨size, _, _, ⟨smallSize, rfl⟩, ⟨code, _, _, ⟨rfl, rfl⟩, ⟨rfl, rfl⟩, rfl⟩, rfl⟩, rfl⟩
    refine ⟨rfl, encodeFunction_bytecode.2 ⟨smallSize, ?_⟩⟩
    simp [encode_sizes small, LittleEndian.word32]
  · rintro ⟨flags, written⟩
    cases f with
    | native library symbol => cases flags
    | bytecode localReserve stackArgs code =>
      obtain ⟨small, same⟩ := encodeFunction_bytecode.1 written
      obtain ⟨sizes, smallSizes, rfl, rfl⟩ := exists_sizes localReserve stackArgs
      refine ⟨sizes, _, _, ⟨smallSizes, rfl⟩, ⟨code.length, _, _, ⟨small, rfl⟩,
        ⟨code, code, [], ⟨rfl, rfl⟩, ⟨rfl, rfl⟩, rfl⟩, rfl⟩, ?_⟩
      rw [LittleEndian.word32, append_assoc, append_assoc, append_assoc] at same
      rw [append_cancel_left same, encode_sizes smallSizes]
      simp

theorem takes_native : Takes (do
      let library ← word32
      return FunctionEntry.native library (← word32))
    fun f bytes => f.flags.toNat = 1 ∧ encodeFunction f = .ok (LittleEndian.encode 4 1 ++ bytes) := by
  refine (takes_word32.bind fun library => takes_word32.bind fun symbol => .of_pure _).congr
    fun f bytes => ?_
  constructor
  · rintro ⟨library, _, _, rfl, ⟨symbol, _, _, rfl, ⟨rfl, rfl⟩, rfl⟩, rfl⟩
    refine ⟨rfl, ?_⟩
    simp [encodeFunction, FunctionEntry.flags, FunctionEntry.isNative, LittleEndian.word32]
  · rintro ⟨flags, written⟩
    cases f with
    | bytecode localReserve stackArgs code => cases flags
    | native library symbol =>
      refine ⟨library, _, _, rfl, ⟨symbol, _, [], rfl, ⟨rfl, rfl⟩, rfl⟩, ?_⟩
      have same := Except.ok.inj written
      rw [LittleEndian.word32, append_assoc] at same
      rw [← append_cancel_left same, append_nil]

theorem takes_function : Takes function fun f bytes => encodeFunction f = .ok bytes := by
  refine ((takes_number 4).bind fun n => (?_ : Takes _ fun f bytes =>
    f.flags.toNat = n ∧ encodeFunction f = .ok (LittleEndian.encode 4 n ++ bytes))).congr
      fun f bytes => ?_
  · match n with
    | 0 => exact takes_code
    | 1 => exact takes_native
    | n + 2 =>
      refine (Takes.of_refuse _).congr fun f bytes => ?_
      constructor
      · exact False.elim
      · rintro ⟨flags, -⟩
        cases f <;> cases flags
  · constructor
    · rintro ⟨n, _, back, ⟨-, rfl⟩, ⟨-, written⟩, rfl⟩
      exact written
    · intro written
      obtain ⟨back, rfl⟩ := encodeFunction_flags written
      exact ⟨_, _, back, ⟨f.flags.toNat_lt, rfl⟩, ⟨rfl, written⟩, rfl⟩

/-- The bits of a `Byte` fit in one byte. -/
def FitsTag (g : GlobalEntry) : Prop :=
  g.primitive = .byte → g.bits ≤ 255

theorem spells_bits {p : Primitive} {g : GlobalEntry} : (∃ n front back, (n < 256 ^ (if p = .byte then 1 else 8) ∧
        front = LittleEndian.encode (if p = .byte then 1 else 8) n) ∧
        (g = ⟨p, UInt64.ofNat n⟩ ∧ back = []) ∧ bytes = front ++ back) ↔
      g.primitive = p ∧ FitsTag g ∧ bytes = (encodeGlobal g).tail := by
  have size : g.bits.toNat < 2 ^ 64 := g.bits.toNat_lt
  by_cases isByte : p = .byte
  · subst isByte
    constructor
    · rintro ⟨n, _, _, ⟨small, rfl⟩, ⟨rfl, rfl⟩, rfl⟩
      have small : n < 256 := small
      have value : (UInt64.ofNat n).toNat = n := UInt64.toNat_ofNat_of_lt' (Nat.lt_trans small (by decide))
      refine ⟨rfl, fun _ => UInt64.le_iff_toNat_le.2 ?_, ?_⟩
      · rw [value]
        exact Nat.le_of_lt_succ small
      · simp [encodeGlobal, LittleEndian.encode]
    · rintro ⟨kind, fits, rfl⟩
      have small : g.bits.toNat ≤ 255 := UInt64.le_iff_toNat_le.1 (fits kind)
      refine ⟨g.bits.toNat, _, [], ⟨Nat.lt_succ_of_le small, rfl⟩, ⟨?_, rfl⟩, ?_⟩
      · rw [← kind, UInt64.ofNat_toNat]
      · rw [encodeGlobal, if_pos kind]
        rfl
  · simp only [if_neg isByte]
    constructor
    · rintro ⟨n, _, _, ⟨small, rfl⟩, ⟨rfl, rfl⟩, rfl⟩
      refine ⟨rfl, fun kind => (isByte kind).elim, ?_⟩
      rw [encodeGlobal, if_neg isByte, tail_cons, LittleEndian.word64,
        UInt64.toNat_ofNat_of_lt' small, append_nil]
    · rintro ⟨kind, fits, rfl⟩
      refine ⟨g.bits.toNat, _, [], ⟨size, rfl⟩, ⟨?_, rfl⟩, ?_⟩
      · rw [← kind, UInt64.ofNat_toNat]
      · rw [encodeGlobal, if_neg (kind ▸ isByte), tail_cons, LittleEndian.word64, append_nil]

theorem takes_global : Takes global fun g bytes => FitsTag g ∧ bytes = encodeGlobal g := by
  refine (takes_byte.bind fun tag => (?_ : Takes _ fun g bytes =>
    g.primitive.tag = tag ∧ FitsTag g ∧ tag :: bytes = encodeGlobal g)).congr fun g bytes => ?_
  · split
    · next unknown =>
      refine (Takes.of_refuse _).congr fun g bytes => ?_
      constructor
      · exact False.elim
      · rintro ⟨named, -⟩
        rw [Primitive.ofTag?_eq_some.2 named] at unknown
        cases unknown
    · next p known =>
      rw [Primitive.ofTag?_eq_some] at known
      subst known
      refine ((takes_number _).bind fun n => .of_pure _).congr fun g bytes => ?_
      rw [spells_bits]
      constructor
      · rintro ⟨rfl, fits, rfl⟩
        exact ⟨rfl, fits, rfl⟩
      · rintro ⟨named, fits, same⟩
        have kind : g.primitive = p := Option.some.inj
          ((Primitive.ofTag?_eq_some.2 named).symm.trans (Primitive.ofTag?_eq_some.2 rfl))
        exact ⟨kind, fits, (cons.inj same).2⟩
  · constructor
    · rintro ⟨tag, _, back, rfl, ⟨-, fits, same⟩, rfl⟩
      exact ⟨fits, same⟩
    · rintro ⟨fits, rfl⟩
      exact ⟨g.primitive.tag, _, _, rfl, ⟨rfl, fits, rfl⟩, rfl⟩

theorem takes_string : Takes string fun s bytes => encodeString s = .ok bytes := by
  refine ((takes_number 2).bind fun n => takes_take n).congr fun s bytes => ?_
  rw [encodeString_eq_ok]
  constructor
  · rintro ⟨n, _, _, ⟨small, rfl⟩, ⟨rfl, rfl⟩, rfl⟩
    exact ⟨small, rfl⟩
  · rintro ⟨small, rfl⟩
    exact ⟨_, _, s, ⟨small, rfl⟩, ⟨rfl, rfl⟩, rfl⟩

end Reader

/-! ## Whole files -/

theorem nativeWithoutName?_eq_none {functions : List FunctionEntry} {strings : Nat} :
    nativeWithoutName? functions strings = none ↔ ∀ library symbol,
      .native library symbol ∈ functions → library.toNat < strings ∧ symbol.toNat < strings := by
  rw [nativeWithoutName?, findIdx?_eq_none_iff]
  constructor
  · intro each library symbol member
    have named := each _ member
    simp only [Bool.or_eq_false_iff, decide_eq_false_iff_not, Nat.not_le] at named
    exact named
  · intro each f member
    cases f with
    | bytecode localReserve stackArgs code => rfl
    | native library symbol =>
      obtain ⟨left, right⟩ := each library symbol member
      simp [left, right]

/-- What a file refers to is there: the function that an executable starts with, and the names of native
functions. -/
structure Complete (f : Codefile) : Prop where
  entry : f.fileType = .executable → f.entry.toNat < f.functions.length
  names : ∀ library symbol, .native library symbol ∈ f.functions →
    library.toNat < f.strings.length ∧ symbol.toNat < f.strings.length

/-- What a file has to keep to so that it can be loaded. -/
structure Loadable (f : Codefile) : Prop extends Complete f where
  version : f.major = versionMajor

/-- What spells the tables of a file. -/
def SpellsTables (f : Codefile) (bytes : List UInt8) : Prop :=
  ∃ functions globals strings,
    (f.functions.length < 2 ^ 32 ∧ ∃ back,
      Reader.SpellsAll (fun f bytes => encodeFunction f = .ok bytes) f.functions back ∧
        functions = LittleEndian.encode 4 f.functions.length ++ back) ∧
    (f.globals.length < 2 ^ 32 ∧ ∃ back,
      Reader.SpellsAll (fun g bytes => Reader.FitsTag g ∧ bytes = encodeGlobal g) f.globals back ∧
        globals = LittleEndian.encode 4 f.globals.length ++ back) ∧
    (f.strings.length < 2 ^ 32 ∧ ∃ back,
      Reader.SpellsAll (fun s bytes => encodeString s = .ok bytes) f.strings back ∧
        strings = LittleEndian.encode 4 f.strings.length ++ back) ∧
    bytes = functions ++ globals ++ strings

theorem ends_checks (f : Codefile) : Reader.Ends (do
      let left := (← get).rest.length
      if left ≠ 0 then Reader.refuse (.trailing left)
      if f.fileType = .executable && f.functions.length ≤ f.entry.toNat then
        Reader.refuse (.entryOutside f.entry f.functions.length)
      if let some index := nativeWithoutName? f.functions f.strings.length then
        Reader.refuse (.namesMissingString index)
      return f)
    fun f' bytes => bytes = [] ∧
      ¬ (f.fileType = .executable && f.functions.length ≤ f.entry.toNat) = true ∧
      nativeWithoutName? f.functions f.strings.length = none ∧ f' = f := by
  refine Reader.Ends.checkRest (Reader.Ends.check ?_)
  cases nativeWithoutName? f.functions f.strings.length with
  | none => exact (Reader.Ends.of_pure f).congr fun f' _ => ⟨fun same => ⟨rfl, same⟩, And.right⟩
  | some index =>
    intro input f'
    constructor
    · rintro ⟨_, ran⟩
      cases ran
    · rintro ⟨impossible, -⟩
      cases impossible

theorem complete_iff : f.Complete ↔ ¬ (f.fileType = .executable && f.functions.length ≤ f.entry.toNat) = true ∧
      nativeWithoutName? f.functions f.strings.length = none := by
  rw [nativeWithoutName?_eq_none]
  simp only [Bool.and_eq_true, decide_eq_true_eq, not_and, Nat.not_le]
  exact ⟨fun ⟨entry, names⟩ => ⟨entry, names⟩, fun ⟨entry, names⟩ => ⟨entry, names⟩⟩

theorem ends_tables (fileType : FileType) (major minor : UInt8) (entry : UInt32) : Reader.Ends (do
      let functions ← Reader.table Reader.function
      let globals ← Reader.table Reader.global
      let strings ← Reader.table Reader.string
      let left := (← get).rest.length
      if left ≠ 0 then Reader.refuse (.trailing left)
      if fileType = .executable && functions.length ≤ entry.toNat then
        Reader.refuse (.entryOutside entry functions.length)
      if let some index := nativeWithoutName? functions strings.length then
        Reader.refuse (.namesMissingString index)
      return Codefile.mk fileType major minor entry functions globals strings)
    fun f bytes => f.fileType = fileType ∧ f.major = major ∧ f.minor = minor ∧ f.entry = entry ∧
      f.Complete ∧ f.SpellsTables bytes := by
  refine Reader.Ends.congr (Reader.Ends.bind (Reader.takes_table Reader.takes_function) fun functions =>
    Reader.Ends.bind (Reader.takes_table Reader.takes_global) fun globals =>
      Reader.Ends.bind (Reader.takes_table Reader.takes_string) fun strings =>
        ends_checks ⟨fileType, major, minor, entry, functions, globals, strings⟩) fun f bytes => ?_
  constructor
  · rintro ⟨functions, front, _, tableF, ⟨globals, front', _, tableG, ⟨strings, front'', _, tableS,
      ⟨rfl, entered, named, rfl⟩, rfl⟩, rfl⟩, rfl⟩
    exact ⟨rfl, rfl, rfl, rfl, complete_iff.2 ⟨entered, named⟩, front, front', front'', tableF, tableG,
      tableS, by simp⟩
  · rintro ⟨rfl, rfl, rfl, rfl, complete, functions, globals, strings, tableF, tableG, tableS, rfl⟩
    obtain ⟨entered, named⟩ := complete_iff.1 complete
    exact ⟨f.functions, functions, _, tableF, ⟨f.globals, globals, _, tableG, ⟨f.strings, strings, [],
      tableS, ⟨rfl, entered, named, rfl⟩, rfl⟩, rfl⟩, by simp⟩

theorem ends_body : Reader.Ends body fun f bytes => f.Loadable ∧ ∃ tables, f.SpellsTables tables ∧
    bytes = [f.fileType.byte, f.major, f.minor] ++ word32 f.entry ++ tables := by
  refine Reader.Ends.congr (Reader.Ends.bind Reader.takes_byte fun typeByte =>
    (?_ : Reader.Ends _ fun f bytes => f.fileType.byte = typeByte ∧ f.Loadable ∧
      ∃ tables, f.SpellsTables tables ∧
        bytes = [f.major, f.minor] ++ word32 f.entry ++ tables)) fun f bytes => ?_
  · split
    · next fileType known =>
      refine Reader.Ends.congr (Reader.Ends.bind Reader.takes_byte fun major =>
        Reader.Ends.bind Reader.takes_byte fun minor => Reader.Ends.check
          (Reader.Ends.bind Reader.takes_word32 (ends_tables fileType major minor))) fun f bytes => ?_
      rw [FileType.ofByte?_eq_some] at known
      constructor
      · rintro ⟨_, _, _, rfl, ⟨_, _, _, rfl, ⟨version, ⟨_, _, tables, rfl,
          ⟨rfl, rfl, rfl, rfl, complete, spelled⟩, rfl⟩⟩, rfl⟩, rfl⟩
        exact ⟨known, ⟨complete, Decidable.not_not.1 version⟩, tables, spelled, by simp⟩
      · rintro ⟨known', loadable, tables, spelled, rfl⟩
        have kind : f.fileType = fileType := Option.some.inj
          ((FileType.ofByte?_eq_some.2 known').symm.trans (FileType.ofByte?_eq_some.2 known))
        exact ⟨f.major, _, _, rfl, ⟨f.minor, _, _, rfl, ⟨Decidable.not_not.2 loadable.version,
          ⟨f.entry, _, tables, rfl, ⟨kind, rfl, rfl, rfl, loadable.toComplete, spelled⟩, rfl⟩⟩, rfl⟩,
          by simp⟩
    · next unknown =>
      intro input f
      constructor
      · rintro ⟨_, ran⟩
        cases ran
      · rintro ⟨known, -⟩
        exact (unknown _ (FileType.ofByte?_eq_some.2 known)).elim
  · constructor
    · rintro ⟨_, _, _, rfl, ⟨rfl, loadable, tables, spelled, rfl⟩, rfl⟩
      exact ⟨loadable, tables, spelled, by simp⟩
    · rintro ⟨loadable, tables, spelled, rfl⟩
      exact ⟨f.fileType.byte, _, _, rfl, ⟨rfl, loadable, tables, spelled, rfl⟩, by simp⟩

variable {α : Type}

/-! ## What is written for a file -/

theorem spellsAll_mapM {write : α → Except WriteError (List UInt8)} {items : List α} :
    Reader.SpellsAll (fun a bytes => write a = .ok bytes) items bytes ↔
      ∃ pieces, items.mapM write = .ok pieces ∧ bytes = pieces.flatten := by
  induction items generalizing bytes with
  | nil =>
    constructor
    · rintro ⟨⟩
      exact ⟨[], rfl, rfl⟩
    · rintro ⟨pieces, mapped, rfl⟩
      cases mapped
      exact .nil
  | cons a items ih =>
    simp only [mapM_cons, bind_eq_ok]
    constructor
    · rintro (_ | ⟨first, others⟩)
      obtain ⟨pieces, mapped, rfl⟩ := ih.1 others
      exact ⟨_ :: pieces, ⟨_, first, _, mapped, rfl⟩, rfl⟩
    · rintro ⟨_, ⟨front, first, pieces, mapped, ⟨⟩⟩, rfl⟩
      exact .cons first (ih.2 ⟨pieces, mapped, rfl⟩)

theorem spellsAll_flatMap {fits : α → Prop} {write : α → List UInt8} {items : List α} :
    Reader.SpellsAll (fun a bytes => fits a ∧ bytes = write a) items bytes ↔
      (∀ a ∈ items, fits a) ∧ bytes = items.flatMap write := by
  induction items generalizing bytes with
  | nil =>
    constructor
    · rintro ⟨⟩
      exact ⟨by simp, rfl⟩
    · rintro ⟨-, rfl⟩
      exact .nil
  | cons a items ih =>
    rw [forall_mem_cons]
    constructor
    · rintro (_ | ⟨⟨fits, rfl⟩, others⟩)
      obtain ⟨all, rfl⟩ := ih.1 others
      exact ⟨⟨fits, all⟩, rfl⟩
    · rintro ⟨⟨fits, all⟩, rfl⟩
      exact .cons ⟨fits, rfl⟩ (ih.2 ⟨all, rfl⟩)

theorem encodeTables_eq_ok : f.encodeTables = .ok tables ↔ f.functions.length < 2 ^ 32 ∧ f.globals.length < 2 ^ 32 ∧
      f.strings.length < 2 ^ 32 ∧ ∃ functions strings, f.functions.mapM encodeFunction = .ok functions ∧
        f.strings.mapM encodeString = .ok strings ∧
        tables = LittleEndian.encode 4 f.functions.length ++ functions.flatten ++
          LittleEndian.encode 4 f.globals.length ++ f.globals.flatMap encodeGlobal ++
          LittleEndian.encode 4 f.strings.length ++ strings.flatten := by
  simp only [encodeTables, bind_eq_ok, encodeCount_eq_ok]
  constructor
  · rintro ⟨_, ⟨few, rfl⟩, functions, mapped, _, ⟨few', rfl⟩, _, ⟨few'', rfl⟩, strings, mapped', ⟨⟩⟩
    exact ⟨few, few', few'', functions, strings, mapped, mapped', rfl⟩
  · rintro ⟨few, few', few'', functions, strings, mapped, mapped', rfl⟩
    exact ⟨_, ⟨few, rfl⟩, functions, mapped, _, ⟨few', rfl⟩, _, ⟨few'', rfl⟩, strings, mapped', rfl⟩

theorem spellsTables_iff :
    f.SpellsTables tables ↔ (∀ g ∈ f.globals, Reader.FitsTag g) ∧ f.encodeTables = .ok tables := by
  simp only [SpellsTables, spellsAll_mapM, spellsAll_flatMap, encodeTables_eq_ok]
  constructor
  · rintro ⟨_, _, _, ⟨few, _, ⟨functions, mapped, rfl⟩, rfl⟩, ⟨few', _, ⟨fits, rfl⟩, rfl⟩,
      ⟨few'', _, ⟨strings, mapped', rfl⟩, rfl⟩, rfl⟩
    exact ⟨fits, few, few', few'', functions, strings, mapped, mapped', by simp⟩
  · rintro ⟨fits, few, few', few'', functions, strings, mapped, mapped', rfl⟩
    exact ⟨_, _, _, ⟨few, _, ⟨functions, mapped, rfl⟩, rfl⟩, ⟨few', _, ⟨fits, rfl⟩, rfl⟩,
      ⟨few'', _, ⟨strings, mapped', rfl⟩, rfl⟩, by simp⟩

theorem encode_eq_ok : f.encode = .ok bytes ↔ ∃ tables, f.encodeTables = .ok tables ∧
      bytes = f.encodeHeader (headerSize + tables.length) ++ tables := by
  rw [encode, bind_eq_ok]
  constructor
  · rintro ⟨tables, written, ⟨⟩⟩
    exact ⟨tables, written, rfl⟩
  · rintro ⟨tables, written, rfl⟩
    exact ⟨tables, written, rfl⟩

theorem length_encodeHeader (f : Codefile) (size : Nat) : (f.encodeHeader size).length = headerSize := by
  simp [encodeHeader, signature, headerSize, word32]

theorem map_eq_ok {ε β : Type} {x : Except ε α} {g : α → β} {b : β} :
    x.map g = .ok b ↔ ∃ a, x = .ok a ∧ g a = b := by
  cases x <;> simp [Except.map]

theorem encodeHeader_eq (f : Codefile) (size : Nat) (tables : List UInt8) :
    f.encodeHeader size ++ tables = signature ++ (LittleEndian.encode 8 size ++
      ([f.fileType.byte, f.major, f.minor] ++ LittleEndian.word32 f.entry ++ tables)) := by
  simp [encodeHeader]

theorem decode_eq_ok : decode bytes = .ok f ↔ f.Loadable ∧ (∀ g ∈ f.globals, Reader.FitsTag g) ∧
      bytes.length < 2 ^ 64 ∧ f.encode = .ok bytes := by
  rw [encode_eq_ok]
  constructor
  · intro read
    rw [decode] at read
    split at read
    · cases read
    next long =>
    split at read
    · cases read
    next signed =>
    dsimp only at read
    split at read
    · cases read
    next declared =>
    obtain ⟨⟨f', input'⟩, ran, rfl⟩ := map_eq_ok.1 read
    obtain ⟨loadable, tables, spelled, rest⟩ := (ends_body _ _).1 ⟨input', ran⟩
    obtain ⟨fits, written⟩ := spellsTables_iff.1 spelled
    have eight : ((bytes.drop 8).take 8).length = 8 := by
      rw [length_take, length_drop]
      simp only [headerSize] at long
      omega
    have sized := encode_decode ((bytes.drop 8).take 8)
    have small := decode_lt ((bytes.drop 8).take 8)
    rw [eight, Decidable.not_not.1 declared] at sized small
    have whole : bytes = f'.encodeHeader bytes.length ++ tables := by
      have back : bytes.drop 16 = (bytes.drop 8).drop 8 := by rw [drop_drop]
      rw [encodeHeader_eq, ← rest, sized, ← Decidable.not_not.1 signed, back, take_append_drop,
        take_append_drop]
    have size := congrArg length whole
    rw [length_append, length_encodeHeader] at size
    exact ⟨loadable, fits, small, tables, written, size ▸ whole⟩
  · rintro ⟨loadable, fits, small, tables, written, rfl⟩
    have size : (f.encodeHeader (headerSize + tables.length) ++ tables).length =
        headerSize + tables.length := by
      rw [length_append, length_encodeHeader]
    rw [size] at small
    obtain ⟨input', ran⟩ := (ends_body ⟨16, [f.fileType.byte, f.major, f.minor] ++
      word32 f.entry ++ tables⟩ f).2 ⟨loadable, tables, spellsTables_iff.2 ⟨fits, written⟩, rfl⟩
    have signed : signature.length = 8 := rfl
    have eight := length_encode 8 (headerSize + tables.length)
    have declared : LittleEndian.decode (LittleEndian.encode 8 (headerSize + tables.length)) =
        headerSize + tables.length := by
      rw [decode_encode]
      exact Nat.mod_eq_of_lt small
    have back {front mid rest : List UInt8} (long : front.length = 8) (long' : mid.length = 8) :
        (front ++ (mid ++ rest)).drop 16 = rest := by
      rw [← append_assoc]
      exact drop_left' (by rw [length_append, long, long'])
    rw [decode, size, if_neg (Nat.not_lt.2 (Nat.le_add_right _ _)), encodeHeader_eq,
      take_left' signed, if_neg (not_not_intro rfl), drop_left' signed,
      take_left' eight, back signed eight]
    rw [declared, if_neg (not_not_intro rfl), ran]
    rfl

variable {g : Codefile}

/-! ## Reading back -/

theorem spellsTables_unique (spelled : f.SpellsTables bytes) (spelled' : g.SpellsTables bytes) :
    f.functions = g.functions ∧ f.globals = g.globals ∧ f.strings = g.strings := by
  obtain ⟨_, _, _, functions, globals, strings, rfl⟩ := spelled
  obtain ⟨_, _, _, functions', globals', strings', same⟩ := spelled'
  rw [append_assoc, append_assoc] at same
  obtain ⟨sameFunctions, same⟩ :=
    (Reader.takes_table Reader.takes_function).unique functions functions' same
  obtain ⟨sameGlobals, same⟩ := (Reader.takes_table Reader.takes_global).unique globals globals' same
  obtain ⟨sameStrings, -⟩ := (Reader.takes_table Reader.takes_string).unique strings strings'
    (congrArg (· ++ []) same)
  exact ⟨sameFunctions, sameGlobals, sameStrings⟩

/-- A global with the bits that are written for it. -/
def storedGlobal (g : GlobalEntry) : GlobalEntry :=
  if g.primitive = .byte then { g with bits := g.bits.toUInt8.toUInt64 } else g

/-- A file with the bits that are written for its globals. -/
def stored (f : Codefile) : Codefile :=
  { f with globals := f.globals.map storedGlobal }

theorem fitsTag_storedGlobal (g : GlobalEntry) : Reader.FitsTag (storedGlobal g) := by
  intro kind
  rw [storedGlobal] at kind ⊢
  split
  · rw [UInt64.le_iff_toNat_le, UInt8.toNat_toUInt64]
    exact Nat.le_of_lt_succ g.bits.toUInt8.toNat_lt
  · next other =>
    rw [if_neg other] at kind
    exact (other kind).elim

theorem encodeGlobal_storedGlobal (g : GlobalEntry) : encodeGlobal (storedGlobal g) = encodeGlobal g := by
  rw [storedGlobal]
  split
  · next kind => simp only [encodeGlobal, kind, if_true, UInt8.toUInt8_toUInt64]
  · rfl

theorem encodeTables_stored (f : Codefile) : f.stored.encodeTables = f.encodeTables := by
  simp only [encodeTables, stored, length_map, flatMap_map, encodeGlobal_storedGlobal]

theorem encodeHeader_inj {m : Nat} {tables' : List UInt8}
    (same : f.encodeHeader n ++ tables = g.encodeHeader m ++ tables') :
    f.fileType = g.fileType ∧ f.major = g.major ∧ f.minor = g.minor ∧ f.entry = g.entry ∧ tables = tables' := by
  rw [encodeHeader_eq, encodeHeader_eq] at same
  have same := (append_inj (append_cancel_left same) (by simp)).2
  obtain ⟨same, tables⟩ := append_inj same (by simp [word32])
  obtain ⟨fields, entry⟩ := append_inj same rfl
  simp only [cons.injEq, and_true] at fields
  obtain ⟨kind, major, minor⟩ := fields
  refine ⟨?_, major, minor, ?_, tables⟩
  · exact Option.some.inj ((FileType.ofByte?_eq_some.2 kind).symm.trans (FileType.ofByte?_eq_some.2 rfl))
  · have value := congrArg LittleEndian.decode entry
    rw [LittleEndian.decode_word32, LittleEndian.decode_word32] at value
    exact UInt32.toNat.inj value

/-- What is read from a written file is the file with the bits that were written. -/
theorem eq_stored_of_decode (written : f.encode = .ok bytes) (read : decode bytes = .ok g) :
    g = f.stored := by
  obtain ⟨-, fits, -, written'⟩ := decode_eq_ok.1 read
  obtain ⟨tables, made, rfl⟩ := encode_eq_ok.1 written
  obtain ⟨tables', made', same⟩ := encode_eq_ok.1 written'
  obtain ⟨kind, major, minor, entry, rfl⟩ := encodeHeader_inj same
  have spelled : f.stored.SpellsTables tables := by
    refine spellsTables_iff.2 ⟨?_, encodeTables_stored f ▸ made⟩
    intro g member
    obtain ⟨g', -, rfl⟩ := mem_map.1 member
    exact fitsTag_storedGlobal g'
  obtain ⟨functions, globals, strings⟩ :=
    spellsTables_unique (spellsTables_iff.2 ⟨fits, made'⟩) spelled
  obtain ⟨_, _, _, _, _, _, _⟩ := g
  subst kind major minor entry functions globals strings
  rfl

/-- What a file has to keep to so that its parts fit in their fields. -/
structure Fits (f : Codefile) : Prop where
  functions : f.functions.length < 2 ^ 32
  globals : f.globals.length < 2 ^ 32
  strings : f.strings.length < 2 ^ 32
  code : ∀ localReserve stackArgs code, .bytecode localReserve stackArgs code ∈ f.functions → code.length < 2 ^ 32
  bits : ∀ g ∈ f.globals, g.primitive = .byte → g.bits ≤ 255
  texts : ∀ s ∈ f.strings, s.length ≤ 65535

theorem exists_mapM {ε β : Type} {g : α → Except ε β} {as : List α}
    (each : ∀ a ∈ as, ∃ b, g a = .ok b) : ∃ bs, as.mapM g = .ok bs := by
  induction as with
  | nil => exact ⟨[], rfl⟩
  | cons a as ih =>
    obtain ⟨b, first⟩ := each a mem_cons_self
    obtain ⟨bs, others⟩ := ih fun a' member => each a' (mem_cons_of_mem a member)
    exact ⟨b :: bs, by rw [mapM_cons, first, others]; rfl⟩

theorem Fits.encode (fits : f.Fits) : ∃ bytes, f.encode = .ok bytes := by
  have functions : ∀ e ∈ f.functions, ∃ bytes, encodeFunction e = .ok bytes := by
    intro e member
    cases e with
    | native library symbol => exact ⟨_, rfl⟩
    | bytecode localReserve stackArgs code =>
      exact ⟨_, encodeFunction_bytecode.2 ⟨fits.code _ _ _ member, rfl⟩⟩
  have strings : ∀ s ∈ f.strings, ∃ bytes, encodeString s = .ok bytes := fun s member =>
    ⟨_, encodeString_eq_ok.2 ⟨Nat.lt_succ_of_le (fits.texts s member), rfl⟩⟩
  obtain ⟨pieces, mapped⟩ := exists_mapM functions
  obtain ⟨pieces', mapped'⟩ := exists_mapM strings
  exact ⟨_, encode_eq_ok.2 ⟨_, encodeTables_eq_ok.2 ⟨fits.functions, fits.globals, fits.strings, _, _,
    mapped, mapped', rfl⟩, rfl⟩⟩

theorem length_le_of_encode (written : f.encode = .ok bytes) : ∀ s ∈ f.strings, s.length ≤ 65535 := by
  intro s member
  obtain ⟨tables, made, -⟩ := encode_eq_ok.1 written
  obtain ⟨-, -, -, _, pieces, -, mapped, -⟩ := encodeTables_eq_ok.1 made
  obtain ⟨i, found⟩ := mem_iff_getElem?.1 member
  obtain ⟨piece, -, made⟩ := (mapM_eq_ok mapped).2 i s found
  exact Nat.le_of_lt_succ (encodeString_eq_ok.1 made).1

/-- A file that can be loaded and whose parts fit in their fields is written, and read back as it was; the
header has place for any length that a list of bytes can have in memory. A file that breaks a condition on
its version, its entry, the names of its native functions or the lengths of its strings is not written, or
what is written is refused. -/
theorem decode_encode_of_fits (f : Codefile) : (f.Loadable → f.Fits →
      ∃ bytes, f.encode = .ok bytes ∧ (bytes.length < 2 ^ 64 → decode bytes = .ok f)) ∧
    (¬ (f.Loadable ∧ ∀ s ∈ f.strings, s.length ≤ 65535) →
      ∀ bytes, f.encode = .ok bytes → ∃ e, decode bytes = .error e) := by
  constructor
  · intro loadable fits
    obtain ⟨bytes, written⟩ := fits.encode
    exact ⟨bytes, written, fun small => decode_eq_ok.2 ⟨loadable, fits.bits, small, written⟩⟩
  · intro broken bytes written
    cases read : decode bytes with
    | error e => exact ⟨e, rfl⟩
    | ok g =>
      obtain ⟨loadable, -⟩ := decode_eq_ok.1 read
      rw [eq_stored_of_decode written read] at loadable
      exact (broken ⟨⟨⟨loadable.entry, loadable.names⟩, loadable.version⟩, length_le_of_encode written⟩).elim

/-- An executable with a native function, a `Byte` and code is written and read back; the same file with
its entry past the functions is refused. -/
theorem decode_encode_of_fits_executable :
    let f : Codefile := ⟨.executable, 1, 7, 1, [.native 0 1, .bytecode 2 3 [0x08]], [⟨.byte, 255⟩,
      ⟨.float, 0xFFFFFFFFFFFFFFFF⟩], [[0x63], []]⟩
    (∃ bytes, f.encode = .ok bytes ∧ decode bytes = .ok f) ∧
      ∀ bytes, { f with entry := 2 }.encode = .ok bytes → ∃ e, decode bytes = .error e := by
  intro f
  have loadable : f.Loadable := by
    refine ⟨⟨fun _ => by decide, fun library symbol member => ?_⟩, rfl⟩
    have named : library = 0 ∧ symbol = 1 := by simpa [f] using member
    rw [named.1, named.2]
    decide
  have fits : f.Fits := by
    refine ⟨by decide, by decide, by decide, fun _ _ code member => ?_, by decide, by decide⟩
    have small : code = [0x08] := by
      simp only [f, List.mem_cons, reduceCtorEq, false_or, List.not_mem_nil, or_false,
        FunctionEntry.bytecode.injEq] at member
      exact member.2.2
    rw [small]
    decide
  obtain ⟨bytes, written, read⟩ := (decode_encode_of_fits f).1 loadable fits
  refine ⟨⟨bytes, written, read ?_⟩, (decode_encode_of_fits _).2 ?_⟩
  · cases (show f.encode = .ok _ from rfl).symm.trans written
    decide
  · rintro ⟨⟨⟨entry, -⟩, -⟩, -⟩
    exact absurd (entry rfl) (by decide)

/-- What is read is what would be written, byte for byte, so no two files spell the same codefile. -/
theorem encode_of_decode {bytes : List UInt8} {f : Codefile} (read : decode bytes = .ok f) :
    f.encode = .ok bytes ∧ ∀ bytes', decode bytes' = .ok f → bytes' = bytes := by
  obtain ⟨-, -, -, written⟩ := decode_eq_ok.1 read
  refine ⟨written, fun bytes' read' => ?_⟩
  obtain ⟨-, -, -, written'⟩ := decode_eq_ok.1 read'
  exact Except.ok.inj (written'.symm.trans written)

/-- A library whose minor version and entry are carried along, with a native function, code, a `Byte` and two texts. -/
theorem encode_of_decode_library :
    let bytes : List UInt8 := signature ++ [67, 0, 0, 0, 0, 0, 0, 0] ++ [1, 1, 9] ++ [5, 0, 0, 0] ++
      [2, 0, 0, 0] ++ [1, 0, 0, 0, 0, 0, 0, 0, 1, 0, 0, 0] ++ [0, 0, 0, 0, 2, 0, 3, 0, 1, 0, 0, 0, 8] ++
      [1, 0, 0, 0] ++ [2, 255] ++ [2, 0, 0, 0] ++ [1, 0, 99] ++ [0, 0]
    let f : Codefile := ⟨.library, 1, 9, 5, [.native 0 1, .bytecode 2 3 [8]], [⟨.byte, 255⟩], [[99], []]⟩
    decode bytes = .ok f ∧ f.encode = .ok bytes ∧ ∀ bytes', decode bytes' = .ok f → bytes' = bytes := by
  intro bytes f
  have read : decode bytes = .ok f := by decide +kernel
  exact ⟨read, encode_of_decode read⟩

end Codefile

end RegisterLang
