import RegisterLang.Binary64.Text
import RegisterLang.Instruction

/-! # Instructions as text -/

namespace RegisterLang.Instruction

def operandText : Instruction → String
  | nop | ret | retVoid => ""
  | mov dst src | neg dst src | fneg dst src => s!"r{dst}, r{src}"
  | ldi4 dst value | ldi8 dst value => s!"r{dst}, {value}"
  | ldi16 dst value => s!"r{dst}, {value}"
  | ldi32 dst value => s!"r{dst}, {value}"
  | ldi64 dst value => s!"r{dst}, {value}"
  | ldf dst bits => s!"r{dst}, {Binary64.listingText bits}"
  | ldstr dst index => s!"r{dst}, str#{index}"
  | arith _ _ dst a b => s!"r{dst}, r{a}, r{b}"
  | arithImm8 _ dst src imm => s!"r{dst}, r{src}, {imm}"
  | arithImm16 _ dst src imm => s!"r{dst}, r{src}, {imm}"
  | inc reg | dec reg | testz reg | push reg | pop reg | arrayDestroy reg => s!"r{reg}"
  | compare _ a b => s!"r{a}, r{b}"
  | jump8 _ offset => s!"+{offset}"
  | jump16 _ offset => s!"+{offset}"
  | localGet reg slot | localSet reg slot => s!"r{reg}, [fp+{slot}]"
  | globalGet reg index | globalSet reg index => s!"r{reg}, g{index}"
  | call func => s!"fn#{func}"
  | call8 func => s!"fn#{func}"
  | retLocal slot => s!"[fp+{slot}]"
  | retGlobal index => s!"g{index}"
  | arrayNew dst len => s!"r{dst}, r{len}"
  | arrayGet dst array index => s!"r{dst}, r{array}[r{index}]"
  | arraySet array index value => s!"r{array}[r{index}], r{value}"

def text (i : Instruction) : String :=
  match i.operandText with
  | "" => i.opcode.mnemonic
  | operands => i.opcode.mnemonic ++ " " ++ operands

end RegisterLang.Instruction
