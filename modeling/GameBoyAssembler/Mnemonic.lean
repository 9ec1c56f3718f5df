import GameBoyAssembler.Cpu.Instruction

/-!
# Mnemonics

The mnemonics of the assembly language.  Those that share an operand grammar share a constructor.
-/

set_option relaxedAutoImplicit false
set_option autoImplicit false

namespace GameBoyAssembler

inductive Mnemonic where
  | arith (op : Arith)
  | inc
  | dec
  | bit (op : BitAction)
  | rotate (op : Rotate)
  | jp
  | jr
  | call
  | ret
  | rst
  | ld
  | ldh
  | ldi
  | ldd
  | push
  | pop
  /-- A mnemonic that takes no operand. -/
  | implied (op : Implied)
  deriving DecidableEq, Repr

namespace Mnemonic

/-- The mnemonics with their names. -/
def table : List (String × Mnemonic) := [
  ("ADD", .arith .add), ("ADC", .arith .adc), ("SUB", .arith .sub), ("SBC", .arith .sbc),
  ("AND", .arith .and), ("XOR", .arith .xor), ("OR", .arith .or), ("CP", .arith .cp),
  ("INC", .inc), ("DEC", .dec),
  ("BIT", .bit .bit), ("RES", .bit .res), ("SET", .bit .set),
  ("RLC", .rotate .rlc), ("RRC", .rotate .rrc), ("RL", .rotate .rl), ("RR", .rotate .rr),
  ("SLA", .rotate .sla), ("SRA", .rotate .sra), ("SWAP", .rotate .swap), ("SRL", .rotate .srl),
  ("RLCA", .implied .rlca), ("RRCA", .implied .rrca), ("RLA", .implied .rla),
  ("RRA", .implied .rra),
  ("JP", .jp), ("JR", .jr), ("CALL", .call), ("RET", .ret), ("RETI", .implied .reti),
  ("RST", .rst),
  ("LD", .ld), ("LDH", .ldh), ("LDI", .ldi), ("LDD", .ldd),
  ("PUSH", .push), ("POP", .pop),
  ("NOP", .implied .nop), ("HALT", .implied .halt), ("STOP", .implied .stop),
  ("DI", .implied .di), ("EI", .implied .ei), ("SCF", .implied .scf), ("CCF", .implied .ccf),
  ("CPL", .implied .cpl), ("DAA", .implied .daa)]

/-- Look a mnemonic up by name, in either letter case. -/
def ofName? (name : String) : Option Mnemonic :=
  (table.find? fun entry => sameLetters entry.1 name).map Prod.snd

end Mnemonic

end GameBoyAssembler
