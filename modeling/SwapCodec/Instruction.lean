import SwapCodec.Instruction.Schemas

/-!
# Instructions

An instruction is an opcode with its arguments. `Opcode.schema` gives the arguments that an opcode
takes, and an `OpcodeSet` is a published table of opcodes: the place of an opcode in its table is
the byte that selects it, so a table only ever grows at its end.
-/

set_option autoImplicit false

namespace SwapCodec

/-- An opcode with its arguments. -/
structure Instruction where
  /-- The opcode. -/
  opcode : Opcode
  /-- The record of its arguments. -/
  args : Value

/-- The schema of the arguments of an opcode. -/
def Opcode.schema : Opcode → Schema
  | jump => .jump
  | jumpIfTokenIn | jumpIfTokenOut => .jumpIfToken
  | deadline => .deadline
  | onlyTakerTokenBalanceNonZero => .takerHolds
  | onlyTakerTokenBalanceGte => .takerHoldsAtLeast
  | salt => .salt
  | staticBalancesXD | dynamicBalancesXD => .balances
  | invalidateBit1D => .invalidateBit
  | invalidateTokenIn1D | invalidateTokenOut1D | xycSwapXD => .empty
  | limitSwap1D | limitSwapOnlyFull1D => .limitSwap
  | dutchAuctionBalanceIn1D | dutchAuctionBalanceOut1D => .dutchAuction
  | flatFeeAmountInXD | flatFeeAmountOutXD => .flatFee
  | transferIn | transferOut => .transfer
  | checkMakerTraits => .makerTraits
  | checkTakerTraits => .takerTraits

/-- The published tables. -/
inductive OpcodeSet where
  /-- The full table. -/
  | swapVm
  /-- The table without balances and invalidators. -/
  | aqua
  deriving DecidableEq, Repr

namespace OpcodeSet

/-- Every published table. -/
def all : List OpcodeSet := [swapVm, aqua]

/-- The name of a table. -/
def name : OpcodeSet → String
  | swapVm => "swap-vm"
  | aqua => "aqua"

/-- The table with a name. -/
def ofName? (name : String) : Option OpcodeSet :=
  all.find? fun set => set.name == name

/-- The opcodes that steer a program, which open every table. -/
def controls : List Opcode :=
  [.jump, .jumpIfTokenIn, .jumpIfTokenOut, .deadline, .onlyTakerTokenBalanceNonZero,
   .onlyTakerTokenBalanceGte, .salt]

/-- The opcodes that swap and transfer, which close every table. -/
def exchanges : List Opcode :=
  [.limitSwap1D, .limitSwapOnlyFull1D, .xycSwapXD, .dutchAuctionBalanceIn1D,
   .dutchAuctionBalanceOut1D, .flatFeeAmountInXD, .flatFeeAmountOutXD, .transferIn, .transferOut,
   .checkMakerTraits, .checkTakerTraits]

/-- The opcodes of a table, in order. -/
def opcodes : OpcodeSet → List Opcode
  | swapVm =>
    controls ++ [.staticBalancesXD, .dynamicBalancesXD, .invalidateBit1D, .invalidateTokenIn1D,
      .invalidateTokenOut1D] ++ exchanges
  | aqua => controls ++ exchanges

end OpcodeSet

end SwapCodec
