/-!
# Opcodes

The identity of every instruction. An opcode has a dotted name, made of its family and its
instruction name, and a name in capitals; `Opcode.ofName?` finds it by any of the three. The byte
that selects an instruction is no part of its identity: a registry assigns it.
-/

set_option autoImplicit false

namespace SwapCodec

/-- The identity of an instruction. -/
inductive Opcode where
  | jump
  | jumpIfTokenIn
  | jumpIfTokenOut
  | deadline
  | onlyTakerTokenBalanceNonZero
  | onlyTakerTokenBalanceGte
  | salt
  | staticBalancesXD
  | dynamicBalancesXD
  | invalidateBit1D
  | invalidateTokenIn1D
  | invalidateTokenOut1D
  | limitSwap1D
  | limitSwapOnlyFull1D
  | xycSwapXD
  | dutchAuctionBalanceIn1D
  | dutchAuctionBalanceOut1D
  | flatFeeAmountInXD
  | flatFeeAmountOutXD
  | transferIn
  | transferOut
  | checkMakerTraits
  | checkTakerTraits
  deriving DecidableEq, Repr

namespace Opcode

/-- Every opcode, in the order of publication. -/
def all : List Opcode :=
  [jump, jumpIfTokenIn, jumpIfTokenOut, deadline, onlyTakerTokenBalanceNonZero,
   onlyTakerTokenBalanceGte, salt, staticBalancesXD, dynamicBalancesXD, invalidateBit1D,
   invalidateTokenIn1D, invalidateTokenOut1D, limitSwap1D, limitSwapOnlyFull1D, xycSwapXD,
   dutchAuctionBalanceIn1D, dutchAuctionBalanceOut1D, flatFeeAmountInXD, flatFeeAmountOutXD,
   transferIn, transferOut, checkMakerTraits, checkTakerTraits]

/-- The name in capitals. -/
def capitals : Opcode → String
  | jump => "JUMP"
  | jumpIfTokenIn => "JUMP_IF_TOKEN_IN"
  | jumpIfTokenOut => "JUMP_IF_TOKEN_OUT"
  | deadline => "DEADLINE"
  | onlyTakerTokenBalanceNonZero => "ONLY_TAKER_TOKEN_BALANCE_NON_ZERO"
  | onlyTakerTokenBalanceGte => "ONLY_TAKER_TOKEN_BALANCE_GTE"
  | salt => "SALT"
  | staticBalancesXD => "STATIC_BALANCES_XD"
  | dynamicBalancesXD => "DYNAMIC_BALANCES_XD"
  | invalidateBit1D => "INVALIDATE_BIT_1D"
  | invalidateTokenIn1D => "INVALIDATE_TOKEN_IN_1D"
  | invalidateTokenOut1D => "INVALIDATE_TOKEN_OUT_1D"
  | limitSwap1D => "LIMIT_SWAP_1D"
  | limitSwapOnlyFull1D => "LIMIT_SWAP_ONLY_FULL_1D"
  | xycSwapXD => "XYC_SWAP_XD"
  | dutchAuctionBalanceIn1D => "DUTCH_AUCTION_BALANCE_IN_1D"
  | dutchAuctionBalanceOut1D => "DUTCH_AUCTION_BALANCE_OUT_1D"
  | flatFeeAmountInXD => "FLAT_FEE_AMOUNT_IN_XD"
  | flatFeeAmountOutXD => "FLAT_FEE_AMOUNT_OUT_XD"
  | transferIn => "TRANSFER_IN"
  | transferOut => "TRANSFER_OUT"
  | checkMakerTraits => "CHECK_MAKER_TRAITS"
  | checkTakerTraits => "CHECK_TAKER_TRAITS"

/-- The family of related instructions. -/
def family : Opcode → String
  | jump | jumpIfTokenIn | jumpIfTokenOut | deadline | onlyTakerTokenBalanceNonZero
  | onlyTakerTokenBalanceGte | salt => "Controls"
  | staticBalancesXD | dynamicBalancesXD => "Balances"
  | invalidateBit1D | invalidateTokenIn1D | invalidateTokenOut1D => "Invalidators"
  | limitSwap1D | limitSwapOnlyFull1D => "LimitSwap"
  | xycSwapXD => "XYCSwap"
  | dutchAuctionBalanceIn1D | dutchAuctionBalanceOut1D => "DutchAuction"
  | flatFeeAmountInXD | flatFeeAmountOutXD => "Fee"
  | transferIn | transferOut => "Transfer"
  | checkMakerTraits | checkTakerTraits => "Traits"

/-- The name of the instruction inside its family. -/
def instructionName : Opcode → String
  | jump => "jump"
  | jumpIfTokenIn => "jumpIfTokenIn"
  | jumpIfTokenOut => "jumpIfTokenOut"
  | deadline => "deadline"
  | onlyTakerTokenBalanceNonZero => "onlyTakerTokenBalanceNonZero"
  | onlyTakerTokenBalanceGte => "onlyTakerTokenBalanceGte"
  | salt => "salt"
  | staticBalancesXD => "staticBalancesXD"
  | dynamicBalancesXD => "dynamicBalancesXD"
  | invalidateBit1D => "invalidateBit1D"
  | invalidateTokenIn1D => "invalidateTokenIn1D"
  | invalidateTokenOut1D => "invalidateTokenOut1D"
  | limitSwap1D => "limitSwap1D"
  | limitSwapOnlyFull1D => "limitSwapOnlyFull1D"
  | xycSwapXD => "xycSwapXD"
  | dutchAuctionBalanceIn1D => "dutchAuctionBalanceIn1D"
  | dutchAuctionBalanceOut1D => "dutchAuctionBalanceOut1D"
  | flatFeeAmountInXD => "flatFeeAmountInXD"
  | flatFeeAmountOutXD => "flatFeeAmountOutXD"
  | transferIn => "transferIn"
  | transferOut => "transferOut"
  | checkMakerTraits => "checkMakerTraits"
  | checkTakerTraits => "checkTakerTraits"

/-- The family and the instruction name with a dot between them. -/
def dotted (o : Opcode) : String :=
  o.family ++ "." ++ o.instructionName

/-- The first opcode that has the given name, dotted, in capitals or inside its family. -/
def ofName? (name : String) : Option Opcode :=
  all.find? fun o => name == o.dotted || name == o.capitals || name == o.instructionName

/-- The opcode with the given dotted name. -/
def ofDotted? (name : String) : Option Opcode :=
  all.find? fun o => name == o.dotted

end Opcode

end SwapCodec
