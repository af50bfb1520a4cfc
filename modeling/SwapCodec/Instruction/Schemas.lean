import SwapCodec.Schema

/-!
# Schemas of the instructions

One schema for each shape of arguments that an instruction can have. Three of them relate their
fields: balances come in pairs with tokens, an auction lasts at least a second, and a fee is at
most the whole amount.
-/

set_option autoImplicit false

namespace SwapCodec

/-- The number of elements of a tuple, zero for any other value. -/
def Value.size : Value → Nat
  | .tuple items => items.length
  | _ => 0

/-- The integer in a field, zero if there is none. -/
def integerField (name : String) (fields : Fields) : Int :=
  (((fieldOf? name fields).getD .null).asInt?).getD 0

/-- A fee of the whole amount. -/
def feeBase : Int := 1000000000

/-- As many balances as tokens. -/
def balancesMatch (fields : Fields) : Except Error Unit :=
  let tokens := ((fieldOf? "tokens" fields).getD .null).size
  let balances := ((fieldOf? "balances" fields).getD .null).size
  if tokens = balances then .ok () else fail (.unevenBalances tokens balances)

/-- The auction lasts some time. -/
def durationIsPositive (fields : Fields) : Except Error Unit :=
  if 0 < integerField "duration" fields then .ok () else fail .durationNotPositive

/-- The fee is at most the whole amount. -/
def feeIsBounded (fields : Fields) : Except Error Unit :=
  let fee := integerField "fee" fields
  if fee ≤ feeBase then .ok () else fail (.feeTooHigh fee)

namespace Schema

/-- A schema whose fields stand in the order of its record type and are not related. -/
def plain (name : String) (entries : List (String × ArgType)) : Schema where
  record := ⟨name, entries.map (·.1)⟩
  entries := entries

/-- The offset at which the program goes on. -/
def jump : Schema := plain "JumpArgs" [("next_pc", .uint16)]

/-- A token, and the offset at which the program goes on if it is the one. -/
def jumpIfToken : Schema := plain "JumpIfTokenArgs" [("token", .address), ("next_pc", .uint16)]

/-- The last moment of an order. -/
def deadline : Schema := plain "DeadlineArgs" [("deadline", .uint40)]

/-- A token of which the taker has some. -/
def takerHolds : Schema := plain "TakerTokenBalanceNonZeroArgs" [("token", .address)]

/-- A token, and how much of it the taker has at least. -/
def takerHoldsAtLeast : Schema :=
  plain "TakerTokenBalanceGteArgs" [("token", .address), ("min_amount", .uint256)]

/-- A number that tells orders apart. -/
def salt : Schema := plain "SaltArgs" [("salt", .uint64)]

/-- Tokens, and the balance of each. -/
def balances : Schema where
  record := ⟨"BalancesArgs", ["tokens", "balances"]⟩
  entries := [("tokens", .array .address), ("balances", .array .uint256)]
  relation := balancesMatch

/-- The bit that marks an order as used. -/
def invalidateBit : Schema := plain "InvalidateBitArgs" [("bit_index", .uint32)]

/-- No arguments. -/
def empty : Schema := plain "EmptyArgs" []

/-- Which of the two tokens the maker sells. -/
def limitSwap : Schema := plain "LimitSwapDirectionArgs" [("maker_direction_lt", .bool)]

/-- The amounts at both ends of an auction, when it starts and how long it lasts. -/
def dutchAuction : Schema where
  record := ⟨"DutchAuctionArgs", ["start_amount", "end_amount", "start_time", "duration"]⟩
  entries := [("start_amount", .uint256), ("end_amount", .uint256), ("start_time", .uint40),
    ("duration", .uint32)]
  relation := durationIsPositive

/-- A fee, as a share of `feeBase`. -/
def flatFee : Schema where
  record := ⟨"FlatFeeArgs", ["fee"]⟩
  entries := [("fee", .uint32)]
  relation := feeIsBounded

/-- A token, who receives it and how much. -/
def transfer : Schema :=
  plain "TransferArgs" [("token", .address), ("recipient", .address), ("amount", .uint256)]

/-- The traits of the maker. -/
def makerTraits : Schema := plain "MakerTraitsArgs" [("traits", .traits .maker)]

/-- The traits of the taker. -/
def takerTraits : Schema := plain "TakerTraitsArgs" [("traits", .traits .taker)]

/-- Every schema. -/
def all : List Schema :=
  [jump, jumpIfToken, deadline, takerHolds, takerHoldsAtLeast, salt, balances, invalidateBit,
   empty, limitSwap, dutchAuction, flatFee, transfer, makerTraits, takerTraits]

/-- The schema with a record type of the given name. -/
def ofName? (name : String) : Option Schema :=
  all.find? fun s => s.record.name == name

end Schema

end SwapCodec
