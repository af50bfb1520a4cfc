import SwapCodec.Instruction

/-!
# Dutch auctions

The amount of an auction moves from its start amount to its end amount on a straight line while the
auction lasts, and stands still before and after. Between the ends the exact amount is a weighted
mean (`Auction.weighted` over the duration), and it is rounded in favour of the maker: up for what
the taker pays, down for what the taker receives (`Direction.divide`).

An auction follows its direction if what the taker pays never rises and what the taker receives
never falls (`Auction.follows`).
-/

set_option autoImplicit false

namespace SwapCodec

/-- The side of the swap that an auction moves. -/
inductive Direction where
  /-- What the taker pays. -/
  | input
  /-- What the taker receives. -/
  | output
  deriving DecidableEq, Repr

namespace Direction

/-- Both directions. -/
def all : List Direction := [input, output]

/-- The name of a direction. -/
def name : Direction → String
  | input => "input"
  | output => "output"

/-- The direction with a name. -/
def ofName? (name : String) : Option Direction :=
  all.find? fun d => d.name == name

/-- A quotient rounded in favour of the maker. -/
def divide (d : Direction) (n m : Int) : Int :=
  match d with
  | input => -((-n).fdiv m)
  | output => n.fdiv m

end Direction

/-- The direction of the auction that an opcode stands for. -/
def Opcode.direction? : Opcode → Option Direction
  | dutchAuctionBalanceIn1D => some .input
  | dutchAuctionBalanceOut1D => some .output
  | _ => none

/-- The parameters of an auction. -/
structure Auction where
  /-- The amount at the start. -/
  startAmount : Int
  /-- The amount at the end. -/
  endAmount : Int
  /-- When the auction starts. -/
  startTime : Int
  /-- How long it lasts. -/
  duration : Int
  deriving DecidableEq, Repr

namespace Auction

/-- When the auction ends. -/
def endTime (a : Auction) : Int := a.startTime + a.duration

/-- The amounts move in the direction of the auction, or not at all. -/
def follows (a : Auction) (d : Direction) : Bool :=
  match d with
  | .input => a.endAmount ≤ a.startAmount
  | .output => a.startAmount ≤ a.endAmount

/-- Accepts an auction that follows its direction. -/
def checkDirection (a : Auction) (d : Direction) : Except Error Unit :=
  if a.follows d then .ok ()
  else match d with
    | .input => fail (.inputIncreases a.startAmount a.endAmount)
    | .output => fail (.outputDecreases a.startAmount a.endAmount)

/-- The duration times the exact amount at `now`. -/
def weighted (a : Auction) (now : Int) : Int :=
  a.startAmount * (a.endTime - now) + a.endAmount * (now - a.startTime)

/-- The amount at `now`. -/
def amountAt (a : Auction) (d : Direction) (now : Int) : Int :=
  if now ≤ a.startTime then a.startAmount
  else if a.endTime ≤ now then a.endAmount
  else d.divide (a.weighted now) a.duration

/-- The amount at `now` of an auction that lasts some time and, if that is asked for, follows its
direction. -/
def price (a : Auction) (d : Direction) (strict : Bool) (now : Int) : Except Error Int :=
  if a.duration ≤ 0 then fail (.auctionDuration a.duration)
  else do
    if strict then a.checkDirection d
    return a.amountAt d now

/-- The auction that a record of arguments describes. -/
def ofFields? (fields : Fields) : Option Auction := do
  let startAmount ← (← fieldOf? "start_amount" fields).asInt?
  let endAmount ← (← fieldOf? "end_amount" fields).asInt?
  let startTime ← (← fieldOf? "start_time" fields).asInt?
  let duration ← (← fieldOf? "duration" fields).asInt?
  return ⟨startAmount, endAmount, startTime, duration⟩

/-- The auction that the arguments of an instruction describe. The duration is looked at before
the other parameters. -/
def ofArgs : Value → Except Error Auction
  | .args _ fields =>
    match ofFields? fields with
    | some a => .ok a
    | none =>
      match fieldOf? "duration" fields with
      | none => fail (.fault .attribute)
      | some v =>
        match v.asInt? with
        | some n => if n ≤ 0 then fail (.auctionDuration n) else fail (.fault .type)
        | none => fail (.fault .type)
  | _ => fail (.fault .attribute)

/-- The record of arguments that describes the auction. -/
def toArgs (a : Auction) : Value :=
  .args Schema.dutchAuction.record.name
    [("start_amount", .int a.startAmount), ("end_amount", .int a.endAmount),
     ("start_time", .int a.startTime), ("duration", .int a.duration)]

end Auction

/-- The direction of the auction that an identity stands for. -/
def directionOf (identity : Value) : Except Error Direction :=
  match identity with
  | .opcode o =>
    match o.direction? with
    | some d => .ok d
    | none => fail (.notAnAuction identity)
  | v => if v.isHashable then fail (.notAnAuction v) else fail (.fault .type)

/-- The amount at `now` of the auction that an instruction stands for. -/
def instructionPrice (identity args : Value) (strict : Bool) (now : Value) :
    Except Error Int := do
  let d ← directionOf identity
  let a ← Auction.ofArgs args
  match now.asInt? with
  | some n => a.price d strict n
  | none => fail (.fault .type)

/-- A fee in percent, rounded to the nearest double. -/
def feePercent (fee : Value) : Except Error Binary64 :=
  match fee.asInt? with
  | none => fail (.fault .type)
  | some n =>
    match Binary64.ofRatio (n < 0) (n * 100).natAbs feeBase.toNat with
    | .infinite _ => fail (.fault .overflow)
    | x => .ok x

end SwapCodec
