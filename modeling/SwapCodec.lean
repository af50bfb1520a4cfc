import SwapCodec.Main
import SwapCodec.Proofs.Program.Canonical
import SwapCodec.Proofs.Program.RoundTrip
import SwapCodec.Proofs.Program.Total
import SwapCodec.Proofs.SelfDelimiting
import SwapCodec.Proofs.Registry.Fit
import SwapCodec.Proofs.Registry.Growth
import SwapCodec.Proofs.Registry.Tables
import SwapCodec.Proofs.Program.Concat
import SwapCodec.Proofs.Program.Growth
import SwapCodec.Proofs.Auction.Decoded
import SwapCodec.Proofs.Schema.Document
import SwapCodec.Proofs.Program.Listing
import SwapCodec.Proofs.Program.Transfer
import SwapCodec.Proofs.Atomic
import SwapCodec.Proofs.Program.Positions
import SwapCodec.Proofs.Settings.Extension
import SwapCodec.Proofs.Settings.Session
import SwapCodec.Proofs.Refusal
import SwapCodec.Proofs.Refusal.Document
import SwapCodec.Proofs.Refusal.Packing
import SwapCodec.Proofs.Program.Refusal
import SwapCodec.Proofs.Auction.Monotone
import SwapCodec.Proofs.Auction.Rounding
import SwapCodec.Proofs.Auction.Symmetry
import SwapCodec.Proofs.Layout.Acceptance
import SwapCodec.Proofs.Layout.Interference
import SwapCodec.Proofs.Word.TwosComplement
import SwapCodec.Proofs.Traits.Sender
import SwapCodec.Proofs.CommandLine.Grammar
import SwapCodec.Proofs.CommandLine.Environment
import SwapCodec.Proofs.CommandLine.Invocation
import SwapCodec.Proofs.CommandLine.Response
import SwapCodec.Proofs.CommandLine.RoundTrip
import SwapCodec.Proofs.CommandLine.Override
import SwapCodec.Proofs.CommandLine.JsonOption
import SwapCodec.Proofs.CommandLine.Preview
import SwapCodec.Proofs.Schema.Length
import SwapCodec.Proofs.Settings.Merge
import SwapCodec.Proofs.Stream.Reading
import SwapCodec.Proofs.ArgType.Integer
