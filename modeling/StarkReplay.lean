import StarkReplay.Annotations
import StarkReplay.Annotations.Files
import StarkReplay.Arguments
import StarkReplay.Binary64
import StarkReplay.Binary64.Shortest
import StarkReplay.Channel
import StarkReplay.Cursor
import StarkReplay.Digest
import StarkReplay.Digest.Blake2s
import StarkReplay.Failure
import StarkReplay.Failure.Message
import StarkReplay.Felt
import StarkReplay.Felt.Codec
import StarkReplay.Felt.Polynomial
import StarkReplay.Felt.ShortString
import StarkReplay.FileTree
import StarkReplay.FileTree.Directory
import StarkReplay.FileTree.Name
import StarkReplay.FileTree.Write
import StarkReplay.Flat
import StarkReplay.Fri.Parameters
import StarkReplay.Fri.State
import StarkReplay.Fri.Witness
import StarkReplay.Json
import StarkReplay.Json.Literal
import StarkReplay.Json.Read
import StarkReplay.Json.Write
import StarkReplay.PowerOfTwo
import StarkReplay.Proof.Files
import StarkReplay.Proof.Text
import StarkReplay.Proofs.Binding
import StarkReplay.Proofs.Channel
import StarkReplay.Proofs.Chunks
import StarkReplay.Proofs.Felts
import StarkReplay.Proofs.FriState
import StarkReplay.Proofs.Layers
import StarkReplay.Proofs.Outcome
import StarkReplay.Proofs.Polynomial
import StarkReplay.Proofs.Reads
import StarkReplay.Proofs.Rounds
import StarkReplay.Proofs.Sections
import StarkReplay.Proofs.Split
import StarkReplay.Proofs.Start
import StarkReplay.Proofs.Transcript
import StarkReplay.Proofs.Verifier
import StarkReplay.Prover.Documents
import StarkReplay.Prover.Files
import StarkReplay.Replay.Initial
import StarkReplay.Replay.Round
import StarkReplay.Replay.Trace
import StarkReplay.Split.Chunks
import StarkReplay.Split.Files
import StarkReplay.Split.Verify
import StarkReplay.Stark.Commitments
import StarkReplay.Stark.Config
import StarkReplay.Stark.Layout
import StarkReplay.Stark.Opening
import StarkReplay.Stark.PublicInput
import StarkReplay.Stark.Table
import StarkReplay.Text
import StarkReplay.Text.Blank
import StarkReplay.Text.Line
import StarkReplay.Text.Numeral
import StarkReplay.Text.Printable
import StarkReplay.Text.Quoted
import StarkReplay.Text.Utf8
import StarkReplay.Proofs.Failing
import StarkReplay.Proofs.Ready
import StarkReplay.Proofs.Refusals
import StarkReplay.Proofs.SplitRefusals
import StarkReplay.Proofs.Accounting
import StarkReplay.Proofs.Fields
import StarkReplay.Proofs.Folding
import StarkReplay.Proofs.Format
import StarkReplay.Proofs.ChunkOrder
import StarkReplay.Proofs.Causality
import StarkReplay.Proofs.Session
import StarkReplay.Proofs.Parameters
import StarkReplay.Proofs.Delimited
import StarkReplay.Proofs.Regroup
import StarkReplay.Proofs.Numerals
import StarkReplay.Proofs.JsonStrings
import StarkReplay.Proofs.JsonTurns
import StarkReplay.Proofs.JsonDocuments
import StarkReplay.Proofs.ProofText
import StarkReplay.Proofs.Utf8
import StarkReplay.Proofs.FileNames
import StarkReplay.Proofs.Places
import StarkReplay.Proofs.Directories
import StarkReplay.Proofs.FileWriting
import StarkReplay.Proofs.Words
import StarkReplay.Proofs.ElementText
import StarkReplay.Proofs.ChunkFiles
import StarkReplay.Proofs.SplitFiles
import StarkReplay.Proofs.Grouping
import StarkReplay.Proofs.StateFragments
import StarkReplay.Proofs.WorkThreshold
import StarkReplay.Proofs.FeltText
import StarkReplay.Proofs.ArgumentReading
import StarkReplay.Proofs.ArgumentGrammar
import StarkReplay.Proofs.ArgumentWriting
import StarkReplay.Proofs.FeltCodecs
import StarkReplay.Proofs.StepSizes
import StarkReplay.Proofs.CalldataText
import StarkReplay.Proofs.Replacing
import StarkReplay.Proofs.AtomicFiles
import StarkReplay.Proofs.JsonFields
import StarkReplay.Proofs.PublicMemory
import StarkReplay.Proofs.AnnotationLines
import StarkReplay.Proofs.JsonWriting
import StarkReplay.Proofs.JsonReading
import StarkReplay.Proofs.Rewriting
import StarkReplay.Proofs.Merging
import StarkReplay.Proofs.ProverFiles
import StarkReplay.Proofs.ReadSequences
import StarkReplay.Proofs.ShortStrings
import StarkReplay.Proofs.Truncation
import StarkReplay.Proofs.ChannelCalls
import StarkReplay.Proofs.HashedBytes
