import X86.Main
import X86.Lookup.Path
import X86.Proofs.Reading
import X86.Proofs.Streaming
import X86.Proofs.SelfDelimiting
import X86.Proofs.Partition
import X86.Proofs.Branching
import X86.Proofs.Definitions
import X86.Proofs.Scan
import X86.Proofs.Resolution
import X86.Proofs.Encoding
import X86.Proofs.Operands
import X86.Proofs.Entry
import X86.Proofs.Layout
import X86.Proofs.Insertion
import X86.Proofs.Overrides
import X86.Proofs.Additions
import X86.Proofs.Vendors
import X86.Proofs.WellFormedOperands
import X86.Proofs.WellFormed
import X86.Proofs.Sessions
import X86.Proofs.Prefixes
import X86.Proofs.Relocation
import X86.Proofs.Duality
import X86.Proofs.Windows
import X86.Proofs.Rendering
import X86.Proofs.Arena
import X86.Proofs.Ownership
import X86.Proofs.Substitution
import X86.Proofs.InertPrefixes
import X86.Proofs.UnusedOperandSize
import X86.Proofs.MemoryPlacement
import X86.Proofs.Wording
import X86.Proofs.IntelMemorySize
import X86.Proofs.AttMemorySize
import X86.Proofs.PrefixRuns
import X86.Proofs.EffectiveAddress
import X86.Proofs.Backtracking
import X86.Proofs.TakenPlaces
import X86.Proofs.Restatement
import X86.Proofs.HexInput
import X86.Proofs.LengthBound
import X86.Proofs.NopAndPause
import X86.Proofs.Listing
import X86.Proofs.FieldReads
import X86.Proofs.SymbolNames
import X86.Proofs.ImmediateValues
