import ObfuscationMap.Text.Unprintable
import ObfuscationMap.Text.Extender
import ObfuscationMap.Text.Cased
import ObfuscationMap.Text.CaseIgnorable
import ObfuscationMap.OrderedMap
import ObfuscationMap.Token
import ObfuscationMap.Token.Piece
import ObfuscationMap.Token.Scope
import ObfuscationMap.Token.Scan
import ObfuscationMap.Text.Lowercase
import ObfuscationMap.Script
import ObfuscationMap.Script.ParseError
import ObfuscationMap.Script.Reader
import ObfuscationMap.Script.Parse
import ObfuscationMap.Mapping
import ObfuscationMap.Mapping.Resolution
import ObfuscationMap.Mapping.Validation
import ObfuscationMap.Compilation
import ObfuscationMap.ClassName
import ObfuscationMap.Descriptor
import ObfuscationMap.Emit.Proguard
import ObfuscationMap.Emit.Srg
import ObfuscationMap.Json
import ObfuscationMap.Mapping.Dump
import ObfuscationMap.Emit.Format
import ObfuscationMap.Index
import ObfuscationMap.Index.Query
import ObfuscationMap.Session
import ObfuscationMap.Remapper
import ObfuscationMap.Command.Run
import ObfuscationMap.Main
import ObfuscationMap.Proofs.OrderedMap
import ObfuscationMap.Proofs.Lookup
import ObfuscationMap.Proofs.Resolution
import ObfuscationMap.Proofs.Index
import ObfuscationMap.Proofs.Grammar
import ObfuscationMap.Proofs.Grammar.Follows
import ObfuscationMap.Proofs.Grammar.Readers
import ObfuscationMap.Proofs.Grammar.ClassBodies
import ObfuscationMap.Proofs.Grammar.Scripts
import ObfuscationMap.Proofs.Grammar.Places
import ObfuscationMap.Proofs.Grammar.Accepts
import ObfuscationMap.Proofs.Grammar.Acceptance
import ObfuscationMap.Proofs.Parsing
import ObfuscationMap.Proofs.Pieces
import ObfuscationMap.Proofs.Words
import ObfuscationMap.Proofs.Layout
import ObfuscationMap.Proofs.Segments
import ObfuscationMap.Proofs.Continuation
import ObfuscationMap.Proofs.Faults
import ObfuscationMap.Proofs.Writing
import ObfuscationMap.Proofs.Writing.Derivation
import ObfuscationMap.Proofs.Writing.Scanning
import ObfuscationMap.Proofs.Writing.Spelling
import ObfuscationMap.Proofs.RoundTrip
import ObfuscationMap.Proofs.Names
import ObfuscationMap.Proofs.Legality
import ObfuscationMap.Proofs.Legality.Resolution
import ObfuscationMap.Proofs.Validation
import ObfuscationMap.Proofs.ClassNames
import ObfuscationMap.Proofs.Descriptors
import ObfuscationMap.Proofs.Emission
import ObfuscationMap.Proofs.Emission.Proguard
import ObfuscationMap.Proofs.Emission.Srg
import ObfuscationMap.Proofs.Emission.Decoding
import ObfuscationMap.Proofs.Emission.Splitting
import ObfuscationMap.Proofs.Remapping
import ObfuscationMap.Proofs.Index.Inverse
import ObfuscationMap.Proofs.Index.Merging
import ObfuscationMap.Proofs.Versions
import ObfuscationMap.Proofs.Concatenation
import ObfuscationMap.Proofs.Index.Sources
import ObfuscationMap.Proofs.Sessions
import ObfuscationMap.Proofs.Json.Reading
import ObfuscationMap.Proofs.Json.Layouts
import ObfuscationMap.Proofs.Json.Dump
import ObfuscationMap.Proofs.Legality.WellFormed
import ObfuscationMap.Proofs.Relayout
import ObfuscationMap.Proofs.Index.Best
import ObfuscationMap.Proofs.Validation.Report
import ObfuscationMap.Proofs.Validation.Signatures
import ObfuscationMap.Proofs.Remapping.Unmapped
import ObfuscationMap.Proofs.Remapping.Package
import ObfuscationMap.Proofs.Remapping.References
import ObfuscationMap.Proofs.Remapping.Overloads
import ObfuscationMap.Proofs.Emission.Command
import ObfuscationMap.Proofs.Scopes
import ObfuscationMap.Proofs.Index.Aliases
import ObfuscationMap.Proofs.Validation.Command
