import Z80Toolchain.Text.Case
import Z80Toolchain.Text.Blank
import Z80Toolchain.Text.Lines
import Z80Toolchain.Text.Numeral
import Z80Toolchain.Text.Printable
import Z80Toolchain.Machine.Register
import Z80Toolchain.Machine.Operation
import Z80Toolchain.Machine.Implied
import Z80Toolchain.Machine.Opcode
import Z80Toolchain.Machine.Instruction
import Z80Toolchain.Machine.Instruction.Encode
import Z80Toolchain.Machine.Instruction.Decode
import Z80Toolchain.Machine.Instruction.Render
import Z80Toolchain.Machine.Disassembly
import Z80Toolchain.Machine.Address
import Z80Toolchain.Text.Escape
import Z80Toolchain.Source.Position
import Z80Toolchain.Source.Token
import Z80Toolchain.Source.Diagnostic
import Z80Toolchain.Source.Lexeme
import Z80Toolchain.Source.Tokenize
import Z80Toolchain.Assembly.Symbols
import Z80Toolchain.Assembly.Cursor
import Z80Toolchain.Assembly.Expression
import Z80Toolchain.Assembly.Operand
import Z80Toolchain.Assembly.Mnemonic
import Z80Toolchain.Assembly.Selection
import Z80Toolchain.Assembly.Statement
import Z80Toolchain.Source.Defines
import Z80Toolchain.Source.Expansion
import Z80Toolchain.Assembly.Patch
import Z80Toolchain.Assembly.Draft
import Z80Toolchain.Assembly.Assemble
import Z80Toolchain.Listing.Style
import Z80Toolchain.Listing.Report
import Z80Toolchain.Listing.Tokens
import Z80Toolchain.Listing.Dump
import Z80Toolchain.Listing.Disassembly
import Z80Toolchain.Yaml.Line
import Z80Toolchain.Yaml.Scalar
import Z80Toolchain.Yaml.Key
import Z80Toolchain.Yaml.Mapping
import Z80Toolchain.Assembly.SymbolFile
import Z80Toolchain.Project.Failure
import Z80Toolchain.Project.Path
import Z80Toolchain.Project.FileError
import Z80Toolchain.Project.Host
import Z80Toolchain.Project.FileTree
import Z80Toolchain.Project.Manifest
import Z80Toolchain.Project.Image
import Z80Toolchain.Project.Build
import Z80Toolchain.Program.Arguments
import Z80Toolchain.Program.Settings
import Z80Toolchain.Program.Assembler
import Z80Toolchain.Program.Disassembler
import Z80Toolchain.Main
import Z80Toolchain.Proofs.Machine.OpcodeFields
import Z80Toolchain.Proofs.Machine.ReadEncode
import Z80Toolchain.Proofs.Machine.EncodeRead
import Z80Toolchain.Proofs.Text.NumeralText
import Z80Toolchain.Proofs.Source.Spelling
import Z80Toolchain.Proofs.Source.LineTokens
import Z80Toolchain.Proofs.Source.PlainExpansion
import Z80Toolchain.Proofs.Assembly.OperandReading
import Z80Toolchain.Proofs.Assembly.Canonical
import Z80Toolchain.Proofs.Assembly.SelectionText
import Z80Toolchain.Proofs.Assembly.ArgumentReading
import Z80Toolchain.Proofs.Assembly.CanonicalDecoding
import Z80Toolchain.Proofs.Assembly.InstructionSyntax
import Z80Toolchain.Proofs.Assembly.LineSpelling
import Z80Toolchain.Proofs.Assembly.ListedInstructions
import Z80Toolchain.Proofs.Roundtrip
import Z80Toolchain.Proofs.Assembly.Complaints
import Z80Toolchain.Proofs.Assembly.Encodings
import Z80Toolchain.Proofs.Assembly.Emission
import Z80Toolchain.Proofs.Assembly.Patching
import Z80Toolchain.Proofs.Assembly.Relocation
import Z80Toolchain.Proofs.Assembly.LineReading
import Z80Toolchain.Proofs.Source.LexemeShape
import Z80Toolchain.Proofs.Source.SourceLines
import Z80Toolchain.Proofs.Source.LexicalGrammar
import Z80Toolchain.Proofs.Source.DefineTables
import Z80Toolchain.Proofs.Source.Substitution
import Z80Toolchain.Proofs.Assembly.Growth
import Z80Toolchain.Proofs.Assembly.Layout
import Z80Toolchain.Proofs.Assembly.LineByLine
import Z80Toolchain.Proofs.Assembly.Reporting
import Z80Toolchain.Proofs.Source.TokenLanguage
import Z80Toolchain.Proofs.Source.TokenPlaces
import Z80Toolchain.Proofs.Machine.ReadLocality
import Z80Toolchain.Proofs.Project.AssemblerRun
import Z80Toolchain.Proofs.Project.LinkOutcomes
import Z80Toolchain.Proofs.Assembly.ExactSums
import Z80Toolchain.Proofs.Assembly.Retelling
import Z80Toolchain.Proofs.Assembly.Placing
import Z80Toolchain.Proofs.Source.ExpandedLines
import Z80Toolchain.Proofs.Source.SourceColumns
import Z80Toolchain.Proofs.Source.LinesApart
import Z80Toolchain.Proofs.Assembly.SourcePlaces
import Z80Toolchain.Proofs.Source.Comments
import Z80Toolchain.Proofs.Assembly.LineScans
import Z80Toolchain.Proofs.Assembly.LeadingTokens
import Z80Toolchain.Proofs.Assembly.PlacedAssemblies
import Z80Toolchain.Proofs.Assembly.CommentsIgnored
import Z80Toolchain.Proofs.Assembly.IndexedOperands
import Z80Toolchain.Proofs.Assembly.LetterCase
import Z80Toolchain.Proofs.Assembly.DataItems
import Z80Toolchain.Proofs.Listing.DumpRows
import Z80Toolchain.Proofs.Listing.DumpText
import Z80Toolchain.Proofs.Source.NumberReaders
import Z80Toolchain.Proofs.Source.DefineLines
import Z80Toolchain.Proofs.Assembly.RangeComplaints
import Z80Toolchain.Proofs.Assembly.SingleAssignment
import Z80Toolchain.Proofs.Text.ByteOrder
import Z80Toolchain.Proofs.Project.DirectoryFiles
import Z80Toolchain.Proofs.Project.ManifestWords
import Z80Toolchain.Proofs.Project.ProjectLoading
import Z80Toolchain.Proofs.Assembly.FixupPlaces
import Z80Toolchain.Proofs.Assembly.PatchBounds
