import GameBoyAssembler.Text.Hex
import GameBoyAssembler.Text.Spelling
import GameBoyAssembler.Text.Numeral
import GameBoyAssembler.Text.Cut
import GameBoyAssembler.Text.Lines
import GameBoyAssembler.Cpu.Register
import GameBoyAssembler.Cpu.Instruction
import GameBoyAssembler.Cpu.Opcode
import GameBoyAssembler.Cpu.Decode
import GameBoyAssembler.Cpu.Printed
import GameBoyAssembler.Listing
import GameBoyAssembler.Source.Position
import GameBoyAssembler.Operand.Width
import GameBoyAssembler.Token
import GameBoyAssembler.Error
import GameBoyAssembler.Token.Literal
import GameBoyAssembler.Token.Lexer
import GameBoyAssembler.Token.Line
import GameBoyAssembler.Symbol
import GameBoyAssembler.Mnemonic
import GameBoyAssembler.Statement
import GameBoyAssembler.Operand
import GameBoyAssembler.Selection
import GameBoyAssembler.Layout
import GameBoyAssembler.Program
import GameBoyAssembler.Diagnostic
import GameBoyAssembler.Config
import GameBoyAssembler.Config.Toml
import GameBoyAssembler.Config.Reader
import GameBoyAssembler.File.Path
import GameBoyAssembler.File.Tree
import GameBoyAssembler.CommandLine.Address
import GameBoyAssembler.CommandLine.Options
import GameBoyAssembler.CommandLine.Run
import GameBoyAssembler.CommandLine.Arguments
import GameBoyAssembler.Main
import GameBoyAssembler.Proofs.MachineCode
import GameBoyAssembler.Proofs.Decoding
import GameBoyAssembler.Proofs.Selection
import GameBoyAssembler.Proofs.Layout
import GameBoyAssembler.Proofs.Addresses
import GameBoyAssembler.Proofs.AllErrors
import GameBoyAssembler.Proofs.Disassembly
import GameBoyAssembler.Proofs.Lexing
import GameBoyAssembler.Proofs.Printed
import GameBoyAssembler.Proofs.PrintedSelection
import GameBoyAssembler.Proofs.Reassembly
import GameBoyAssembler.Proofs.Places
import GameBoyAssembler.Proofs.Blame
import GameBoyAssembler.Proofs.Statements
import GameBoyAssembler.Proofs.KeepGoing
import GameBoyAssembler.Proofs.Labels
import GameBoyAssembler.Proofs.Branches
import GameBoyAssembler.Proofs.Forms
import GameBoyAssembler.Proofs.LineByLine
import GameBoyAssembler.Proofs.Coverage
import GameBoyAssembler.Proofs.ReadAlike
import GameBoyAssembler.Proofs.SameWords
import GameBoyAssembler.Proofs.SeparateLines
import GameBoyAssembler.Proofs.ConstantOrder
import GameBoyAssembler.Proofs.TextLines
import GameBoyAssembler.Proofs.LosslessListing
import GameBoyAssembler.Proofs.Aliases
import GameBoyAssembler.Proofs.OneNumber
import GameBoyAssembler.Proofs.Relocation
import GameBoyAssembler.Proofs.Composition
import GameBoyAssembler.Proofs.Diagnostics
import GameBoyAssembler.Proofs.Spacing
import GameBoyAssembler.Proofs.Spelling
import GameBoyAssembler.Proofs.Respelling
import GameBoyAssembler.Proofs.CaseAndBrackets
import GameBoyAssembler.Proofs.Names
import GameBoyAssembler.Proofs.Files
import GameBoyAssembler.Proofs.Runs
import GameBoyAssembler.Proofs.AliasChains
import GameBoyAssembler.Proofs.NamedValues
import GameBoyAssembler.Proofs.NumberWindows
import GameBoyAssembler.Proofs.AllOrNothing
import GameBoyAssembler.Proofs.Literals
import GameBoyAssembler.Proofs.Bindings
import GameBoyAssembler.Proofs.Scopes
import GameBoyAssembler.Proofs.FailedStatements
import GameBoyAssembler.Proofs.Marks
import GameBoyAssembler.Proofs.AddressTexts
import GameBoyAssembler.Proofs.Progress
