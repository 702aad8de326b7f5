import MoveText.Address
import MoveText.Address.View
import MoveText.Argument
import MoveText.Argument.Grammar
import MoveText.Argument.Record
import MoveText.Argument.View
import MoveText.Binary.Input
import MoveText.Binary.Layout
import MoveText.Binary.Reader
import MoveText.Binary.Uleb
import MoveText.ForMathlib
import MoveText.Identifier
import MoveText.Identifier.View
import MoveText.Log
import MoveText.Number.Binary64
import MoveText.Number.Decimal
import MoveText.Number.Hexadecimal
import MoveText.Number.Numeral
import MoveText.Number.Shortest
import MoveText.Options
import MoveText.Parse
import MoveText.Proofs.Address.Literal
import MoveText.Proofs.Number.Binary64
import MoveText.Proofs.Number.Numeral
import MoveText.Proofs.Parse
import MoveText.Proofs.Text.Ascii
import MoveText.Proofs.Text.Hex
import MoveText.Proofs.Text.Run
import MoveText.Proofs.Token.CommaList
import MoveText.Proofs.Token.Cut
import MoveText.Proofs.Token.Lexeme
import MoveText.Proofs.Token.Occurrence
import MoveText.Proofs.Token.Reading
import MoveText.Proofs.Token.Safety
import MoveText.Proofs.Token.Spelling
import MoveText.Proofs.Token.Words
import MoveText.Proofs.TypeTag.Derivation
import MoveText.Proofs.TypeTag.NestingLimit
import MoveText.Proofs.TypeTag.Reading
import MoveText.Proofs.TypeTag.RenderedWords
import MoveText.Proofs.TypeTag.RoundTrip
import MoveText.Proofs.TypeTag.WellFormed
import MoveText.Rejection
import MoveText.Text
import MoveText.Text.Ascii
import MoveText.Text.Capital
import MoveText.Text.CaseIgnorable
import MoveText.Text.Cased
import MoveText.Text.Hex
import MoveText.Text.Lowercase
import MoveText.Text.Quoted
import MoveText.Text.Utf8
import MoveText.Token
import MoveText.Token.Lexeme
import MoveText.Token.Reader
import MoveText.Token.View
import MoveText.TypeTag
import MoveText.TypeTag.Grammar
import MoveText.TypeTag.Primitive
import MoveText.TypeTag.Record
import MoveText.TypeTag.Render
import MoveText.TypeTag.View
import MoveText.Value
import MoveText.Value.Number
import MoveText.Walk
import MoveText.Width
import MoveText.Proofs.Argument.Reading
import MoveText.Proofs.EntryPoints
import MoveText.Proofs.Argument.Literal
import MoveText.Proofs.Binary.Uleb
import MoveText.Proofs.Binary.Reader
import MoveText.Proofs.Binary.Part
import MoveText.Proofs.Address.Bytes
import MoveText.Proofs.Argument.Layout
import MoveText.Proofs.Number.Shortest
import MoveText.Proofs.Argument.Record
import MoveText.Proofs.Argument.RoundTrip
import MoveText.Proofs.TypeTag.Layout
import MoveText.Proofs.TypeTag.Normalized
import MoveText.Proofs.Binary.Canonical
import MoveText.Proofs.TypeTag.Agreement
import MoveText.Proofs.TypeTag.BinaryIdentity
import MoveText.Proofs.TypeTag.TextIdentity
import MoveText.Proofs.TypeTag.Comparison
import MoveText.Proofs.TypeTag.Holds
import MoveText.Proofs.TypeTag.TextOfBinary
import MoveText.Proofs.TypeTag.Rewritten
import MoveText.Proofs.Token.Separated
import MoveText.Proofs.TypeTag.Source
import MoveText.Proofs.Token.Pieces
import MoveText.Proofs.Token.Items
import MoveText.Proofs.ListParsing
import MoveText.Proofs.Spacing
import MoveText.Proofs.Argument.Accepted
import MoveText.Proofs.Argument.Input
import MoveText.Proofs.Binary.SelfDelimiting
import MoveText.Proofs.Text.Lowercase
import MoveText.Proofs.Address.AnyText
import MoveText.Proofs.Text.HexNumber
import MoveText.Proofs.Address.NormalForms
import MoveText.Proofs.Address.Serialized
import MoveText.Proofs.Token.Rounds
import MoveText.Proofs.TypeTag.TokenLevels
import MoveText.Proofs.Walk
import MoveText.Proofs.Token.Checks
import MoveText.Proofs.Token.Blame
import MoveText.Proofs.TypeTag.Shape
import MoveText.Proofs.SyntaxErrors
import MoveText.Proofs.Text.Quoted
import MoveText.Proofs.Token.Place
import MoveText.Proofs.Walk.Place
import MoveText.Proofs.Token.Describe
import MoveText.Proofs.Logging
import MoveText.Proofs.Token.Stuck
import MoveText.Proofs.Token.Offsets
