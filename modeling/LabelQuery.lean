import LabelQuery.Text.Basic
import LabelQuery.Text.LowerCase
import LabelQuery.Labelling
import LabelQuery.Requirement
import LabelQuery.Token.Basic
import LabelQuery.Token.Chunk
import LabelQuery.Token.Munch
import LabelQuery.Token.Spelling
import LabelQuery.Token.Layout
import LabelQuery.Token.Round
import LabelQuery.Selector.Basic
import LabelQuery.Selector.Grammar
import LabelQuery.Selector.Symbols
import LabelQuery.Json.Fault
import LabelQuery.Json.Basic
import LabelQuery.Json.Number
import LabelQuery.Json.Quoted
import LabelQuery.Json.Reader
import LabelQuery.Json.Grammar
import LabelQuery.Json.Escaping
import LabelQuery.Structured.Record
import LabelQuery.Structured.Decoding
import LabelQuery.Structured.Encoding
import LabelQuery.Structured.Format
import LabelQuery.Journal.Basic
import LabelQuery.Journal.Activity
import LabelQuery.Journal.Transcript
import LabelQuery.Proofs.Journal.Dependence
import LabelQuery.Proofs.Journal.Transcript
import LabelQuery.Proofs.Json.Decision
import LabelQuery.Proofs.Json.Denotation
import LabelQuery.Proofs.Json.Entries
import LabelQuery.Proofs.Json.Extent
import LabelQuery.Proofs.Json.Nesting
import LabelQuery.Proofs.Json.Number
import LabelQuery.Proofs.Json.Quoted
import LabelQuery.Proofs.Json.Reading
import LabelQuery.Proofs.Json.Writing
import LabelQuery.Proofs.Message
import LabelQuery.Proofs.Selector.Conjunction
import LabelQuery.Proofs.Selector.Continuation
import LabelQuery.Proofs.Selector.Joining
import LabelQuery.Proofs.Selector.Membership
import LabelQuery.Proofs.Selector.Reading
import LabelQuery.Proofs.Selector.RoundTrip
import LabelQuery.Proofs.Selector.SetBased
import LabelQuery.Proofs.Selector.Spelling
import LabelQuery.Proofs.Selector.Symbols
import LabelQuery.Proofs.Selector.Viability
import LabelQuery.Proofs.Structured.Conjunction
import LabelQuery.Proofs.Structured.Decoding
import LabelQuery.Proofs.Structured.Encoding
import LabelQuery.Proofs.Structured.Precedence
import LabelQuery.Proofs.Structured.Rearrangement
import LabelQuery.Proofs.Structured.Record
import LabelQuery.Proofs.Structured.Truncation
import LabelQuery.Proofs.Text.Delimiter
import LabelQuery.Proofs.Text.Slice
import LabelQuery.Proofs.Token.Coverage
import LabelQuery.Proofs.Token.Cut
import LabelQuery.Proofs.Token.Division
import LabelQuery.Proofs.Token.Layout
import LabelQuery.Proofs.Token.Round
import LabelQuery.Proofs.Token.Scan
import LabelQuery.Proofs.Token.Tokenizing
