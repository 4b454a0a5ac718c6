import JsonPull.Bytes.Payload
import JsonPull.DateText
import JsonPull.Error
import JsonPull.Frame
import JsonPull.Lines
import JsonPull.Number.Integer
import JsonPull.Options
import JsonPull.Text.Alphanumeric
import JsonPull.Text.Numeric
import JsonPull.Text.Quoted
import JsonPull.Value
import JsonPull.Stream.Scan
import JsonPull.Reader.Word
import JsonPull.Reader.Quoted
import JsonPull.Reader.Typed
import JsonPull.Tokenizer
import JsonPull.Chunk
import JsonPull.Proofs.Reading.Ensures
import JsonPull.Proofs.Reading.Onward
import JsonPull.Proofs.Reading.Layout
import JsonPull.Proofs.Reading.Quoted
import JsonPull.Proofs.Reading.Word
import JsonPull.Proofs.Reading.Numeric
import JsonPull.Proofs.Reading.Structure
import JsonPull.Proofs.Reading.Typed
import JsonPull.Proofs.Stream.Source
import JsonPull.Proofs.Stream.Feed
import JsonPull.Proofs.Stream.Answer
import JsonPull.Proofs.Grammar.Soundness
import JsonPull.Proofs.Tokenizer.Run
import JsonPull.Proofs.Tokenizer.Operation
import JsonPull.Proofs.Stream.Tape
import JsonPull.Proofs.Stream.End
import JsonPull.Proofs.Tokenizer.Whole
import JsonPull.Proofs.Text.Utf8
import JsonPull.Proofs.Json.Text
import JsonPull.Proofs.Reading.Success
import JsonPull.Proofs.Reading.Blank
import JsonPull.Proofs.Json.Number
import JsonPull.Proofs.Json.Parts
import JsonPull.Proofs.Json.Quoted
import JsonPull.Proofs.Json.Layout
import JsonPull.Proofs.Json.Scalar
import JsonPull.Proofs.Json.Sequence
import JsonPull.Proofs.Json.Structure
import JsonPull.Proofs.Json.Complete
import JsonPull.Proofs.Json.Derivation
import JsonPull.Proofs.Json.Document
import JsonPull.Proofs.Lines.Count
import JsonPull.Proofs.Reading.Outcome
import JsonPull.Proofs.Lines.Scanning
import JsonPull.Proofs.Lines.Scalar
import JsonPull.Proofs.Lines.Token
import JsonPull.Proofs.Tokenizer.Fair
import JsonPull.Proofs.Lines.Tokenizer
import JsonPull.Proofs.Advance.Scanning
import JsonPull.Proofs.Advance.Value
import JsonPull.Proofs.Advance.Token
import JsonPull.Proofs.Advance.Tokenizer
import JsonPull.Proofs.Faults.Between
import JsonPull.Proofs.Faults.Tokenizer
import JsonPull.Proofs.Checked
import JsonPull.Proofs.Stream.Watch
import JsonPull.Proofs.DateText
import JsonPull.Proofs.Tokenizer.Watch
import JsonPull.Proofs.Reading.Change
import JsonPull.Proofs.Reading.Straight
import JsonPull.Proofs.Reading.Evolve
import JsonPull.Proofs.Tokenizer.Coherence
import JsonPull.Proofs.Tokenizer.End
import JsonPull.Proofs.Tokenizer.Drain
import JsonPull.Proofs.Stream.Fault
import JsonPull.Proofs.Tokenizer.Cancel
import JsonPull.Proofs.Grammar.Outline
import JsonPull.Proofs.Tokenizer.Place
import JsonPull.Proofs.Reading.Sight
import JsonPull.Proofs.Comments.Token
import JsonPull.Proofs.Comments.Tokenizer
import JsonPull.Proofs.Resume.Scalar
import JsonPull.Proofs.Resume.Token
import JsonPull.Proofs.Resume.Next
import JsonPull.Proofs.Resume.Tokenizer
import JsonPull.Proofs.Value.Position
import JsonPull.Proofs.Value.Call
import JsonPull.Proofs.Value.Integer
import JsonPull.Proofs.Value.Number
import JsonPull.Proofs.Value.Tokenizer
import JsonPull.Proofs.Resume.Special
import JsonPull.Proofs.Text.Runs
import JsonPull.Proofs.Quotation.Items
import JsonPull.Proofs.Quotation.Body
import JsonPull.Proofs.Quotation.Stray
import JsonPull.Proofs.Quotation.Requests
import JsonPull.Proofs.Quotation.Tokenizer
import JsonPull.Proofs.Stream.Pool
import JsonPull.Proofs.Tokenizer.Sharing
import JsonPull.Proofs.Reading.Typing
import JsonPull.Proofs.Tokenizer.Typing
import JsonPull.Proofs.Numbering.Token
import JsonPull.Proofs.Numbering.Tokenizer
import JsonPull.Proofs.Path.Steps
import JsonPull.Proofs.Path.Tokenizer
import JsonPull.Proofs.Capacity.Tokenizer
import JsonPull.Proofs.Dates.Calendar
import JsonPull.Proofs.Dates.Spelling
import JsonPull.Proofs.Dates.Written
import JsonPull.Proofs.Dates.Modes
import JsonPull.Proofs.Dates.Tokenizer
import JsonPull.Proofs.Signs.Numeral
import JsonPull.Proofs.Signs.Tokenizer
import JsonPull.Proofs.Bytes.Base64
import JsonPull.Proofs.Bytes.Payload
import JsonPull.Proofs.Text.Margin
import JsonPull.Proofs.Comments.Gap
import JsonPull.Proofs.Comments.Surfaced
import JsonPull.Proofs.Shift.Parallel
import JsonPull.Proofs.Shift.Scanning
import JsonPull.Proofs.Shift.Token
import JsonPull.Proofs.Bytes.Array
import JsonPull.Proofs.Bytes.Tokenizer
import JsonPull.Proofs.Names.Character
import JsonPull.Proofs.Shift.Tokenizer
import JsonPull.Proofs.Names.Spelling
import JsonPull.Proofs.Names.Member
import JsonPull.Proofs.Names.Tokenizer
import JsonPull.Proofs.Grammar.Element
import JsonPull.Proofs.Elements.Opening
import JsonPull.Proofs.Elements.Cells
import JsonPull.Proofs.Elements.Tokenizer
import JsonPull.Proofs.Chunk
import JsonPull.Proofs.Text.Step
import JsonPull.Proofs.Stream.Look
import JsonPull.Proofs.Tokenizer.Character
