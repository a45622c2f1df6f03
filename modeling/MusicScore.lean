import MusicScore.Beats
import MusicScore.Chord.Quality
import MusicScore.Datum.Basic
import MusicScore.Datum.Order
import MusicScore.Datum.Parts
import MusicScore.Datum.Records
import MusicScore.Duration
import MusicScore.Dynamic.Basic
import MusicScore.Dynamic.Level
import MusicScore.Event.Basic
import MusicScore.Event.Given
import MusicScore.Fault
import MusicScore.FileTree
import MusicScore.Instrument
import MusicScore.Json.Basic
import MusicScore.Json.Reading
import MusicScore.Json.Writing
import MusicScore.Metadata
import MusicScore.Midi.File
import MusicScore.Midi.Given
import MusicScore.Midi.Message
import MusicScore.Midi.Options
import MusicScore.Midi.Quantity
import MusicScore.Midi.Stroke
import MusicScore.Midi.Ticks
import MusicScore.Midi.Track
import MusicScore.Moment
import MusicScore.Number.Basic
import MusicScore.Number.Double
import MusicScore.Number.Double.Reading
import MusicScore.Number.Double.Shortest
import MusicScore.Number.FractionText
import MusicScore.Number.IntegerText
import MusicScore.Number.Logarithm
import MusicScore.Number.Numeral
import MusicScore.Number.Rounding
import MusicScore.Part.Basic
import MusicScore.Phrase.Basic
import MusicScore.Phrase.Given
import MusicScore.Pitch.Basic
import MusicScore.Pitch.Spelling
import MusicScore.Proofs.Latest
import MusicScore.Proofs.Midi.Decoding
import MusicScore.Proofs.Midi.Playing
import MusicScore.Proofs.Midi.Quantity
import MusicScore.Proofs.Midi.Reader
import MusicScore.Proofs.Midi.Strokes
import MusicScore.Proofs.Midi.Ticks
import MusicScore.Proofs.Outcome
import MusicScore.Proofs.Part.Lengths
import MusicScore.Proofs.Phrase.Growth
import MusicScore.Proofs.Phrase.Schedule
import MusicScore.Proofs.Score.Agreement
import MusicScore.Proofs.Score.Decoding
import MusicScore.Proofs.Score.Music
import MusicScore.Proofs.Score.Notes
import MusicScore.Proofs.Score.Refusals
import MusicScore.Proofs.Score.Tracks
import MusicScore.Proofs.Sorting
import MusicScore.Proofs.Workspace.Effects
import MusicScore.Proofs.Workspace.Phrases
import MusicScore.Proofs.Workspace.Reachable
import MusicScore.Scale
import MusicScore.Score.Basic
import MusicScore.Score.Encoding
import MusicScore.Score.Export
import MusicScore.Score.Timeline
import MusicScore.Sink
import MusicScore.Sorting
import MusicScore.Tempo
import MusicScore.Text.Base64
import MusicScore.Text.Case
import MusicScore.Text.CharClass
import MusicScore.Text.Digit
import MusicScore.Text.Pattern
import MusicScore.Text.Printable
import MusicScore.Text.Quoted
import MusicScore.Text.Shown
import MusicScore.Text.Template
import MusicScore.TimeSignature
import MusicScore.Timeline.Basic
import MusicScore.Timeline.Note
import MusicScore.Timeline.Summary
import MusicScore.Workspace.Basic
import MusicScore.Workspace.Command
import MusicScore.Yaml.Amount
import MusicScore.Yaml.Block
import MusicScore.Yaml.Cursor
import MusicScore.Yaml.Draft
import MusicScore.Yaml.Folding
import MusicScore.Yaml.Kind
import MusicScore.Yaml.Merging
import MusicScore.Yaml.Node
import MusicScore.Yaml.Plain
import MusicScore.Yaml.Quoted
import MusicScore.Yaml.Reading
import MusicScore.Yaml.Style
import MusicScore.Yaml.Time
import MusicScore.Yaml.Token
import MusicScore.Yaml.Token.Lexer
import MusicScore.Yaml.Writing
import MusicScore.Yaml.Written
import MusicScore.Proofs.Workspace.Lengths
import MusicScore.Proofs.Score.Faults
import MusicScore.Proofs.Score.Acceptance
import MusicScore.Proofs.Score.Escapes
import MusicScore.Proofs.Part.Timeline
import MusicScore.Proofs.Phrase.Record
import MusicScore.Proofs.Workspace.Ownership
import MusicScore.Proofs.Score.Delivery
import MusicScore.Proofs.Number.Rounding
import MusicScore.Proofs.Midi.OneTick
import MusicScore.Proofs.Score.Keys
import MusicScore.Proofs.Json.Document
import MusicScore.Proofs.Score.Document
import MusicScore.Proofs.Score.Yaml
import MusicScore.Proofs.Phrase.Misplacement
import MusicScore.Proofs.Score.Reordering
import MusicScore.Proofs.Score.Counting
import MusicScore.Proofs.Score.Listing
import MusicScore.Proofs.Score.Silence
import MusicScore.Proofs.Score.Counts
import MusicScore.Proofs.Workspace.Copies
import MusicScore.Proofs.Midi.Retiming
import MusicScore.Proofs.Score.Resolution
import MusicScore.Proofs.Score.Naming
import MusicScore.Proofs.Part.Moving
import MusicScore.Proofs.Score.Appending
import MusicScore.Proofs.Score.Lengths
import MusicScore.Proofs.Phrase.Running
import MusicScore.Proofs.Scale.Ascent
import MusicScore.Proofs.Beats
import MusicScore.Proofs.Pitch.Naming
import MusicScore.Proofs.TimeSignature
import MusicScore.Proofs.Chord.Quality
import MusicScore.Proofs.Midi.Tempo
import MusicScore.Proofs.Midi.Canonical
import MusicScore.Proofs.Midi.Body
import MusicScore.Proofs.Midi.Given
import MusicScore.Proofs.Midi.Distances
import MusicScore.Proofs.FileTree.Path
import MusicScore.Proofs.FileTree.Writing
import MusicScore.Proofs.Score.Saving
