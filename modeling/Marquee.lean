import Marquee.Color
import Marquee.Command.Arguments
import Marquee.Command.Basic
import Marquee.Command.Report
import Marquee.Command.Run
import Marquee.Config.Basic
import Marquee.Config.File
import Marquee.Config.Toml
import Marquee.Disposal
import Marquee.Document.Basic
import Marquee.Document.Decode
import Marquee.Error
import Marquee.Event
import Marquee.Extrusion
import Marquee.Fetch.Loader
import Marquee.Fetch.Picture
import Marquee.Fetch.Queue
import Marquee.Fetch.Request
import Marquee.Files.Disk
import Marquee.Files.Fault
import Marquee.Files.Folder
import Marquee.Font.Face
import Marquee.Font.Load
import Marquee.Font.Outline
import Marquee.Font.TrueType
import Marquee.Heading.Basic
import Marquee.Heading.Compile
import Marquee.Heading.Options
import Marquee.Heading.Row
import Marquee.Heading.Stack
import Marquee.Heading.Typeset
import Marquee.Json.Printer
import Marquee.Json.Reader
import Marquee.Json.Value
import Marquee.Main
import Marquee.Markup.Escape
import Marquee.Markup.Leaf
import Marquee.Markup.Lexer
import Marquee.Markup.Pen
import Marquee.Markup.Reader
import Marquee.Markup.Record
import Marquee.Markup.Token
import Marquee.Number.Layout
import Marquee.Number.Literal
import Marquee.Number.Precision
import Marquee.Number.Scaling
import Marquee.Number.Shortest
import Marquee.Proofs.Color.Hexadecimal
import Marquee.Proofs.Config.Address
import Marquee.Proofs.Config.Fields
import Marquee.Proofs.Config.Saving
import Marquee.Proofs.Heading.Answered
import Marquee.Proofs.Heading.Apart
import Marquee.Proofs.Heading.Apply
import Marquee.Proofs.Heading.Centered
import Marquee.Proofs.Heading.Depicted
import Marquee.Proofs.Heading.Fresh
import Marquee.Proofs.Heading.Gathered
import Marquee.Proofs.Heading.Inked
import Marquee.Proofs.Heading.Life
import Marquee.Proofs.Heading.Offsets
import Marquee.Proofs.Heading.Order
import Marquee.Proofs.Heading.Painted
import Marquee.Proofs.Heading.Passes
import Marquee.Proofs.Heading.Plan
import Marquee.Proofs.Heading.Recolored
import Marquee.Proofs.Heading.Requests
import Marquee.Proofs.Heading.Row
import Marquee.Proofs.Heading.Served
import Marquee.Proofs.Heading.Warned
import Marquee.Proofs.Markup.Barrier
import Marquee.Proofs.Markup.Cursor
import Marquee.Proofs.Markup.Ends
import Marquee.Proofs.Markup.Grammar
import Marquee.Proofs.Markup.Markers
import Marquee.Proofs.Markup.Nested
import Marquee.Proofs.Markup.Places
import Marquee.Proofs.Markup.Segments
import Marquee.Proofs.Markup.Selected
import Marquee.Proofs.Markup.Tokens
import Marquee.Proofs.Number.Amount
import Marquee.Proofs.Number.Arithmetic
import Marquee.Proofs.Number.Interval
import Marquee.Proofs.Number.Nearest
import Marquee.Proofs.Number.Numeral
import Marquee.Proofs.Number.Rounding
import Marquee.Proofs.Number.Single
import Marquee.Proofs.Number.Value
import Marquee.Proofs.Scene.Bounds
import Marquee.Proofs.Scene.Parts
import Marquee.Proofs.Space.Corners
import Marquee.Proofs.Space.Enclosure
import Marquee.Proofs.Space.Extent
import Marquee.Proofs.Stage.Appended
import Marquee.Proofs.Stage.Balance
import Marquee.Proofs.Stage.Basic
import Marquee.Proofs.Stage.Colored
import Marquee.Proofs.Stage.Completion
import Marquee.Proofs.Stage.Failure
import Marquee.Proofs.Stage.Keyed
import Marquee.Proofs.Stage.Landing
import Marquee.Proofs.Stage.Late
import Marquee.Proofs.Stage.Life
import Marquee.Proofs.Stage.Provenance
import Marquee.Proofs.Stage.Transparent
import Marquee.Proofs.Stage.Usage
import Marquee.Proofs.Stage.Warnings
import Marquee.Proofs.Store.Fingerprint
import Marquee.Proofs.Store.Ledger
import Marquee.Proofs.Store.Missed
import Marquee.Proofs.Text.Bytes
import Marquee.Proofs.Toml.Document
import Marquee.Proofs.Toml.Scalar
import Marquee.Proofs.Toml.Table
import Marquee.Proofs.Toml.Text
import Marquee.Proofs.Toml.Value
import Marquee.Scene.Camera
import Marquee.Scene.Decode
import Marquee.Scene.Material
import Marquee.Scene.Motion
import Marquee.Scene.Node
import Marquee.Scene.Record
import Marquee.Scene.TextGeometry
import Marquee.Space.Box
import Marquee.Space.Transform
import Marquee.Space.Vector
import Marquee.Store.Basic
import Marquee.Store.Shelf
import Marquee.Style
import Marquee.Text.Blank
import Marquee.Text.Graphic
import Marquee.Text.Quoted
import Marquee.Toml.Reader
import Marquee.Toml.Scalar
import Marquee.Toml.Table
import Marquee.Toml.Text
import Marquee.Toml.Writer
