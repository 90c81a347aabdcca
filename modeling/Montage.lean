import Montage.Number.Exact
import Montage.Number.Shortest
import Montage.Number.Numeral
import Montage.Text.Blank
import Montage.Text.Utf8
import Montage.Number.Literal
import Montage.Json.Value
import Montage.Json.Token
import Montage.Json.Parser
import Montage.Json.Printer
import Montage.Json.Codec
import Montage.Json.Record
import Montage.Failure
import Montage.Direction
import Montage.Seconds
import Montage.Clip
import Montage.Effect
import Montage.Transition
import Montage.Finding
import Montage.Effect.Settings
import Montage.Effect.Check
import Montage.Filter
import Montage.Filter.Expr
import Montage.Filter.Fingerprint
import Montage.Filter.Graph
import Montage.Filter.Step
import Montage.Motion
import Montage.Motion.Slide
import Montage.Motion.Zoom
import Montage.Motion.Fragment
import Montage.Json.Settings
import Montage.Json.Report
import Montage.Timeline
import Montage.Timeline.Fit
import Montage.Timeline.Job
import Montage.Timeline.Piece
import Montage.Timeline.Plan
import Montage.Timeline.Assembly
import Montage.Timeline.Compile
import Montage.Json.Timeline
import Montage.Text.Quote
import Montage.Command.Encoding
import Montage.Command.Shell
import Montage.Command
import Montage.Path
import Montage.SceneFiles
import Montage.Host
import Montage.Media
import Montage.Merge
import Montage.Render
import Montage.Json.Command
import Montage.Host.Workspace
import Montage.CommandLine.Words
import Montage.CommandLine.Request
import Montage.CommandLine.Fault
import Montage.CommandLine.Scene
import Montage.CommandLine.Timeline
import Montage.CommandLine.Story
import Montage.CommandLine
import Montage.Main
import Montage.Filter.Reader
import Montage.Proofs.Filter.Wiring
import Montage.Proofs.Number.Point
import Montage.Proofs.Number.Rounding
import Montage.Proofs.Number.Arithmetic
import Montage.Proofs.Seconds
import Montage.Proofs.Timeline.Fit
import Montage.Proofs.Timeline.Plan
import Montage.Proofs.Timeline.Assembly
import Montage.Proofs.Timeline.Compile
import Montage.Proofs.Timeline.Placement
import Montage.Proofs.Command.Shell
import Montage.Proofs.Filter.Reading
import Montage.Proofs.Filter.Spelling
import Montage.Proofs.Timeline.Reading
import Montage.Proofs.Timeline.Piece
import Montage.Proofs.Timeline.Reach
import Montage.Proofs.Command.Options
import Montage.Proofs.Command.Feed
import Montage.Proofs.Finding
import Montage.Proofs.Timeline.Job
import Montage.Proofs.Merge.Flow
import Montage.Proofs.Host.Workspace
import Montage.Proofs.Media
import Montage.Proofs.Merge.Place
import Montage.Proofs.CommandLine.Story
import Montage.Proofs.Effect.Check
import Montage.Proofs.Motion.View
import Montage.Proofs.Motion.Inside
import Montage.Proofs.Motion.Ramp
import Montage.Proofs.Motion.Drift
import Montage.Proofs.Motion.Change
import Montage.Proofs.Timeline.Limits
import Montage.Proofs.Timeline.Account
import Montage.Proofs.Filter.Formula
import Montage.Proofs.Timeline.Count
import Montage.Proofs.Number.Overflow
import Montage.Proofs.Motion.Written
import Montage.Proofs.Effect.Shown
import Montage.Proofs.Timeline.Beginning
import Montage.Proofs.Timeline.Redistribute
import Montage.Proofs.Text.Blank
import Montage.Proofs.Text.Utf8
import Montage.Proofs.Direction.Precedence
import Montage.Proofs.Effect.Names
import Montage.Proofs.Host.Writing
import Montage.Proofs.Merge.Reading
import Montage.Proofs.Merge.Sources
import Montage.Proofs.CommandLine.Work
import Montage.Proofs.CommandLine.Narration
import Montage.Proofs.CommandLine.Sources
import Montage.Proofs.Text.Digits
import Montage.Proofs.Filter.Fingerprint
import Montage.Proofs.Number.Literal
import Montage.Proofs.Number.Plain
import Montage.Proofs.Number.Nearest
import Montage.Proofs.Number.Decimal
import Montage.Proofs.Number.Shortest
import Montage.Proofs.Number.Layout
import Montage.Proofs.Seconds.Frames
import Montage.Proofs.Json.Tokens
import Montage.Proofs.Json.Sound
import Montage.Proofs.Json.Text
import Montage.Proofs.Json.Codec
import Montage.Proofs.Json.Record
import Montage.Proofs.Json.Settings
import Montage.Proofs.Json.Timeline
