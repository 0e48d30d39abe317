import BlockScript.Block
import BlockScript.Body
import BlockScript.Body.Reader
import BlockScript.Body.Steps
import BlockScript.Cli.Arguments
import BlockScript.Cli.Files
import BlockScript.Cli.Run
import BlockScript.Cursor
import BlockScript.Cursor.Reaches
import BlockScript.Diagnostic
import BlockScript.Diagnostic.Excerpt
import BlockScript.Json
import BlockScript.Lexer
import BlockScript.Main
import BlockScript.Number.Binary
import BlockScript.Number.Decimal
import BlockScript.Number.Layout
import BlockScript.Number.Rounding
import BlockScript.Number.Shortest
import BlockScript.Number.Whole
import BlockScript.Position
import BlockScript.Registry
import BlockScript.Registry.Standard
import BlockScript.Script
import BlockScript.Script.Json
import BlockScript.Script.Printer
import BlockScript.Settings
import BlockScript.Settings.Layers
import BlockScript.Settings.Path
import BlockScript.Settings.Toml
import BlockScript.Settings.Toml.Moment
import BlockScript.Settings.Toml.Node
import BlockScript.Settings.Toml.Numeral
import BlockScript.Settings.Toml.Text
import BlockScript.Settings.Tree
import BlockScript.Text.Blank
import BlockScript.Text.Lines
import BlockScript.Text.Literal
import BlockScript.Text.Unseen
import BlockScript.Token
import BlockScript.Value
import BlockScript.Value.Printer
import BlockScript.Value.Reader
import BlockScript.Word
import BlockScript.Proofs.BlockStructure
import BlockScript.Proofs.Closing
import BlockScript.Proofs.Concatenation
import BlockScript.Proofs.Continuation
import BlockScript.Proofs.Denotation
import BlockScript.Proofs.Dispatch
import BlockScript.Proofs.Items
import BlockScript.Proofs.Numerals
import BlockScript.Proofs.Problems
import BlockScript.Proofs.Remaining
import BlockScript.Proofs.RoundTrip
import BlockScript.Proofs.Shift
import BlockScript.Proofs.Simulation
import BlockScript.Proofs.Simulation.Body
import BlockScript.Proofs.Simulation.Script
import BlockScript.Proofs.Spelling
import BlockScript.Proofs.Spelling.Numbers
import BlockScript.Proofs.Taking
import BlockScript.Proofs.Tiling
import BlockScript.Proofs.Recognition
import BlockScript.Proofs.TableGrammar
import BlockScript.Proofs.Plans
import BlockScript.Proofs.Prelexed
import BlockScript.Proofs.Origins
import BlockScript.Proofs.Spelling.Scripts
import BlockScript.Proofs.Rereading
import BlockScript.Proofs.Rendering
import BlockScript.Proofs.Reporting
import BlockScript.Proofs.Rounds
import BlockScript.Proofs.Realignment
import BlockScript.Proofs.Tallies
import BlockScript.Proofs.Accounting
import BlockScript.Proofs.ItemBlocks
import BlockScript.Proofs.Slices
import BlockScript.Proofs.SelfContained
import BlockScript.Proofs.Positions
import BlockScript.Proofs.Operations
import BlockScript.Proofs.Spans
import BlockScript.Proofs.Headers
import BlockScript.Proofs.Registration
import BlockScript.Proofs.Keywords
import BlockScript.Proofs.Proceeding
import BlockScript.Proofs.Locations
import BlockScript.Proofs.Places
import BlockScript.Proofs.SourceOrder
import BlockScript.Proofs.Layout
import BlockScript.Proofs.Configuration
import BlockScript.Proofs.Vocabulary
import BlockScript.Proofs.Excerpts
import BlockScript.Proofs.NumeralGrammar
import BlockScript.Proofs.Rounding
import BlockScript.Proofs.NumberWords
import BlockScript.Proofs.Calls
import BlockScript.Proofs.Carets
import BlockScript.Proofs.Skipping
import BlockScript.Proofs.Confinement
import BlockScript.Proofs.Restarting
import BlockScript.Proofs.Restarting
