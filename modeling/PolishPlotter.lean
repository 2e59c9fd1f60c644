import PolishPlotter.Main
import PolishPlotter.Proofs.Screen.Abandonment
import PolishPlotter.Proofs.Screen.Sampling
import PolishPlotter.Proofs.Machine.Tree
import PolishPlotter.Proofs.Machine.Evaluation
import PolishPlotter.Proofs.Controls.Coherent
import PolishPlotter.Proofs.Session.Coherence
import PolishPlotter.Proofs.Session.Line
import PolishPlotter.Proofs.Text.Words
import PolishPlotter.Proofs.Controls.Keys
import PolishPlotter.Proofs.Session.Effects
import PolishPlotter.Proofs.Session.Ending
import PolishPlotter.Proofs.Machine.Agreement
import PolishPlotter.Proofs.Session.WellFormed
import PolishPlotter.Proofs.Session.History
import PolishPlotter.Proofs.Session.Influence
import PolishPlotter.Proofs.Screen.Limit
import PolishPlotter.Proofs.Session.Conversation
import PolishPlotter.Proofs.Binary64.Nearest
import PolishPlotter.Proofs.Binary64.Finite
import PolishPlotter.Proofs.Decimal.Numeral
import PolishPlotter.Proofs.Decimal.Shortest
import PolishPlotter.Proofs.Controls.Typing
import PolishPlotter.Proofs.Session.Retyping
import PolishPlotter.Proofs.Binary64.Rounding
import PolishPlotter.Proofs.Binary64.Arithmetic
import PolishPlotter.Proofs.Screen.Zoom
import PolishPlotter.Proofs.Machine.Registry
import PolishPlotter.Proofs.Screen.Tracing
import PolishPlotter.Proofs.Settings.Usable
import PolishPlotter.Proofs.Session.Groups
import PolishPlotter.Proofs.Controls.Undo
import PolishPlotter.Proofs.Binary64.Order
import PolishPlotter.Proofs.Controls.Range
import PolishPlotter.Proofs.Session.Sliding
import PolishPlotter.Proofs.Binary64.Whole
import PolishPlotter.Proofs.Screen.Drawing
import PolishPlotter.Proofs.Screen.Escape
import PolishPlotter.Proofs.Screen.Rendering
import PolishPlotter.Proofs.Text.Octets
import PolishPlotter.Proofs.Json.Grammar
import PolishPlotter.Proofs.Json.Strings
import PolishPlotter.Proofs.Json.Numerals
import PolishPlotter.Proofs.Json.Skipping
import PolishPlotter.Proofs.Json.Reading
import PolishPlotter.Proofs.Json.Records
import PolishPlotter.Proofs.Json.Facets
import PolishPlotter.Proofs.Settings.Overrides
import PolishPlotter.Proofs.Screen.Interpretation
import PolishPlotter.Proofs.Session.Refusals
import PolishPlotter.Proofs.Session.Vocabulary
import PolishPlotter.Proofs.Session.Numbers
import PolishPlotter.Proofs.Session.Separation
import PolishPlotter.Proofs.Session.Pointing
import PolishPlotter.Proofs.Screen.Lines
import PolishPlotter.Proofs.Session.Texts
import PolishPlotter.Proofs.Session.Display
import PolishPlotter.Proofs.Binary64.Ratio
import PolishPlotter.Proofs.Binary64.Comparison
import PolishPlotter.Proofs.Binary64.Nan
import PolishPlotter.Proofs.Binary64.Quotient
import PolishPlotter.Proofs.Binary64.Floor
import PolishPlotter.Proofs.Controls.Touch
import PolishPlotter.Proofs.Screen.Cells
import PolishPlotter.Proofs.Screen.Along
import PolishPlotter.Proofs.Screen.Segment
import PolishPlotter.Proofs.Screen.Exact
import PolishPlotter.Proofs.Screen.Motion
import PolishPlotter.Proofs.Screen.Coordinates
import PolishPlotter.Proofs.Machine.Accounting
