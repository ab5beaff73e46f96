import CurveArea.Number.Binary32
import CurveArea.Number.Binary64
import CurveArea.Session.Sheet
import CurveArea.Proofs.Formula.Scan
import CurveArea.Proofs.Formula.Tree
import CurveArea.Proofs.Formula.Writing
import CurveArea.Proofs.Formula.Run
import CurveArea.Proofs.Formula.Grammar
import CurveArea.Proofs.Formula.Joining
import CurveArea.Proofs.Formula.Descent
import CurveArea.Proofs.Float.Rounding
import CurveArea.Proofs.Float.Unpacked
import CurveArea.Proofs.Plane.Passes
import CurveArea.Proofs.Float.Packed
import CurveArea.Proofs.Float.Arithmetic
import CurveArea.Proofs.Plane.Ending
import CurveArea.Proofs.Plane.Steps
import CurveArea.Proofs.Plane.Draws
import CurveArea.Proofs.Plane.Failing
import CurveArea.Proofs.Session.Endless
import CurveArea.Proofs.Session.Histories
import CurveArea.Proofs.Decimal.Digits
import CurveArea.Proofs.Decimal.Shortest
import CurveArea.Proofs.Float.Bits
import CurveArea.Proofs.Float.Reading
import CurveArea.Proofs.Record.Texts
import CurveArea.Proofs.Record.Values
import CurveArea.Proofs.Session.Restoring
import CurveArea.Proofs.Formula.Scopes
import CurveArea.Proofs.Formula.Substitution
import CurveArea.Proofs.Session.Launches
import CurveArea.Proofs.Session.Comparisons
import CurveArea.Proofs.Session.Entries
import CurveArea.Proofs.Formula.Acceptance
import CurveArea.Proofs.Formula.Faults
import CurveArea.Proofs.Formula.Markers
import CurveArea.Proofs.Formula.Conservation
import CurveArea.Proofs.Formula.Balance
import CurveArea.Proofs.Session.Relaunches
import CurveArea.Proofs.Session.Sheets
import CurveArea.Proofs.Record.Lexemes
import CurveArea.Proofs.Record.Quotes
import CurveArea.Proofs.Record.Figures
import CurveArea.Proofs.Record.Passing
import CurveArea.Proofs.Session.Items
import CurveArea.Proofs.Session.Records
import CurveArea.Proofs.Formula.Parentheses
import CurveArea.Proofs.Plane.Inside
import CurveArea.Proofs.Plane.Bounds
import CurveArea.Proofs.Plane.Exact
import CurveArea.Proofs.Plane.Work
import CurveArea.Proofs.Plane.Slopes
import CurveArea.Proofs.Plane.Rectangle
import CurveArea.Proofs.Float.Roots
import CurveArea.Proofs.Plane.Estimates
import CurveArea.Proofs.Plane.Regions
import CurveArea.Proofs.Plane.Resolution
import CurveArea.Proofs.Plane.Admission
import CurveArea.Proofs.Plane.Ticks
import CurveArea.Proofs.Float.Narrowing
import CurveArea.Proofs.Plane.Pixels
import CurveArea.Proofs.Decimal.Labels
import CurveArea.Proofs.Float.Labels
import CurveArea.Proofs.Formula.Stacks
