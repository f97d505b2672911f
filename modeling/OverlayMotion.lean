import OverlayMotion.Main
import OverlayMotion.Proofs.Grammar
import OverlayMotion.Proofs.Construction
import OverlayMotion.Proofs.Double
import OverlayMotion.Proofs.Exact
import OverlayMotion.Proofs.Builders
import OverlayMotion.Proofs.Labels
import OverlayMotion.Proofs.Network
import OverlayMotion.Proofs.Numeral
import OverlayMotion.Proofs.Gradual
import OverlayMotion.Proofs.Printing
import OverlayMotion.Proofs.RoundTrip
import OverlayMotion.Proofs.Wiring
import OverlayMotion.Proofs.Nearest
import OverlayMotion.Proofs.Magnitude
import OverlayMotion.Proofs.Share
import OverlayMotion.Proofs.Building
import OverlayMotion.Proofs.Compilation
import OverlayMotion.Proofs.Quantities
import OverlayMotion.Proofs.Preparation
import OverlayMotion.Proofs.Legibility
import OverlayMotion.Proofs.Loading
import OverlayMotion.Proofs.Sampling
import OverlayMotion.Proofs.Window
import OverlayMotion.Proofs.Inspection
import OverlayMotion.Proofs.Fragment
import OverlayMotion.Proofs.Agreement
import OverlayMotion.Proofs.Alongside
import OverlayMotion.Proofs.Definite
import OverlayMotion.Proofs.Shift
import OverlayMotion.Proofs.Axes
import OverlayMotion.Proofs.Extended
import OverlayMotion.Proofs.Ordered
import OverlayMotion.Proofs.Accepted
import OverlayMotion.Proofs.SteadyMotion
import OverlayMotion.Proofs.ZoomBounds
import OverlayMotion.Proofs.Explained
import OverlayMotion.Proofs.Placeholders
import OverlayMotion.Proofs.QuotedOption
import OverlayMotion.Proofs.FadeOuts
import OverlayMotion.Proofs.QuotedFormulas
import OverlayMotion.Proofs.Processes
import OverlayMotion.Proofs.Probing
import OverlayMotion.Proofs.Runs
import OverlayMotion.Proofs.Arguments
import OverlayMotion.Proofs.JobFiles
import OverlayMotion.Proofs.ZoomScale
import OverlayMotion.Proofs.FrameTime
import OverlayMotion.Proofs.NumberProjection
import OverlayMotion.Proofs.UserSettings
import OverlayMotion.Proofs.ErrorLines
import OverlayMotion.Proofs.NameCases
import OverlayMotion.Proofs.EasingLaws
import OverlayMotion.Proofs.Lexemes
