import Reckoner.Host.Tool
import Reckoner.Proofs.Arithmetic.Counting
import Reckoner.Proofs.Arithmetic.Divisor
import Reckoner.Proofs.Arithmetic.Factorial
import Reckoner.Proofs.Arithmetic.Multiple
import Reckoner.Proofs.Arithmetic.Prime
import Reckoner.Proofs.Arithmetic.Root
import Reckoner.Proofs.Calculus.Containment
import Reckoner.Proofs.Calculus.Extrema
import Reckoner.Proofs.Calculus.Quadrature
import Reckoner.Proofs.Calculus.Taylor
import Reckoner.Proofs.Display.FeedBack
import Reckoner.Proofs.Display.Integer
import Reckoner.Proofs.Display.Thousands
import Reckoner.Proofs.ListLiteral.RoundTrip
import Reckoner.Proofs.Logic.Bitwise
import Reckoner.Proofs.Machine.Readback
import Reckoner.Proofs.Matrix.Inverse
import Reckoner.Proofs.Normal.Enclosure
import Reckoner.Proofs.Normal.Repair
import Reckoner.Proofs.Parse.Reading
import Reckoner.Proofs.Parse.Size
import Reckoner.Proofs.Parse.Written
import Reckoner.Proofs.Radix.RoundTrip
import Reckoner.Proofs.Render.Tokens
import Reckoner.Proofs.Scan.Layout
import Reckoner.Proofs.Session.Failure
import Reckoner.Proofs.Session.Replay
import Reckoner.Proofs.Session.Stored
import Reckoner.Proofs.Settings.Override
import Reckoner.Proofs.Statistics.Mode
import Reckoner.Proofs.Statistics.Permutation
import Reckoner.Proofs.Vector.Lengths
