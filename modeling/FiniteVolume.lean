import FiniteVolume.Command.Models
import FiniteVolume.Expression.Calculator
import FiniteVolume.Expression.Context
import FiniteVolume.Model.Sum
import FiniteVolume.Proofs.Command
import FiniteVolume.Proofs.Dependencies.Directions
import FiniteVolume.Proofs.Device.Diagnostics
import FiniteVolume.Proofs.Device.Mixed
import FiniteVolume.Proofs.Device.Update
import FiniteVolume.Proofs.Device.Amounts
import FiniteVolume.Proofs.Device.Extent
import FiniteVolume.Proofs.Device.Failure
import FiniteVolume.Proofs.Device.Indifference
import FiniteVolume.Proofs.Device.Parameters
import FiniteVolume.Proofs.Device.Repetition
import FiniteVolume.Proofs.Device.Statistics
import FiniteVolume.Proofs.Equation.Linearisation
import FiniteVolume.Proofs.Equation.Missing
import FiniteVolume.Proofs.Equation.Residual
import FiniteVolume.Proofs.Expression.ErrorFunction
import FiniteVolume.Proofs.Expression.Faults
import FiniteVolume.Proofs.Expression.Fermi
import FiniteVolume.Proofs.Expression.Locality
import FiniteVolume.Proofs.Expression.Operators
import FiniteVolume.Proofs.Expression.Reduction
import FiniteVolume.Proofs.Expression.Uniform
import FiniteVolume.Proofs.Expression.Widening
import FiniteVolume.Proofs.Junction.Currency
import FiniteVolume.Proofs.Mesh.Construction
import FiniteVolume.Proofs.Model.Projection
import FiniteVolume.Proofs.Model.Replacement
import FiniteVolume.Proofs.Model.Touched
import FiniteVolume.Proofs.Name
import FiniteVolume.Proofs.Numeric.Vanishing
import FiniteVolume.Proofs.Update.Damping
import FiniteVolume.Proofs.Update.Positive
import FiniteVolume.Report.Mesh
