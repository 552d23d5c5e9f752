import LinProg.Main
import LinProg.Program.Edit
import LinProg.Storage
import LinProg.Proofs.Tableau.Choice
import LinProg.Proofs.Tableau.Elimination
import LinProg.Proofs.Tableau.Vertex
import LinProg.Proofs.Tableau.Run
import LinProg.Proofs.Optimality
import LinProg.Proofs.Tableau.Start
import LinProg.Proofs.Tableau.Relaxation
import LinProg.Proofs.Engine.Optimize
import LinProg.Proofs.Engine.Soundness
import LinProg.Proofs.Engine.Tolerance
import LinProg.Proofs.Format.RoundTrip
import LinProg.Proofs.Tableau.SameBasis
import LinProg.Proofs.Engine.Penalised
import LinProg.Proofs.Engine.Bookkeeping
import LinProg.Proofs.Format.Accepts
import LinProg.Proofs.Engine.ColumnOrder
import LinProg.Proofs.Engine.Opposite
import LinProg.Proofs.Program.Representation
import LinProg.Proofs.Program.StoredObjective
import LinProg.Proofs.Tableau.Extension
import LinProg.Proofs.Engine.Descent
import LinProg.Proofs.Engine.History
import LinProg.Proofs.Engine.RowSigns
import LinProg.Proofs.Tableau.Divisors
import LinProg.Proofs.Format.FiniteNumbers
import LinProg.Proofs.Format.CountErrors
import LinProg.Proofs.Program.Insertion
import LinProg.Proofs.Format.Refusal
import LinProg.Proofs.CommandLine.LastFile
import LinProg.Proofs.Format.Objections
import LinProg.Proofs.CommandLine.Ending
import LinProg.Proofs.Tableau.FirstLeast
