import BlockStudio.Measure.Report
import BlockStudio.Measure.Scenario
import BlockStudio.Measure.Selfcheck
import BlockStudio.Proofs.BoundedProgram
import BlockStudio.Proofs.Comparing
import BlockStudio.Proofs.ConnectedReporters
import BlockStudio.Proofs.InStep
import BlockStudio.Proofs.Mishaps
import BlockStudio.Proofs.OneStart
import BlockStudio.Proofs.PaletteScroll
import BlockStudio.Proofs.RenamePrompt
import BlockStudio.Proofs.RenamedSlots
import BlockStudio.Proofs.Renaming
import BlockStudio.Proofs.ReporterTypes
import BlockStudio.Proofs.SavedDefinitions
import BlockStudio.Proofs.StackLayout
import BlockStudio.Proofs.Streams
import BlockStudio.Proofs.TextSearch
import BlockStudio.Proofs.Unfolding
import BlockStudio.Session
