import CobolSymbols.Json.Writer
import CobolSymbols.Name.Interner
import CobolSymbols.Options.Codec
import CobolSymbols.Script
import CobolSymbols.Table.Listing
import CobolSymbols.Proofs.Session.Rebuilding
import CobolSymbols.Proofs.GlobalVisibility
import CobolSymbols.Proofs.ParagraphSections
import CobolSymbols.Proofs.Session.Detaching
import CobolSymbols.Proofs.StorageSections
import CobolSymbols.Proofs.ProgramNames
import CobolSymbols.Proofs.RedefinedLevels
import CobolSymbols.Proofs.ExactSizes
import CobolSymbols.Proofs.Picture.Categories
import CobolSymbols.Proofs.Restrictions
import CobolSymbols.Proofs.LevelNesting
import CobolSymbols.Proofs.ProcedureMarks
import CobolSymbols.Proofs.Trace
import CobolSymbols.Proofs.TypeBodies
import CobolSymbols.Proofs.TypeCircles
import CobolSymbols.Proofs.RecordLayout
