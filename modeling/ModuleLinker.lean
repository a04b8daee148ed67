import ModuleLinker.Files.Tree
import ModuleLinker.Image.Construction
import ModuleLinker.Main
import ModuleLinker.Proofs.Appending
import ModuleLinker.Proofs.BlobOffset
import ModuleLinker.Proofs.Collisions
import ModuleLinker.Proofs.Construction
import ModuleLinker.Proofs.ContentHashes
import ModuleLinker.Proofs.ContractExemption
import ModuleLinker.Proofs.DeclaredOnce
import ModuleLinker.Proofs.DistinctEntries
import ModuleLinker.Proofs.ExportList
import ModuleLinker.Proofs.ExportReferences
import ModuleLinker.Proofs.ExportWalks
import ModuleLinker.Proofs.ExternalModules
import ModuleLinker.Proofs.FieldTypes
import ModuleLinker.Proofs.FirstBodies
import ModuleLinker.Proofs.Folding
import ModuleLinker.Proofs.FreshNames
import ModuleLinker.Proofs.Locators
import ModuleLinker.Proofs.ModuleLevel
import ModuleLinker.Proofs.NestedHygiene
import ModuleLinker.Proofs.Preservation
import ModuleLinker.Proofs.PrimaryLocators
import ModuleLinker.Proofs.PrimaryPosition
import ModuleLinker.Proofs.RegistryStores
import ModuleLinker.Proofs.RepeatedCalls
import ModuleLinker.Proofs.ResolvedExports
import ModuleLinker.Proofs.ResourceTrees
import ModuleLinker.Proofs.Validation
import ModuleLinker.Proofs.WellFormed
