import ChipForge.Catalogue.Rules
import ChipForge.Main
import ChipForge.Sample.Figures
import ChipForge.Save.Template
import ChipForge.Save.View
import ChipForge.Proofs.Merge
import ChipForge.Proofs.OutputPorts
import ChipForge.Proofs.Acyclic
import ChipForge.Proofs.CallCounts
import ChipForge.Proofs.RealisedWires
import ChipForge.Proofs.NewIds
import ChipForge.Proofs.ExplicitTypes
import ChipForge.Proofs.OperationKeys
import ChipForge.Proofs.ConstantTypes
import ChipForge.Proofs.ForwardWires
import ChipForge.Proofs.AnchoredTypes
import ChipForge.Proofs.ClassHistories
import ChipForge.Proofs.InheritedKeys
import ChipForge.Proofs.InitialValues
import ChipForge.Proofs.RetypedEnds
import ChipForge.Proofs.VariableDefinitions
import ChipForge.Proofs.AddedEnds
import ChipForge.Proofs.ConstantEdits
import ChipForge.Proofs.SkippedValues
import ChipForge.Proofs.FirstDefinitions
import ChipForge.Proofs.Crossings
import ChipForge.Proofs.Routes
import ChipForge.Proofs.MatchedTypes
import ChipForge.Proofs.SharedConstants
import ChipForge.Proofs.KeywordCalls
import ChipForge.Proofs.FreshIds
import ChipForge.Proofs.SignedHeadings
import ChipForge.Proofs.ExactNames
