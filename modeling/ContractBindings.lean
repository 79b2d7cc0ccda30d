import ContractBindings.Main
import ContractBindings.Proofs.AppendedContracts
import ContractBindings.Proofs.CallFailures
import ContractBindings.Proofs.ConfigurationViews
import ContractBindings.Proofs.ElementCounts
import ContractBindings.Proofs.FailedBindings
import ContractBindings.Proofs.GeneratedCalls
import ContractBindings.Proofs.GeneratedFiles
import ContractBindings.Proofs.HashedTypes
import ContractBindings.Proofs.HexTexts
import ContractBindings.Proofs.LoggerLevels
import ContractBindings.Proofs.MethodLookup
import ContractBindings.Proofs.ModuleReading
import ContractBindings.Proofs.OptionUpdates
import ContractBindings.Proofs.TupleForms
