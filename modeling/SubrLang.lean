import SubrLang.Main
import SubrLang.Proofs.IdentifierFrames
import SubrLang.Proofs.RunLimits
import SubrLang.Proofs.ArrayRecords
import SubrLang.Proofs.ArrayIndexing
import SubrLang.Proofs.PrintedValues
import SubrLang.Proofs.ArgumentPlaces
import SubrLang.Proofs.ErrorRecovery
import SubrLang.Proofs.ShortestWriting
import SubrLang.Proofs.WideningSearch
import SubrLang.Proofs.SignatureUnification
import SubrLang.Proofs.ErrorCascades
import SubrLang.Proofs.StringComparisons
import SubrLang.Proofs.TypeEquality
import SubrLang.Proofs.EmittedSubroutines
import SubrLang.Proofs.ByteStorage
import SubrLang.Proofs.FormattedOutput
import SubrLang.Proofs.MarkedPlaces
import SubrLang.Proofs.Sizes
import SubrLang.Proofs.FlagLists
import SubrLang.Proofs.Toggles
import SubrLang.Proofs.NestedIndentation
import SubrLang.Proofs.SuiteVerdicts
