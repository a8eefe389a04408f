import CodeSnippets.Main
import CodeSnippets.Proofs.Closing
import CodeSnippets.Proofs.Document
import CodeSnippets.Proofs.Hiding
import CodeSnippets.Proofs.Indentation
import CodeSnippets.Proofs.Reextraction
import CodeSnippets.Proofs.SliceNesting
import CodeSnippets.Proofs.TrailingBlanks
import CodeSnippets.Proofs.FileTree
import CodeSnippets.Proofs.SkippedLines
import CodeSnippets.Proofs.PathText
import CodeSnippets.Proofs.Lookup
import CodeSnippets.Proofs.Resolution
import CodeSnippets.Proofs.Containment
import CodeSnippets.Proofs.LinkRefusal
import CodeSnippets.Proofs.ParentDirectory
import CodeSnippets.Proofs.Writing
import CodeSnippets.Proofs.SourceAgreement
import CodeSnippets.Proofs.SettingsFaults
import CodeSnippets.Proofs.SettingsCheck
import CodeSnippets.Proofs.CompilerOptions
import CodeSnippets.Proofs.CompilerRuns
import CodeSnippets.Proofs.CompilerArguments
import CodeSnippets.Proofs.TargetPairing
import CodeSnippets.Proofs.CommandFaults
import CodeSnippets.Proofs.CanonicalDiscovery
import CodeSnippets.Proofs.ExtensionRules
import CodeSnippets.Proofs.WrittenExplanation
import CodeSnippets.Proofs.MarkerSpelling
import CodeSnippets.Proofs.JsonGrammar
import CodeSnippets.Proofs.JsonRendering
import CodeSnippets.Proofs.MarkerReading
import CodeSnippets.Proofs.SnippetJson
import CodeSnippets.Proofs.FileReading
import CodeSnippets.Proofs.CompilerSearch
import CodeSnippets.Proofs.ExpectedStart
import CodeSnippets.Proofs.MarginRemoval
