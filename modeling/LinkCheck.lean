import LinkCheck.AccessFlags
import LinkCheck.Archive
import LinkCheck.Archive.Checksum
import LinkCheck.Archive.EndRecord
import LinkCheck.Archive.EntryName
import LinkCheck.Archive.EntryRecord
import LinkCheck.Archive.ExtraField
import LinkCheck.Archive.Fault
import LinkCheck.Archive.Inflate
import LinkCheck.Archive.Method
import LinkCheck.Archive.Packing
import LinkCheck.Archive.Record
import LinkCheck.Bytecode
import LinkCheck.ClassDefinition
import LinkCheck.ClassDefinition.OfClassFile
import LinkCheck.ClassDefinition.References
import LinkCheck.ClassFile
import LinkCheck.ClassFile.ByteReader
import LinkCheck.ClassFile.Layout
import LinkCheck.ClassFile.Utf8Text
import LinkCheck.ClassName
import LinkCheck.ClassSource
import LinkCheck.ClassSource.Lookup
import LinkCheck.ClassSource.Opening
import LinkCheck.Classpath
import LinkCheck.Closure
import LinkCheck.CommandLine
import LinkCheck.Descriptor
import LinkCheck.FileTree
import LinkCheck.FileTree.OpenedArchive
import LinkCheck.FileTree.Path
import LinkCheck.FileTree.Place
import LinkCheck.Hierarchy
import LinkCheck.Hierarchy.Access
import LinkCheck.Hierarchy.Resolution
import LinkCheck.Main
import LinkCheck.Options
import LinkCheck.Plugin
import LinkCheck.PluginLayout
import LinkCheck.Problem
import LinkCheck.Problem.Location
import LinkCheck.Problem.ProblemSet
import LinkCheck.Proofs.AbsentClasses
import LinkCheck.Proofs.ClasspathViews
import LinkCheck.Proofs.ClosureStates
import LinkCheck.Proofs.CompleteClosures
import LinkCheck.Proofs.CycleDetection
import LinkCheck.Proofs.Expansion
import LinkCheck.Proofs.Exploration
import LinkCheck.Proofs.FlatChecks
import LinkCheck.Proofs.LayeredSources
import LinkCheck.Proofs.ProblemSets
import LinkCheck.Proofs.Reachability
import LinkCheck.Proofs.ResolvedClosures
import LinkCheck.Proofs.Runs
import LinkCheck.Proofs.ShelfMemory
import LinkCheck.Proofs.SoundStates
import LinkCheck.Proofs.SteadyAnswers
import LinkCheck.Proofs.Tables
import LinkCheck.ReadError
import LinkCheck.RecencyCache
import LinkCheck.Reference
import LinkCheck.Session
import LinkCheck.Signature
import LinkCheck.Sorting
import LinkCheck.Table
import LinkCheck.TextReader
import LinkCheck.Verification
import LinkCheck.Verification.References
import LinkCheck.Proofs.CycleMarks
import LinkCheck.Proofs.CyclicPlugins
import LinkCheck.Proofs.DiscoveryOrder
import LinkCheck.Proofs.ExactAnswers
import LinkCheck.Proofs.Supertypes
import LinkCheck.Proofs.ComposedSources
import LinkCheck.Proofs.MethodResolution
import LinkCheck.Proofs.ComparedChecks
import LinkCheck.Proofs.OptionFilters
import LinkCheck.Proofs.StoredArchives
import LinkCheck.Proofs.DirectoryWalks
import LinkCheck.Proofs.ClasswiseChecks
import LinkCheck.Proofs.ReorderedArchives
import LinkCheck.Proofs.ModifiedUtf8
import LinkCheck.Proofs.WrittenClassFiles
import LinkCheck.Proofs.SettledAnswers
import LinkCheck.Proofs.IndependentChecks
import LinkCheck.Proofs.FieldSearch
import LinkCheck.Proofs.SpecificDefaults
import LinkCheck.Proofs.UnimplementedMethods
import LinkCheck.Proofs.InstructionLayout
import LinkCheck.Proofs.InstructionReferences
import LinkCheck.Proofs.ScannedReferences
import LinkCheck.Proofs.WellFormedCode
import LinkCheck.Proofs.TruncatedClassFiles
import LinkCheck.Proofs.RewrittenClassFiles
import LinkCheck.Proofs.DebuggingMetadata
import LinkCheck.Proofs.DecodedTexts
import LinkCheck.Proofs.TextReading
import LinkCheck.Proofs.WrittenDescriptors
import LinkCheck.Proofs.SignatureGrammar
import LinkCheck.Proofs.SignatureReading
import LinkCheck.Proofs.TypeParameters
import LinkCheck.Proofs.DeclaredSignatures
import LinkCheck.Proofs.LastingClosures
import LinkCheck.Proofs.MergeLaws
import LinkCheck.Proofs.ExpansionCounts
import LinkCheck.Proofs.RecentKeys
import LinkCheck.Proofs.SuperclassWalks
import LinkCheck.Proofs.HierarchyLoops
import LinkCheck.Proofs.FinalOverrides
import LinkCheck.Proofs.PluginFiles
import LinkCheck.Proofs.PluginLayouts
