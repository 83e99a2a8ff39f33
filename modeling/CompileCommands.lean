import CompileCommands.Cli
import CompileCommands.Config.Resolution
import CompileCommands.Database
import CompileCommands.Fingerprint
import CompileCommands.Flags.Analysis
import CompileCommands.Main
import CompileCommands.Proofs.BuildPart.Faithful
import CompileCommands.Proofs.BuildPart.Partition
import CompileCommands.Proofs.Database.Damage
import CompileCommands.Proofs.Database.Writing
import CompileCommands.Proofs.Flags.UnitFilter
import CompileCommands.Proofs.ProjectTree.PartFiles
import CompileCommands.Proofs.Session.Publication
import CompileCommands.Proofs.Session.RootChange
import CompileCommands.Report
import CompileCommands.Report.Json
import CompileCommands.Session
import CompileCommands.Toolchain.Resolution
import CompileCommands.Proofs.Session.Cancellation
import CompileCommands.Proofs.Session.Origin
import CompileCommands.Proofs.Scan.Verdicts
import CompileCommands.Proofs.Session.History
import CompileCommands.Proofs.Database.Greedy
import CompileCommands.Proofs.Database.Reporting
import CompileCommands.Proofs.ProjectTree.Contents
import CompileCommands.Proofs.Config.Usable
import CompileCommands.Proofs.CommandLine.Quoting
import CompileCommands.Proofs.ProjectTree.Atomicity
import CompileCommands.Proofs.ProjectTree.Requests
import CompileCommands.Proofs.ProjectTree.Canonical
import CompileCommands.Proofs.Flags.Composition
import CompileCommands.Proofs.Flags.Spelling
import CompileCommands.Proofs.BuildPart.Template
import CompileCommands.Proofs.Toolchain.ExactMatch
import CompileCommands.Proofs.Database.FirstToken
import CompileCommands.Proofs.BuildPart.Toolchains
import CompileCommands.Proofs.BuildPart.LeadingOption
import CompileCommands.Proofs.Scan.Selection
import CompileCommands.Proofs.Flags.Kept
import CompileCommands.Proofs.Toolchain.Spelling
import CompileCommands.Proofs.Database.SourceFiles
import CompileCommands.Proofs.ProjectTree.Distinct
import CompileCommands.Proofs.Flags.OwnArguments
import CompileCommands.Proofs.BuildPart.Sharing
import CompileCommands.Proofs.Database.OneFile
import CompileCommands.Proofs.CommandLine.Conservation
import CompileCommands.Proofs.ProjectTree.Ways
