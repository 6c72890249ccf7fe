import AgentDocs.Main
import AgentDocs.Proofs.Files.Join
import AgentDocs.Proofs.Files.Walk
import AgentDocs.Proofs.Files.Directory
import AgentDocs.Proofs.Files.Same
import AgentDocs.Proofs.Template.Confinement
import AgentDocs.Proofs.Template.Leftover
import AgentDocs.Proofs.Template.LineEndings
import AgentDocs.Proofs.Build.Footprint
import AgentDocs.Proofs.Build.Sources
import AgentDocs.Proofs.Build.Fixpoint
import AgentDocs.Proofs.Build.Stale
import AgentDocs.Proofs.Build.Changes
import AgentDocs.Proofs.Build.Order
import AgentDocs.Proofs.Template.Traced
import AgentDocs.Proofs.CommandLine.ExitCode
import AgentDocs.Proofs.Build.Relisted
import AgentDocs.Proofs.Build.Mirror
import AgentDocs.Proofs.Template.Depth
import AgentDocs.Proofs.Build.Accounts
import AgentDocs.Proofs.Build.Repair
import AgentDocs.Proofs.Template.Linewise
import AgentDocs.Proofs.Template.Layout
import AgentDocs.Proofs.Template.Scan
import AgentDocs.Proofs.Template.Alignment
import AgentDocs.Proofs.Template.Admission
import AgentDocs.Proofs.Template.Blocks
import AgentDocs.Proofs.Template.Delimited
import AgentDocs.Proofs.Yaml.Inert
import AgentDocs.Proofs.Agent.Enclosed
import AgentDocs.Proofs.Files.Crossing
import AgentDocs.Proofs.Build.Agreement
import AgentDocs.Proofs.Build.Chosen
import AgentDocs.Proofs.Template.Inventory
import AgentDocs.Proofs.Role.Declared
import AgentDocs.Proofs.Text.Bytewise
import AgentDocs.Proofs.Agent.Promotion
import AgentDocs.Proofs.Template.Described
import AgentDocs.Proofs.Template.Framed
