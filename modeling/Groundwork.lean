import Groundwork.Knowledge.Script
import Groundwork.Main
import Groundwork.Pipeline.Stage
import Groundwork.Pipeline.Results
import Groundwork.Proofs.Table.Lookup
import Groundwork.Proofs.Digraph.Adjacency
import Groundwork.Proofs.Digraph.Distance
import Groundwork.Proofs.Digraph.Acyclicity
import Groundwork.Proofs.Digraph.Ordering
import Groundwork.Proofs.Resource.Editing
import Groundwork.Proofs.Digraph.Rewriting
import Groundwork.Proofs.Knowledge.Chains
import Groundwork.Proofs.Knowledge.History
import Groundwork.Proofs.Knowledge.Refusal
import Groundwork.Proofs.Fault.Collecting
import Groundwork.Proofs.Knowledge.Configuring
import Groundwork.Proofs.Resource.Filing
import Groundwork.Proofs.Knowledge.Linking
import Groundwork.Proofs.Knowledge.Rewriting
import Groundwork.Proofs.Knowledge.Calls
import Groundwork.Proofs.Knowledge.Losses
import Groundwork.Proofs.Resource.Landing
import Groundwork.Proofs.Resource.Depending
import Groundwork.Proofs.Resource.Declaring
import Groundwork.Proofs.Resource.Laying
import Groundwork.Proofs.Resource.Replacing
import Groundwork.Proofs.Knowledge.Settled
import Groundwork.Proofs.Knowledge.Reordering
import Groundwork.Proofs.Ident.Text
import Groundwork.Proofs.Ident.Grammar
import Groundwork.Proofs.Construct.Filing
import Groundwork.Proofs.Digraph.Operations
import Groundwork.Proofs.Digraph.Outline
import Groundwork.Proofs.Digraph.Guard
import Groundwork.Proofs.Digraph.Copying
import Groundwork.Proofs.Digraph.Drawing
import Groundwork.Proofs.Digraph.Leftover
import Groundwork.Proofs.Digraph.LeastOrder
import Groundwork.Proofs.Digraph.Discovery
import Groundwork.Proofs.Digraph.ShortestPath
import Groundwork.Proofs.Knowledge.Renaming
import Groundwork.Proofs.Blueprint.Sifting
import Groundwork.Proofs.Blueprint.Raising
import Groundwork.Proofs.Pipeline.Execution
import Groundwork.Proofs.Blueprint.Document
import Groundwork.Proofs.Blueprint.Verdict
import Groundwork.Proofs.Datum.Texts
import Groundwork.Proofs.Json.RoundTrip
import Groundwork.Proofs.Yaml.Words
import Groundwork.Proofs.Yaml.Lexing
import Groundwork.Proofs.Yaml.Tokens
import Groundwork.Proofs.Yaml.Blocks
import Groundwork.Proofs.Yaml.Nodes
import Groundwork.Proofs.Blueprint.RoundTrip
import Groundwork.Proofs.Digraph.Announcements
import Groundwork.Proofs.Knowledge.Building
import Groundwork.Proofs.Knowledge.Merging
import Groundwork.Proofs.Knowledge.Registering
import Groundwork.Proofs.Knowledge.Drawing
import Groundwork.Proofs.Knowledge.Reports
import Groundwork.Proofs.Knowledge.Enumeration
import Groundwork.Proofs.Pipeline.Keys
import Groundwork.Proofs.Output.Moves
import Groundwork.Proofs.Output.Accounts
import Groundwork.Proofs.Output.Schedules
import Groundwork.Proofs.Storage.Paths
import Groundwork.Proofs.Storage.Ways
import Groundwork.Proofs.Output.Fates
import Groundwork.Proofs.Output.Phases
import Groundwork.Proofs.Output.Alone
import Groundwork.Proofs.Output.Tasks
import Groundwork.Proofs.Output.Workshops
import Groundwork.Proofs.Output.Deliveries
