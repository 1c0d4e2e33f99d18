import ProcessNets.Calendar.Moment
import ProcessNets.Calendar.ShortDate
import ProcessNets.Command.Options
import ProcessNets.Command.RolesFile
import ProcessNets.Command.Run
import ProcessNets.Command.Surroundings
import ProcessNets.Compile.Assembly
import ProcessNets.Compile.Boundary
import ProcessNets.Compile.Folding
import ProcessNets.Compile.Linking
import ProcessNets.Compile.NodeMap
import ProcessNets.Compile.Placement
import ProcessNets.Compile.Pool
import ProcessNets.Compile.Run
import ProcessNets.Compile.SelfLoop
import ProcessNets.Compile.TaskData
import ProcessNets.Compile.TaskVariables
import ProcessNets.Compile.WorkItems
import ProcessNets.Diagram.Basic
import ProcessNets.Diagram.Build
import ProcessNets.Diagram.Cycle
import ProcessNets.Graph.Basic
import ProcessNets.Graph.Loading
import ProcessNets.Graph.Parts
import ProcessNets.Graph.Turtle
import ProcessNets.Graph.Turtle.Token
import ProcessNets.Graph.Uri
import ProcessNets.Graph.Vocabulary
import ProcessNets.Json.Reader
import ProcessNets.Json.Value
import ProcessNets.Log
import ProcessNets.Main
import ProcessNets.Net.Basic
import ProcessNets.Net.Cancellation
import ProcessNets.Net.Document
import ProcessNets.Net.Edit
import ProcessNets.Net.Variables
import ProcessNets.Net.Written
import ProcessNets.Number.Binary64
import ProcessNets.Number.Shortest
import ProcessNets.Proofs.Compile.AttachedData
import ProcessNets.Proofs.Compile.Attendances
import ProcessNets.Proofs.Compile.BackFlows
import ProcessNets.Proofs.Compile.BareNets
import ProcessNets.Proofs.Compile.BoundObjects
import ProcessNets.Proofs.Compile.BoundaryTimers
import ProcessNets.Proofs.Compile.Calls
import ProcessNets.Proofs.Compile.CancellationSets
import ProcessNets.Proofs.Compile.CarefulWork
import ProcessNets.Proofs.Compile.CompletionQueries
import ProcessNets.Proofs.Compile.Contributions
import ProcessNets.Proofs.Compile.Contributors
import ProcessNets.Proofs.Compile.Counterparts
import ProcessNets.Proofs.Compile.Courses
import ProcessNets.Proofs.Compile.Data
import ProcessNets.Proofs.Compile.DataObjects
import ProcessNets.Proofs.Compile.DecompositionTree
import ProcessNets.Proofs.Compile.DefaultEdges
import ProcessNets.Proofs.Compile.EdgeOrder
import ProcessNets.Proofs.Compile.ErrorTasks
import ProcessNets.Proofs.Compile.FailingSubprocesses
import ProcessNets.Proofs.Compile.Failures
import ProcessNets.Proofs.Compile.Finishing
import ProcessNets.Proofs.Compile.Flows
import ProcessNets.Proofs.Compile.FoldedChains
import ProcessNets.Proofs.Compile.HandedInputs
import ProcessNets.Proofs.Compile.Handlers
import ProcessNets.Proofs.Compile.HostErrors
import ProcessNets.Proofs.Compile.HostSplits
import ProcessNets.Proofs.Compile.HostTasks
import ProcessNets.Proofs.Compile.Identifiers
import ProcessNets.Proofs.Compile.IsolatedPools
import ProcessNets.Proofs.Compile.JustifiedData
import ProcessNets.Proofs.Compile.KeptDecorators
import ProcessNets.Proofs.Compile.KeptFlows
import ProcessNets.Proofs.Compile.Laying
import ProcessNets.Proofs.Compile.Layouts
import ProcessNets.Proofs.Compile.LinkedEdges
import ProcessNets.Proofs.Compile.Looping
import ProcessNets.Proofs.Compile.MappedVariables
import ProcessNets.Proofs.Compile.Nesting
import ProcessNets.Proofs.Compile.Nets
import ProcessNets.Proofs.Compile.NodeMaps
import ProcessNets.Proofs.Compile.Numbering
import ProcessNets.Proofs.Compile.Origins
import ProcessNets.Proofs.Compile.OwnQueries
import ProcessNets.Proofs.Compile.Parameters
import ProcessNets.Proofs.Compile.Placing
import ProcessNets.Proofs.Compile.PreparedNets
import ProcessNets.Proofs.Compile.Progress
import ProcessNets.Proofs.Compile.RaisedErrors
import ProcessNets.Proofs.Compile.References
import ProcessNets.Proofs.Compile.RepeatedTasks
import ProcessNets.Proofs.Compile.Results
import ProcessNets.Proofs.Compile.Rewiring
import ProcessNets.Proofs.Compile.Routine
import ProcessNets.Proofs.Compile.Routing
import ProcessNets.Proofs.Compile.SelfLoops
import ProcessNets.Proofs.Compile.SharedConditions
import ProcessNets.Proofs.Compile.SharedStarts
import ProcessNets.Proofs.Compile.Sharing
import ProcessNets.Proofs.Compile.Stages
import ProcessNets.Proofs.Compile.Starting
import ProcessNets.Proofs.Compile.Steps
import ProcessNets.Proofs.Compile.Subnets
import ProcessNets.Proofs.Compile.TaskSplits
import ProcessNets.Proofs.Compile.Terminals
import ProcessNets.Proofs.Compile.UniqueData
import ProcessNets.Proofs.Compile.UnwiredSteps
import ProcessNets.Proofs.Compile.VariableQueries
import ProcessNets.Proofs.Compile.WellDrawn
import ProcessNets.Proofs.Diagram.Drawing
import ProcessNets.Proofs.Diagram.Places
import ProcessNets.Proofs.Graph.Created
import ProcessNets.Proofs.Graph.DanglingFlows
import ProcessNets.Proofs.Graph.NodePlaces
import ProcessNets.Proofs.Graph.Queries
import ProcessNets.Proofs.Graph.Spellings
import ProcessNets.Proofs.Graph.TripleOrder
import ProcessNets.Proofs.Net.Bindings
import ProcessNets.Proofs.Net.Branching
import ProcessNets.Proofs.Net.Cancelling
import ProcessNets.Proofs.Net.Changes
import ProcessNets.Proofs.Net.Dataless
import ProcessNets.Proofs.Net.Decorators
import ProcessNets.Proofs.Net.Details
import ProcessNets.Proofs.Net.DocumentParts
import ProcessNets.Proofs.Net.EdgeLists
import ProcessNets.Proofs.Net.EdgesOnly
import ProcessNets.Proofs.Net.Editing
import ProcessNets.Proofs.Net.FirstEdges
import ProcessNets.Proofs.Net.Following
import ProcessNets.Proofs.Net.Frames
import ProcessNets.Proofs.Net.Gains
import ProcessNets.Proofs.Net.Growing
import ProcessNets.Proofs.Net.Handover
import ProcessNets.Proofs.Net.Incidental
import ProcessNets.Proofs.Net.KeptEdges
import ProcessNets.Proofs.Net.Listing
import ProcessNets.Proofs.Net.Making
import ProcessNets.Proofs.Net.Mappings
import ProcessNets.Proofs.Net.Minor
import ProcessNets.Proofs.Net.MovedEdges
import ProcessNets.Proofs.Net.Orderings
import ProcessNets.Proofs.Net.Outgoing
import ProcessNets.Proofs.Net.Outlines
import ProcessNets.Proofs.Net.Renumbering
import ProcessNets.Proofs.Net.Sessions
import ProcessNets.Proofs.Net.Skeleton
import ProcessNets.Proofs.Net.Spelling
import ProcessNets.Proofs.Net.Splicing
import ProcessNets.Proofs.Net.Stores
import ProcessNets.Proofs.Net.Walks
import ProcessNets.Proofs.Net.WrittenOrder
import ProcessNets.Proofs.Net.WrittenText
import ProcessNets.Proofs.Outcome
import ProcessNets.Proofs.Text.Lowering
import ProcessNets.Proofs.Xml.Printing
import ProcessNets.Proofs.Xml.Reading
import ProcessNets.Proofs.Xml.ReadingBack
import ProcessNets.Proofs.Xml.Spelling
import ProcessNets.Proofs.Xml.Trees
import ProcessNets.Text.Blank
import ProcessNets.Text.CaseTable
import ProcessNets.Text.CodeRanges
import ProcessNets.Text.Digit
import ProcessNets.Text.Integer
import ProcessNets.Text.Lower
import ProcessNets.Text.PrintableTable
import ProcessNets.Text.Quoted
import ProcessNets.Text.Search
import ProcessNets.Xml.Element
import ProcessNets.Xml.NameTable
import ProcessNets.Xml.Names
import ProcessNets.Xml.Printer
import ProcessNets.Xml.WellFormed
