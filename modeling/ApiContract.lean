import ApiContract.Assoc
import ApiContract.Bytes
import ApiContract.Client.Endpoint
import ApiContract.Client.Error
import ApiContract.Client.Response
import ApiContract.Code.Layout
import ApiContract.Code.Lexer
import ApiContract.Code.Source
import ApiContract.Code.Token
import ApiContract.Code.Tree
import ApiContract.CommandLine.Arguments
import ApiContract.CommandLine.Run
import ApiContract.Decimal.Nearest
import ApiContract.Decimal.Shortest
import ApiContract.Decimal.Whole
import ApiContract.Descriptor
import ApiContract.Descriptor.Exchange
import ApiContract.Descriptor.Shown
import ApiContract.Disk.Basic
import ApiContract.Disk.Path
import ApiContract.Disk.Temporary
import ApiContract.Document.Basic
import ApiContract.Document.Load
import ApiContract.Document.Reader
import ApiContract.Emit.Client
import ApiContract.Emit.Contract
import ApiContract.Emit.Error
import ApiContract.Emit.Handlers
import ApiContract.Emit.Identifiers
import ApiContract.Emit.Models
import ApiContract.Emit.Names
import ApiContract.Emit.Type
import ApiContract.Http.Form
import ApiContract.Http.Headers
import ApiContract.Http.MediaType
import ApiContract.Http.Message
import ApiContract.Http.Multipart
import ApiContract.Json.Numeral
import ApiContract.Json.Tree
import ApiContract.Json.Value
import ApiContract.Main
import ApiContract.Naming
import ApiContract.Node.Basic
import ApiContract.Node.Plain
import ApiContract.Operation
import ApiContract.Operation.Exchange
import ApiContract.Path.Template
import ApiContract.PetStore.Handlers
import ApiContract.PetStore.Model
import ApiContract.PetStore.Server
import ApiContract.PetStore.Store
import ApiContract.RefTable
import ApiContract.Resolve.Bodies
import ApiContract.Resolve.Document
import ApiContract.Resolve.Error
import ApiContract.Resolve.Journal
import ApiContract.Resolve.Parameters
import ApiContract.Resolve.Progress
import ApiContract.Resolve.Schema
import ApiContract.Service.Body
import ApiContract.Service.BodyError
import ApiContract.Service.Cleanup
import ApiContract.Service.HandlerError
import ApiContract.Service.Multipart
import ApiContract.Service.Params
import ApiContract.Service.RequestError
import ApiContract.Service.ResponseWriter
import ApiContract.Service.Router
import ApiContract.Service.Scalar
import ApiContract.Target.Basic
import ApiContract.Target.Configuration
import ApiContract.Target.Generate
import ApiContract.Target.ModuleTree
import ApiContract.Text.Blank
import ApiContract.Text.Case
import ApiContract.Text.CaseTable
import ApiContract.Text.Percent
import ApiContract.Text.Pieces
import ApiContract.Text.Printable
import ApiContract.Text.Punycode
import ApiContract.Text.Shown
import ApiContract.Text.Utf8
import ApiContract.Toml.Reader
import ApiContract.Toml.Scalar
import ApiContract.Toml.Table
import ApiContract.Url.Address
import ApiContract.Url.Basic
import ApiContract.Url.Host
import ApiContract.Url.Path
import ApiContract.Yaml.Cursor
import ApiContract.Yaml.Data
import ApiContract.Yaml.Scalar
import ApiContract.Yaml.Token
import ApiContract.Proofs.References
import ApiContract.Proofs.RenderedTypes
import ApiContract.Proofs.ChainEnds
import ApiContract.Proofs.Chains
import ApiContract.Proofs.Expansion
import ApiContract.Proofs.Visit
import ApiContract.Proofs.Settled
import ApiContract.Proofs.Operations
import ApiContract.Proofs.Documents
import ApiContract.Proofs.Journals
import ApiContract.Proofs.Composition
import ApiContract.Proofs.Containment
import ApiContract.Proofs.Responses
import ApiContract.Proofs.HandlerArguments
import ApiContract.Proofs.ClientArguments
import ApiContract.Proofs.RequestDispatch
import ApiContract.Proofs.TypeAgreement
import ApiContract.Proofs.GeneratedModels
import ApiContract.Proofs.ModelFiles
import ApiContract.Proofs.ResponseDispatch
import ApiContract.Proofs.AcceptedNames
import ApiContract.Proofs.Routing
import ApiContract.Proofs.AtomicWrites
import ApiContract.Proofs.HeaderExchange
import ApiContract.Proofs.Bundles
import ApiContract.Proofs.PetFiles
import ApiContract.Proofs.PetRuns
import ApiContract.Proofs.PetService
import ApiContract.Proofs.DescriptorExchange
import ApiContract.Proofs.CheckedNames
import ApiContract.Proofs.ClientAddition
import ApiContract.Proofs.ResponseContents
import ApiContract.Proofs.DefaultResponses
import ApiContract.Proofs.FormFields
import ApiContract.Proofs.FormReads
import ApiContract.Proofs.Templates
import ApiContract.Proofs.NamePlaces
import ApiContract.Proofs.PercentTexts
import ApiContract.Proofs.PushedSegments
import ApiContract.Proofs.EndpointPaths
import ApiContract.Proofs.ParameterMerging
import ApiContract.Proofs.ContractNames
import ApiContract.Proofs.FieldNames
import ApiContract.Proofs.MemberBindings
import ApiContract.Proofs.ParameterChains
import ApiContract.Proofs.SentStatuses
import ApiContract.Proofs.FormTexts
import ApiContract.Proofs.WordCuts
import ApiContract.Proofs.StableNames
import ApiContract.Proofs.TargetRuns
import ApiContract.Proofs.WrittenResponses
import ApiContract.Proofs.TargetOrder
