import PdfBridge.Contracts.Values
import PdfBridge.Core.AccessToken
import PdfBridge.Core.Config
import PdfBridge.Foundation.AppendOnly
import PdfBridge.Foundation.Binary64
import PdfBridge.Foundation.Bisection
import PdfBridge.Foundation.Codec
import PdfBridge.Foundation.Framing
import PdfBridge.Foundation.Grouping
import PdfBridge.Foundation.HexText
import PdfBridge.Foundation.Json
import PdfBridge.Foundation.JsonReaders
import PdfBridge.Foundation.JsonText
import PdfBridge.Foundation.Keyset
import PdfBridge.Foundation.Normalization
import PdfBridge.Foundation.Program
import PdfBridge.Foundation.Rank
import PdfBridge.Foundation.Reading
import PdfBridge.Foundation.Runs
import PdfBridge.Foundation.Table
import PdfBridge.Foundation.Triples
import PdfBridge.Foundation.Unicode
import PdfBridge.Foundation.Utf8
import PdfBridge.Lifecycle.Actions
import PdfBridge.Lifecycle.Admissions
import PdfBridge.Lifecycle.Advisory
import PdfBridge.Lifecycle.Approval
import PdfBridge.Lifecycle.Candidates
import PdfBridge.Lifecycle.CatalogChange
import PdfBridge.Lifecycle.Change
import PdfBridge.Lifecycle.Contents
import PdfBridge.Lifecycle.Course
import PdfBridge.Lifecycle.Cursors
import PdfBridge.Lifecycle.Endings
import PdfBridge.Lifecycle.Erasure
import PdfBridge.Lifecycle.Fencing
import PdfBridge.Lifecycle.Files
import PdfBridge.Lifecycle.Frame
import PdfBridge.Lifecycle.History
import PdfBridge.Lifecycle.Idempotence
import PdfBridge.Lifecycle.Invariant
import PdfBridge.Lifecycle.Ledger
import PdfBridge.Lifecycle.Link
import PdfBridge.Lifecycle.Listing
import PdfBridge.Lifecycle.Metrics
import PdfBridge.Lifecycle.Mutations
import PdfBridge.Lifecycle.Overlap
import PdfBridge.Lifecycle.Ownership
import PdfBridge.Lifecycle.Points
import PdfBridge.Lifecycle.Preservation
import PdfBridge.Lifecycle.Promises
import PdfBridge.Lifecycle.Protocol
import PdfBridge.Lifecycle.Publication
import PdfBridge.Lifecycle.Queue
import PdfBridge.Lifecycle.Quiescence
import PdfBridge.Lifecycle.Reachable
import PdfBridge.Lifecycle.Reingestion
import PdfBridge.Lifecycle.Rejection
import PdfBridge.Lifecycle.Renewal
import PdfBridge.Lifecycle.Replacement
import PdfBridge.Lifecycle.Requests
import PdfBridge.Lifecycle.Retention
import PdfBridge.Lifecycle.Rows
import PdfBridge.Lifecycle.Scenario
import PdfBridge.Lifecycle.Schema
import PdfBridge.Lifecycle.Scope
import PdfBridge.Lifecycle.SearchResults
import PdfBridge.Lifecycle.Shown
import PdfBridge.Lifecycle.Slots
import PdfBridge.Lifecycle.Stages
import PdfBridge.Lifecycle.Statechart
import PdfBridge.Lifecycle.Threads
import PdfBridge.Lifecycle.Transactions
import PdfBridge.Lifecycle.Visibility
import PdfBridge.Managers.Catalog
import PdfBridge.Managers.Document
import PdfBridge.Managers.Fleet
import PdfBridge.Managers.Idempotency
import PdfBridge.Managers.Server
import PdfBridge.Managers.System
import PdfBridge.Managers.WorkerCatalog
import PdfBridge.Managers.WorkerProgram
import PdfBridge.Managers.WorkerRequests
import PdfBridge.Persistence.Artifacts
import PdfBridge.Persistence.Catalog
import PdfBridge.Persistence.Models
import PdfBridge.Presentation.ApiSerializers
import PdfBridge.Services.Admission
import PdfBridge.Services.CandidateRules
import PdfBridge.Services.Candidates
import PdfBridge.Services.Catalog
import PdfBridge.Services.ChunkBlocks
import PdfBridge.Services.ChunkFailures
import PdfBridge.Services.ChunkPacking
import PdfBridge.Services.ChunkPieces
import PdfBridge.Services.ChunkProvenance
import PdfBridge.Services.ChunkShape
import PdfBridge.Services.Chunker
import PdfBridge.Services.Classification
import PdfBridge.Services.CursorDecoding
import PdfBridge.Services.Errors
import PdfBridge.Services.Extraction
import PdfBridge.Services.FenceAgreement
import PdfBridge.Services.Fidelity
import PdfBridge.Services.FormatterRun
import PdfBridge.Services.HostileCursors
import PdfBridge.Services.IdentityChecks
import PdfBridge.Services.Intake
import PdfBridge.Services.IssuedCursors
import PdfBridge.Services.MarkdownChunking
import PdfBridge.Services.MarkdownFormatter
import PdfBridge.Services.MarkdownStructure
import PdfBridge.Services.Pagination
import PdfBridge.Services.PointSets
import PdfBridge.Services.PointVerification
import PdfBridge.Services.Preparation
import PdfBridge.Services.ProfileChain
import PdfBridge.Services.Profiles
import PdfBridge.Services.PromptFraming
import PdfBridge.Services.Reingestion
import PdfBridge.Services.SealedManifest
import PdfBridge.Services.Search
import PdfBridge.Services.Storage
import PdfBridge.Services.TableAgreement
import PdfBridge.Services.TableCells
import PdfBridge.Services.VectorIndex
