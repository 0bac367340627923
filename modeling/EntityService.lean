import EntityService.Basic
import EntityService.Cache
import EntityService.Database.BinaryCopy
import EntityService.Database.Connection
import EntityService.Database.CorruptCopy
import EntityService.Database.DBConn
import EntityService.Database.EncodingSizes
import EntityService.Database.Ingested
import EntityService.Database.Insertions
import EntityService.Database.ProviderUploads
import EntityService.Database.Providers
import EntityService.Database.Readiness
import EntityService.Database.Selections
import EntityService.Database.SizeCommit
import EntityService.Database.SizeVerdict
import EntityService.Database.Tables
import EntityService.Database.Untouched
import EntityService.Database.Uploads
import EntityService.EncodingStorage.BlockRows
import EntityService.EncodingStorage.Fetched
import EntityService.EncodingStorage.Fetching
import EntityService.EncodingStorage.Packing
import EntityService.EncodingStorage.Pipeline
import EntityService.EncodingStorage.SameRecords
import EntityService.EncodingStorage.Storing
import EntityService.IterRawStream
import EntityService.Lib.Action
import EntityService.Lib.Dict
import EntityService.Lib.Iterator
import EntityService.Lib.Json
import EntityService.Lib.Machine
import EntityService.Lib.Monadic
import EntityService.Lib.MostSimilar
import EntityService.Lib.Overwriting
import EntityService.Lib.PairSums
import EntityService.Lib.Pool
import EntityService.Lib.Reading
import EntityService.Lib.Rows
import EntityService.Lib.Sorting
import EntityService.Lib.Streams
import EntityService.Lib.Termination
import EntityService.Lib.Tiling
import EntityService.Lib.Utf8
import EntityService.Models.CompletedRuns
import EntityService.Models.Creation
import EntityService.Models.Deleted
import EntityService.Models.DeletedRuns
import EntityService.Models.Deployment
import EntityService.Models.InForce
import EntityService.Models.Isolation
import EntityService.Models.KeptResults
import EntityService.Models.Project
import EntityService.Models.Recorded
import EntityService.Models.RunDelete
import EntityService.Models.RunOwners
import EntityService.Models.RunPost
import EntityService.Models.SameAnswers
import EntityService.Models.Scope
import EntityService.Models.StableResults
import EntityService.Models.Termination
import EntityService.Models.Unaffected
import EntityService.Serialization
import EntityService.Service.Deletion
import EntityService.Service.ExecutableRuns
import EntityService.Service.FailureReason
import EntityService.Service.Hanging
import EntityService.Service.InvalidSize
import EntityService.Service.LifeCycle
import EntityService.Service.Program
import EntityService.Service.Readiness
import EntityService.Service.RunRows
import EntityService.Service.RunSteps
import EntityService.Service.RunTokens
import EntityService.Service.Runs
import EntityService.Service.Settling
import EntityService.Service.Smooth
import EntityService.Service.StartedOnce
import EntityService.Service.State
import EntityService.Service.Storage
import EntityService.Service.Termination
import EntityService.Service.UploadSlot
import EntityService.Service.UploadSteps
import EntityService.Service.Uploads
import EntityService.Service.Verdicts
import EntityService.Service.WakeUp
import EntityService.Tasks.Aggregation
import EntityService.Tasks.CandidateLimit
import EntityService.Tasks.CleanupSteps
import EntityService.Tasks.Comparing
import EntityService.Tasks.Completeness
import EntityService.Tasks.Connected
import EntityService.Tasks.Counts
import EntityService.Tasks.Coverage
import EntityService.Tasks.CutOff
import EntityService.Tasks.Datasets
import EntityService.Tasks.Deduplication
import EntityService.Tasks.Emitted
import EntityService.Tasks.EncodingUploading
import EntityService.Tasks.FinishedRuns
import EntityService.Tasks.Ingestion
import EntityService.Tasks.Matching
import EntityService.Tasks.ObjectNames
import EntityService.Tasks.PackageFiles
import EntityService.Tasks.PackageResults
import EntityService.Tasks.PackageShape
import EntityService.Tasks.Permutation
import EntityService.Tasks.Progress
import EntityService.Tasks.ProjectCleanup
import EntityService.Tasks.Retry
import EntityService.Tasks.RowGrowth
import EntityService.Tasks.RowsRemoved
import EntityService.Tasks.Scheduling
import EntityService.Tasks.ScoreFile
import EntityService.Tasks.Similarity
import EntityService.Tasks.Solver
import EntityService.Tasks.Success
import EntityService.Tasks.TotalComparisons
import EntityService.Tasks.Undisclosed
import EntityService.Tasks.WorkPackages
import EntityService.Views.Agreement
import EntityService.Views.AuthChecks
import EntityService.Views.Binary
import EntityService.Views.DefaultBlock
import EntityService.Views.Documents
import EntityService.Views.Endpoints
import EntityService.Views.Handled
import EntityService.Views.Ingest
import EntityService.Views.Inline
import EntityService.Views.JsonBody
import EntityService.Views.Numbering
import EntityService.Views.ObjectStore
import EntityService.Views.Project
import EntityService.Views.ProjectDeletion
import EntityService.Views.Results
import EntityService.Views.RunDeletion
import EntityService.Views.Scores
import EntityService.Views.Status
import EntityService.Views.Unaltered
import EntityService.Views.Uploaded
import EntityService.World
