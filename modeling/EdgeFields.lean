import EdgeFields.Engine.Value
import EdgeFields.Filter.Reader
import EdgeFields.Locks
import EdgeFields.Startup
import EdgeFields.Store.Memory
import EdgeFields.Store.Monitored
import EdgeFields.Proofs.AnsweredFilter
import EdgeFields.Proofs.Append
import EdgeFields.Proofs.BatchOrder
import EdgeFields.Proofs.BothSides
import EdgeFields.Proofs.ClientFilter
import EdgeFields.Proofs.Endpoints
import EdgeFields.Proofs.Exclusion
import EdgeFields.Proofs.Identity
import EdgeFields.Proofs.IntegerOrder
import EdgeFields.Proofs.KeywordCase
import EdgeFields.Proofs.Listing
import EdgeFields.Proofs.OneReference
import EdgeFields.Proofs.Operations
import EdgeFields.Proofs.OwnerScope
import EdgeFields.Proofs.Paging
import EdgeFields.Proofs.PartialFailure
import EdgeFields.Proofs.Prefix
import EdgeFields.Proofs.PrintedFilter
import EdgeFields.Proofs.Reachable
import EdgeFields.Proofs.Referents
import EdgeFields.Proofs.SchemaFault
import EdgeFields.Proofs.SchemaMeaning
import EdgeFields.Proofs.SingleEdge
import EdgeFields.Proofs.Steps
import EdgeFields.Proofs.TargetNames
import EdgeFields.Proofs.WriteBack
import EdgeFields.Proofs.Written
