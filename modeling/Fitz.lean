import Fitz.Queue.Sink.WireBudget
import Fitz.Rpc.Rotation
import Fitz.Lease.Guarantees
import Fitz.Lease.ListGuarantees
import Fitz.Schedule.CronGuarantees
import Fitz.Schedule.MirrorGuarantees
import Fitz.Storage.KeyGuarantees
import Fitz.Storage.PageKeys
import Fitz.Stream.Selectors
import Fitz.Kv.InventoryGuarantees
import Fitz.Runtime.SessionWorkGuarantees
import Fitz.Queue.StartupReconciliation
import Fitz.Queue.Actor.ReadyRuns
