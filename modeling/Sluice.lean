import Sluice.Bench.Delivery
import Sluice.Bench.Rehearsal
import Sluice.Bench.Replier
import Sluice.Bench.Script
import Sluice.Bench.Transfer
import Sluice.Charset.Web
import Sluice.Exchange.Worker
import Sluice.MediaType
import Sluice.Proofs.Conduit.Sleep
import Sluice.Proofs.Exchange.HeadFirst
import Sluice.Proofs.Exchange.SingleStart
import Sluice.Proofs.Exchange.HeadAsDrafted
import Sluice.Proofs.Exchange.Sealing
import Sluice.Proofs.Exchange.Settling
import Sluice.Proofs.Inlet.Grants
import Sluice.Proofs.Inlet.Fifo
import Sluice.Proofs.Outlet.AfterAbort
import Sluice.Proofs.Outlet.Fifo
import Sluice.Proofs.Producer.Run
import Sluice.Proofs.Producer.Transcription
import Sluice.Proofs.Pump.Abort
import Sluice.Proofs.Pump.OutletPump
import Sluice.Proofs.Pump.ProducerPump
import Sluice.Proofs.Pump.Room
import Sluice.Settings.Document
import Sluice.Proofs.Producer.Calls
import Sluice.Proofs.Producer.Progress
import Sluice.Proofs.Producer.Completion
import Sluice.Proofs.Charset.Fitting
import Sluice.Proofs.Producer.Fitting
import Sluice.Proofs.Producer.Stranding
import Sluice.Proofs.Charset.Windows
import Sluice.Proofs.Charset.Decoding
import Sluice.Proofs.Pump.OutboundRun
import Sluice.Proofs.Pump.InboundRun
import Sluice.Proofs.Inlet.Allowance
import Sluice.Proofs.Inlet.Reports
import Sluice.Proofs.Charset.Seamless
import Sluice.Proofs.Producer.Finalization
import Sluice.Proofs.Producer.Renewal
import Sluice.Proofs.Outlet.Ending
import Sluice.Proofs.Exchange.Timeouts
import Sluice.Proofs.Producer.Rollback
import Sluice.Proofs.Producer.Coalescing
import Sluice.Proofs.Text.Trimming
import Sluice.Proofs.MediaType.Reparsing
import Sluice.Proofs.MediaType.Parameters
import Sluice.Proofs.Producer.Overstating
import Sluice.Proofs.Settings.Documents
import Sluice.Proofs.Fault.Crossing
import Sluice.Proofs.Stage.Queue
