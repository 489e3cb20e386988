import Vendimint.Async.Pool
import Vendimint.Machine
import Vendimint.Manager
import Vendimint.Transfer.NoLoss
import Vendimint.Transfer.Isolation
import Vendimint.Transfer.Rerun
import Vendimint.Transfer.Config
import Vendimint.Federation.Reopen
import Vendimint.Document.KeyValue
import Vendimint.Document.Removal
import Vendimint.Document.Readers
import Vendimint.Tickets.Usable
import Vendimint.Claim.Agreement
import Vendimint.Claim.Waiting
import Vendimint.Claim.Repeat
import Vendimint.Request.Handed
import Vendimint.Update.Newest
import Vendimint.Amount
import Vendimint.Document.Converge
import Vendimint.View.Fresh
import Vendimint.Identity.Persist
import Vendimint.Claim.Consent
import Vendimint.Lock.Progress
import Vendimint.Federation.Seed
import Vendimint.Transfer.Arrive
import Vendimint.Document.Delivered
import Vendimint.Document.Invoices
