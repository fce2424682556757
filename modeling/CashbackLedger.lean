import CashbackLedger.Lib.Alone
import CashbackLedger.Model.DecimalText
import CashbackLedger.Protocol.Rule
import CashbackLedger.Safety.Acknowledged
import CashbackLedger.Safety.Attempts
import CashbackLedger.Safety.Balance
import CashbackLedger.Safety.Budget
import CashbackLedger.Safety.Cashback
import CashbackLedger.Safety.ConfirmOnce
import CashbackLedger.Safety.Confirmation
import CashbackLedger.Safety.Convergence
import CashbackLedger.Safety.Copies
import CashbackLedger.Safety.CorruptCache
import CashbackLedger.Safety.CreateOnce
import CashbackLedger.Safety.CreditAmount
import CashbackLedger.Safety.Crediting
import CashbackLedger.Safety.DeadLetter
import CashbackLedger.Safety.Delivery
import CashbackLedger.Safety.Duplicate
import CashbackLedger.Safety.Expiry
import CashbackLedger.Safety.HashInput
import CashbackLedger.Safety.Idempotency
import CashbackLedger.Safety.Isolation
import CashbackLedger.Safety.Ledger
import CashbackLedger.Safety.Letters
import CashbackLedger.Safety.Lock
import CashbackLedger.Safety.OwnRow
import CashbackLedger.Safety.PublishPass
import CashbackLedger.Safety.Publishing
import CashbackLedger.Safety.Recovery
import CashbackLedger.Safety.Replay
import CashbackLedger.Safety.ReplayArgs
import CashbackLedger.Safety.RequestCounter
import CashbackLedger.Safety.Retries
import CashbackLedger.Safety.RuleAge
import CashbackLedger.Safety.RuleUpdates
import CashbackLedger.Safety.SentStable
import CashbackLedger.Safety.Solvency
import CashbackLedger.Safety.Stages
import CashbackLedger.Safety.Submitted
import CashbackLedger.Safety.Timely
import CashbackLedger.Safety.Trail
