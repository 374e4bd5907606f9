import UhidBattery.Lib.Program
import UhidBattery.Lib.Runs
import UhidBattery.Lib.Each
import UhidBattery.Lib.Deadlines
import UhidBattery.Codec
import UhidBattery.Lifecycle
import UhidBattery.ServeAll
import UhidBattery.Stale
import UhidBattery.Reuse
import UhidBattery.Announce
import UhidBattery.ListenFds
import UhidBattery.UdevRule
import UhidBattery.Unaltered
import UhidBattery.ServeUntil
import UhidBattery.Failed
import UhidBattery.Ledger
import UhidBattery.Spurious
import UhidBattery.Waits
import UhidBattery.PowerSupply
import UhidBattery.Truncated
import UhidBattery.ReportLen
import UhidBattery.Opening
import UhidBattery.Holding
import UhidBattery.Plain
import UhidBattery.Replies
import UhidBattery.Meaning
import UhidBattery.Returns
import UhidBattery.Errors
import UhidBattery.Honoured
import UhidBattery.Attended
import UhidBattery.Delivers
