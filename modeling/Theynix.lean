import Theynix.Lib.Ledger
import Theynix.FrameIsolation
import Theynix.Reclaim
import Theynix.Exit
import Theynix.Pipes
import Theynix.TerminalReaders
import Theynix.TtyBuffers
import Theynix.UserContexts
import Theynix.Wakeup
import Theynix.Delay
import Theynix.ExitStatus
import Theynix.TerminalOutput
import Theynix.Fork
import Theynix.Turns
import Theynix.Layout
import Theynix.MapPages
import Theynix.FrameQueue
import Theynix.KernelHeap
import Theynix.UserString
import Theynix.LoadedProcess
import Theynix.ProgramArguments
import Theynix.TableCopy
import Theynix.Bystanders
import Theynix.ForkedChild
import Theynix.HashedLists
import Theynix.FatalTraps
