import Libtask.AddressText
import Libtask.Brecv
import Libtask.BufferArea
import Libtask.ExactlyOne
import Libtask.Fdwrite
import Libtask.LosslessFifo
import Libtask.Makecontext
import Libtask.ParseIpCorrect
import Libtask.PollTable
import Libtask.PrimesCorrect
import Libtask.PrintCut
import Libtask.QueuedAlts
import Libtask.RendezCorrect
import Libtask.RwlockCorrect
import Libtask.StallReport
import Libtask.TaskPointer
import Libtask.TaskTable
import Libtask.Tasklist
import Libtask.TcpproxyWrites
import Libtask.TestdelayCorrect
