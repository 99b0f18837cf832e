import ApLabs.Foundation.CMemory
import ApLabs.Foundation.Printf
import ApLabs.Foundation.Transition
import ApLabs.Foundation.SessionLog
import ApLabs.Foundation.Pool
import ApLabs.Foundation.Framing
import ApLabs.Foundation.Stdio
import ApLabs.Foundation.Slices
import ApLabs.Foundation.Copying
import ApLabs.Foundation.Cells
import ApLabs.Foundation.Congruential
import ApLabs.Foundation.Pthreads
import ApLabs.Foundation.Mutex
import ApLabs.Foundation.Completion
import ApLabs.Logger.Source
import ApLabs.Logger.FormatString
import ApLabs.Logger.Sinks
import ApLabs.Logger.Bounds
import ApLabs.Logger.Runs
import ApLabs.Logger.Returns
import ApLabs.Chat.Server
import ApLabs.Chat.Control
import ApLabs.Chat.Progress
import ApLabs.Chat.History
import ApLabs.Chat.Delivery
import ApLabs.Chat.Audience
import ApLabs.Chat.Shutdown
import ApLabs.Chat.Wire
import ApLabs.Chat.Settling
import ApLabs.Chat.Stalling
import ApLabs.Chat.Client
import ApLabs.Chat.Network
import ApLabs.Chat.Arrival
import ApLabs.Crawler.Program
import ApLabs.Crawler.Counting
import ApLabs.Crawler.Coverage
import ApLabs.Crawler.Progress
import ApLabs.Crawler.Termination
import ApLabs.Cat.Program
import ApLabs.Cat.Status
import ApLabs.Pi.Program
import ApLabs.Pi.Rounds
import ApLabs.Pi.Progress
import ApLabs.Threads.Threshold
import ApLabs.Threads.Wakeups
import ApLabs.Threads.Reduction
import ApLabs.Threads.SharedSum
import ApLabs.Threads.LostUpdates
import ApLabs.OpenMP.Matmul
import ApLabs.OpenMP.Random
import ApLabs.OpenMP.MonteCarlo
import ApLabs.OpenMP.ProdCons
