import Miscellaneous.PostfixTrees
import Miscellaneous.ReversePolish
import Miscellaneous.ReversePolishConversion
import Miscellaneous.ReversePolishEvaluation
import Miscellaneous.ReversePolishWords
import Miscellaneous.ReversePolishConservation
import Miscellaneous.ReversePolishBounds
import Miscellaneous.ArrayHeaps
import Miscellaneous.PriorityQueue
import Miscellaneous.PriorityQueueSessions
import Miscellaneous.PriorityQueueIndices
import Miscellaneous.PriorityQueueRuns
import Miscellaneous.PriorityQueuePositions
import Miscellaneous.ByteRecords
import Miscellaneous.ChatServer
import Miscellaneous.ChatServerInvariant
import Miscellaneous.ChatServerSweep
import Miscellaneous.ChatServerDescriptors
import Miscellaneous.HttpFraming
import Miscellaneous.ChatServerResponses
import Miscellaneous.ChatClients
import Miscellaneous.ChatClientsRuns
import Miscellaneous.ChatClientsWaiting
import Miscellaneous.ChatClientsAnswers
import Miscellaneous.DecimalText
import Miscellaneous.FifoPrimes
import Miscellaneous.FifoPrimesRuns
import Miscellaneous.PrimeTestWrap
import Miscellaneous.InfoFile
import Miscellaneous.InfoFileReading
import Miscellaneous.InfoFileRoundTrip
import Miscellaneous.Permutation
import Miscellaneous.PermutationRows
import Miscellaneous.PermutationSplit
import Miscellaneous.PermutationFrame
import Miscellaneous.RectangleIou
import Miscellaneous.BoxConfinement
import Miscellaneous.BoxPictures
import Miscellaneous.CStrings
import Miscellaneous.Confirmations
import Miscellaneous.ConfirmationsRuns
import Miscellaneous.IterativeServers
import Miscellaneous.IterativeServersProgress
import Miscellaneous.ConfirmationsClients
import Miscellaneous.Downsample
import Miscellaneous.DownsampleConfigs
import Miscellaneous.DownsampleMarks
import Miscellaneous.DownsampleTex
import Miscellaneous.FlockFile
import Miscellaneous.FlockFileRuns
import Miscellaneous.GaussianBlur
import Miscellaneous.GaussianBlurAccesses
import Miscellaneous.GaussianBlurFlat
import Miscellaneous.ByteCopies
import Miscellaneous.Nv21
import Miscellaneous.SharedMemory
import Miscellaneous.SharedMemoryRuns
import Miscellaneous.UniqueSeqId
import Miscellaneous.UpperEcho
import Miscellaneous.UpperEchoClients
import Miscellaneous.UpperEchoProgress
import Miscellaneous.UpperEchoRuns
import Miscellaneous.PrintedReads
import Miscellaneous.FfmpegEncoder
import Miscellaneous.ResourceLedgers
import Miscellaneous.EncoderLifetime
import Miscellaneous.CInts
import Miscellaneous.Triangle
import Miscellaneous.TriangleRows
import Miscellaneous.TriangleEdges
import Miscellaneous.TriangleOrder
import Miscellaneous.BboxDrawer
import Miscellaneous.BboxDrawerScaling
import Miscellaneous.ExtractAssets
import Miscellaneous.TypedQueues
import Miscellaneous.MessageQueue
import Miscellaneous.MessageQueueRuns
import Miscellaneous.MessageQueueDelivery
import Miscellaneous.ForkedPipe
import Miscellaneous.ForkedPipeRuns
import Miscellaneous.Shutdown
import Miscellaneous.ShutdownRuns
import Miscellaneous.NulFrames
import Miscellaneous.SocketPair
import Miscellaneous.SocketPairRuns
import Miscellaneous.BoxLogs
import Miscellaneous.Unwinding
import Miscellaneous.BoxEndpoints
import Miscellaneous.DirectoryTrees
import Miscellaneous.DownsampleRun
import Miscellaneous.DownsampleCopies
import Miscellaneous.DownsampleCopyRuns
import Miscellaneous.Regexes
import Miscellaneous.DateInput
import Miscellaneous.ScanFormats
import Miscellaneous.FaceFile
import Miscellaneous.FaceFileReading
