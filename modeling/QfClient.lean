import QfClient.Machine
import QfClient.LittleEndian
import QfClient.Tiling
import QfClient.Stream
import QfClient.Qt
import QfClient.Basic
import QfClient.Channel
import QfClient.ChannelReassembly
import QfClient.ChannelRecovery
import QfClient.ChannelModes
import QfClient.Packet
import QfClient.FileServe
import QfClient.MessageLoop
import QfClient.Slot
import QfClient.StreamIds
import QfClient.SlotHistory
import QfClient.Download
import QfClient.DownloadLoop
import QfClient.DownloadServe
import QfClient.RemotePath
import QfClient.Entry
import QfClient.EntryBatches
import QfClient.PublicationOrder
import QfClient.RemoteClipboard
import QfClient.EntryRequests
import QfClient.WorkerDownloads
import QfClient.WorkerStop
import QfClient.FileDescriptor
import QfClient.FormatList
import QfClient.Capabilities
import QfClient.HugeFiles
import QfClient.FormatAnswers
import QfClient.LocalClipboard
import QfClient.LocalServing
import QfClient.FormatDataAnswers
import QfClient.FirstWins
import QfClient.Paths
import QfClient.FileCapture
import QfClient.CapturedFiles
import QfClient.Advertisement
import QfClient.Keyboard
import QfClient.HeldKeys
import QfClient.RdpSession
import QfClient.ContextLifetimes
import QfClient.DibImages
import QfClient.TextRoundTrip
import QfClient.RangeServing
import QfClient.FileListWire
import QfClient.EnqueuedJobs
import QfClient.NameRoundTrip
import QfClient.DescriptorNames
import QfClient.Ways
import QfClient.LinkedCapture
import QfClient.Scaling
import QfClient.Pointer
import QfClient.PointerCoordinates
import QfClient.WheelRotation
import QfClient.Unicode
import QfClient.FormatListReader
import QfClient.FormatListWriter
import QfClient.Lockstep
import QfClient.ClipboardMessages
import QfClient.SentPackets
import QfClient.ClipboardClient
import QfClient.MessageEffects
import QfClient.FeatureMask
import QfClient.CapabilityHistory
import QfClient.WireHistory
import QfClient.WireDownload
import QfClient.CopyPaste
import QfClient.Ownership
import QfClient.StreamMemory
import QfClient.Assertions
import QfClient.Desktops
import QfClient.ClipboardSync
import QfClient.Painting
