import RevBox.Support.Machine
import RevBox.Support.Fairness
import RevBox.Support.Utf8
import RevBox.Support.Recency
import RevBox.Support.Tasks
import RevBox.Support.Text
import RevBox.Protocol.Envelope
import RevBox.Agent.LedgerHistory
import RevBox.Agent.ActivityReplays
import RevBox.Agent.ServerAnswers
import RevBox.Agent.HostedStop
import RevBox.Agent.HostedAdoption
import RevBox.Agent.HostedStdin
import RevBox.Desktop.AgentClientRuns
import RevBox.Agent.Kill
import RevBox.Agent.ProcReadLegs
import RevBox.Chef.Bake
import RevBox.Chef.Cipher
import RevBox.Chef.ClassicalCiphers
import RevBox.Protocol.FrameStream
import RevBox.Agent.HostedWrites
import RevBox.Desktop.FsLegs
import RevBox.Desktop.FilePreview
import RevBox.Desktop.ApkBundleHostile
import RevBox.Desktop.AdbShell
import RevBox.Desktop.DeviceWatchRuns
import RevBox.Protocol.EnvelopeJson
import RevBox.Desktop.FsPolicyMirror
import RevBox.Agent.NativeLibraryRuns
import RevBox.Agent.ActivityTruth
import RevBox.Desktop.AgentFinality
import RevBox.Desktop.AiEndpoint
import RevBox.Desktop.ForegroundProbe
import RevBox.Desktop.PtyService
import RevBox.Desktop.PathHistory
import RevBox.Desktop.PluginCalls
import RevBox.Desktop.PluginLocks
import RevBox.Desktop.PluginPlace
import RevBox.Desktop.ProcessService
import RevBox.Desktop.ToolMarket
import RevBox.Agent.ActivityEvidence
import RevBox.Zygisk.Token
import RevBox.Zygisk.Requests
import RevBox.Zygisk.Frames
import RevBox.Zygisk.Export
import RevBox.Agent.Presence
import RevBox.Chef.Padding
import RevBox.Support.Numeral
import RevBox.Chef.Radix
import RevBox.Chef.Base58
import RevBox.Chef.Base85
import RevBox.Support.Breaker
import RevBox.Zygisk.Replies
import RevBox.Zygisk.Fuse
import RevBox.Zygisk.Hello
import RevBox.Zygisk.RootProbe
import RevBox.Support.ShellTemplate
import RevBox.Agent.ScriptShapes
import RevBox.Support.Gregorian
import RevBox.Chef.Calendar
import RevBox.Chef.Timestamps
import RevBox.Chef.TimeText
import RevBox.Chef.Der
import RevBox.Chef.Crc
import RevBox.Chef.Base85Strict
import RevBox.Chef.DerTree
import RevBox.Protocol.JsonGrammar
import RevBox.Chef.JsonPretty
import RevBox.Chef.NumberLists
import RevBox.Chef.PercentCoding
import RevBox.Chef.Entities
import RevBox.Chef.UnicodeEscapes
import RevBox.Desktop.PreviewText
import RevBox.Desktop.ApkBundleNames
import RevBox.Support.Trim
import RevBox.Desktop.GetProp
import RevBox.Desktop.StatCarrier
import RevBox.Desktop.StopAgent
import RevBox.Chef.SortLines
import RevBox.Support.Spaced
import RevBox.Desktop.RootListing
import RevBox.Support.OwnLines
import RevBox.Chef.ProtobufLayout
import RevBox.Desktop.HostedRecords
import RevBox.Desktop.ConfigService
import RevBox.Desktop.AiService
import RevBox.Desktop.AgentConsent
import RevBox.Desktop.PluginVersion
import RevBox.Support.Padded
import RevBox.Agent.LibraryDir
import RevBox.Desktop.ProcessOutput
import RevBox.Desktop.TaskService
import RevBox.Desktop.CapabilityRouter
import RevBox.Desktop.TerminalTabs
import RevBox.Desktop.DeviceShell
import RevBox.Desktop.PluginRegistration
import RevBox.Desktop.PluginTransactions
import RevBox.Chef.Morse
import RevBox.Support.FileContents
import RevBox.Support.Cutoff
import RevBox.Support.Volume
import RevBox.Desktop.HookScripts
