import WirelessGateway.Lib.Runs
import WirelessGateway.Lib.Fallible
import WirelessGateway.Lib.Countdown
import WirelessGateway.Transport
import WirelessGateway.Worker
import WirelessGateway.Tasks
import WirelessGateway.Buffers
import WirelessGateway.Sends
import WirelessGateway.WellFormed
import WirelessGateway.SoftSteps
import WirelessGateway.Lifecycle
import WirelessGateway.Operations
import WirelessGateway.Forwarding
import WirelessGateway.Answering
import WirelessGateway.Requests
import WirelessGateway.Steps
import WirelessGateway.Sessions
import WirelessGateway.Provenance
import WirelessGateway.Routing
import WirelessGateway.Lists
import WirelessGateway.SharedBuffer
import WirelessGateway.Sentinel
import WirelessGateway.Lib.History
import WirelessGateway.OneShots
import WirelessGateway.StatusProtocol
import WirelessGateway.Polling
import WirelessGateway.Uart
import WirelessGateway.FrameParser
import WirelessGateway.Lib.Text
import WirelessGateway.Modbus
import WirelessGateway.ModbusText
import WirelessGateway.ModbusTransaction
import WirelessGateway.ModbusReply
import WirelessGateway.ModbusRequest
import WirelessGateway.UartSettings
import WirelessGateway.Updates
import WirelessGateway.Transfers
import WirelessGateway.Deleting
import WirelessGateway.Truthful
import WirelessGateway.Handlers
import WirelessGateway.Lib.Ownership
import WirelessGateway.RequestBuffers
import WirelessGateway.Broadcast
import WirelessGateway.Clock
import WirelessGateway.Conditions
import WirelessGateway.Connection
import WirelessGateway.FidText
import WirelessGateway.Keepalive
import WirelessGateway.Lib.Interleave
import WirelessGateway.Lib.Region
import WirelessGateway.LinkDown
import WirelessGateway.RxBuffer
import WirelessGateway.UartTasks
import WirelessGateway.Throttle
import WirelessGateway.Fragments
import WirelessGateway.UartDriver
import WirelessGateway.CallHandles
import WirelessGateway.GroupSend
import WirelessGateway.Envelope
import WirelessGateway.Lib.Base64
import WirelessGateway.RawTransmit
import WirelessGateway.ReplyBuffers
import WirelessGateway.Correlation
import WirelessGateway.Lib.Keyed
import WirelessGateway.Registry
import WirelessGateway.Lib.Locks
import WirelessGateway.Locking
import WirelessGateway.Lib.CString
import WirelessGateway.WebPaths
import WirelessGateway.WebFiles
import WirelessGateway.WebUpload
import WirelessGateway.UartChunks
import WirelessGateway.Lib.Ranges
import WirelessGateway.PollRanges
import WirelessGateway.ModbusTiming
import WirelessGateway.Lib.Utf8
import WirelessGateway.Lib.Json
import WirelessGateway.ModbusBuffer
import WirelessGateway.StaConfig
import WirelessGateway.Lib.Registers
import WirelessGateway.Lib.Checksum
import WirelessGateway.SlaveFrame
import WirelessGateway.FrameCrc
import WirelessGateway.SlaveAnswers
import WirelessGateway.InovertSlave
import WirelessGateway.S111Slave
import WirelessGateway.S111Instructions
import WirelessGateway.VirtualSlaves
import WirelessGateway.Gateway
import WirelessGateway.Orphans
import WirelessGateway.Subscribers
import WirelessGateway.TftpUpload
import WirelessGateway.TftpDownload
import WirelessGateway.WebListing
import WirelessGateway.RegisterReadings
import WirelessGateway.NvsConfig
import WirelessGateway.PortStream
import WirelessGateway.ReceivedStream
