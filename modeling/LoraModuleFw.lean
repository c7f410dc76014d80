import LoraModuleFw.Lib.Runs
import LoraModuleFw.Lib.Retry
import LoraModuleFw.Lib.Heapless
import LoraModuleFw.Lib.Postcard
import LoraModuleFw.Lib.Frontier
import LoraModuleFw.Lib.Stuffing
import LoraModuleFw.Lib.Ledger
import LoraModuleFw.Lib.Crc
import LoraModuleFw.Lora
import LoraModuleFw.Checksum
import LoraModuleFw.Link
import LoraModuleFw.Schema
import LoraModuleFw.Host
import LoraModuleFw.Frames
import LoraModuleFw.HostBuffers
import LoraModuleFw.HostNoise
import LoraModuleFw.Ota.Common
import LoraModuleFw.Ota.Air
import LoraModuleFw.Ota.Requests
import LoraModuleFw.Ota.Consumer
import LoraModuleFw.Ota.ConsumerRuns
import LoraModuleFw.Ota.Stability
import LoraModuleFw.Ota.Producer
import LoraModuleFw.Ota.ProducerRuns
import LoraModuleFw.Ota.Outstanding
import LoraModuleFw.Ota.Room
import LoraModuleFw.Ota.Exchange
import LoraModuleFw.Ota.Calls
import LoraModuleFw.Ota.Reports
import LoraModuleFw.Ota.Completion
import LoraModuleFw.Ota.Resending
import LoraModuleFw.ModuleNode.OtaMemory
import LoraModuleFw.ModuleNode.Driver
import LoraModuleFw.ModuleNode.Pages
import LoraModuleFw.ModuleNode.InOrder
import LoraModuleFw.ModuleNode.Image
import LoraModuleFw.ModuleNode.AnyBlockSize
import LoraModuleFw.ModuleNode.NewSession
import LoraModuleFw.ModuleNode.Checked
import LoraModuleFw.ModuleNode.SoilSensor
import LoraModuleFw.ModuleNode.SoilSensorPins
import LoraModuleFw.ModuleNode.Node
import LoraModuleFw.Ota.Delivery
import LoraModuleFw.Ota.Finishing
import LoraModuleFw.ModuleNode.FirstPage
import LoraModuleFw.Ota.Recovery
import LoraModuleFw.ModuleGateway.Gateway
import LoraModuleFw.ModuleGateway.Session
import LoraModuleFw.ModuleGateway.Errors
import LoraModuleFw.ModuleGateway.Capacity
import LoraModuleFw.ModuleGateway.Opening
import LoraModuleFw.ModuleGateway.Foreign
import LoraModuleFw.ModuleGateway.Tasks
import LoraModuleFw.ModuleGateway.Closed
import LoraModuleFw.ModuleGateway.SoilReports
import LoraModuleFw.ModuleGateway.HostLink
import LoraModuleFw.ModuleGateway.Sends
import LoraModuleFw.ModuleGateway.Serial
import LoraModuleFw.ModuleGateway.Limits
import LoraModuleFw.ModuleGateway.HostView
import LoraModuleFw.Network
import LoraModuleFw.Downloads
