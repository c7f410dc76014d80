import LoraModuleFw.Ota.Outstanding
import LoraModuleFw.ModuleGateway.Serial

/-! What the host can know: errors are not reported to it, yet the responses
it gets tell it at every moment whether a download is open. -/

namespace LoraModuleFw

open Lora Ota Schema Runs

namespace ModuleGateway

/-- A host that follows the session by the responses.  `none`: a response does not fit,
being an acknowledgement of a second download or a status that says otherwise. -/
def HostView.step (opened : Bool) : GatewayPacket → Option Bool
  | .pingResponse => some opened
  | .otaInitAck => if opened then none else some true
  | .otaStatus s => if s.inProgress = opened then some opened else none
  | .otaDoneAck => some false
  | .otaAbortAck => some false
  | .soilSensorMoisture _ => some opened

end ModuleGateway

/-! ## The session -/

namespace Ota.OtaProducer

open ModuleGateway

variable {p p' : OtaProducer} {r : Except OtaError GatewayPacket}

end Ota.OtaProducer

/-! ## The gateway -/

namespace ModuleGateway

namespace Gateway

variable {g g' : Gateway} {lora lora' : ModuleLoRa}

/-- What a result gives the host. -/
def responses (r : Except Error (Option GatewayPacket)) : List GatewayPacket :=
  (r.toOption.bind id).toList

end Gateway

end ModuleGateway

end LoraModuleFw
