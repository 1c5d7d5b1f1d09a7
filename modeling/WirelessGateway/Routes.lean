import WirelessGateway.Gateway
import WirelessGateway.Updates

namespace WirelessGateway.Routes

open CJson WirelessGateway.Types Memory WsServer Transport Worker Tasks Updates Uart Modbus
open Provenance Gateway Lib.Fallible Lib.Runs

variable {B : Base64} {lib : ModbusLib} {P : Platform} {s t : Server} {p : CallPtr} {x y : System}
  {g h : Device} {fid : UInt32} {q : QueueId}

section Tables

def SameQueues (s t : Server) : Prop := t.pxWsFidQueues = s.pxWsFidQueues

theorem SameQueues.trans {u : Server} (h : SameQueues s t) (h' : SameQueues t u) : SameQueues s u :=
  Eq.trans h' h

instance : AdmitsCompletion SameQueues where
  log _ _ _ := rfl
  setCall _ _ _ _ := rfl
  complete _ := rfl
  allocData _ _ _ _ _ := rfl
  send _ _ _ := rfl
  release _ := rfl
  transferred _ _ := rfl
  allocCall _ _ _ := rfl
  unlink _ _ := rfl
  toCalls _ _ := rfl
  toWaiting _ _ := rfl
  free _ _ := rfl
  close _ _ := rfl
  freeSession _ _ := rfl
  periph _ _ _ := rfl
  worker _ _ _ _ := rfl

end Tables

section Queues

variable {a : GatewayLabel}

/-- The queues of a gateway are those of its peripherals. -/
def Wired (s : Server) : Prop :=
  ∀ f ∈ s.pxWsFidQueues, ∀ q, f.xQueue = some q → (f.ulFid, q) ∈ fidQueues

theorem Wired.congr (hw : Wired s) (h : SameQueues s t) : Wired t := by
  rw [Wired, show t.pxWsFidQueues = s.pxWsFidQueues from h]
  exact hw

theorem Wired.route (hw : Wired s) (hq : s.wsGetFidQueue fid = some q) : (fid, q) ∈ fidQueues := by
  obtain ⟨f, hf, hfq⟩ := Option.bind_eq_some_iff.1 hq
  have hfid := List.find?_some hf
  rw [← eq_of_beq hfid]
  exact hw f (List.mem_of_find?_eq_some hf) q hfq

end Queues

end WirelessGateway.Routes
