import WirelessGateway.Types

namespace WirelessGateway.Uart

open CJson WirelessGateway.Types

def espWsApiUart1Cnf : UInt32 := 0x1010
def espWsApiUart1RawRx : UInt32 := 0x1011
def espWsApiUart1RawTx : UInt32 := 0x1012
def espWsApiUart1Echo : UInt32 := 0x1013
def espWsApiUart2Cnf : UInt32 := 0x1020
def espWsApiUart2RawRx : UInt32 := 0x1021
def espWsApiUart2RawTx : UInt32 := 0x1022
def espWsApiUart2Echo : UInt32 := 0x1023

def uartTmpBufSize : Nat := ((500000 / 10) / (1000 / 20) + 3) / 4 * 4

/-- The base64 functions of the code library. A text or a result without bytes
stands for their failure. -/
structure Base64 where
  encode : Bytes → Bytes
  decodeBufferRequired : Bytes → Nat
  decode : Bytes → Bytes

inductive UartWordLength
  | unset | data7Bits | data8Bits

inductive UartParity
  | disable | odd | even

inductive UartStopBits
  | unset | bits1 | bits2 | bits1_5

structure UartConfig where
  baudRate : UInt32
  dataBits : UartWordLength
  parity : UartParity
  stopBits : UartStopBits

/-- gw_uart_private_t, with the data that RAW_TX gave to the driver by
gw_uart_write. -/
structure GwUart where
  cnf : UartConfig
  echoEnabled : Bool
  written : List Bytes

structure GwUartConfig where
  bits : UInt32
  boud : UInt32
  parity : UInt32
  stop : UInt32
  deriving DecidableEq

def gwUartGet (uart : GwUart) : Option GwUartConfig := do
  let bits ← match uart.cnf.dataBits with
    | .data7Bits => some 0
    | .data8Bits => some 1
    | .unset => none
  let parity := match uart.cnf.parity with
    | .disable => 0
    | .odd => 1
    | .even => 2
  let stop ← match uart.cnf.stopBits with
    | .bits1 => some 1
    | .bits1_5 => some 3
    | .bits2 => some 2
    | .unset => none
  pure ⟨bits, uart.cnf.baudRate, parity, stop⟩

def gwUartSet (uart : GwUart) (cnf : GwUartConfig) (paramConfig : Bool) : GwUart × Bool :=
  let bits : Option UartWordLength :=
    if cnf.bits = 0 then some .data7Bits else if cnf.bits = 1 then some .data8Bits else none
  let parity : Option UartParity :=
    if cnf.parity = 0 then some .disable
    else if cnf.parity = 1 then some .odd
    else if cnf.parity = 2 then some .even
    else none
  let stop : Option UartStopBits :=
    if cnf.stop = 1 then some .bits1
    else if cnf.stop = 2 then some .bits2
    else if cnf.stop = 3 then some .bits1_5
    else none
  match bits, parity, stop with
  | some bits, some parity, some stop =>
    ({ uart with cnf := ⟨cnf.boud, bits, parity, stop⟩ }, paramConfig)
  | _, _, _ => (uart, false)

def gwUartWrite (uart : GwUart) (buf : Bytes) (size : Nat) : GwUart :=
  { uart with written := uart.written ++ [buf.take (size % 65536)] }

/-- uart_subscription_context_t: the capacity of buf and its first amount
bytes. -/
structure UartSubscriptionContext where
  size : Nat
  buf : Bytes

def uartEventOnRx (ctx : UartSubscriptionContext) (data : Bytes) : UartSubscriptionContext :=
  { ctx with buf := ctx.buf ++ data.take (ctx.size - ctx.buf.length) }

structure UartApp where
  port : Fin 2 → GwUart
  context : Fin 2 → UartSubscriptionContext

def UartApp.setPort (app : UartApp) (i : Fin 2) (uart : GwUart) : UartApp :=
  { app with port := Function.update app.port i uart }

def UartApp.setContext (app : UartApp) (i : Fin 2) (ctx : UartSubscriptionContext) : UartApp :=
  { app with context := Function.update app.context i ctx }

/-- api_cmd_uart_t: the fields that were set. All but boud are two bits wide. -/
structure ApiCmdUart where
  wl : Option UInt32
  boud : Option UInt32
  par : Option UInt32
  sb : Option UInt32

def parseUartParams (P : Platform) (data : Bytes) (len : Nat) : Option ApiCmdUart :=
  (P.parse (data.take len)).map (fun json =>
    { wl := (json.parseInt ['W', 'L']).map (· &&& 3)
      boud := json.parseInt ['B', 'R']
      par := (json.parseInt ['P', 'A', 'R']).map (· &&& 3)
      sb := (json.parseInt ['S', 'B']).map (· &&& 3) })

def uartConfig (uart : GwUart) (cfg : ApiCmdUart) (paramConfig : Bool) : GwUart × GwUartConfig :=
  let gwCfg := (gwUartGet uart).getD ⟨0, 0, 0, 0⟩
  let gwCfg : GwUartConfig :=
    { bits := cfg.wl.getD gwCfg.bits
      boud := cfg.boud.getD gwCfg.boud
      parity := cfg.par.getD gwCfg.parity
      stop := cfg.sb.getD gwCfg.stop }
  ((gwUartSet uart gwCfg paramConfig).1, gwCfg)

def formatUartResp (cnf : GwUartConfig) : Json :=
  .object [(bytes ['B', 'R'], .createNumber cnf.boud.toNat),
    (bytes ['W', 'L'], .createNumber cnf.bits.toNat),
    (bytes ['P', 'A', 'R'], .createNumber cnf.parity.toNat),
    (bytes ['S', 'B'], .createNumber cnf.stop.toNat)]

/-- What the environment of one handle_msg decides: whether the JSON of the
answer and its text can be allocated, and the results of the driver. -/
structure UartEnv where
  jsonAlloc : Bool
  printAlloc : Bool
  paramConfig : Bool
  written : Int

def uartResponse (P : Platform) (id fid : UInt32) (json : Option Json) (env : UartEnv) :
    WebapiMsg :=
  let data := json.bind (fun json => if env.printAlloc then some (P.print json) else none)
  ⟨fid, id, data, (data.map List.length).getD 0⟩

def handleCnf (P : Platform) (app : UartApp) (i : Fin 2) (inMsg : WebapiMsg) (env : UartEnv) :
    UartApp × Option WebapiMsg :=
  match inMsg.data with
  | none => (app, none)
  | some data => match parseUartParams P data inMsg.len with
    | none => (app, none)
    | some cmd =>
      let (uart, newCfg) := uartConfig (app.port i) cmd env.paramConfig
      let app := app.setPort i uart
      if env.jsonAlloc then
        (app, some (uartResponse P inMsg.id inMsg.fid (some (formatUartResp newCfg)) env))
      else (app, none)

def handleRawRx (B : Base64) (P : Platform) (app : UartApp) (i : Fin 2) (inMsg : WebapiMsg)
    (env : UartEnv) : UartApp × Option WebapiMsg :=
  let tmp := (app.context i).buf
  if tmp.length > 0 then
    let app := app.setContext i { app.context i with buf := [] }
    let b64 := B.encode tmp
    if b64.length > 0 && env.jsonAlloc then
      (app, some (uartResponse P 0 inMsg.fid (some (.string b64)) env))
    else (app, none)
  else (app, some (uartResponse P 0 inMsg.fid none env))

def handleRawTx (B : Base64) (P : Platform) (app : UartApp) (i : Fin 2) (inMsg : WebapiMsg)
    (env : UartEnv) : UartApp × Option WebapiMsg :=
  match inMsg.data with
  | none => (app, none)
  | some data =>
    if inMsg.len > 2 then
      let b64 := (data.drop 1).take (inMsg.len - 2)
      let buf := B.decode b64
      if B.decodeBufferRequired b64 > 0 && buf.length > 0 then
        let app := app.setPort i (gwUartWrite (app.port i) buf buf.length)
        if env.jsonAlloc then
          let json := .object [(bytes ['w', 'r', 'i', 't', 't', 'e', 'n'], .createNumber env.written)]
          (app, some (uartResponse P inMsg.id inMsg.fid (some json) env))
        else (app, none)
      else (app, none)
    else (app, none)

def handleEcho (P : Platform) (app : UartApp) (i : Fin 2) (inMsg : WebapiMsg) (env : UartEnv) :
    UartApp × Option WebapiMsg :=
  let arg := inMsg.data.bind (fun data =>
    if inMsg.len > 0 then P.parse (data.take inMsg.len) else none)
  let uart := match arg.bind (fun json => json.parseInt ['E']) with
    | some val => { app.port i with echoEnabled := val != 0 }
    | none => app.port i
  let app := app.setPort i uart
  if env.jsonAlloc then
    let json := .object [(bytes ['E'], .createNumber uart.echoEnabled.toNat)]
    (app, some (uartResponse P inMsg.id inMsg.fid (some json) env))
  else (app, none)

def handleMsg (B : Base64) (P : Platform) (app : UartApp) (inMsg : WebapiMsg) (env : UartEnv) :
    UartApp × Option WebapiMsg :=
  if inMsg.fid = espWsApiUart1Cnf then handleCnf P app 0 inMsg env
  else if inMsg.fid = espWsApiUart2Cnf then handleCnf P app 1 inMsg env
  else if inMsg.fid = espWsApiUart1RawRx then handleRawRx B P app 0 inMsg env
  else if inMsg.fid = espWsApiUart2RawRx then handleRawRx B P app 1 inMsg env
  else if inMsg.fid = espWsApiUart1RawTx then handleRawTx B P app 0 inMsg env
  else if inMsg.fid = espWsApiUart2RawTx then handleRawTx B P app 1 inMsg env
  else if inMsg.fid = espWsApiUart1Echo then handleEcho P app 0 inMsg env
  else if inMsg.fid = espWsApiUart2Echo then handleEcho P app 1 inMsg env
  else (app, none)

theorem handleMsg_cases {B : Base64} {P : Platform} {app : UartApp} {inMsg : WebapiMsg} {env : UartEnv}
    {Q : UartApp × Option WebapiMsg → Prop}
    (hcnf : ∀ i, inMsg.fid = espWsApiUart1Cnf ∨ inMsg.fid = espWsApiUart2Cnf →
      Q (handleCnf P app i inMsg env))
    (hrx : ∀ i, Q (handleRawRx B P app i inMsg env)) (htx : ∀ i, Q (handleRawTx B P app i inMsg env))
    (hecho : ∀ i, Q (handleEcho P app i inMsg env)) (hother : Q (app, none)) :
    Q (handleMsg B P app inMsg env) := by
  apply iteInduction (fun hfid => hcnf 0 (.inl hfid)) (fun _ => ?_)
  apply iteInduction (fun hfid => hcnf 1 (.inr hfid)) (fun _ => ?_)
  apply iteInduction (fun _ => hrx 0) (fun _ => ?_)
  apply iteInduction (fun _ => hrx 1) (fun _ => ?_)
  apply iteInduction (fun _ => htx 0) (fun _ => ?_)
  apply iteInduction (fun _ => htx 1) (fun _ => ?_)
  apply iteInduction (fun _ => hecho 0) (fun _ => ?_)
  exact iteInduction (fun _ => hecho 1) (fun _ => hother)

end WirelessGateway.Uart
