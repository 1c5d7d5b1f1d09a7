import WirelessGateway.UartSettings

namespace WirelessGateway.UartDriver

open CJson WirelessGateway.Types Uart UartSettings

def uartData7Bits : UInt32 := 2
def uartData8Bits : UInt32 := 3
def uartParityDisable : UInt32 := 0
def uartParityEven : UInt32 := 2
def uartParityOdd : UInt32 := 3
def uartStopBits1 : UInt32 := 1
def uartStopBits1_5 : UInt32 := 2
def uartStopBits2 : UInt32 := 3
def uartHwFlowctrlDisable : UInt32 := 0

/-- uart_config_t, with any integer in the fields that are enumerations. -/
structure UartConfigT where
  baudRate : UInt32
  dataBits : UInt32
  parity : UInt32
  stopBits : UInt32
  flowCtrl : UInt32
  rxFlowCtrlThresh : UInt8
  deriving DecidableEq

/-- The part of gw_uart_private_t that holds the settings. The configuration that
uart_param_config accepted last is ghost state. -/
structure GwUartPrivate where
  cnf : UartConfigT
  inForce : Option UartConfigT

def gwUartWord (dataBits : UInt32) : Option UInt32 :=
  if dataBits = uartData7Bits then some 0
  else if dataBits = uartData8Bits then some 1
  else none

def gwUartParity (parity : UInt32) : Option UInt32 :=
  if parity = uartParityDisable then some 0
  else if parity = uartParityOdd then some 1
  else if parity = uartParityEven then some 2
  else none

def gwUartStopBits (stopBits : UInt32) : Option UInt32 :=
  if stopBits = uartStopBits1 then some 1
  else if stopBits = uartStopBits1_5 then some 3
  else if stopBits = uartStopBits2 then some 2
  else none

def UartConfigT.gwUartGet (cnf : UartConfigT) : Option GwUartConfig := do
  let bits ← gwUartWord cnf.dataBits
  let parity ← gwUartParity cnf.parity
  let stop ← gwUartStopBits cnf.stopBits
  pure ⟨bits, cnf.baudRate, parity, stop⟩

def uartWord (bits : UInt32) : Option UInt32 :=
  if bits = 0 then some uartData7Bits
  else if bits = 1 then some uartData8Bits
  else none

def uartParity (parity : UInt32) : Option UInt32 :=
  if parity = 0 then some uartParityDisable
  else if parity = 1 then some uartParityOdd
  else if parity = 2 then some uartParityEven
  else none

def uartStopBits (stop : UInt32) : Option UInt32 :=
  if stop = 1 then some uartStopBits1
  else if stop = 3 then some uartStopBits1_5
  else if stop = 2 then some uartStopBits2
  else none

def driverConfig (cnf : GwUartConfig) : Option UartConfigT := do
  let bits ← uartWord cnf.bits
  let parity ← uartParity cnf.parity
  let stop ← uartStopBits cnf.stop
  pure ⟨cnf.boud, bits, parity, stop, uartHwFlowctrlDisable, 122⟩

def GwUartPrivate.gwUartSet (uart : GwUartPrivate) (cnf : GwUartConfig) (paramConfig : Bool) :
    GwUartPrivate × Bool :=
  match driverConfig cnf with
  | none => (uart, false)
  | some stored =>
    if paramConfig then (⟨stored, some stored⟩, true) else (⟨stored, uart.inForce⟩, false)

def GwUartPrivate.uartConfig (uart : GwUartPrivate) (cmd : ApiCmdUart) (paramConfig : Bool) :
    GwUartPrivate × GwUartConfig :=
  let gwCfg := uart.cnf.gwUartGet.getD ⟨0, 0, 0, 0⟩
  let gwCfg : GwUartConfig :=
    { bits := cmd.wl.getD gwCfg.bits
      boud := cmd.boud.getD gwCfg.boud
      parity := cmd.par.getD gwCfg.parity
      stop := cmd.sb.getD gwCfg.stop }
  ((uart.gwUartSet gwCfg paramConfig).1, gwCfg)

/-- The CNF branch of handle_msg for a port, with the JSON of its answer. -/
def handleCnf (P : Platform) (uart : GwUartPrivate) (inMsg : WebapiMsg) (env : UartEnv) :
    GwUartPrivate × Option Json :=
  match inMsg.data with
  | none => (uart, none)
  | some data => match parseUartParams P data inMsg.len with
    | none => (uart, none)
    | some cmd =>
      let (uart, newCfg) := uart.uartConfig cmd env.paramConfig
      (uart, if env.jsonAlloc then some (formatUartResp newCfg) else none)

section Set

variable {cnf : GwUartConfig} {stored : UartConfigT}

theorem accepted_of_driverConfig (h : driverConfig cnf = some stored) : Accepted cnf := by
  simp only [driverConfig, Option.bind_eq_bind, Option.bind_eq_some_iff] at h
  obtain ⟨bits, hb, parity, hp, stop, hs, -⟩ := h
  refine ⟨?_, ?_, ?_⟩
  · unfold uartWord at hb
    split_ifs at hb with h0 h1
    · rw [h0]
      decide
    · rw [h1]
      decide
  · unfold uartParity at hp
    split_ifs at hp with h0 h1 h2
    · rw [h0]
      decide
    · rw [h1]
      decide
    · rw [h2]
      decide
  · unfold uartStopBits at hs
    split_ifs at hs with h1 h3 h2
    · rw [h1]
      decide
    · rw [h3]
      decide
    · rw [h2]
      decide

/-- The switches of gw_uart_get undo those of gw_uart_set. -/
theorem driverConfig_read (h : Accepted cnf) :
    ∃ stored, driverConfig cnf = some stored ∧ stored.gwUartGet = some cnf := by
  obtain ⟨bits, boud, parity, stop⟩ := cnf
  obtain ⟨hb, hp, hs⟩ := h
  dsimp only at hb hp hs
  rcases le_one_cases hb with rfl | rfl <;> rcases le_two_cases hp with rfl | rfl | rfl <;>
    rcases stop_cases hs with rfl | rfl | rfl <;> exact ⟨_, rfl, rfl⟩

theorem driverConfig_none (h : ¬ Accepted cnf) : driverConfig cnf = none := by
  cases hd : driverConfig cnf with
  | none => rfl
  | some stored => exact absurd (accepted_of_driverConfig hd) h

theorem set_refused (h : ¬ Accepted cnf) (uart : GwUartPrivate) (ok : Bool) :
    uart.gwUartSet cnf ok = (uart, false) := by
  simp only [GwUartPrivate.gwUartSet, driverConfig_none h]

theorem set_eq (h : driverConfig cnf = some stored) (uart : GwUartPrivate) (ok : Bool) :
    uart.gwUartSet cnf ok = (⟨stored, if ok then some stored else uart.inForce⟩, ok) := by
  cases ok <;> simp only [GwUartPrivate.gwUartSet, h] <;> rfl

/-- gw_uart_set either has no effect, and later requests start from what they
would have started from without it, or the given configuration is stored. -/
structure AllOrNothing (uart : GwUartPrivate) (cnf : GwUartConfig) (paramConfig : Bool) : Prop where
  unchanged : (uart.gwUartSet cnf paramConfig).2 = false →
    (uart.gwUartSet cnf paramConfig).1.cnf = uart.cnf
  later : (uart.gwUartSet cnf paramConfig).2 = false → ∀ cmd ok,
    ((uart.gwUartSet cnf paramConfig).1.uartConfig cmd ok).2 = (uart.uartConfig cmd ok).2
  inForce : (uart.gwUartSet cnf paramConfig).2 = false → uart.inForce = some uart.cnf →
    (uart.gwUartSet cnf paramConfig).1.inForce = some (uart.gwUartSet cnf paramConfig).1.cnf
  stored : (uart.gwUartSet cnf paramConfig).2 = true →
    (uart.gwUartSet cnf paramConfig).1.cnf.gwUartGet = some cnf

/-- Only what uart_param_config refuses, after it has been stored, is neither. -/
theorem allOrNothing_iff (uart : GwUartPrivate) (cnf : GwUartConfig) (paramConfig : Bool) :
    AllOrNothing uart cnf paramConfig ↔
      paramConfig = true ∨ ¬ Accepted cnf ∨ driverConfig cnf = some uart.cnf := by
  by_cases hacc : Accepted cnf
  · obtain ⟨stored, hd, hread⟩ := driverConfig_read hacc
    have hset := set_eq hd uart paramConfig
    cases paramConfig with
    | true =>
        refine iff_of_true ⟨?_, ?_, ?_, ?_⟩ (.inl rfl)
        · simp [hset]
        · simp [hset]
        · simp [hset]
        · simp [hset, hread]
    | false =>
        constructor
        · intro h
          have hsame := h.unchanged (by rw [hset])
          rw [hset] at hsame
          exact .inr (.inr (hd.trans (congrArg some hsame)))
        · intro h
          have hsame : stored = uart.cnf := by simpa [hacc, hd] using h
          refine ⟨?_, ?_, ?_, ?_⟩
          · simp [hset, hsame]
          · simp [hset, hsame, GwUartPrivate.uartConfig]
          · intro _ hforce
            simp [hset, hsame, hforce]
          · simp [hset]
  · have hset := set_refused hacc uart paramConfig
    refine iff_of_true ⟨?_, ?_, ?_, ?_⟩ (.inr (.inl hacc))
    · simp [hset]
    · simp [hset]
    · simp [hset]
    · simp [hset]

def fresh : UartConfigT :=
  ⟨115200, uartData8Bits, uartParityDisable, uartStopBits1, uartHwFlowctrlDisable, 122⟩

/-- The driver refuses a baud rate, and gw_uart_get reports it all the same. -/
theorem set_half_applied : (GwUartPrivate.gwUartSet ⟨fresh, some fresh⟩ ⟨1, 0, 0, 1⟩ false).2 = false ∧
    fresh.gwUartGet = some ⟨1, 115200, 0, 1⟩ ∧
    (GwUartPrivate.gwUartSet ⟨fresh, some fresh⟩ ⟨1, 0, 0, 1⟩ false).1.cnf.gwUartGet =
      some ⟨1, 0, 0, 1⟩ ∧
    ¬ AllOrNothing ⟨fresh, some fresh⟩ ⟨1, 0, 0, 1⟩ false := by
  refine ⟨by decide, by decide, by decide, fun h => ?_⟩
  exact absurd (h.unchanged (by decide)) (by decide)

end Set

section Answer

variable {P : Platform} {uart : GwUartPrivate} {cfg : GwUartConfig} {json resp : Json}
  {inMsg : WebapiMsg}

/-- The answer gives the configuration in force: the one that gw_uart_get reads
and that uart_param_config accepted last. -/
def Truthful (uart : GwUartPrivate) (resp : Json) : Prop :=
  ∃ cfg, uart.cnf.gwUartGet = some cfg ∧ uart.inForce.bind UartConfigT.gwUartGet = some cfg ∧
    resp = formatUartResp cfg

def merged (uart : GwUartPrivate) (json : Json) : GwUartConfig :=
  squeezed (uart.cnf.gwUartGet.getD ⟨0, 0, 0, 0⟩) json

theorem formatUartResp_injective : Function.Injective formatUartResp := by
  intro cfg cfg' h
  simp only [formatUartResp, Json.object.injEq, List.cons.injEq, Prod.mk.injEq, Json.createNumber,
    Json.number.injEq, true_and, and_true, Rat.intCast_inj, Int.natCast_inj, UInt32.toNat_inj] at h
  obtain ⟨⟨-, hbr⟩, ⟨-, hwl⟩, ⟨-, hpar⟩, -, hsb⟩ := h
  obtain ⟨bits, boud, parity, stop⟩ := cfg
  dsimp only at hbr hwl hpar hsb
  rw [hbr, hwl, hpar, hsb]

theorem read_accepted {stored : UartConfigT} (h : stored.gwUartGet = some cfg) : Accepted cfg := by
  simp only [UartConfigT.gwUartGet, Option.bind_eq_bind, Option.bind_eq_some_iff] at h
  obtain ⟨bits, hb, parity, hp, stop, hs, hcfg⟩ := h
  rw [← Option.some.inj hcfg]
  refine ⟨?_, ?_, ?_⟩
  · unfold gwUartWord at hb
    dsimp only
    split_ifs at hb <;> cases hb <;> decide
  · unfold gwUartParity at hp
    dsimp only
    split_ifs at hp <;> cases hp <;> decide
  · unfold gwUartStopBits at hs
    dsimp only
    split_ifs at hs <;> cases hs <;> decide

theorem handleCnf_answer {env : UartEnv} (h : (handleCnf P uart inMsg env).2 = some resp) :
    ∃ json, cnfJson P inMsg = some json ∧ resp = formatUartResp (merged uart json) ∧
      (handleCnf P uart inMsg env).1 = (uart.gwUartSet (merged uart json) env.paramConfig).1 := by
  unfold handleCnf at h ⊢
  cases hdata : inMsg.data with
  | none => simp [hdata] at h
  | some data =>
      cases hjson : P.parse (data.take inMsg.len) with
      | none => simp [hdata, parseUartParams, hjson] at h
      | some json =>
          refine ⟨json, by simp [cnfJson, hdata, hjson], ?_⟩
          simp only [hdata, parseUartParams, hjson, Option.map_some, Option.ite_none_right_eq_some,
            Option.some.injEq] at h ⊢
          exact ⟨h.2.symm, rfl⟩

/-- The answer to a CNF request is true exactly when the settings that it gives
were accepted, by gw_uart_set and by the driver. -/
theorem cnf_truthful_iff {env : UartEnv} (h : (handleCnf P uart inMsg env).2 = some resp) :
    Truthful (handleCnf P uart inMsg env).1 resp ↔ ∀ json, cnfJson P inMsg = some json →
      Accepted (merged uart json) ∧ (env.paramConfig = true ∨
        uart.inForce.bind UartConfigT.gwUartGet = some (merged uart json)) := by
  obtain ⟨json, hjson, rfl, huart⟩ := handleCnf_answer h
  rw [huart, hjson]
  simp only [Option.some.injEq, forall_eq']
  by_cases hacc : Accepted (merged uart json)
  · obtain ⟨stored, hd, hread⟩ := driverConfig_read hacc
    have hset := set_eq hd uart env.paramConfig
    constructor
    · rintro ⟨cfg, hget, hforce, hresp⟩
      obtain rfl := formatUartResp_injective hresp
      refine ⟨hacc, ?_⟩
      cases hok : env.paramConfig with
      | true => exact .inl rfl
      | false =>
          rw [hset, hok] at hforce
          exact .inr hforce
    · rintro ⟨-, hok⟩
      refine ⟨merged uart json, by rw [hset, hread], ?_, rfl⟩
      rw [hset]
      cases hparam : env.paramConfig with
      | true => exact hread
      | false =>
          rw [hparam] at hok
          exact hok.resolve_left Bool.false_ne_true
  · refine iff_of_false ?_ (fun h => hacc h.1)
    rintro ⟨cfg, hget, -, hresp⟩
    obtain rfl := formatUartResp_injective hresp
    exact hacc (read_accepted hget)

theorem cnf_truthful_even : ∃ resp,
    (handleCnf (reads [fastEven]) ⟨fresh, some fresh⟩ (cnf 0x1010 fastEven).1
      (cnf 0x1010 fastEven).2).2 = some resp ∧
    Truthful (handleCnf (reads [fastEven]) ⟨fresh, some fresh⟩ (cnf 0x1010 fastEven).1
      (cnf 0x1010 fastEven).2).1 resp := by
  have hjson : cnfJson (reads [fastEven]) (cnf 0x1010 fastEven).1 = some (argJson fastEven) := by rfl
  refine ⟨_, rfl, (cnf_truthful_iff rfl).2 fun json hj => ?_⟩
  obtain rfl : argJson fastEven = json := Option.some.inj (hjson.symm.trans hj)
  exact ⟨by decide +kernel, .inl rfl⟩

/-- A word length of 9 bits is not supported: the answer gives it, and the port
goes on with 8 bits. -/
theorem cnf_nine_bits : ∃ resp,
    (handleCnf (reads [wordLength 2]) ⟨fresh, some fresh⟩ (cnf 0x1010 (wordLength 2)).1
      (cnf 0x1010 (wordLength 2)).2).2 = some resp ∧
    resp = formatUartResp ⟨2, 115200, 0, 1⟩ ∧
    (handleCnf (reads [wordLength 2]) ⟨fresh, some fresh⟩ (cnf 0x1010 (wordLength 2)).1
      (cnf 0x1010 (wordLength 2)).2).1.cnf.gwUartGet = some ⟨1, 115200, 0, 1⟩ ∧
    ¬ Truthful (handleCnf (reads [wordLength 2]) ⟨fresh, some fresh⟩ (cnf 0x1010 (wordLength 2)).1
      (cnf 0x1010 (wordLength 2)).2).1 resp := by
  have hget : (handleCnf (reads [wordLength 2]) ⟨fresh, some fresh⟩ (cnf 0x1010 (wordLength 2)).1
      (cnf 0x1010 (wordLength 2)).2).1.cnf.gwUartGet = some ⟨1, 115200, 0, 1⟩ := by decide +kernel
  have hresp : (handleCnf (reads [wordLength 2]) ⟨fresh, some fresh⟩ (cnf 0x1010 (wordLength 2)).1
      (cnf 0x1010 (wordLength 2)).2).2 = some (formatUartResp ⟨2, 115200, 0, 1⟩) := by rfl
  refine ⟨_, hresp, rfl, hget, ?_⟩
  rintro ⟨cfg, hcfg, -, hsame⟩
  rw [hget, Option.some.injEq] at hcfg
  rw [← hcfg] at hsame
  exact absurd (formatUartResp_injective hsame) (by decide)

end Answer

section Refinement

def dataBitsCode : UartWordLength → UInt32
  | .unset => 0
  | .data7Bits => uartData7Bits
  | .data8Bits => uartData8Bits

def parityCode : UartParity → UInt32
  | .disable => uartParityDisable
  | .odd => uartParityOdd
  | .even => uartParityEven

def stopBitsCode : UartStopBits → UInt32
  | .unset => 0
  | .bits1 => uartStopBits1
  | .bits2 => uartStopBits2
  | .bits1_5 => uartStopBits1_5

structure Represents (port : GwUartPrivate) (uart : GwUart) : Prop where
  baudRate : port.cnf.baudRate = uart.cnf.baudRate
  dataBits : port.cnf.dataBits = dataBitsCode uart.cnf.dataBits
  parity : port.cnf.parity = parityCode uart.cnf.parity
  stopBits : port.cnf.stopBits = stopBitsCode uart.cnf.stopBits

variable {P : Platform} {port : GwUartPrivate} {uart : GwUart} {inMsg : WebapiMsg}

theorem Represents.get (h : Represents port uart) : port.cnf.gwUartGet = gwUartGet uart := by
  simp only [UartConfigT.gwUartGet, gwUartGet, h.baudRate, h.dataBits, h.parity, h.stopBits]
  cases uart.cnf.dataBits <;> cases uart.cnf.parity <;> cases uart.cnf.stopBits <;> rfl

theorem Represents.set (h : Represents port uart) (cnf : GwUartConfig) (ok : Bool) :
    Represents (port.gwUartSet cnf ok).1 (gwUartSet uart cnf ok).1 := by
  by_cases hacc : Accepted cnf
  · obtain ⟨bits, boud, parity, stop⟩ := cnf
    obtain ⟨hb, hp, hs⟩ := hacc
    dsimp only at hb hp hs
    rcases le_one_cases hb with rfl | rfl <;> rcases le_two_cases hp with rfl | rfl | rfl <;>
      rcases stop_cases hs with rfl | rfl | rfl <;> cases ok <;> exact ⟨rfl, rfl, rfl, rfl⟩
  · rw [set_refused hacc, gwUartSet_refused hacc]
    exact h

theorem Represents.config (h : Represents port uart) (cmd : ApiCmdUart) (ok : Bool) :
    Represents (port.uartConfig cmd ok).1 (uartConfig uart cmd ok).1 ∧
      (port.uartConfig cmd ok).2 = (uartConfig uart cmd ok).2 := by
  simp only [GwUartPrivate.uartConfig, uartConfig, h.get, and_true]
  exact h.set _ ok

/-- The CNF messages of the UART task are those of its ports with the codes of
the driver. -/
theorem handleCnf_refines {app : UartApp} {i : Fin 2} (h : Represents port (app.port i))
    (env : UartEnv) :
    Represents (handleCnf P port inMsg env).1 ((Uart.handleCnf P app i inMsg env).1.port i) ∧
      (Uart.handleCnf P app i inMsg env).2 = (handleCnf P port inMsg env).2.map
        (fun json => uartResponse P inMsg.id inMsg.fid (some json) env) := by
  unfold handleCnf Uart.handleCnf
  cases inMsg.data with
  | none => exact ⟨h, rfl⟩
  | some data =>
      dsimp only
      cases parseUartParams P data inMsg.len with
      | none => exact ⟨h, rfl⟩
      | some cmd =>
          obtain ⟨hport, hcfg⟩ := h.config cmd env.paramConfig
          dsimp only
          rw [hcfg]
          split_ifs
          · exact ⟨by simpa [UartApp.setPort] using hport, rfl⟩
          · exact ⟨by simpa [UartApp.setPort] using hport, rfl⟩

end Refinement

end WirelessGateway.UartDriver
