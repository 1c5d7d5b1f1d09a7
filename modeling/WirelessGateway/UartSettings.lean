import WirelessGateway.Lib.Runs
import WirelessGateway.Uart

namespace WirelessGateway.UartSettings

open CJson WirelessGateway.Types Uart Lib.Runs

variable {B : Base64} {P : Platform} {uart : GwUart} {cfg : GwUartConfig} {json : Json}

structure Accepted (cfg : GwUartConfig) : Prop where
  bits : cfg.bits ≤ 1
  parity : cfg.parity ≤ 2
  stop : 1 ≤ cfg.stop ∧ cfg.stop ≤ 3

instance (cfg : GwUartConfig) : Decidable (Accepted cfg) :=
  decidable_of_iff (cfg.bits ≤ 1 ∧ cfg.parity ≤ 2 ∧ 1 ≤ cfg.stop ∧ cfg.stop ≤ 3)
    ⟨fun ⟨hb, hp, hs⟩ => ⟨hb, hp, hs⟩, fun ⟨hb, hp, hs⟩ => ⟨hb, hp, hs⟩⟩

theorem le_one_cases {v : UInt32} (h : v ≤ 1) : v = 0 ∨ v = 1 := by
  have := UInt32.le_iff_toNat_le.1 h
  have hv : v.toNat = 0 ∨ v.toNat = 1 := by
    simp only [UInt32.reduceToNat] at this
    omega
  exact hv.imp (fun h => UInt32.toNat_inj.1 h) (fun h => UInt32.toNat_inj.1 h)

theorem le_two_cases {v : UInt32} (h : v ≤ 2) : v = 0 ∨ v = 1 ∨ v = 2 := by
  have := UInt32.le_iff_toNat_le.1 h
  have hv : v.toNat = 0 ∨ v.toNat = 1 ∨ v.toNat = 2 := by
    simp only [UInt32.reduceToNat] at this
    omega
  exact hv.imp (fun h => UInt32.toNat_inj.1 h)
    (fun h => h.imp (fun h => UInt32.toNat_inj.1 h) (fun h => UInt32.toNat_inj.1 h))

theorem stop_cases {v : UInt32} (h : 1 ≤ v ∧ v ≤ 3) : v = 1 ∨ v = 2 ∨ v = 3 := by
  have h1 := UInt32.le_iff_toNat_le.1 h.1
  have h3 := UInt32.le_iff_toNat_le.1 h.2
  have hv : v.toNat = 1 ∨ v.toNat = 2 ∨ v.toNat = 3 := by
    simp only [UInt32.reduceToNat] at h1 h3
    omega
  exact hv.imp (fun h => UInt32.toNat_inj.1 h)
    (fun h => h.imp (fun h => UInt32.toNat_inj.1 h) (fun h => UInt32.toNat_inj.1 h))

theorem gwUartSet_accepted (h : Accepted cfg) (uart : GwUart) (paramConfig : Bool) :
    gwUartGet (gwUartSet uart cfg paramConfig).1 = some cfg := by
  obtain ⟨bits, boud, parity, stop⟩ := cfg
  obtain ⟨hb, hp, hs⟩ := h
  dsimp only at hb hp hs
  rcases le_one_cases hb with rfl | rfl <;> rcases le_two_cases hp with rfl | rfl | rfl <;>
    rcases stop_cases hs with rfl | rfl | rfl <;> rfl

theorem gwUartSet_refused (h : ¬ Accepted cfg) (uart : GwUart) (paramConfig : Bool) :
    (gwUartSet uart cfg paramConfig).1 = uart := by
  unfold gwUartSet
  dsimp only
  split
  next bits parity stop hb hp hs =>
    refine absurd ⟨?_, ?_, ?_⟩ h
    · split_ifs at hb with h0 h1 <;> simp_all
    · split_ifs at hp with h0 h1 h2 <;> simp_all
    · split_ifs at hs with h0 h1 h2 <;> simp_all
  next => rfl

theorem gwUartGet_accepted (h : gwUartGet uart = some cfg) : Accepted cfg := by
  unfold gwUartGet at h
  cases hd : uart.cnf.dataBits <;> cases hp : uart.cnf.parity <;> cases hs : uart.cnf.stopBits <;>
    simp [hd, hp, hs] at h <;> subst h <;>
    exact ⟨by dsimp only; decide, by dsimp only; decide, by dsimp only; decide⟩

def requested (cfg : GwUartConfig) (json : Json) : GwUartConfig where
  bits := (json.parseInt ['W', 'L']).getD cfg.bits
  boud := (json.parseInt ['B', 'R']).getD cfg.boud
  parity := (json.parseInt ['P', 'A', 'R']).getD cfg.parity
  stop := (json.parseInt ['S', 'B']).getD cfg.stop

/-- The settings that are left of a request in the two-bit fields of
api_cmd_uart_t. -/
def squeezed (cfg : GwUartConfig) (json : Json) : GwUartConfig where
  bits := ((json.parseInt ['W', 'L']).map (· &&& 3)).getD cfg.bits
  boud := (json.parseInt ['B', 'R']).getD cfg.boud
  parity := ((json.parseInt ['P', 'A', 'R']).map (· &&& 3)).getD cfg.parity
  stop := ((json.parseInt ['S', 'B']).map (· &&& 3)).getD cfg.stop

structure Supported (json : Json) : Prop where
  wl : ∀ v ∈ json.parseInt ['W', 'L'], v ≤ 1
  par : ∀ v ∈ json.parseInt ['P', 'A', 'R'], v ≤ 2
  sb : ∀ v ∈ json.parseInt ['S', 'B'], 1 ≤ v ∧ v ≤ 3

structure TwoBits (json : Json) : Prop where
  wl : ∀ v ∈ json.parseInt ['W', 'L'], v ≤ 3
  par : ∀ v ∈ json.parseInt ['P', 'A', 'R'], v ≤ 3
  sb : ∀ v ∈ json.parseInt ['S', 'B'], v ≤ 3

def cnfPort (fid : UInt32) : Option (Fin 2) :=
  if fid = espWsApiUart1Cnf then some ⟨0, Nat.zero_lt_two⟩
  else if fid = espWsApiUart2Cnf then some ⟨1, Nat.one_lt_two⟩
  else none

def cnfJson (P : Platform) (msg : WebapiMsg) : Option Json :=
  msg.data.bind (fun data => P.parse (data.take msg.len))

theorem and_three_of_le {v : UInt32} (h : v ≤ 3) : v &&& 3 = v := by
  have hv := UInt32.le_iff_toNat_le.1 h
  apply UInt32.toNat_inj.1
  rw [UInt32.toNat_and]
  exact (Nat.and_two_pow_sub_one_eq_mod v.toNat 2).trans (Nat.mod_eq_of_lt (Nat.lt_succ_of_le hv))

theorem squeezed_of_twoBits (h : TwoBits json) (cfg : GwUartConfig) :
    squeezed cfg json = requested cfg json := by
  have hmap : ∀ {o : Option UInt32}, (∀ v ∈ o, v ≤ 3) → o.map (· &&& 3) = o := by
    intro o ho
    cases o with
    | none => rfl
    | some v => exact congrArg some (and_three_of_le (ho v rfl))
  rw [squeezed, hmap h.wl, hmap h.par, hmap h.sb]
  rfl

theorem Supported.twoBits (h : Supported json) : TwoBits json where
  wl v hv := UInt32.le_trans (h.wl v hv) (by decide)
  par v hv := UInt32.le_trans (h.par v hv) (by decide)
  sb v hv := (h.sb v hv).2

theorem requested_accepted (hcfg : Accepted cfg) : Accepted (requested cfg json) ↔ Supported json := by
  constructor
  · rintro ⟨hb, hp, hs⟩
    refine ⟨fun v hv => ?_, fun v hv => ?_, fun v hv => ?_⟩
    · simpa [requested, Option.mem_def.1 hv] using hb
    · simpa [requested, Option.mem_def.1 hv] using hp
    · simpa [requested, Option.mem_def.1 hv] using hs
  · rintro ⟨hw, hp, hs⟩
    refine ⟨?_, ?_, ?_⟩
    · cases hv : json.parseInt ['W', 'L'] with
      | none => simpa [requested, hv] using hcfg.bits
      | some v => simpa [requested, hv] using hw v hv
    · cases hv : json.parseInt ['P', 'A', 'R'] with
      | none => simpa [requested, hv] using hcfg.parity
      | some v => simpa [requested, hv] using hp v hv
    · cases hv : json.parseInt ['S', 'B'] with
      | none => simpa [requested, hv] using hcfg.stop
      | some v => simpa [requested, hv] using hs v hv

theorem handleCnf_settings {app : UartApp} {i : Fin 2} (hcfg : gwUartGet (app.port i) = some cfg)
    (msg : WebapiMsg) (env : UartEnv) :
    gwUartGet ((handleCnf P app i msg env).1.port i) = match cnfJson P msg with
      | none => some cfg
      | some json => if Accepted (squeezed cfg json) then some (squeezed cfg json) else some cfg := by
  unfold handleCnf cnfJson
  cases msg.data with
  | none => simpa using hcfg
  | some data =>
      simp only [parseUartParams, Option.bind_some]
      cases P.parse (data.take msg.len) with
      | none => simpa using hcfg
      | some json =>
          simp only [Option.map_some]
          have hset : gwUartGet (uartConfig (app.port i)
              { wl := (json.parseInt ['W', 'L']).map (· &&& 3), boud := json.parseInt ['B', 'R'],
                par := (json.parseInt ['P', 'A', 'R']).map (· &&& 3),
                sb := (json.parseInt ['S', 'B']).map (· &&& 3) } env.paramConfig).1 =
              if Accepted (squeezed cfg json) then some (squeezed cfg json) else some cfg := by
            simp only [uartConfig, hcfg, Option.getD_some]
            split_ifs with hacc
            · exact gwUartSet_accepted hacc _ _
            · exact (congrArg gwUartGet (gwUartSet_refused hacc _ _)).trans hcfg
          split <;> simpa [UartApp.setPort] using hset

theorem handleCnf_json {app : UartApp} {i : Fin 2} (hcfg : gwUartGet (app.port i) = some cfg)
    {msg : WebapiMsg} (hj : cnfJson P msg = some json) (env : UartEnv) :
    gwUartGet ((handleCnf P app i msg env).1.port i) =
      if Accepted (squeezed cfg json) then some (squeezed cfg json) else some cfg := by
  rw [handleCnf_settings hcfg, hj]

theorem handleCnf_other {app : UartApp} {i j : Fin 2} (hj : j ≠ i) (msg : WebapiMsg)
    (env : UartEnv) : (handleCnf P app i msg env).1.port j = app.port j := by
  unfold handleCnf
  split
  · rfl
  · split
    · rfl
    · dsimp only
      split <;> simp [UartApp.setPort, hj]

theorem handleMsg_cnf {app : UartApp} {i : Fin 2} {msg : WebapiMsg} (h : cnfPort msg.fid = some i)
    (env : UartEnv) : handleMsg B P app msg env = handleCnf P app i msg env := by
  unfold cnfPort at h
  unfold handleMsg
  split_ifs at h ⊢ with h1 h2
  · cases h
    rfl
  · cases h
    rfl

theorem handleMsg_rest {app : UartApp} {msg : WebapiMsg} (h : cnfPort msg.fid = none)
    (env : UartEnv) (j : Fin 2) : ((handleMsg B P app msg env).1.port j).cnf = (app.port j).cnf := by
  have hport : ∀ (i : Fin 2) (uart : GwUart), uart.cnf = (app.port i).cnf →
      ((app.setPort i uart).port j).cnf = (app.port j).cnf := by
    intro i uart hu
    by_cases hj : j = i
    · subst hj
      simpa [UartApp.setPort] using hu
    · simp [UartApp.setPort, hj]
  have hrx : ∀ i, ((handleRawRx B P app i msg env).1.port j).cnf = (app.port j).cnf := by
    intro i
    unfold handleRawRx
    dsimp only
    split_ifs <;> rfl
  have htx : ∀ i, ((handleRawTx B P app i msg env).1.port j).cnf = (app.port j).cnf := by
    intro i
    unfold handleRawTx
    split
    · rfl
    · dsimp only
      split_ifs <;> first | rfl | exact hport i _ rfl
  have hecho : ∀ i, ((handleEcho P app i msg env).1.port j).cnf = (app.port j).cnf := by
    intro i
    unfold handleEcho
    dsimp only
    split_ifs <;> refine hport i _ ?_ <;> split <;> rfl
  refine handleMsg_cases (Q := fun r => (r.1.port j).cnf = (app.port j).cnf) (fun i hfid => ?_) hrx htx
    hecho rfl
  unfold cnfPort at h
  rcases hfid with hfid | hfid
  · rw [if_pos hfid] at h
    cases h
  · split_ifs at h

theorem gwUartGet_congr {uart uart' : GwUart} (h : uart.cnf = uart'.cnf) :
    gwUartGet uart = gwUartGet uart' := by
  simp [gwUartGet, h]

def uartMachine (B : Base64) (P : Platform) : Machine UartApp (WebapiMsg × UartEnv) Empty where
  init app := ∀ i, (app.port i).cnf = ⟨115200, .data8Bits, .disable, .bits1⟩
  step app a := some (.ok (handleMsg B P app a.1 a.2).1)

def Configured (app : UartApp) : Prop := ∀ i, (gwUartGet (app.port i)).isSome

theorem step_eq {x y : UartApp} {a : WebapiMsg × UartEnv} (h : (uartMachine B P).Step x a y) :
    y = (handleMsg B P x a.1 a.2).1 := by
  cases h
  rfl

theorem configured_step {x : UartApp} (h : Configured x) (msg : WebapiMsg) (env : UartEnv) :
    Configured (handleMsg B P x msg env).1 := by
  intro j
  cases hp : cnfPort msg.fid with
  | none => rw [gwUartGet_congr (handleMsg_rest hp env j)]; exact h j
  | some i =>
      rw [handleMsg_cnf hp]
      by_cases hj : j = i
      · subst hj
        obtain ⟨cfg, hcfg⟩ := Option.isSome_iff_exists.1 (h j)
        rw [handleCnf_settings hcfg]
        split
        · rfl
        · split_ifs <;> rfl
      · rw [handleCnf_other hj]
        exact h j

theorem reachable_configured {x : UartApp} (h : Reachable (uartMachine B P) x) : Configured x := by
  refine h.invariant (fun s hs i => ?_) (fun s a t _ hc hstep => ?_)
  · simp [gwUartGet, hs i]
  · rw [step_eq hstep]
    exact configured_step hc a.1 a.2

/-- What a message may do to the settings of the ports. -/
structure FaithfulStep (P : Platform) (x : UartApp) (a : WebapiMsg × UartEnv) (y : UartApp) :
    Prop where
  other : ∀ i, cnfPort a.1.fid ≠ some i → gwUartGet (y.port i) = gwUartGet (x.port i)
  nothing : ∀ i, cnfPort a.1.fid = some i → cnfJson P a.1 = none →
    gwUartGet (y.port i) = gwUartGet (x.port i)
  refused : ∀ i json, cnfPort a.1.fid = some i → cnfJson P a.1 = some json → ¬ Supported json →
    gwUartGet (y.port i) = gwUartGet (x.port i)
  applied : ∀ i json, cnfPort a.1.fid = some i → cnfJson P a.1 = some json → Supported json →
    gwUartGet (y.port i) = (gwUartGet (x.port i)).map (fun cfg => requested cfg json)

/-- A code that does not fit two bits comes in a message that is refused all
the same, or that repeats the settings in force. -/
def FittingStep (P : Platform) (x : UartApp) (a : WebapiMsg × UartEnv) (_ : UartApp) : Prop :=
  ∀ i json cfg, cnfPort a.1.fid = some i → cnfJson P a.1 = some json →
    gwUartGet (x.port i) = some cfg → TwoBits json ∨ ¬ Accepted (squeezed cfg json) ∨
      squeezed cfg json = cfg

theorem faithful_step_iff {x y : UartApp} (hx : Configured x) {a : WebapiMsg × UartEnv}
    (hstep : (uartMachine B P).Step x a y) : FaithfulStep P x a y ↔ FittingStep P x a y := by
  obtain ⟨msg, env⟩ := a
  rw [step_eq hstep]
  constructor
  · intro h i json cfg hp hj hcfg
    by_cases hs : Supported json
    · exact .inl hs.twoBits
    · have href := h.refused i json hp hj hs
      rw [handleMsg_cnf hp, handleCnf_json hcfg hj, hcfg] at href
      split_ifs at href with hacc
      · exact .inr (.inr (Option.some.inj href))
      · exact .inr (.inl hacc)
  · intro h
    constructor
    · intro i hi
      cases hp : cnfPort msg.fid with
      | none => exact gwUartGet_congr (handleMsg_rest hp env i)
      | some j =>
          dsimp only at hi ⊢
          rw [handleMsg_cnf hp, handleCnf_other (fun he => hi (by rw [hp, he]))]
    · intro i hp hj
      obtain ⟨cfg, hcfg⟩ := Option.isSome_iff_exists.1 (hx i)
      dsimp only at hp hj ⊢
      rw [handleMsg_cnf hp, handleCnf_settings hcfg, hj, hcfg]
    · intro i json hp hj hs
      obtain ⟨cfg, hcfg⟩ := Option.isSome_iff_exists.1 (hx i)
      have hacc := gwUartGet_accepted hcfg
      have hfit := h i json cfg hp hj hcfg
      dsimp only at hp hj ⊢
      rw [handleMsg_cnf hp, handleCnf_json hcfg hj, hcfg]
      rcases hfit with htwo | hnot | hsame
      · rw [squeezed_of_twoBits htwo]
        exact if_neg (fun hreq => hs ((requested_accepted hacc).1 hreq))
      · exact if_neg hnot
      · rw [hsame]
        exact ite_self _
    · intro i json hp hj hs
      obtain ⟨cfg, hcfg⟩ := Option.isSome_iff_exists.1 (hx i)
      have hacc := gwUartGet_accepted hcfg
      dsimp only at hp hj ⊢
      rw [handleMsg_cnf hp, handleCnf_json hcfg hj, hcfg, squeezed_of_twoBits hs.twoBits]
      exact if_pos ((requested_accepted hacc).2 hs)

/-- In exactly the runs whose codes fit their two bits, unless they are refused
or change nothing, the settings are the requested ones. -/
theorem uart_settings_iff {x y : UartApp} {as : List (WebapiMsg × UartEnv)}
    (hx : (uartMachine B P).init x) :
    Along (uartMachine B P) (FaithfulStep P) x as y ↔
      Along (uartMachine B P) (FittingStep P) x as y :=
  Along.congr (.init hx) (fun _ _ _ hr hstep => faithful_step_iff (reachable_configured hr) hstep)

def twoBits (json : Json) : Bool :=
  (json.parseInt ['W', 'L']).all (· ≤ 3) && (json.parseInt ['P', 'A', 'R']).all (· ≤ 3) &&
    (json.parseInt ['S', 'B']).all (· ≤ 3)

theorem twoBits_of (h : twoBits json = true) : TwoBits json := by
  simp only [twoBits, Bool.and_eq_true, Option.all_eq_true, decide_eq_true_eq] at h
  exact ⟨fun v hv => h.1.1 v hv, fun v hv => h.1.2 v hv, fun v hv => h.2 v hv⟩

def fitting (P : Platform) (x : UartApp) (a : WebapiMsg × UartEnv) : Bool :=
  (cnfPort a.1.fid).all (fun i => (cnfJson P a.1).all (fun json =>
    (gwUartGet (x.port i)).all (fun cfg =>
      twoBits json || !decide (Accepted (squeezed cfg json)) || squeezed cfg json == cfg)))

theorem fittingStep_of {x y : UartApp} {a : WebapiMsg × UartEnv} (h : fitting P x a = true) :
    FittingStep P x a y := by
  intro i json cfg hp hj hcfg
  simp only [fitting, hp, hj, hcfg, Option.all_some, Bool.or_eq_true, Bool.not_eq_true',
    decide_eq_false_iff_not, beq_iff_eq] at h
  rcases h with (h | h) | h
  · exact .inl (twoBits_of h)
  · exact .inr (.inl h)
  · exact .inr (.inr h)

def cnf (fid : UInt32) (fields : List (List Char × Nat)) : WebapiMsg × UartEnv :=
  (⟨fid, 5, some (bytes (argText fields)), (argText fields).length⟩, ⟨true, true, true, 0⟩)

def freshApp : UartApp :=
  ⟨fun _ => ⟨⟨115200, .data8Bits, .disable, .bits1⟩, false, []⟩, fun _ => ⟨uartTmpBufSize, []⟩⟩

def plainBase64 : Base64 := ⟨id, List.length, id⟩

def fastEven : List (List Char × Nat) := [(['B', 'R'], 9600), (['P', 'A', 'R'], 2)]
def sevenBits : List (List Char × Nat) := [(['W', 'L'], 0)]
def wordLength (n : Nat) : List (List Char × Nat) := [(['W', 'L'], n)]

theorem uart_settings_two : ∃ y,
    Along (uartMachine plainBase64 (reads [fastEven, sevenBits, wordLength 7]))
      (FaithfulStep (reads [fastEven, sevenBits, wordLength 7])) freshApp
      [cnf 0x1010 fastEven, cnf 0x1020 sevenBits, cnf 0x1010 (wordLength 7)] y ∧
    gwUartGet (y.port 0) = some ⟨1, 9600, 2, 1⟩ ∧ gwUartGet (y.port 1) = some ⟨0, 115200, 0, 1⟩ := by
  have h : (uartMachine plainBase64 (reads [fastEven, sevenBits, wordLength 7])).check
      (fitting (reads [fastEven, sevenBits, wordLength 7]))
      (fun y => gwUartGet (y.port 0) == some ⟨1, 9600, 2, 1⟩ &&
        gwUartGet (y.port 1) == some ⟨0, 115200, 0, 1⟩) freshApp
      [cnf 0x1010 fastEven, cnf 0x1020 sevenBits, cnf 0x1010 (wordLength 7)] = true := by
    decide +kernel
  obtain ⟨y, hrun, hy⟩ := exists_of_check h
  rw [Bool.and_eq_true, beq_iff_eq, beq_iff_eq] at hy
  exact ⟨y, (uart_settings_iff (fun _ => rfl)).2 (hrun.imp (fun _ _ _ => fittingStep_of)), hy⟩

/-- The word length that README documents as 8 bits selects 7 bits, as code 0
does. -/
theorem uart_settings_eight : ∃ x y z,
    (uartMachine plainBase64 (reads [wordLength 8, wordLength 0])).init x ∧
    (uartMachine plainBase64 (reads [wordLength 8, wordLength 0])).Step x
      (cnf 0x1010 (wordLength 8)) y ∧
    (uartMachine plainBase64 (reads [wordLength 8, wordLength 0])).Step x
      (cnf 0x1010 (wordLength 0)) z ∧
    gwUartGet (x.port 0) = some ⟨1, 115200, 0, 1⟩ ∧ gwUartGet (y.port 0) = gwUartGet (z.port 0) ∧
    gwUartGet (y.port 0) = some ⟨0, 115200, 0, 1⟩ ∧
    ¬ FaithfulStep (reads [wordLength 8, wordLength 0]) x (cnf 0x1010 (wordLength 8)) y := by
  refine ⟨freshApp, _, _, fun _ => rfl, rfl, rfl, rfl, ?_, ?_, fun h => ?_⟩
  · decide +kernel
  · decide +kernel
  · have hjson : cnfJson (reads [wordLength 8, wordLength 0]) (cnf 0x1010 (wordLength 8)).1 =
        some (argJson (wordLength 8)) := by rfl
    have hkept := h.refused 0 _ rfl hjson
      (fun hs => absurd (hs.wl 8 (by decide +kernel)) (by decide))
    exact absurd hkept (by decide +kernel)

end WirelessGateway.UartSettings
