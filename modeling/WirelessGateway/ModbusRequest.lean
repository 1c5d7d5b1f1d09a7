import WirelessGateway.ModbusTransaction

namespace WirelessGateway.ModbusRequest

open CJson WirelessGateway.Types Modbus ModbusTransaction

/-- The integer that a value gives to a field: a number, or a hex string. -/
def fieldValue : Json → Option Int
  | .number valueint _ => some valueint.toInt
  | .string valuestring => some (strtol16 valuestring)
  | _ => none

def fieldInt (json : Json) (name : List Char) : Option Int :=
  (json.getObjectItem name).bind fieldValue

/-- A field is absent, or an integer from 0 to max. -/
def FieldFits (json : Json) (name : List Char) (max : Int) : Prop :=
  ∀ v, json.getObjectItem name = some v → ∃ n, fieldValue v = some n ∧ 0 ≤ n ∧ n ≤ max

def elements (json : Json) : List Json :=
  match json.getObjectItem ['R', 'D'] with
  | some (.array rd) => rd
  | _ => []

def elementInt : Json → Option Int
  | .number valueint _ => some valueint.toInt
  | _ => none

def stride (lib : ModbusLib) (json : Json) : Nat :=
  if fieldInt json ['F', 'N'] = some (lib.mbFuncWriteCoils.toNat : Int) then 1 else 2

def itemMax (lib : ModbusLib) (json : Json) : Int := if stride lib json = 1 then 255 else 65535

def ElementsFit (lib : ModbusLib) (json : Json) : Prop :=
  ∀ e ∈ elements json, ∃ n, elementInt e = some n ∧ 0 ≤ n ∧ n ≤ itemMax lib json

structure AllFit (lib : ModbusLib) (json : Json) : Prop where
  adr : FieldFits json ['A', 'D', 'R'] 255
  fn : FieldFits json ['F', 'N'] 127
  ra : FieldFits json ['R', 'A'] 65535
  rvc : FieldFits json ['R', 'V', 'C'] 65535
  rd : ElementsFit lib json

def itemAt (data : Bytes) (stride i : Nat) : Nat :=
  if stride = 1 then (data.getD i 0).toNat
  else 256 * (data.getD (i * 2) 0).toNat + (data.getD (i * 2 + 1) 0).toNat

/-- A frame that says what the request says. -/
structure Encodes (lib : ModbusLib) (json : Json) (f : ModbusFrame) : Prop where
  adr : fieldInt json ['A', 'D', 'R'] = some (f.ucAddr.toNat : Int)
  fn : fieldInt json ['F', 'N'] = some (f.ucFunc.toNat : Int)
  ra : (json.getObjectItem ['R', 'A'] = none ∧ f.usRegAddr = 0) ∨
    fieldInt json ['R', 'A'] = some (f.usRegAddr.toNat : Int)
  rvc : (json.getObjectItem ['R', 'V', 'C'] = none ∧ f.usRegValueCount = 0) ∨
    fieldInt json ['R', 'V', 'C'] = some (f.usRegValueCount.toNat : Int)
  size : f.ucBufferSize.toNat = (elements json).length * stride lib json
  length : f.ucLengthCode = f.ucBufferSize
  rd : ∀ i e, (elements json)[i]? = some e →
    ∃ data, f.pucData = some data ∧ elementInt e = some (itemAt data (stride lib json) i : Int)

structure Checked (lib : ModbusLib) (json : Json) : Prop where
  adr : ∃ n, fieldInt json ['A', 'D', 'R'] = some n ∧ 0 ≤ n ∧ n ≤ 255
  fn : ∃ n, fieldInt json ['F', 'N'] = some n ∧ 0 ≤ n ∧ n ≤ 127
  rd : (elements json).length * stride lib json ≤ mbPayloadSize

/-- A request that the code takes up gives registers and data that fit. -/
def Fits (lib : ModbusLib) (json : Json) : Prop :=
  Checked lib json → FieldFits json ['R', 'A'] 65535 ∧ FieldFits json ['R', 'V', 'C'] 65535 ∧
    ElementsFit lib json

variable {lib : ModbusLib} {P : Platform} {json : Json} {name : List Char} {n : Int}

theorem fieldValue_range {v : Json} (h : fieldValue v = some n) : -2 ^ 31 ≤ n ∧ n < 2 ^ 31 := by
  unfold fieldValue at h
  split at h
  next i _ =>
    rw [← Option.some.inj h]
    exact ⟨i.le_toInt, i.toInt_lt⟩
  next s =>
    rw [← Option.some.inj h]
    unfold strtol16
    split <;> omega
  next => cases h

theorem toNat_ofInt_eq (n : Int) : ((UInt32.ofInt n).toNat : Int) = n % 2 ^ 32 := by
  simp only [UInt32.ofInt, UInt32.toNat_ofNat']
  omega

theorem toUInt32_eq (i : Int32) : i.toUInt32 = UInt32.ofInt i.toInt := by
  apply UInt32.toNat_inj.1
  have hi : i.toInt = if 2 * i.toUInt32.toNat < 2 ^ 32 then (i.toUInt32.toNat : Int)
      else (i.toUInt32.toNat : Int) - (2 ^ 32 : Nat) := BitVec.toInt_eq_toNat_cond i.toBitVec
  have hlt := i.toUInt32.toNat_lt
  have hn := toNat_ofInt_eq i.toInt
  split at hi <;> omega

theorem parseInt_eq (json : Json) (name : List Char) :
    json.parseInt name = (fieldInt json name).map UInt32.ofInt := by
  unfold Json.parseInt fieldInt fieldValue
  cases json.getObjectItem name with
  | none => rfl
  | some v =>
      cases v with
      | number i d => simp [toUInt32_eq]
      | _ => rfl

theorem checked_iff {max : UInt32} (hmax : max.toNat < 2 ^ 31)
    (h : -2 ^ 31 ≤ n ∧ n < 2 ^ 31) : (!decide (UInt32.ofInt n > max)) = true ↔ 0 ≤ n ∧ n ≤ max.toNat := by
  rw [Bool.not_eq_true', decide_eq_false_iff_not, gt_iff_lt, UInt32.lt_iff_toNat_lt, Nat.not_lt]
  have := toNat_ofInt_eq n
  omega

theorem field_checked (max : UInt32) (hmax : max.toNat < 2 ^ 31) {val : UInt32} :
    (json.parseInt name).filter (fun val => !(val > max)) = some val ↔
      ∃ n, fieldInt json name = some n ∧ 0 ≤ n ∧ n ≤ max.toNat ∧ val = UInt32.ofInt n := by
  rw [parseInt_eq, Option.filter_eq_some_iff]
  constructor
  · rintro ⟨hval, hle⟩
    obtain ⟨n, hn, rfl⟩ := Option.map_eq_some_iff.1 hval
    have hrange := fieldValue_range (Option.bind_eq_some_iff.1 hn).choose_spec.2
    obtain ⟨h0, hmax'⟩ := (checked_iff hmax hrange).1 hle
    exact ⟨n, hn, h0, hmax', rfl⟩
  · rintro ⟨n, hn, h0, hle, rfl⟩
    have hrange := fieldValue_range (Option.bind_eq_some_iff.1 hn).choose_spec.2
    exact ⟨by rw [hn]; rfl, (checked_iff hmax hrange).2 ⟨h0, hle⟩⟩

theorem FieldFits.of_checked {max : Int} (h : ∃ n, fieldInt json name = some n ∧ 0 ≤ n ∧ n ≤ max) :
    FieldFits json name max := by
  obtain ⟨n, hn, h⟩ := h
  intro v hv
  exact ⟨n, by simpa [fieldInt, hv] using hn, h⟩

theorem FieldFits.register (h : FieldFits json name 65535) :
    (json.getObjectItem name = none ∧ ((json.parseInt name).map UInt32.toUInt16).getD 0 = 0) ∨
      fieldInt json name = some ((((json.parseInt name).map UInt32.toUInt16).getD 0).toNat : Int) := by
  cases hv : json.getObjectItem name with
  | none => exact .inl ⟨rfl, by simp [parseInt_eq, fieldInt, hv]⟩
  | some v =>
      obtain ⟨n, hn, h0, hle⟩ := h v hv
      have hfield : fieldInt json name = some n := by simp [fieldInt, hv, hn]
      refine .inr ?_
      rw [parseInt_eq, hfield]
      have := toNat_ofInt_eq n
      simp only [Option.map_some, Option.getD_some, UInt32.toNat_toUInt16]
      exact congrArg some (by omega)

def requestFrame (lib : ModbusLib) (json : Json) : ModbusFrame where
  ucAddr := ((json.parseInt ['A', 'D', 'R']).getD 0).toUInt8
  ucFunc := ((json.parseInt ['F', 'N']).getD 0).toUInt8
  usRegAddr := ((json.parseInt ['R', 'A']).map UInt32.toUInt16).getD 0
  usRegValueCount := ((json.parseInt ['R', 'V', 'C']).map UInt32.toUInt16).getD 0
  ucLengthCode := ((elements json).length * stride lib json).toUInt8
  ucBufferSize := ((elements json).length * stride lib json).toUInt8
  pucData :=
    if (elements json).length > 0 then
      some ((elements json).flatMap (wrItem (stride lib json)) ++
        List.replicate (mbPayloadSize - (elements json).length * stride lib json) 0)
    else none

theorem ofInt_toUInt8 {n : Int} (h0 : 0 ≤ n) (h : n ≤ 255) :
    ((UInt32.ofInt n).toUInt8.toNat : Int) = n := by
  have := toNat_ofInt_eq n
  rw [UInt32.toNat_toUInt8]
  omega

theorem stride_eq (lib : ModbusLib) {n : Int} (hn : fieldInt json ['F', 'N'] = some n) (h0 : 0 ≤ n) (h : n ≤ 127) :
    (if (UInt32.ofInt n).toUInt8 = lib.mbFuncWriteCoils then 1 else 2) = stride lib json := by
  have hval := ofInt_toUInt8 h0 (by omega)
  rw [stride, hn]
  congr 1
  rw [Option.some.injEq, eq_iff_iff]
  constructor
  · intro he
    rw [← he]
    exact hval.symm
  · intro he
    apply UInt8.toNat_inj.1
    omega

theorem elements_array {rd : List Json} (h : json.getObjectItem ['R', 'D'] = some (.array rd)) :
    elements json = rd := by
  simp [elements, h]

theorem elements_nil (h : ∀ rd, json.getObjectItem ['R', 'D'] ≠ some (.array rd)) :
    elements json = [] := by
  unfold elements
  split
  next rd hobj => exact absurd hobj (h rd)
  next => rfl

def requestAwt (json : Json) : UInt32 :=
  ((json.parseInt ['A', 'W', 'T']).filter (fun val => val > 0)).getD mbDefaultAwtMs

theorem parse_of_checked (h : Checked lib json) :
    parseMbRequest lib json = some (requestFrame lib json, requestAwt json) := by
  obtain ⟨⟨a, ha, ha0, ha255⟩, ⟨n, hn, hn0, hn127⟩, hrd⟩ := h
  have hadr := (field_checked 255 (by decide)).2 ⟨a, ha, ha0, ha255, rfl⟩
  have hfn := (field_checked 127 (by decide)).2 ⟨n, hn, hn0, hn127, rfl⟩
  have hadr' : json.parseInt ['A', 'D', 'R'] = some (UInt32.ofInt a) := by rw [parseInt_eq, ha]; rfl
  have hfn' : json.parseInt ['F', 'N'] = some (UInt32.ofInt n) := by rw [parseInt_eq, hn]; rfl
  have hstride := stride_eq lib hn hn0 hn127
  simp only [parseMbRequest, hadr, hfn, Option.bind_eq_bind, Option.bind_some, hstride]
  simp only [requestFrame, hadr', hfn', Option.getD_some]
  split
  next rd hobj =>
    rw [elements_array hobj] at hrd ⊢
    split_ifs with hlen hbig
    · omega
    · rfl
    · simp [Nat.eq_zero_of_not_pos hlen, ModbusFrame.zero, requestAwt]
  next hobj =>
    simp [elements_nil (fun rd h => hobj rd h), ModbusFrame.zero, requestAwt]

theorem checked_of_parse {r : ModbusFrame × UInt32} (h : parseMbRequest lib json = some r) :
    Checked lib json := by
  simp only [parseMbRequest, Option.bind_eq_bind, Option.bind_eq_some_iff] at h
  obtain ⟨adr, hadr, fn, hfn, h⟩ := h
  obtain ⟨a, ha, ha0, ha255, -⟩ := (field_checked 255 (by decide)).1 hadr
  obtain ⟨n, hn, hn0, hn127, rfl⟩ := (field_checked 127 (by decide)).1 hfn
  refine ⟨⟨a, ha, ha0, ha255⟩, ⟨n, hn, hn0, hn127⟩, ?_⟩
  rw [stride_eq lib hn hn0 hn127] at h
  split at h
  next rd hobj =>
    rw [elements_array hobj]
    split_ifs at h with hlen hbig
    · omega
    · simp [Nat.eq_zero_of_not_pos hlen]
  next hobj => simp [elements_nil (fun rd h => hobj rd h)]

theorem drop_flatMap {α : Type} {g : α → Bytes} {k : Nat} (hg : ∀ a, (g a).length = k)
    (more : Bytes) {l : List α} {i : Nat} {a : α} (h : l[i]? = some a) :
    ∃ rest, (l.flatMap g ++ more).drop (i * k) = g a ++ rest := by
  induction l generalizing i with
  | nil => cases h
  | cons b l ih =>
      cases i with
      | zero =>
          rw [List.getElem?_cons_zero, Option.some.injEq] at h
          exact ⟨l.flatMap g ++ more, by simp [h]⟩
      | succ i =>
          obtain ⟨rest, hrest⟩ := ih (by simpa using h)
          refine ⟨rest, ?_⟩
          rw [← hrest, Nat.succ_mul, Nat.add_comm, ← List.drop_drop, List.flatMap_cons,
            List.append_assoc, List.drop_left' (hg b)]

theorem wrItem_length (lib : ModbusLib) (json e : Json) :
    (wrItem (stride lib json) e).length = stride lib json := by
  unfold wrItem stride
  split <;> simp

theorem getD_drop (l : Bytes) (k j : Nat) : l.getD (k + j) 0 = (l.drop k).getD j 0 := by
  simp [List.getD_eq_getElem?_getD, List.getElem?_drop]

theorem itemAt_wrItem {e : Json} {data rest : Bytes} {i : Nat}
    (hdrop : data.drop (i * stride lib json) = wrItem (stride lib json) e ++ rest)
    (hn : elementInt e = some n) (h0 : 0 ≤ n) (hmax : n ≤ itemMax lib json) :
    elementInt e = some (itemAt data (stride lib json) i : Int) := by
  unfold elementInt at hn
  split at hn
  next v d =>
    rw [Option.some.injEq] at hn
    have hval := toNat_ofInt_eq v.toInt
    rw [← toUInt32_eq, hn] at hval
    have hfirst := getD_drop data (i * stride lib json) 0
    have hsecond := getD_drop data (i * stride lib json) 1
    rw [hdrop] at hfirst hsecond
    unfold itemAt itemMax at *
    rw [elementInt, hn, Option.some.injEq]
    by_cases hs : stride lib json = 1
    · simp only [hs, if_true, wrItem, Json.valueint, Nat.mul_one, Nat.add_zero] at hfirst hmax ⊢
      rw [hfirst]
      simp only [show ¬ (1 : Nat) = 2 by omega, if_false, List.cons_append, List.getD_cons_zero,
        UInt32.toNat_toUInt8]
      omega
    · have hs2 : stride lib json = 2 := by
        unfold stride at hs ⊢
        split at hs <;> simp_all
      simp only [hs2, wrItem, Json.valueint, if_true, Nat.add_zero] at hfirst hsecond hmax ⊢
      rw [hfirst, hsecond]
      simp only [show ¬ (2 : Nat) = 1 by omega, if_false, List.cons_append, List.getD_cons_zero,
        List.getD_cons_succ, UInt32.toNat_toUInt8, UInt32.toNat_shiftRight] at hmax ⊢
      have : v.toUInt32.toNat >>> ((8 : UInt32).toNat % 32) = v.toUInt32.toNat / 256 := by
        rw [Nat.shiftRight_eq_div_pow]
        rfl
      omega
  next => cases hn

theorem encodes_of_fits (hc : Checked lib json) (hra : FieldFits json ['R', 'A'] 65535)
    (hrvc : FieldFits json ['R', 'V', 'C'] 65535) (hrd : ElementsFit lib json) :
    Encodes lib json (requestFrame lib json) := by
  obtain ⟨⟨a, ha, ha0, ha255⟩, ⟨f, hf, hf0, hf127⟩, hlen⟩ := hc
  constructor
  · simp only [requestFrame, parseInt_eq, ha, Option.map_some, Option.getD_some]
    rw [ofInt_toUInt8 ha0 ha255]
  · simp only [requestFrame, parseInt_eq, hf, Option.map_some, Option.getD_some]
    rw [ofInt_toUInt8 hf0 (by omega)]
  · exact hra.register
  · exact hrvc.register
  · simp only [requestFrame, Nat.toUInt8, UInt8.toNat_ofNat']
    unfold mbPayloadSize at hlen
    omega
  · rfl
  · intro i e he
    have hpos : (elements json).length > 0 := by
      have := (List.getElem?_eq_some_iff.1 he).1
      omega
    obtain ⟨rest, hdrop⟩ := drop_flatMap (wrItem_length lib json) (List.replicate
      (mbPayloadSize - (elements json).length * stride lib json) 0) he
    obtain ⟨v, hv, h0, hmax⟩ := hrd e (List.mem_of_getElem? he)
    exact ⟨_, by rw [requestFrame, if_pos hpos], itemAt_wrItem hdrop hv h0 hmax⟩

/-- What the fidelity of a request says of one run: a submitted frame is what
the request says, and a request with a value that does not fit is answered
with ERR 2, with nothing given to the library. -/
structure Faithful (lib : ModbusLib) (json : Json) (msg : WebapiMsg) (env : MbEnv) (w : MbTask) :
    Prop where
  submitted : ∀ f locked, (.request f, locked) ∈ w.calls → Encodes lib json f
  refused : ¬ AllFit lib json →
    w = (⟨false, [], []⟩ : MbTask).sendMbError msg.id msg.fid 2 env

variable {w : MbTask} {msg : WebapiMsg} {env : MbEnv} {frame f : ModbusFrame} {awt : UInt32}

theorem opened_request : (.request f, true) ∈ (opened ⟨false, [], []⟩ f awt).calls := by
  simp [opened, MbTask.call, MbTask.gwUartLockRx]

theorem worked_request {n : Nat} {locked : Bool}
    (h : (.request f, locked) ∈ (worked (opened ⟨false, [], []⟩ frame awt) n).calls) : f = frame := by
  simp only [worked, opened, MbTask.call, MbTask.gwUartLockRx, List.nil_append, List.mem_append,
    List.mem_singleton, List.mem_replicate, Prod.mk.injEq, MbCall.request.injEq, reduceCtorEq,
    false_and, and_false, or_false, false_or] at h
  exact h.1

theorem formatAndSend_calls (w : MbTask) (id fid : UInt32) (cb : MbCbCtx) (env : MbEnv) :
    (w.formatAndSendMbResponse lib id fid cb env).calls = w.calls := by
  unfold MbTask.formatAndSendMbResponse
  split <;> rfl

theorem transact_request (h : transact lib P ⟨false, [], []⟩ msg frame awt env = some w) :
    (.request frame, true) ∈ w.calls ∧ ∀ f locked, (.request f, locked) ∈ w.calls → f = frame := by
  have hzero : ∀ f locked, (.request f, locked) ∈ (opened ⟨false, [], []⟩ frame awt).calls →
      f = frame := by
    intro f locked hf
    exact worked_request (n := 0) (by rwa [worked_zero])
  rcases transact_spec h with ⟨-, rfl⟩ | ⟨-, -, n, rfl⟩ | ⟨-, c, -, n, rfl⟩
  · exact ⟨opened_request, hzero⟩
  · refine ⟨List.mem_append_left _ (List.mem_append_left _ opened_request), fun f locked hf => ?_⟩
    rcases List.mem_append.1 hf with hf | hf
    · exact worked_request hf
    · cases (Prod.mk.inj (List.mem_singleton.1 hf)).1
  · rw [formatAndSend_calls]
    exact ⟨List.mem_append_left _ opened_request, fun f locked => worked_request⟩

/-- A run is faithful exactly when the registers and the data fit, unless one
of the code's checks refuses the request. -/
theorem modbus_request_iff (hj : mbJson P msg = some json)
    (h : handleModbusMsg lib P ⟨false, [], []⟩ msg env = some w) :
    Faithful lib json msg env w ↔ Fits lib json := by
  constructor
  · rintro hf hc
    have hp := parse_of_checked hc
    simp only [handleModbusMsg, hj, hp] at h
    have hall : AllFit lib json := by
      by_contra hall
      have hcalls := (transact_request h).1
      rw [hf.refused hall] at hcalls
      cases hcalls
    exact ⟨hall.ra, hall.rvc, hall.rd⟩
  · intro hfits
    constructor
    · intro f locked hf
      cases hp : parseMbRequest lib json with
      | none =>
          simp only [handleModbusMsg, hj, hp, Option.some.injEq] at h
          rw [← h] at hf
          cases hf
      | some r =>
          have hc := checked_of_parse hp
          rw [parse_of_checked hc] at hp
          simp only [handleModbusMsg, hj, parse_of_checked hc] at h
          obtain ⟨hra, hrvc, hrd⟩ := hfits hc
          rw [(transact_request h).2 f locked hf]
          exact encodes_of_fits hc hra hrvc hrd
    · intro hall
      have hp : parseMbRequest lib json = none := by
        rw [Option.eq_none_iff_forall_ne_some]
        intro r hp
        have hc := checked_of_parse hp
        obtain ⟨hra, hrvc, hrd⟩ := hfits hc
        exact hall ⟨.of_checked hc.adr, .of_checked hc.fn, hra, hrvc, hrd⟩
      simp only [handleModbusMsg, hj, hp, Option.some.injEq] at h
      exact h.symm

theorem modbus_request_read : ∃ w, handleModbusMsg wordLib (reads [readOne]) ⟨false, [], []⟩
      (asking readOne) (completes none) = some w ∧
    Faithful wordLib (argJson readOne) (asking readOne) (completes none) w := by
  have hj : mbJson (reads [readOne]) (asking readOne) = some (argJson readOne) := rfl
  have hfits : Fits wordLib (argJson readOne) := by
    intro _
    refine ⟨fun v hv => ?_, fun v hv => ?_, fun e he => ?_⟩
    · cases hv
    · cases hv
      exact ⟨1, rfl, by decide, by decide⟩
    · cases he
  obtain ⟨w, hw⟩ := Option.isSome_iff_exists.1 (handle_completes wordLib
    (reads [readOne]) (asking readOne) none)
  exact ⟨w, hw, (modbus_request_iff hj hw).2 hfits⟩

def writeFar : List (List Char × Nat) :=
  [(['A', 'D', 'R'], 1), (['F', 'N'], 6), (['R', 'A'], 65537), (['R', 'V', 'C'], 5)]

/-- The write goes to register 1. -/
theorem modbus_request_far : ∃ w f, handleModbusMsg wordLib (reads [writeFar]) ⟨false, [], []⟩
      (asking writeFar) (completes none) = some w ∧ (.request f, true) ∈ w.calls ∧
    fieldInt (argJson writeFar) ['R', 'A'] = some 65537 ∧ f.usRegAddr = 1 ∧
    ¬ Faithful wordLib (argJson writeFar) (asking writeFar) (completes none) w := by
  have hj : mbJson (reads [writeFar]) (asking writeFar) = some (argJson writeFar) := rfl
  have hp : parseMbRequest wordLib (argJson writeFar) = some (⟨1, 6, 1, 5, 0, 0, none⟩, 500) := rfl
  obtain ⟨w, hw⟩ := Option.isSome_iff_exists.1 (handle_completes wordLib
    (reads [writeFar]) (asking writeFar) none)
  have htransact := hw
  simp only [handleModbusMsg, hj, hp] at htransact
  have hsubmitted := (transact_request htransact).1
  refine ⟨w, _, hw, hsubmitted, rfl, rfl, fun hf => ?_⟩
  rcases (hf.submitted _ _ hsubmitted).ra with ⟨hnone, -⟩ | hra
  · cases hnone
  · exact absurd hra (by decide)

end WirelessGateway.ModbusRequest
