import WirelessGateway.Modbus

namespace WirelessGateway.ModbusText

open CJson WirelessGateway.Types Lib.Text Modbus

structure Holds (b : MbBuf) (text : List Char) : Prop where
  buf : b.buf = text
  off : b.off = text.length

variable {b : MbBuf} {text : List Char}

@[simp] theorem print_size (b : MbBuf) (text : List Char) : (b.print text).size = b.size := rfl

@[simp] theorem put_size (b : MbBuf) (c : Char) : (b.put c).size = b.size := rfl

@[simp] theorem putReg_size (regs : Bytes) (size : UInt8) (b : MbBuf) (i : Nat) :
    (putReg regs size b i).size = b.size := by
  unfold putReg
  split <;> rfl

theorem Holds.empty (n : Nat) : Holds ⟨n, [], 0⟩ [] := ⟨rfl, rfl⟩

theorem Holds.print (h : Holds b text) (more : List Char) (hfit : text.length + more.length < b.size) :
    Holds (b.print more) (text ++ more) := by
  constructor
  · have hroom : more.length ≤ b.size - text.length - 1 := by omega
    simp only [MbBuf.print, h.off, h.buf, List.take_length, List.take_of_length_le hroom]
  · simp only [MbBuf.print, h.off, List.length_append]

theorem Holds.put (h : Holds b text) (c : Char) : Holds (b.put c) (text ++ [c]) := by
  constructor
  · simp only [MbBuf.put, h.off, h.buf, List.take_length]
  · simp only [MbBuf.put, h.off, List.length_append, List.length_singleton]

theorem Holds.take (h : Holds b text) : b.buf.take b.off = text := by
  rw [h.buf, h.off, List.take_length]

theorem regValue_lt (regs : Bytes) (size : UInt8) (i : Nat) : regValue regs size i < 10 ^ 5 := by
  have hlo := (regs.getD (i * 2) 0).toNat_lt
  have hhi := (regs.getD (i * 2 + 1) 0).toNat_lt
  have hb := (regs.getD i 0).toNat_lt
  unfold regValue
  split <;> omega

def regValues (regs : Bytes) (size : UInt8) (n : Nat) : List Nat :=
  (List.range n).map (regValue regs size)

theorem regValues_length (regs : Bytes) (size : UInt8) (n : Nat) :
    (regValues regs size n).length = n := by
  simp [regValues]

theorem regValues_commas_length (regs : Bytes) (size : UInt8) (n : Nat) :
    (commas (regValues regs size n)).length ≤ 6 * n := by
  have h := commas_length (k := 5) (by omega) (regValues regs size n) (fun v hv => by
    obtain ⟨i, -, rfl⟩ := List.mem_map.1 hv
    exact regValue_lt regs size i)
  rw [regValues_length] at h
  omega

theorem regValues_snoc (regs : Bytes) (size : UInt8) (i : Nat) :
    commas (regValues regs size (i + 1)) = commas (regValues regs size i) ++
      ((if i = 0 then [] else [',']) ++ decimal (regValue regs size i)) := by
  have hnil : regValues regs size i = [] ↔ i = 0 := by
    rw [← List.length_eq_zero_iff, regValues_length]
  simp only [← hnil]
  rw [← commas_snoc, regValues, regValues, List.range_succ, List.map_append, List.map_singleton]

theorem Holds.putReg {regs : Bytes} {size : UInt8} {i : Nat}
    (h : Holds b (text ++ commas (regValues regs size i)))
    (hfit : text.length + 6 * (i + 1) < b.size) :
    Holds (putReg regs size b i) (text ++ commas (regValues regs size (i + 1))) := by
  have hlen := regValues_commas_length regs size i
  have hdec := decimal_length (by omega) (regValue_lt regs size i)
  have hoff : b.off ≤ text.length + 6 * i := by
    rw [h.off, List.length_append]
    omega
  rw [regValues_snoc, Modbus.putReg]
  by_cases hi : i = 0
  · subst hi
    simp only [if_true, gt_iff_lt, Nat.lt_irrefl, decide_false, Bool.false_and,
      Bool.false_eq_true, if_false, List.nil_append, ← List.append_assoc]
    refine h.print _ ?_
    simp only [List.length_append] at hlen ⊢
    omega
  · have hcomma : (decide (i > 0) && decide (b.off < b.size - 1)) = true := by
      rw [Bool.and_eq_true, decide_eq_true_eq, decide_eq_true_eq]
      omega
    simp only [hi, if_false, hcomma, if_true]
    rw [← List.append_assoc, ← List.append_assoc]
    refine (h.put ',').print _ ?_
    simp only [List.length_append, List.length_singleton, put_size] at hlen ⊢
    omega

theorem Holds.putRegs (h : Holds b text) (regs : Bytes) (size : UInt8) (n : Nat)
    (hfit : text.length + 6 * n < b.size) :
    Holds ((List.range n).foldl (Modbus.putReg regs size) b)
      (text ++ commas (regValues regs size n)) ∧
      ((List.range n).foldl (Modbus.putReg regs size) b).size = b.size := by
  induction n with
  | zero => exact ⟨by simpa [regValues, commas] using h, rfl⟩
  | succ n ih =>
      obtain ⟨ih, hsize⟩ := ih (by omega)
      rw [List.range_succ, List.foldl_append, List.foldl_cons, List.foldl_nil]
      exact ⟨ih.putReg (by omega), by rw [putReg_size, hsize]⟩

theorem header_length {adr fn code ra amount err : Nat} (ha : adr < 256) (hf : fn < 256)
    (hc : code < 256) (hr : ra < 65536) (hm : amount < 256) (he : err < 10) :
    (responseHeader adr fn code ra amount err).length ≤ 63 := by
  have ha := decimal_length (n := adr) (k := 3) (by omega) (by omega)
  have hf := decimal_length (n := fn) (k := 3) (by omega) (by omega)
  have hc := decimal_length (n := code) (k := 3) (by omega) (by omega)
  have hr := decimal_length (n := ra) (k := 5) (by omega) (by omega)
  have hm := decimal_length (n := amount) (k := 3) (by omega) (by omega)
  have he := decimal_length (n := err) (k := 1) (by omega) (by omega)
  simp only [responseHeader, key, List.length_append, List.length_cons, List.length_nil]
  omega

def responseData (lib : ModbusLib) (f : ModbusFrame) : List Nat :=
  match (lib.frameData f).regs with
  | some regs =>
    if lib.isErrorFrame f then []
    else regValues regs (lib.frameData f).size (lib.frameData f).amount.toNat
  | none => []

def responseText (lib : ModbusLib) (f : ModbusFrame) : List Char :=
  responseHeader f.ucAddr.toNat (f.ucFunc &&& ~~~lib.modbusErrorFlag).toNat
    (lib.frameData f).code.toNat f.usRegAddr.toNat (lib.frameData f).amount.toNat
    (lib.isErrorFrame f).toNat ++ (commas (responseData lib f) ++ [']', '\x7d'])

theorem formatMbResponse_holds (lib : ModbusLib) (f : ModbusFrame) :
    Holds (formatMbResponse lib f) (responseText lib f) := by
  have hamount := (lib.frameData f).amount.toNat_lt
  have hhead := header_length f.ucAddr.toNat_lt (f.ucFunc &&& ~~~lib.modbusErrorFlag).toNat_lt
    (lib.frameData f).code.toNat_lt f.usRegAddr.toNat_lt hamount
    (show (lib.isErrorFrame f).toNat < 10 by cases lib.isErrorFrame f <;> decide)
  simp only [formatMbResponse, responseText, responseData]
  generalize responseHeader _ _ _ _ _ _ = head at hhead ⊢
  have hprint : Holds ((⟨96 + 9 * (lib.frameData f).amount.toNat, [], 0⟩ : MbBuf).print head)
      head := by
    have := (Holds.empty (96 + 9 * (lib.frameData f).amount.toNat)).print head
      (by simp only [List.length_nil]; omega)
    simpa using this
  have hclose : ∀ (b : MbBuf) (ns : List Nat), Holds b (head ++ commas ns) →
      b.size = 96 + 9 * (lib.frameData f).amount.toNat →
      (commas ns).length ≤ 6 * (lib.frameData f).amount.toNat →
      Holds (if b.off < b.size - 2 then (b.put ']').put '\x7d' else b)
        (head ++ (commas ns ++ [']', '\x7d'])) := by
    intro b ns hb hsize hlen
    have hoff := hb.off
    rw [List.length_append] at hoff
    rw [if_pos (by omega)]
    simpa using (hb.put ']').put '\x7d'
  cases hregs : (lib.frameData f).regs with
  | none => exact hclose _ [] (by simpa [commas] using hprint) rfl (by simp [commas])
  | some regs =>
      cases herr : lib.isErrorFrame f with
      | true => exact hclose _ [] (by simpa [commas] using hprint) rfl (by simp [commas])
      | false =>
          obtain ⟨hregs, hsize⟩ := hprint.putRegs regs (lib.frameData f).size
            (lib.frameData f).amount.toNat (by simp only [print_size]; omega)
          exact hclose _ _ hregs hsize (regValues_commas_length _ _ _)

inductive MbAnswer
  | error (err : Nat)
  | response (adr fn cv ra rc err : Nat) (rd : List Nat)
  deriving DecidableEq

def MbAnswer.err : MbAnswer → Nat
  | .error err => err
  | .response _ _ _ _ _ err _ => err

def readError (text : List Char) : Option MbAnswer := do
  let (err, rest) ← (expect ('\x7b' :: key ['E', 'R', 'R']) text).bind readNat
  if rest = ['\x7d'] then some (.error err) else none

def readField (name text : List Char) : Option (Nat × List Char) :=
  (expect (',' :: key name) text).bind readNat

def readResponse (text : List Char) : Option MbAnswer := do
  let (adr, rest) ← (expect ('\x7b' :: key ['A', 'D', 'R']) text).bind readNat
  let (fn, rest) ← readField ['F', 'N'] rest
  let (cv, rest) ← readField ['C', 'V'] rest
  let (ra, rest) ← readField ['R', 'A'] rest
  let (rc, rest) ← readField ['R', 'C'] rest
  let (err, rest) ← readField ['E', 'R', 'R'] rest
  let rest ← expect (',' :: key ['R', 'D'] ++ ['[']) rest
  let (rd, rest) ← readNats [']', '\x7d'] rest.length rest
  if rest = [] then some (.response adr fn cv ra rc err rd) else none

def chars (data : Bytes) : List Char := data.map (fun b => Char.ofNat b.toNat)

/-- What a client reads in the data of an answer. -/
def readMbAnswer (data : Bytes) : Option MbAnswer :=
  (readError (chars data)).or (readResponse (chars data))

def Ascii (text : List Char) : Prop := ∀ c ∈ text, c.toNat < 128

@[simp] theorem ascii_nil : Ascii [] := fun _ hc => absurd hc List.not_mem_nil

@[simp] theorem ascii_cons (c : Char) (cs : List Char) :
    Ascii (c :: cs) ↔ c.toNat < 128 ∧ Ascii cs := List.forall_mem_cons

@[simp] theorem ascii_append (text more : List Char) :
    Ascii (text ++ more) ↔ Ascii text ∧ Ascii more := List.forall_mem_append

@[simp] theorem ascii_decimal (n : Nat) : Ascii (decimal n) := by
  intro c hc
  have hdig := decimal_isDigit hc
  simp only [Char.isDigit, Bool.and_eq_true, decide_eq_true_eq] at hdig
  have h9 : c.toNat ≤ 57 := UInt32.le_iff_toNat_le.1 hdig.2
  omega

@[simp] theorem ascii_commas (ns : List Nat) : Ascii (commas ns) := by
  induction ns with
  | nil => exact ascii_nil
  | cons n ns ih =>
      cases ns with
      | nil => exact ascii_decimal n
      | cons m ms => exact (ascii_append _ _).2 ⟨ascii_decimal n, (ascii_cons _ _).2 ⟨by decide, ih⟩⟩

theorem ascii_errorText (code : Nat) : Ascii (errorText code) := by
  simp [errorText, key]

theorem ascii_responseText (lib : ModbusLib) (f : ModbusFrame) : Ascii (responseText lib f) := by
  simp [responseText, responseHeader, key]

theorem chars_bytes (h : Ascii text) : chars (bytes text) = text := by
  induction text with
  | nil => rfl
  | cons c cs ih =>
      obtain ⟨hc, hcs⟩ := (ascii_cons c cs).1 h
      have hbyte : c.toNat.toUInt8.toNat = c.toNat := by
        simp only [Nat.toUInt8, UInt8.toNat_ofNat']
        omega
      have ih := ih hcs
      simp only [chars, bytes, List.map_cons, List.map_map, List.cons.injEq] at ih ⊢
      exact ⟨by rw [hbyte, Char.ofNat_toNat], ih⟩

theorem readField_key (name : List Char) (n : Nat) {rest : List Char} (h : Stops rest) :
    readField name (',' :: key name ++ (decimal n ++ rest)) = some (n, rest) := by
  rw [readField, expect_append]
  exact readNat_decimal n h

theorem readError_errorText (n : Nat) : readError (errorText n) = some (.error n) := by
  have h : readNat (decimal n ++ ['\x7d']) = some (n, ['\x7d']) :=
    readNat_decimal n (stops_cons rfl)
  rw [readError, errorText, List.append_assoc, expect_append]
  simp [h]

theorem readError_response (adr fn cv ra rc err : Nat) (rest : List Char) :
    readError (responseHeader adr fn cv ra rc err ++ rest) = none := by
  simp [readError, responseHeader, key, expect]

theorem readResponse_header (adr fn cv ra rc err : Nat) (rd : List Nat) :
    readResponse (responseHeader adr fn cv ra rc err ++ (commas rd ++ [']', '\x7d'])) =
      some (.response adr fn cv ra rc err rd) := by
  have hrd : readNats [']', '\x7d'] (commas rd ++ [']', '\x7d']).length
      (commas rd ++ [']', '\x7d']) = some (rd, []) := by
    have hlen := le_commas_length rd
    have := readNats_commas [']', '\x7d'] (stops_cons rfl) (by simp) (by simp) rd
      (n := (commas rd ++ [']', '\x7d']).length) (by rw [List.length_append]; omega) []
    simpa using this
  have htext : responseHeader adr fn cv ra rc err ++ (commas rd ++ [']', '\x7d']) =
      ('\x7b' :: key ['A', 'D', 'R']) ++ (decimal adr ++
        ((',' :: key ['F', 'N']) ++ (decimal fn ++
        ((',' :: key ['C', 'V']) ++ (decimal cv ++
        ((',' :: key ['R', 'A']) ++ (decimal ra ++
        ((',' :: key ['R', 'C']) ++ (decimal rc ++
        ((',' :: key ['E', 'R', 'R']) ++ (decimal err ++
        ((',' :: key ['R', 'D'] ++ ['[']) ++ (commas rd ++ [']', '\x7d']))))))))))))) := by
    simp [responseHeader]
  have hkey : ∀ name rest : List Char, Stops ((',' :: key name) ++ rest) :=
    fun _ _ => stops_cons rfl
  have hlist : ∀ rest : List Char, Stops ((',' :: key ['R', 'D'] ++ ['[']) ++ rest) :=
    fun _ => stops_cons rfl
  rw [htext, readResponse]
  simp only [expect_append, Option.bind_eq_bind, Option.bind_some, readNat_decimal _ (hkey _ _),
    readField_key _ _ (hkey _ _), readField_key _ _ (hlist _), hrd, if_true]

theorem readMbAnswer_response (lib : ModbusLib) (f : ModbusFrame) :
    readMbAnswer (bytes (responseText lib f)) = some (.response f.ucAddr.toNat
      (f.ucFunc &&& ~~~lib.modbusErrorFlag).toNat (lib.frameData f).code.toNat f.usRegAddr.toNat
      (lib.frameData f).amount.toNat (lib.isErrorFrame f).toNat (responseData lib f)) := by
  rw [readMbAnswer, chars_bytes (ascii_responseText lib f), responseText, readError_response,
    readResponse_header]
  rfl

theorem readMbAnswer_error (code : Nat) :
    readMbAnswer (bytes (errorText code)) = some (.error code) := by
  rw [readMbAnswer, chars_bytes (ascii_errorText code), readError_errorText]
  rfl

end WirelessGateway.ModbusText
