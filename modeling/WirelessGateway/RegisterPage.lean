import WirelessGateway.Lib.Replay
import WirelessGateway.Lib.Runs
import WirelessGateway.ModbusLine
import WirelessGateway.ModbusRequest
import WirelessGateway.PollRanges

namespace WirelessGateway.RegisterPage

open CJson WirelessGateway.Types Lib.Ranges Lib.Registers Lib.Replay Lib.Runs Modbus ModbusText
open ModbusTransaction ModbusReply InovertSlave ModbusLine PollRanges

/-- The registers of the page by their addresses, with the field VALUE. -/
@[ext] structure Page where
  regMap : RegMap
  value : Nat → ℚ

/-- reg.VALUE = v for the register that the map has at an address, if any. -/
def Page.setReg (p : Page) (addr v : Nat) : Page :=
  if addr ∈ p.regMap.keys then { p with value := Function.update p.value addr v } else p

def Page.modbusHandler (p : Page) : MbAnswer → Page
  | .error _ => p
  | .response _ _ _ ra rc _ rd =>
    if rc = 0 then p
    else (List.range (min rc rd.length)).foldl (fun p i => p.setReg (ra + i) (rd.getD i 0)) p

def Page.receive (p : Page) (data : Option Bytes) : Page :=
  (data.bind readMbAnswer).elim p p.modbusHandler

inductive Ask
  | read (adr : Int) (r : Range)
  | write (adr : Int) (addr : Nat) (val : Int)

def field (name : List Char) (n : Int) : Bytes × Json := (bytes name, Json.createNumber n)

def Ask.arg : Ask → Json
  | .read adr r => .object [field ['A', 'W', 'T'] 500, field ['R', 'D', 'L'] 250, field ['F', 'N'] 3,
      field ['A', 'D', 'R'] adr, field ['R', 'A'] r.s, field ['R', 'V', 'C'] r.n]
  | .write adr addr val => .object [field ['F', 'N'] 6, field ['A', 'D', 'R'] adr,
      field ['R', 'A'] addr, field ['R', 'V', 'C'] val]

def Ask.range : Ask → Range
  | .read _ r => r
  | .write _ addr _ => ⟨addr, 1⟩

def Ask.adr : Ask → Int
  | .read adr _ => adr
  | .write adr _ _ => adr

def Ask.From (p : Page) : Ask → Prop
  | .read _ r => ∃ ranges, p.regMap.ranges = some ranges ∧ r ∈ ranges
  | .write _ addr _ => addr ∈ p.regMap.keys

structure Reading where
  range : Range
  regs : Fin regSize → Int

def Reading.layer (x : Reading) (addr : Nat) : Option ℚ :=
  if h : addr < regSize then
    if x.range.s ≤ addr ∧ addr < x.range.s + x.range.n then some (x.regs ⟨addr, h⟩) else none
  else none

def reading (a : Ask) (d : Inovert) (data : Option Bytes) : Option Reading :=
  match data.bind readMbAnswer with
  | some (.response _ _ _ _ rc _ rd) => if rc = 0 ∨ rd = [] then none else some ⟨a.range, d.regs⟩
  | _ => none

/-- The frame that was given to the Modbus library. -/
def transmitted (w : MbTask) : Option ModbusFrame :=
  w.calls.findSome? (fun c => match c.1 with
    | .request f => some f
    | _ => none)

/-- The device after what was sent, which it may have heard. -/
def heardBy (rtu : Rtu) (d : Inovert) (heard : Bool) (w : MbTask) : Inovert :=
  match transmitted w with
  | some f => if heard then (d.handle (rtu.encode f)).2 else d
  | none => d

/-- The device, the answers on their way to the page and the readings that the
page has received, with those readings that the answers stand for. -/
structure View where
  device : Inovert
  queue : List (Option Bytes × Option Reading)
  page : Page
  log : List Reading

inductive Label
  | change (d : Inovert)
  | ask (a : Ask) (msg : WebapiMsg) (env : MbEnv) (heard : Bool)
  | deliver
  | lose

def answers (a : Ask) (d : Inovert) (w : MbTask) : List (Option Bytes × Option Reading) :=
  (w.replies.filter (fun r => r.2)).map (fun r => (r.1.data, reading a d r.1.data))

def step (lib : ModbusLib) (rtu : Rtu) (P : Platform) (x : View) : Label → Option (Except Empty View)
  | .change d => some (.ok { x with device := d })
  | .ask a msg env heard =>
    (handleModbusMsg lib P ⟨false, [], []⟩ msg env).map (fun w =>
      .ok { x with device := heardBy rtu x.device heard w,
                   queue := x.queue ++ answers a (heardBy rtu x.device heard w) w })
  | .deliver =>
    match x.queue with
    | [] => none
    | (data, r) :: queue =>
      some (.ok { x with queue := queue, page := x.page.receive data, log := x.log ++ r.toList })
  | .lose =>
    match x.queue with
    | [] => none
    | _ :: queue => some (.ok { x with queue := queue })

def machine (lib : ModbusLib) (rtu : Rtu) (P : Platform) (page : Page) : Machine View Label Empty where
  init x := x.queue = [] ∧ x.page = page ∧ x.log = []
  step := step lib rtu P

/-- The request is one of the page, and a reply that the library reports for it
is the answer of the device. -/
structure Exchanged (lib : ModbusLib) (rtu : Rtu) (P : Platform) (x : View) (a : Ask) (msg : WebapiMsg)
    (env : MbEnv) (heard : Bool) : Prop where
  asks : mbJson P msg = some a.arg
  own : a.From x.page
  sent : heard = true → env.tid ≠ 0
  answered : ∀ f awt g, Asks lib P msg f awt → completion P awt env = some (some g) → heard = true ∧
    ∃ resp, (x.device.handle (rtu.encode f)).1 = .ok (some resp) ∧ rtu.decode f resp = some g

def Honest (lib : ModbusLib) (rtu : Rtu) (P : Platform) (x : View) (a : Label) (_ : View) : Prop :=
  ∀ ask msg env heard, a = .ask ask msg env heard → Exchanged lib rtu P x ask msg env heard

section Display

variable {p : Page} {x : Reading} {addr : Nat}

def Page.show (p : Page) (x : Reading) : Page :=
  { p with value := fun addr => if addr ∈ p.regMap.keys then (x.layer addr).getD (p.value addr)
      else p.value addr }

theorem setReg_regMap (p : Page) (addr v : Nat) : (p.setReg addr v).regMap = p.regMap := by
  rw [Page.setReg]
  split <;> rfl

theorem setReg_value (p : Page) (addr v k : Nat) :
    (p.setReg addr v).value k = if k = addr ∧ k ∈ p.regMap.keys then (v : ℚ) else p.value k := by
  rw [Page.setReg]
  by_cases hkey : addr ∈ p.regMap.keys
  · rw [if_pos hkey]
    dsimp only
    rw [Function.update_apply]
    refine if_congr ⟨fun h => ⟨h, ?_⟩, fun h => h.1⟩ rfl rfl
    rwa [h]
  · rw [if_neg hkey, if_neg]
    rintro ⟨rfl, hk⟩
    exact hkey hk

theorem foldl_setReg (p : Page) (ra n : Nat) (rd : List Nat) :
    ((List.range n).foldl (fun p i => p.setReg (ra + i) (rd.getD i 0)) p).regMap = p.regMap ∧
      ∀ k, ((List.range n).foldl (fun p i => p.setReg (ra + i) (rd.getD i 0)) p).value k =
        if (ra ≤ k ∧ k < ra + n) ∧ k ∈ p.regMap.keys then ((rd.getD (k - ra) 0 : Nat) : ℚ)
        else p.value k := by
  induction n with
  | zero =>
    refine ⟨rfl, fun k => ?_⟩
    rw [if_neg (by omega)]
    rfl
  | succ n ih =>
    obtain ⟨hmap, hvalue⟩ := ih
    rw [List.range_succ, List.foldl_append, List.foldl_cons, List.foldl_nil]
    refine ⟨(setReg_regMap _ _ _).trans hmap, fun k => ?_⟩
    rw [setReg_value, hmap, hvalue]
    by_cases hk : k = ra + n
    · subst hk
      by_cases hkey : ra + n ∈ p.regMap.keys
      · rw [if_pos ⟨rfl, hkey⟩, if_pos ⟨by omega, hkey⟩, Nat.add_sub_cancel_left]
      · rw [if_neg (fun h => hkey h.2), if_neg (fun h => hkey h.2), if_neg (fun h => hkey h.2)]
    · rw [if_neg (fun h => hk h.1)]
      refine if_congr (and_congr_left fun _ => ?_) rfl rfl
      omega

theorem layer_of_has {k : Nat} (hroom : x.range.s + x.range.n ≤ regSize)
    (hk : x.range.s ≤ k ∧ k < x.range.s + x.range.n) :
    x.layer k = some ((x.regs ⟨k, by omega⟩ : Int) : ℚ) := by
  rw [Reading.layer, dif_pos (by omega), if_pos hk]

theorem layer_of_not_has {k : Nat} (hk : ¬ (x.range.s ≤ k ∧ k < x.range.s + x.range.n)) :
    x.layer k = none := by
  rw [Reading.layer]
  split <;> rfl

theorem wordsAt_getD {d : Inovert} {start count k : Nat} (h : Held d start count)
    (hk : start ≤ k ∧ k < start + count) (hroom : k < regSize) :
    ((wordsAt d start count).getD (k - start) 0 : Nat) = (d.regs ⟨k, hroom⟩ : Int) := by
  have hregs : ((wordsAt d start count).map (fun w : Nat => (w : Int))).getD (k - start) 0 =
      (load d.regs 0 start count).getD (k - start) 0 := by
    rw [h.regs]
  have hat : start + (k - start) = k := by omega
  rw [List.getD_eq_getElem?_getD, List.getD_eq_getElem?_getD, List.getElem?_map,
    load_getElem? d.regs 0 (by omega) (by omega), Option.getD_some] at hregs
  simp only [hat] at hregs
  rw [← hregs, List.getD_eq_getElem?_getD]
  cases (wordsAt d start count)[k - start]? <;> rfl

/-- The page takes over all registers of a reply that it has in its map. -/
theorem modbusHandler_shows {d : Inovert} {r : Range} (p : Page) (adr fn cv err : Nat)
    (h : Held d r.s r.n) :
    p.modbusHandler (.response adr fn cv r.s r.n err (wordsAt d r.s r.n)) = p.show ⟨r, d.regs⟩ := by
  have hpos := h.fits.pos
  have hroom := h.room
  rw [wordsAt_length] at hpos
  obtain ⟨hmap, hvalue⟩ := foldl_setReg p r.s r.n (wordsAt d r.s r.n)
  rw [Page.modbusHandler, if_neg (by omega), wordsAt_length, Nat.min_self]
  apply Page.ext
  · exact hmap
  · funext k
    rw [hvalue, Page.show]
    dsimp only
    by_cases hk : r.s ≤ k ∧ k < r.s + r.n
    · have hword := wordsAt_getD h hk (by omega)
      rw [layer_of_has hroom hk, Option.getD_some]
      refine if_congr (and_iff_right hk) ?_ rfl
      dsimp only
      rw [← hword]
      rfl
    · rw [if_neg (fun hand => hk hand.1), layer_of_not_has hk]
      exact (ite_self _).symm

end Display

section Requests

variable {lib : ModbusLib} {P : Platform} {a : Ask} {f : ModbusFrame} {awt : UInt32} {n : Int}
variable {msg : WebapiMsg}

theorem parseInt_number {json : Json} {name : List Char} (hn : -2 ^ 31 ≤ n ∧ n < 2 ^ 31)
    (h : json.getObjectItem name = some (Json.createNumber n)) :
    json.parseInt name = some (UInt32.ofInt n) := by
  have hclamp : max (-2147483648) (min n 2147483647) = n := by omega
  rw [Json.parseInt, h, Json.createNumber]
  dsimp only
  rw [ModbusRequest.toUInt32_eq, hclamp, Int32.toInt_ofInt_of_le (by omega) (by omega)]

theorem register_number {json : Json} {name : List Char} (hn : -2 ^ 31 ≤ n ∧ n < 2 ^ 31)
    (h : json.getObjectItem name = some (Json.createNumber n)) :
    ((((json.parseInt name).map UInt32.toUInt16).getD 0).toNat : Int) = n % 65536 := by
  have hval := ModbusRequest.toNat_ofInt_eq n
  rw [parseInt_number hn h, Option.map_some, Option.getD_some, UInt32.toNat_toUInt16]
  omega

theorem requestFrame_regAddr (lib : ModbusLib) (hs : a.range.s < 65536) :
    (ModbusRequest.requestFrame lib a.arg).usRegAddr.toNat = a.range.s := by
  have hreg : ((ModbusRequest.requestFrame lib a.arg).usRegAddr.toNat : Int) = a.range.s % 65536 := by
    cases a <;> exact register_number (by omega) rfl
  omega

theorem asks_frame (hs : a.range.s < 65536) (hn : a.range.n < 65536)
    (h : parseMbRequest lib a.arg = some (f, awt)) :
    (f.ucFunc = 3 ∨ f.ucFunc = 6) ∧ f.pucData = none ∧ f.usRegAddr.toNat = a.range.s ∧
      span f = a.range.n := by
  rw [ModbusRequest.parse_of_checked (ModbusRequest.checked_of_parse h), Option.some.injEq,
    Prod.mk.injEq] at h
  obtain ⟨rfl, -⟩ := h
  have hstart := requestFrame_regAddr lib hs
  cases a with
  | read adr r =>
    have hread : (ModbusRequest.requestFrame lib (Ask.read adr r).arg).ucFunc = 3 := rfl
    have hn : r.n < 65536 := hn
    have hcount : ((ModbusRequest.requestFrame lib (Ask.read adr r).arg).usRegValueCount.toNat : Int) =
        r.n % 65536 := register_number (by omega) rfl
    refine ⟨Or.inl hread, rfl, hstart, ?_⟩
    rw [span, if_pos hread, Ask.range]
    omega
  | write adr addr val =>
    have hwrite : (ModbusRequest.requestFrame lib (Ask.write adr addr val).arg).ucFunc = 6 := rfl
    refine ⟨Or.inr hwrite, rfl, hstart, ?_⟩
    rw [span, hwrite]
    rfl

theorem fieldInt_number {json : Json} {name : List Char} {n : Int} (hn : -2 ^ 31 ≤ n ∧ n < 2 ^ 31)
    (h : json.getObjectItem name = some (Json.createNumber n)) :
    ModbusRequest.fieldInt json name = some n := by
  have hclamp : max (-2147483648) (min n 2147483647) = n := by omega
  rw [ModbusRequest.fieldInt, h, Option.bind_some, Json.createNumber]
  dsimp only [ModbusRequest.fieldValue]
  rw [hclamp, Int32.toInt_ofInt_of_le (by omega) (by omega)]

theorem own_asks (h : mbJson P msg = some a.arg) (hadr : SlaveFrame.IsByte a.adr) :
    Asks lib P msg (ModbusRequest.requestFrame lib a.arg) (ModbusRequest.requestAwt a.arg) := by
  obtain ⟨hpos, hlt⟩ := hadr
  have hrange : -2 ^ 31 ≤ a.adr ∧ a.adr < 2 ^ 31 := by omega
  have hfield : ModbusRequest.fieldInt a.arg ['A', 'D', 'R'] = some a.adr := by
    cases a <;> exact fieldInt_number hrange rfl
  have hfn : ∃ n, ModbusRequest.fieldInt a.arg ['F', 'N'] = some n ∧ 0 ≤ n ∧ n ≤ 127 := by
    cases a with
    | read adr r => exact ⟨3, fieldInt_number (by decide) rfl, by decide, by decide⟩
    | write adr addr val => exact ⟨6, fieldInt_number (by decide) rfl, by decide, by decide⟩
  have hnone : ModbusRequest.elements a.arg = [] := by
    cases a <;> rfl
  refine ⟨_, h, ModbusRequest.parse_of_checked
    ⟨⟨a.adr, hfield, hpos, Int.le_of_lt_add_one hlt⟩, hfn, ?_⟩⟩
  rw [hnone, List.length_nil, Nat.zero_mul]
  exact Nat.zero_le _

theorem requestFrame_addr (lib : ModbusLib) (hadr : SlaveFrame.IsByte a.adr) :
    ((ModbusRequest.requestFrame lib a.arg).ucAddr.toNat : Int) = a.adr := by
  obtain ⟨hpos, hlt⟩ := hadr
  have hrange : -2 ^ 31 ≤ a.adr ∧ a.adr < 2 ^ 31 := by omega
  have hfield : a.arg.parseInt ['A', 'D', 'R'] = some (UInt32.ofInt a.adr) := by
    cases a <;> exact parseInt_number hrange rfl
  rw [ModbusRequest.requestFrame, hfield, Option.getD_some]
  exact ModbusRequest.ofInt_toUInt8 hpos (Int.le_of_lt_add_one hlt)

end Requests

section Steps

variable {lib : ModbusLib} {rtu : Rtu} {P : Platform} {page : Page} {x y : View}

theorem deliver_cases (h : (machine lib rtu P page).Step x .deliver y) : ∃ e queue,
    x.queue = e :: queue ∧
      y = { x with queue := queue, page := x.page.receive e.1, log := x.log ++ e.2.toList } := by
  cases hq : x.queue with
  | nil => exact absurd h (by simp [Machine.Step, machine, step, hq])
  | cons e queue =>
    simp only [Machine.Step, machine, step, hq, Option.some.injEq, Except.ok.injEq] at h
    exact ⟨e, queue, rfl, h.symm⟩

theorem lose_cases (h : (machine lib rtu P page).Step x .lose y) :
    ∃ e queue, x.queue = e :: queue ∧ y = { x with queue := queue } := by
  cases hq : x.queue with
  | nil => exact absurd h (by simp [Machine.Step, machine, step, hq])
  | cons e queue =>
    simp only [Machine.Step, machine, step, hq, Option.some.injEq, Except.ok.injEq] at h
    exact ⟨e, queue, rfl, h.symm⟩

theorem ask_cases {a : Ask} {msg : WebapiMsg} {env : MbEnv} {heard : Bool}
    (h : (machine lib rtu P page).Step x (.ask a msg env heard) y) :
    ∃ w, handleModbusMsg lib P ⟨false, [], []⟩ msg env = some w ∧
      y = { x with device := heardBy rtu x.device heard w,
                   queue := x.queue ++ answers a (heardBy rtu x.device heard w) w } := by
  obtain ⟨w, hw, hy⟩ := Option.map_eq_some_iff.1 h
  exact ⟨w, hw, (Except.ok.inj hy).symm⟩

end Steps

end WirelessGateway.RegisterPage
