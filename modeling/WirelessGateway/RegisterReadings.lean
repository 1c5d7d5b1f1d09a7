import WirelessGateway.RegisterPage

namespace WirelessGateway.RegisterReadings

open CJson WirelessGateway.Types Lib.Ranges Lib.Registers Lib.Replay Lib.Runs Modbus ModbusText
open ModbusTransaction ModbusReply InovertSlave ModbusLine PollRanges RegisterPage

section Replies

variable {lib : ModbusLib} {rtu : Rtu} {P : Platform} {x : View} {a : Ask} {msg m : WebapiMsg}
variable {env : MbEnv} {heard queued : Bool} {w : MbTask} {frame : ModbusFrame} {awt : UInt32}

theorem transmitted_worked (frame : ModbusFrame) (awt : UInt32) (n : Nat) :
    transmitted (worked (opened ⟨false, [], []⟩ frame awt) n) = some frame := rfl

theorem error_reply {w : MbTask} {code : Nat} (hw : w.replies = [])
    (hm : (m, queued) ∈ (w.sendMbError msg.id msg.fid code env).replies) :
    m.data.bind readMbAnswer = none ∨ m.data.bind readMbAnswer = some (.error code) := by
  rw [MbTask.sendMbError, MbTask.sendMbMsg, MbTask.queueSend, hw, List.nil_append,
    List.mem_singleton, Prod.mk.injEq] at hm
  rw [hm.1]
  cases hdata : (mbMsg msg.id msg.fid (errorText code) env.msgAlloc).data with
  | none => exact Or.inl rfl
  | some data =>
    obtain ⟨-, rfl⟩ := mbMsg_data hdata
    exact Or.inr (readMbAnswer_error code)

theorem response_reply {adr fn cv ra rc err : Nat} {rd : List Nat}
    (h : handleModbusMsg lib P ⟨false, [], []⟩ msg env = some w) (hm : (m, queued) ∈ w.replies)
    (hread : m.data.bind readMbAnswer = some (.response adr fn cv ra rc err rd)) :
    ∃ frame awt c, Asks lib P msg frame awt ∧ completion P awt env = some c ∧
      transmitted w = some frame ∧ ra = (mbOnComplete .zero c).frame.usRegAddr.toNat ∧
      rc = (lib.frameData (mbOnComplete .zero c).frame).amount.toNat ∧
      rd = responseData lib (mbOnComplete .zero c).frame := by
  have hnot : ∀ {w : MbTask} {code : Nat}, w.replies = [] →
      (m, queued) ∉ (w.sendMbError msg.id msg.fid code env).replies := by
    intro w code hw hm
    rcases error_reply hw hm with hnone | herr
    · rw [hread] at hnone
      cases hnone
    · rw [hread] at herr
      cases herr
  rcases handle_cases lib P ⟨false, [], []⟩ msg env with ⟨-, he⟩ | ⟨frame, awt, hasks, he⟩
  · rw [he, Option.some.injEq] at h
    rw [← h] at hm
    exact absurd hm (hnot rfl)
  rw [he] at h
  rcases transact_spec h with ⟨-, rfl⟩ | ⟨-, -, n, rfl⟩ | ⟨-, c, hc, n, rfl⟩
  · exact absurd hm (hnot rfl)
  · exact absurd hm (hnot rfl)
  · cases hbuf : env.bufAlloc with
    | false =>
      rw [MbTask.formatAndSendMbResponse, if_pos (by rw [hbuf]; rfl)] at hm
      exact absurd hm (hnot rfl)
    | true =>
      refine ⟨frame, awt, c, hasks, hc, ?_, ?_⟩
      · rw [MbTask.formatAndSendMbResponse, if_neg (by rw [hbuf]; decide)]
        exact transmitted_worked frame awt n
      · rw [formatAndSend_replies lib _ msg _ hbuf] at hm
        have hmsg := (Prod.mk.inj (List.mem_singleton.1 hm)).1
        rw [hmsg] at hread
        cases hdata : (mbMsg msg.id msg.fid (responseText lib (mbOnComplete .zero c).frame)
            env.msgAlloc).data with
        | none =>
          rw [hdata] at hread
          cases hread
        | some data =>
          obtain ⟨-, rfl⟩ := mbMsg_data hdata
          rw [hdata, Option.bind_some, readMbAnswer_response, Option.some.injEq,
            MbAnswer.response.injEq] at hread
          obtain ⟨-, -, -, rfl, rfl, -, rfl⟩ := hread
          exact ⟨rfl, rfl, rfl⟩

theorem from_bounded {p : Page} (hkeys : ∀ k ∈ p.regMap.keys, k < 65536) (h : a.From p) :
    a.range.s < 65536 ∧ 1 ≤ a.range.n ∧ a.range.n ≤ 100 := by
  cases a with
  | write adr addr val => exact ⟨hkeys addr h, Nat.le_refl 1, (by decide : 1 ≤ 100)⟩
  | read adr r =>
    obtain ⟨ranges, hranges, hr⟩ := h
    have hperm := List.mergeSort_perm p.regMap.keys (fun a b => decide (a ≤ b))
    have hsome : p.regMap.keys.mergeSort (fun a b => a ≤ b) ≠ [] := by
      intro hnil
      rw [RegMap.ranges, hnil] at hranges
      cases hranges
    obtain ⟨ranges', hranges', hplan⟩ := rangesOf_plan hsome (sort_increasing p.regMap.unique)
    rw [RegMap.ranges, hranges', Option.some.injEq] at hranges
    rw [hranges] at hplan
    obtain ⟨hpos, hmax⟩ := hplan.sized r hr
    have hkey := (hplan.perm (fun _ => hperm.mem_iff)).covers r.s
    exact ⟨hkeys r.s (hkey.2 ⟨r, hr, ⟨Nat.le_refl _, by omega⟩⟩), hpos, hmax⟩

theorem answer_received (hr : rtu.Lawful lib) (hkeys : ∀ k ∈ x.page.regMap.keys, k < 65536)
    (hx : Exchanged lib rtu P x a msg env heard)
    (h : handleModbusMsg lib P ⟨false, [], []⟩ msg env = some w) (hm : (m, queued) ∈ w.replies)
    (p : Page) :
    p.receive m.data = (reading a (heardBy rtu x.device heard w) m.data).elim p p.show := by
  rw [Page.receive, reading]
  cases hread : m.data.bind readMbAnswer with
  | none => rfl
  | some answer =>
    cases answer with
    | error err => rfl
    | response adr fn cv ra rc err rd =>
      dsimp only [Option.elim_some]
      by_cases hempty : rc = 0 ∨ rd = []
      · rw [if_pos hempty, Option.elim_none, Page.modbusHandler]
        rcases hempty with hrc | hrd
        · rw [if_pos hrc]
        · rw [hrd, List.length_nil, Nat.min_zero]
          exact ite_self _
      · obtain ⟨frame, awt, c, hasks, hc, hsent, rfl, rfl, rfl⟩ := response_reply h hm hread
        obtain ⟨hs, -, hn⟩ := from_bounded hkeys hx.own
        obtain ⟨json, hjson, hparse⟩ := hasks
        rw [hx.asks, Option.some.injEq] at hjson
        subst hjson
        obtain ⟨hfunc, hnone, hstart, hspan⟩ := asks_frame hs (by omega) hparse
        rw [if_neg hempty, Option.elim_some]
        have hshown : ¬ responseData lib (mbOnComplete .zero c).frame = [] := fun he => hempty (Or.inr he)
        cases c with
        | none => exact absurd (responseData_blank hr rfl) hshown
        | some g =>
          obtain ⟨rfl, resp, hresp, hg⟩ := hx.answered frame awt g ⟨_, hx.asks, hparse⟩ hc
          have hdev : heardBy rtu x.device true w = (x.device.handle (rtu.encode frame)).2 := by
            rw [heardBy, hsent]
            rfl
          rcases answer_shows hr hfunc hnone hresp hg with he | hshows
          · exact absurd he hshown
          · rw [hdev, hshows.addr, hshows.amount, hshows.data]
            have hheld := hshows.held
            rw [hstart, hspan] at hheld ⊢
            exact modbusHandler_shows p _ _ _ _ hheld

end Replies

section Fetches

variable {lib : ModbusLib} {rtu : Rtu} {P : Platform} {page : Page} {x y : View} {msg : WebapiMsg}
variable {env : MbEnv} {w : MbTask} {adr : Int} {r : Range}

theorem transmitted_asked {frame : ModbusFrame} {awt : UInt32} (hasks : Asks lib P msg frame awt)
    (h : handleModbusMsg lib P ⟨false, [], []⟩ msg env = some w) : transmitted w = some frame := by
  rcases handle_cases lib P ⟨false, [], []⟩ msg env with ⟨hnot, -⟩ | ⟨frame', awt', hasks', he⟩
  · exact absurd hasks (hnot frame awt)
  · obtain ⟨rfl, rfl⟩ := hasks.eq hasks'
    rw [he] at h
    rcases transact_spec h with ⟨-, rfl⟩ | ⟨-, -, n, rfl⟩ | ⟨-, c, -, n, rfl⟩
    · rfl
    · rfl
    · rw [MbTask.formatAndSendMbResponse]
      split <;> rfl

theorem completed_replies {frame : ModbusFrame} {awt : UInt32} {c : Option ModbusFrame}
    (hasks : Asks lib P msg frame awt) (htid : env.tid ≠ 0) (hc : completion P awt env = some c)
    (hbuf : env.bufAlloc = true) (h : handleModbusMsg lib P ⟨false, [], []⟩ msg env = some w) :
    w.replies = [(mbMsg msg.id msg.fid (responseText lib (mbOnComplete .zero c).frame) env.msgAlloc,
      env.room)] := by
  rcases handle_cases lib P ⟨false, [], []⟩ msg env with ⟨hnot, -⟩ | ⟨frame', awt', hasks', he⟩
  · exact absurd hasks (hnot frame awt)
  · obtain ⟨rfl, rfl⟩ := hasks.eq hasks'
    rw [he] at h
    rcases transact_spec h with ⟨hzero, -⟩ | ⟨-, hnone, -⟩ | ⟨-, c', hc', n, rfl⟩
    · exact absurd hzero htid
    · rw [hc] at hnone
      cases hnone
    · rw [hc, Option.some.injEq] at hc'
      rw [hc']
      exact formatAndSend_replies lib _ msg _ hbuf

/-- A range of words that the page asks the device for, without a loss on the
way back. -/
structure Fetched (lib : ModbusLib) (rtu : Rtu) (P : Platform) (x : View) (adr : Int) (r : Range)
    (msg : WebapiMsg) (env : MbEnv) : Prop where
  asked : Exchanged lib rtu P x (.read adr r) msg env true
  address : x.device.address = adr
  byte : SlaveFrame.IsByte adr
  room : r.s + r.n ≤ regSize
  words : ∀ k : Fin regSize, r.s ≤ k.val → k.val < r.s + r.n → SlaveFrame.IsWord (x.device.regs k)
  ends : ∃ g, completion P (ModbusRequest.requestAwt (Ask.read adr r).arg) env = some (some g)
  texts : env.bufAlloc = true ∧ env.msgAlloc = true
  queued : env.room = true

theorem Fetched.shows {adr : Int} {r : Range} {g : ModbusFrame} (hr : rtu.Lawful lib)
    (hkeys : ∀ k ∈ x.page.regMap.keys, k < 65536) (hf : Fetched lib rtu P x adr r msg env)
    (h : handleModbusMsg lib P ⟨false, [], []⟩ msg env = some w)
    (hg : completion P (ModbusRequest.requestAwt (Ask.read adr r).arg) env = some (some g)) :
    heardBy rtu x.device true w = x.device ∧
      Shows lib x.device r.s r.n (mbOnComplete .zero (some g)).frame := by
  obtain ⟨hx, hadr, hbyte, hroom, hwords, -, -, -⟩ := hf
  obtain ⟨hs, hpos, hmax⟩ := from_bounded hkeys hx.own
  have hn : (Ask.read adr r).range.n < 65536 := by omega
  have hasks : Asks lib P msg _ _ := own_asks hx.asks hbyte
  have hsent := transmitted_asked hasks h
  have hdev : ((ModbusRequest.requestFrame lib (Ask.read adr r).arg).ucAddr.toNat : Int) =
      x.device.address := (requestFrame_addr (a := .read adr r) lib hbyte).trans hadr.symm
  obtain ⟨json, hjson, hparse⟩ := id hasks
  rw [hx.asks, Option.some.injEq] at hjson
  subst hjson
  obtain ⟨-, hnone, hstart, hspan⟩ := asks_frame hs hn hparse
  obtain ⟨-, resp, hresp, hdecode⟩ := hx.answered _ _ g hasks hg
  generalize hf : ModbusRequest.requestFrame lib (Ask.read adr r).arg = f at *
  have hfunc : f.ucFunc = 3 := by
    rw [← hf]
    rfl
  rw [span, if_pos hfunc] at hspan
  dsimp only [Ask.range] at hstart hspan hpos hmax
  have hsame : heardBy rtu x.device true w = x.device := by
    rw [heardBy, hsent]
    dsimp only
    rw [if_pos rfl, hr.request f (Or.inl hfunc) hnone, handle_read hdev hfunc]
  have hload : ∀ v ∈ load x.device.regs 0 r.s r.n, SlaveFrame.IsWord v := by
    intro v hv
    obtain ⟨k, hle, hlt, rfl⟩ := (mem_load hroom).1 hv
    exact hwords k hle hlt
  have hheld := held_of_words hpos (by omega) hroom hload
  rw [← hstart, ← hspan] at hload hroom
  rw [hr.request f (Or.inl hfunc) hnone, read_answered hdev hfunc (by omega) (by omega) hroom hload,
    Except.ok.injEq, Option.some.injEq] at hresp
  rw [← hresp] at hdecode
  have hcarries := hr.answered f _ g hfunc (wordsAt_length _ _ _)
    (by rw [hstart, hspan]; exact hheld.fits) hdecode
  rw [hstart, hspan] at hcarries
  exact ⟨hsame, hcarries.shows hr (Or.inl hfunc) hheld hstart⟩

theorem reading_shows {d : Inovert} {r : Range} {adr : Int} {frame : ModbusFrame} (id fid : UInt32)
    (h : Shows lib d r.s r.n frame) :
    reading (.read adr r) d (mbMsg id fid (responseText lib frame) true).data = some ⟨r, d.regs⟩ := by
  have hpos := h.held.fits.pos
  have hsome : wordsAt d r.s r.n ≠ [] := List.ne_nil_of_length_pos hpos
  rw [wordsAt_length] at hpos
  rw [mbMsg_responseText, reading, Option.bind_some, readMbAnswer_response]
  dsimp only
  rw [h.amount, h.data, if_neg (not_or.2 ⟨by omega, hsome⟩)]
  rfl

theorem Fetched.queued_reading (hr : rtu.Lawful lib) (hkeys : ∀ k ∈ x.page.regMap.keys, k < 65536)
    (hf : Fetched lib rtu P x adr r msg env)
    (h : (machine lib rtu P page).Step x (.ask (.read adr r) msg env true) y) :
    ∃ data, y = { x with queue := x.queue ++ [(data, some ⟨r, x.device.regs⟩)] } ∧
      ∀ p : Page, p.receive data = p.show ⟨r, x.device.regs⟩ := by
  obtain ⟨w, hw, rfl⟩ := ask_cases h
  obtain ⟨g, hg⟩ := hf.ends
  obtain ⟨hsame, hshows⟩ := hf.shows hr hkeys hw hg
  have hreplies := completed_replies (own_asks hf.asked.asks hf.byte) (hf.asked.sent rfl) hg
    hf.texts.1 hw
  rw [hf.texts.2, hf.queued] at hreplies
  have hreading : reading (.read adr r) x.device _ = _ := reading_shows msg.id msg.fid hshows
  rw [hsame, answers, hreplies]
  refine ⟨_, congrArg (fun r => View.mk x.device (x.queue ++ [(_, r)]) x.page x.log) hreading, fun p => ?_⟩
  have hreceived := answer_received hr hkeys hf.asked hw
    (by rw [hreplies]; exact List.mem_singleton_self _) p
  rwa [hsame, hreading, Option.elim_some] at hreceived

end Fetches

section Runs

variable {lib : ModbusLib} {rtu : Rtu} {P : Platform} {page : Page} {x y : View} {as : List Label}

/-- What the page shows is what its readings stand for, and so are the answers
on their way. -/
structure Followed (page : Page) (y : View) : Prop where
  shown : y.page = y.log.foldl Page.show page
  queue : ∀ e ∈ y.queue, ∀ p : Page, p.receive e.1 = e.2.elim p p.show

theorem show_value {p : Page} {k : Nat} (r : Reading) (hkey : k ∈ p.regMap.keys) :
    (p.show r).value k = (r.layer k).getD (p.value k) := if_pos hkey

theorem foldl_show (p : Page) (log : List Reading) :
    (log.foldl Page.show p).regMap = p.regMap ∧ ∀ addr ∈ p.regMap.keys,
      (log.foldl Page.show p).value addr = overlay p.value (log.map Reading.layer) addr := by
  induction log generalizing p with
  | nil => exact ⟨rfl, fun addr _ => rfl⟩
  | cons r log ih =>
    obtain ⟨hmap, hvalue⟩ := ih (p.show r)
    refine ⟨hmap, fun addr haddr => ?_⟩
    rw [List.foldl_cons, hvalue addr haddr, overlay_apply, show_value r haddr]
    exact (overlay_apply (m := fun k => (r.layer k).getD (p.value k)) addr).symm

theorem Followed.regMap (h : Followed page y) : y.page.regMap = page.regMap := by
  rw [h.shown]
  exact (foldl_show page y.log).1

theorem step_followed (hr : rtu.Lawful lib) (hkeys : ∀ k ∈ page.regMap.keys, k < 65536)
    {l : Label} (hx : Followed page x) (hstep : (machine lib rtu P page).Step x l y)
    (hcond : Honest lib rtu P x l y) : Followed page y := by
  cases l with
  | change d =>
    cases hstep
    exact ⟨hx.shown, hx.queue⟩
  | ask a msg env heard =>
    obtain ⟨w, hw, rfl⟩ := ask_cases hstep
    refine ⟨hx.shown, fun e he p => ?_⟩
    rcases List.mem_append.1 he with he | he
    · exact hx.queue e he p
    · obtain ⟨⟨m, queued⟩, hm, rfl⟩ := List.mem_map.1 he
      exact answer_received hr (by rwa [hx.regMap]) (hcond a msg env heard rfl) hw
        (List.mem_filter.1 hm).1 p
  | deliver =>
    obtain ⟨e, queue, hq, rfl⟩ := deliver_cases hstep
    have hhead := hx.queue e (by rw [hq]; exact List.mem_cons_self) x.page
    refine ⟨?_, fun e' he' => hx.queue e' (by rw [hq]; exact List.mem_cons_of_mem _ he')⟩
    dsimp only
    rw [hhead, List.foldl_append, ← hx.shown]
    cases e.2 <;> rfl
  | lose =>
    obtain ⟨e, queue, hq, rfl⟩ := lose_cases hstep
    exact ⟨hx.shown, fun e' he' => hx.queue e' (by rw [hq]; exact List.mem_cons_of_mem _ he')⟩

theorem reading_regs {a : Ask} {d : Inovert} {data : Option Bytes} {r : Reading}
    (h : reading a d data = some r) : r.regs = d.regs := by
  rw [reading] at h
  split at h
  · split at h
    · cases h
    · cases h
      rfl
  · cases h

/-- The device had the registers of a reading at some time. -/
def Recorded (lib : ModbusLib) (rtu : Rtu) (P : Platform) (page : Page) (x : View) (as : List Label)
    (r : Reading) : Prop :=
  ∃ bs z, bs <+: as ∧ Along (machine lib rtu P page) (Honest lib rtu P) x bs z ∧ z.device.regs = r.regs

theorem run_recorded (h : Along (machine lib rtu P page) (Honest lib rtu P) x as y)
    (hlog : x.log = []) (hqueue : x.queue = []) :
    (∀ r ∈ y.log, Recorded lib rtu P page x as r) ∧
      ∀ e ∈ y.queue, ∀ r, e.2 = some r → Recorded lib rtu P page x as r := by
  induction h with
  | start =>
    rw [hlog, hqueue]
    exact ⟨fun r hr => absurd hr List.not_mem_nil, fun e he => absurd he List.not_mem_nil⟩
  | @step as t l u run hstep hcond ih =>
    obtain ⟨hold, hways⟩ := ih
    have hlater : ∀ r, Recorded lib rtu P page x as r → Recorded lib rtu P page x (as ++ [l]) r := by
      rintro r ⟨bs, z, hbs, hz, hregs⟩
      exact ⟨bs, z, hbs.trans (List.prefix_append _ _), hz, hregs⟩
    have hold' : ∀ r ∈ t.log, Recorded lib rtu P page x (as ++ [l]) r :=
      fun r hr => hlater r (hold r hr)
    have hways' : ∀ e ∈ t.queue, ∀ r, e.2 = some r → Recorded lib rtu P page x (as ++ [l]) r :=
      fun e he r hr => hlater r (hways e he r hr)
    cases l with
    | change d =>
      cases hstep
      exact ⟨hold', hways'⟩
    | ask a msg env heard =>
      obtain ⟨w, hw, rfl⟩ := ask_cases hstep
      refine ⟨hold', fun e he r hr => ?_⟩
      rcases List.mem_append.1 he with he | he
      · exact hways' e he r hr
      · obtain ⟨m, -, rfl⟩ := List.mem_map.1 he
        exact ⟨_, _, List.prefix_rfl, .step run hstep hcond, (reading_regs hr).symm⟩
    | deliver =>
      obtain ⟨e, queue, hq, rfl⟩ := deliver_cases hstep
      rw [hq] at hways'
      refine ⟨fun r hr => ?_, fun e' he' => hways' e' (List.mem_cons_of_mem _ he')⟩
      rcases List.mem_append.1 hr with hr | hr
      · exact hold' r hr
      · exact hways' e List.mem_cons_self r (Option.mem_toList.1 hr)
    | lose =>
      obtain ⟨e, queue, hq, rfl⟩ := lose_cases hstep
      rw [hq] at hways'
      exact ⟨hold', fun e' he' => hways' e' (List.mem_cons_of_mem _ he')⟩

theorem run_followed (hr : rtu.Lawful lib) (hkeys : ∀ k ∈ page.regMap.keys, k < 65536)
    (hx : (machine lib rtu P page).init x)
    (h : Along (machine lib rtu P page) (Honest lib rtu P) x as y) : Followed page y := by
  obtain ⟨hqueue, hpage, hlog⟩ := id hx
  have hstart : Followed page x := by
    refine ⟨by rw [hlog, hpage]; rfl, fun e he => ?_⟩
    rw [hqueue] at he
    exact absurd he List.not_mem_nil
  exact h.invariant (.init hx) hstart
    (fun _ _ _ _ hi hstep hcond => step_followed hr hkeys hi hstep hcond)

/-- Every register on the page has the value of the last reading that covers
it, and each reading is what the device had when it answered. -/
theorem page_follows (hr : rtu.Lawful lib) (hkeys : ∀ k ∈ page.regMap.keys, k < 65536)
    (hx : (machine lib rtu P page).init x)
    (h : Along (machine lib rtu P page) (Honest lib rtu P) x as y) :
    (∀ addr ∈ page.regMap.keys, y.page.value addr =
      ((y.log.filterMap (fun r => r.layer addr)).getLast?).getD (page.value addr)) ∧
    ∀ r ∈ y.log, ∃ bs z, bs <+: as ∧
      Along (machine lib rtu P page) (Honest lib rtu P) x bs z ∧ z.device.regs = r.regs := by
  obtain ⟨hqueue, -, hlog⟩ := id hx
  refine ⟨fun addr haddr => ?_, (run_recorded h hlog hqueue).1⟩
  rw [(run_followed hr hkeys hx h).shown, (foldl_show page y.log).2 addr haddr, overlay_apply,
    List.filterMap_map]
  rfl

theorem receive_regMap (p : Page) (data : Option Bytes) : (p.receive data).regMap = p.regMap := by
  rw [Page.receive]
  cases data.bind readMbAnswer with
  | none => rfl
  | some answer =>
    cases answer with
    | error err => rfl
    | response adr fn cv ra rc err rd =>
      rw [Option.elim_some, Page.modbusHandler]
      split
      · rfl
      · exact (foldl_setReg _ _ _ _).1

theorem deliver_all (queue : List (Option Bytes × Option Reading)) (hq : y.queue = queue) : ∃ v,
    Run (machine lib rtu P page) y (List.replicate queue.length .deliver) v ∧ v.queue = [] ∧
      v.device = y.device ∧ v.page = queue.foldl (fun p e => p.receive e.1) y.page := by
  induction queue generalizing y with
  | nil => exact ⟨y, .start, hq, rfl, rfl⟩
  | cons e queue ih =>
    have hstep : (machine lib rtu P page).Step y .deliver
        { y with queue := queue, page := y.page.receive e.1, log := y.log ++ e.2.toList } := by
      simp only [Machine.Step, machine, step, hq]
    obtain ⟨v, hrun, hrest⟩ := ih (y := { y with queue := queue, page := y.page.receive e.1,
                                                 log := y.log ++ e.2.toList }) rfl
    exact ⟨v, .cons hstep trivial hrun, hrest⟩

theorem foldl_receive (p : Page) (queue : List (Option Bytes × Option Reading)) :
    (queue.foldl (fun p e => p.receive e.1) p).regMap = p.regMap := by
  induction queue generalizing p with
  | nil => rfl
  | cons e queue ih => exact (ih _).trans (receive_regMap p e.1)

/-- A range that is asked for without a loss is on the page as the device has
it, when all answers on their way have come in. -/
theorem range_refreshed {adr : Int} {r : Range} {msg : WebapiMsg} {env : MbEnv} {z : View}
    (hr : rtu.Lawful lib) (hkeys : ∀ k ∈ page.regMap.keys, k < 65536)
    (hinit : (machine lib rtu P page).init x)
    (hbefore : Along (machine lib rtu P page) (Honest lib rtu P) x as y)
    (hf : Fetched lib rtu P y adr r msg env)
    (hask : (machine lib rtu P page).Step y (.ask (.read adr r) msg env true) z) : ∃ v,
    Run (machine lib rtu P page) z (List.replicate (y.queue.length + 1) .deliver) v ∧ v.queue = [] ∧
      v.device = y.device ∧ ∀ k : Fin regSize, k.val ∈ page.regMap.keys → r.Has k.val →
        v.page.value k.val = (y.device.regs k : Int) := by
  have hmap := (run_followed hr hkeys hinit hbefore).regMap
  obtain ⟨data, rfl, hdata⟩ := hf.queued_reading hr (by rwa [hmap]) hask
  obtain ⟨v, hrun, hqueue, hdevice, hpage⟩ := @deliver_all lib rtu P page
    { y with queue := y.queue ++ [(data, some ⟨r, y.device.regs⟩)] } _ rfl
  rw [List.length_append] at hrun
  refine ⟨v, hrun, hqueue, hdevice, fun k hkey hhas => ?_⟩
  rw [hpage, List.foldl_append, List.foldl_cons, List.foldl_nil, hdata, show_value]
  · rw [layer_of_has (x := ⟨r, y.device.regs⟩) hf.room hhas, Option.getD_some]
  · rw [foldl_receive, hmap]
    exact hkey

end Runs

section Samples

def converter : Inovert := ⟨1, fun k => k.val + 256, 0⟩

theorem converter_words (k : Fin regSize) (h : k.val < 6) : SlaveFrame.IsWord (converter.regs k) := by
  change 0 ≤ (k.val : Int) + 256 ∧ (k.val : Int) + 256 < 65536
  omega

def twoRegisters : Page := ⟨⟨[4, 5], by decide⟩, fun _ => 0⟩

def readFields : List (List Char × Nat) :=
  [(['A', 'W', 'T'], 500), (['R', 'D', 'L'], 250), (['F', 'N'], 3), (['A', 'D', 'R'], 1),
    (['R', 'A'], 4), (['R', 'V', 'C'], 2)]

def writeFields : List (List Char × Nat) :=
  [(['F', 'N'], 6), (['A', 'D', 'R'], 1), (['R', 'A'], 5), (['R', 'V', 'C'], 700)]

def board : Platform := reads [readFields, writeFields]

def replyOf (d : Inovert) (f : ModbusFrame) : Option ModbusFrame :=
  match (d.handle (hostRtu.encode f)).1 with
  | .ok (some resp) => hostRtu.decode f resp
  | _ => none

def replying (d : Inovert) (a : Ask) : MbEnv :=
  completes (replyOf d (ModbusRequest.requestFrame wordLib a.arg))

theorem completion_completes (c : Option ModbusFrame) :
    completion board 500 (completes c) = some c := by
  have h1 : beforeDeadline 1000 1 = true := by decide
  have h2 : beforeDeadline 1000 2 = true := by decide
  have h3 : beforeDeadline 1000 3 = true := by decide
  simp [completion, deadline, completes, board, reads, reported, h1, h2, h3]

theorem exchanged_replying {x : View} {a : Ask} {msg : WebapiMsg} (hjson : mbJson board msg = some a.arg)
    (hown : a.From x.page) (hbyte : SlaveFrame.IsByte a.adr)
    (hawt : ModbusRequest.requestAwt a.arg = 500) :
    Exchanged wordLib hostRtu board x a msg (replying x.device a) true where
  asks := hjson
  own := hown
  sent _ := (by decide : (1 : UInt32) ≠ 0)
  answered f awt g hasks hg := by
    obtain ⟨rfl, rfl⟩ := hasks.eq (own_asks hjson hbyte)
    rw [hawt, replying, completion_completes, Option.some.injEq, replyOf] at hg
    refine ⟨rfl, ?_⟩
    split at hg
    · next resp hresp => exact ⟨resp, hresp, hg⟩
    · cases hg

def readPair : Ask := .read 1 ⟨4, 2⟩

theorem readPair_own : readPair.From twoRegisters := by
  refine ⟨[⟨4, 2⟩], ?_, List.mem_singleton_self _⟩
  rw [RegMap.ranges, List.mergeSort_of_pairwise (by decide)]
  rfl

theorem fetched_pair {x : View} (hmap : x.page.regMap = twoRegisters.regMap) (hadr : x.device.address = 1)
    (hwords : ∀ k : Fin regSize, 4 ≤ k.val → k.val < 6 → SlaveFrame.IsWord (x.device.regs k))
    (hends : (replyOf x.device (ModbusRequest.requestFrame wordLib readPair.arg)).isSome = true) :
    Fetched wordLib hostRtu board x 1 ⟨4, 2⟩ (asking readFields) (replying x.device readPair) where
  asked := by
    obtain ⟨ranges, hranges, hr⟩ := readPair_own
    exact exchanged_replying rfl ⟨ranges, by rw [hmap]; exact hranges, hr⟩ ⟨by decide, by decide⟩ rfl
  address := hadr
  byte := ⟨by decide, by decide⟩
  room := by decide
  words := hwords
  ends := by
    obtain ⟨g, hg⟩ := Option.isSome_iff_exists.1 hends
    refine ⟨g, ?_⟩
    rw [replying, ← hg]
    exact completion_completes _
  texts := ⟨rfl, rfl⟩
  queued := rfl

theorem converter_fetched : Fetched wordLib hostRtu board ⟨converter, [], twoRegisters, []⟩ 1 ⟨4, 2⟩
    (asking readFields) (replying converter readPair) :=
  fetched_pair rfl rfl (fun k _ hlt => converter_words k (by omega)) (by decide +kernel)

theorem exists_ask (page : Page) (x : View) (a : Ask) (msg : WebapiMsg) (c : Option ModbusFrame) :
    ∃ y, (machine wordLib hostRtu board page).Step x (.ask a msg (completes c) true) y := by
  obtain ⟨w, hw⟩ := Option.isSome_iff_exists.1 (handle_completes wordLib board msg c)
  exact ⟨_, congrArg (Option.map _) hw⟩

theorem honest_ask {x y : View} {a : Ask} {msg : WebapiMsg} {env : MbEnv} {heard : Bool}
    (h : Exchanged wordLib hostRtu board x a msg env heard) :
    Honest wordLib hostRtu board x (.ask a msg env heard) y := by
  intro a' msg' env' heard' he
  cases he
  exact h

theorem honest_deliver (x y : View) : Honest wordLib hostRtu board x .deliver y := by
  intro a msg env heard he
  cases he

theorem page_follows_pair : ∃ as y,
    Along (machine wordLib hostRtu board twoRegisters) (Honest wordLib hostRtu board)
      ⟨converter, [], twoRegisters, []⟩ as y ∧ y.log = [⟨⟨4, 2⟩, converter.regs⟩] ∧
    (∀ addr ∈ [4, 5], y.page.value addr =
      ((y.log.filterMap (fun r => r.layer addr)).getLast?).getD 0) ∧
    ∀ r ∈ y.log, ∃ bs z, bs <+: as ∧
      Along (machine wordLib hostRtu board twoRegisters) (Honest wordLib hostRtu board)
        ⟨converter, [], twoRegisters, []⟩ bs z ∧ z.device.regs = r.regs := by
  have hf := converter_fetched
  obtain ⟨y, hy⟩ := exists_ask twoRegisters ⟨converter, [], twoRegisters, []⟩ readPair (asking readFields)
    (replyOf converter (ModbusRequest.requestFrame wordLib readPair.arg))
  have hkeys : ∀ k ∈ twoRegisters.regMap.keys, k < 65536 := by decide
  obtain ⟨data, rfl, -⟩ := hf.queued_reading hostRtu_lawful hkeys hy
  have hrun : Along (machine wordLib hostRtu board twoRegisters) (Honest wordLib hostRtu board)
      ⟨converter, [], twoRegisters, []⟩
      [.ask readPair (asking readFields) (replying converter readPair) true, .deliver]
      ⟨converter, [], twoRegisters.receive data, [⟨⟨4, 2⟩, converter.regs⟩]⟩ :=
    .cons hy (honest_ask hf.asked) (.cons rfl (honest_deliver _ _) .start)
  exact ⟨_, _, hrun, rfl, page_follows hostRtu_lawful hkeys ⟨rfl, rfl, rfl⟩ hrun⟩

theorem range_refreshed_pair : ∃ as v,
    Along (machine wordLib hostRtu board twoRegisters) (fun _ _ _ => True)
      ⟨converter, [], twoRegisters, []⟩ as v ∧ v.page.value 4 = (converter.regs ⟨4, by decide⟩ : Int) ∧
      v.page.value 5 = (converter.regs ⟨5, by decide⟩ : Int) := by
  have hf := converter_fetched
  obtain ⟨y, hy⟩ := exists_ask twoRegisters ⟨converter, [], twoRegisters, []⟩ readPair (asking readFields)
    (replyOf converter (ModbusRequest.requestFrame wordLib readPair.arg))
  obtain ⟨v, hrun, -, -, hshown⟩ := range_refreshed hostRtu_lawful (by decide) ⟨rfl, rfl, rfl⟩ .start hf hy
  exact ⟨_, v, .cons hy trivial hrun, hshown ⟨4, by decide⟩ (by decide) ⟨by decide, by decide⟩,
    hshown ⟨5, by decide⟩ (by decide) ⟨by decide, by decide⟩⟩

end Samples

section Writes

variable {lib : ModbusLib} {rtu : Rtu} {P : Platform} {page : Page} {x y : View} {msg : WebapiMsg}
variable {env : MbEnv} {w : MbTask}

/-- A value that the page writes to a register of the device. -/
structure Written (lib : ModbusLib) (rtu : Rtu) (P : Platform) (x : View) (adr : Int) (addr : Nat)
    (val : Int) (msg : WebapiMsg) (env : MbEnv) : Prop where
  asked : Exchanged lib rtu P x (.write adr addr val) msg env true
  address : x.device.address = adr
  byte : SlaveFrame.IsByte adr
  value : -2 ^ 31 ≤ val ∧ val < 2 ^ 31

theorem Written.heard {adr val : Int} {addr : Nat} (hr : rtu.Lawful lib)
    (hw : Written lib rtu P x adr addr val msg env) (haddr : addr < 65536)
    (h : handleModbusMsg lib P ⟨false, [], []⟩ msg env = some w) : ∃ v : Nat, (v : Int) = val % 65536 ∧
      heardBy rtu x.device true w = (x.device.writeRegs addr [v]).2 := by
  obtain ⟨hx, hadr, hbyte, hval⟩ := hw
  have hasks : Asks lib P msg _ _ := own_asks hx.asks hbyte
  have hsent := transmitted_asked hasks h
  have hdev : ((ModbusRequest.requestFrame lib (Ask.write adr addr val).arg).ucAddr.toNat : Int) =
      x.device.address := (requestFrame_addr (a := .write adr addr val) lib hbyte).trans hadr.symm
  have hstart := requestFrame_regAddr (a := .write adr addr val) lib haddr
  refine ⟨(ModbusRequest.requestFrame lib (Ask.write adr addr val).arg).usRegValueCount.toNat,
    register_number hval rfl, ?_⟩
  rw [heardBy, hsent]
  dsimp only
  rw [if_pos rfl, hr.request _ (Or.inr rfl) rfl, write_done hdev rfl, hstart]
  rfl

/-- The steps of a run leave one register of the device alone. -/
def Keeps (k : Fin regSize) (x : View) (_ : Label) (y : View) : Prop := y.device.regs k = x.device.regs k

theorem writeRegs_regs_at (d : Inovert) (k : Fin regSize) {value : Nat} (hvalue : value < 65536) :
    (d.writeRegs k.val [value]).2.regs k = value := by
  obtain ⟨hwords, hheld⟩ := writeRegs_held (d := d) k.isLt hvalue
  have hword := wordsAt_getD hheld (k := k.val) (by omega) k.isLt
  rw [hwords, Nat.sub_self] at hword
  exact hword.symm

/-- How many readings have a value for a register. -/
def covering (k : Nat) (log : List Reading) : Nat := log.countP (fun r => (r.layer k).isSome)

theorem layer_regs {r : Reading} {k : Fin regSize} {u : ℚ} (h : r.layer k.val = some u) :
    u = ((r.regs k : Int) : ℚ) := by
  rw [Reading.layer, dif_pos k.isLt] at h
  split at h
  · exact (Option.some.inj h).symm
  · cases h

/-- Behind what was on its way before, all readings have this value for the
register, and so has the page as soon as it has one of them. -/
def Since (k : Fin regSize) (n : Nat) (value : Int) (y : View) : Prop :=
  ∃ old new, y.queue = old ++ new ∧
    (∀ e ∈ new, ∀ r, e.2 = some r → r.regs k = value) ∧
    (covering k.val y.log + covering k.val (old.filterMap Prod.snd) ≤ n ∨
      (old = [] ∧ y.page.value k.val = (value : ℚ)))

theorem answers_regs {a : Ask} {d : Inovert} {e : Option Bytes × Option Reading} {r : Reading}
    (he : e ∈ answers a d w) (hr : e.2 = some r) : r.regs = d.regs := by
  obtain ⟨m, -, rfl⟩ := List.mem_map.1 he
  exact reading_regs hr

theorem step_since {k : Fin regSize} {n : Nat} {value : Int} {l : Label} (hkey : k.val ∈ x.page.regMap.keys)
    (hx : Followed page x) (hs : Since k n value x) (hstep : (machine lib rtu P page).Step x l y)
    (hvalue : y.device.regs k = value) : Since k n value y := by
  obtain ⟨old, new, hqueue, hnew, hcount⟩ := hs
  cases l with
  | change d =>
    cases hstep
    exact ⟨old, new, hqueue, hnew, hcount⟩
  | ask a msg env heard =>
    obtain ⟨w, -, rfl⟩ := ask_cases hstep
    refine ⟨old, new ++ answers a (heardBy rtu x.device heard w) w, ?_, fun e he r hr => ?_, hcount⟩
    · dsimp only
      rw [hqueue, List.append_assoc]
    · rcases List.mem_append.1 he with he | he
      · exact hnew e he r hr
      · rw [answers_regs he hr]
        exact hvalue
  | lose =>
    obtain ⟨e, queue, hq, rfl⟩ := lose_cases hstep
    cases old with
    | nil =>
      rw [List.nil_append, hq] at hqueue
      subst hqueue
      exact ⟨[], queue, rfl, fun e' he' => hnew e' (List.mem_cons_of_mem _ he'), hcount⟩
    | cons o old =>
      obtain ⟨-, rfl⟩ := List.cons.inj (hq.symm.trans hqueue)
      refine ⟨old, new, rfl, hnew, hcount.imp (fun hle => Nat.le_trans ?_ hle) (fun h => nomatch h.1)⟩
      exact Nat.add_le_add_left (List.Sublist.countP_le ((List.sublist_cons_self o old).filterMap _)) _
  | deliver =>
    obtain ⟨e, queue, hq, rfl⟩ := deliver_cases hstep
    have hreceive := hx.queue e (by rw [hq]; exact List.mem_cons_self) x.page
    cases old with
    | nil =>
      rw [List.nil_append, hq] at hqueue
      subst hqueue
      refine ⟨[], queue, rfl, fun e' he' => hnew e' (List.mem_cons_of_mem _ he'), ?_⟩
      dsimp only
      rw [hreceive]
      cases he : e.2 with
      | none =>
        rw [Option.toList_none, List.append_nil]
        exact hcount
      | some r =>
        rw [Option.elim_some, show_value r hkey, covering, List.countP_append, Option.toList_some,
          List.countP_singleton]
        cases hlayer : r.layer k.val with
        | none => exact hcount
        | some u =>
          rw [← hnew e List.mem_cons_self r he]
          exact Or.inr ⟨rfl, layer_regs hlayer⟩
    | cons o old =>
      obtain ⟨rfl, rfl⟩ := List.cons.inj (hq.symm.trans hqueue)
      refine ⟨old, new, rfl, hnew, hcount.imp (fun hle => Nat.le_trans (Nat.le_of_eq ?_) hle)
        (fun h => nomatch h.1)⟩
      simp only [covering, List.countP_append, List.filterMap_cons]
      cases e.2 with
      | none => rfl
      | some r =>
        rw [Option.toList_some, List.countP_singleton, List.countP_cons, Nat.add_assoc]
        exact congrArg _ (Nat.add_comm _ _)

/-- What the page has written to a register it shows, as long as nothing else
changes the register, once more readings of it have come in than were on their
way. -/
theorem written_shown {adr val : Int} {k : Fin regSize} {as bs : List Label} {x₀ v : View}
    (hr : rtu.Lawful lib) (hkeys : ∀ k ∈ page.regMap.keys, k < 65536)
    (hinit : (machine lib rtu P page).init x₀)
    (hbefore : Along (machine lib rtu P page) (Honest lib rtu P) x₀ as x)
    (hw : Written lib rtu P x adr k.val val msg env)
    (hwrite : (machine lib rtu P page).Step x (.ask (.write adr k.val val) msg env true) y)
    (hrun : Along (machine lib rtu P page)
      (fun s l s' => Honest lib rtu P s l s' ∧ Keeps k s l s') y bs v)
    (hnew : covering k.val x.log + covering k.val (x.queue.filterMap Prod.snd) <
      covering k.val v.log) :
    v.page.value k.val = ((val % 65536 : Int) : ℚ) := by
  have hx := run_followed hr hkeys hinit hbefore
  have hkey : k.val ∈ page.regMap.keys := by
    rw [← hx.regMap]
    exact hw.asked.own
  have hy := step_followed hr hkeys hx hwrite (fun _ _ _ _ he => by cases he; exact hw.asked)
  obtain ⟨w, hhandle, rfl⟩ := ask_cases hwrite
  obtain ⟨value, hvalue, hheard⟩ := hw.heard hr (hkeys _ hkey) hhandle
  have hdevice : (heardBy rtu x.device true w).regs k = val % 65536 := by
    rw [hheard, writeRegs_regs_at _ k (by omega), hvalue]
  have hreach := (Along.reachable hbefore (.init hinit)).step hwrite
  have hend := hrun.invariant hreach (I := fun s => Followed page s ∧ s.device.regs k = val % 65536 ∧
      Since k (covering k.val x.log + covering k.val (x.queue.filterMap Prod.snd)) (val % 65536) s)
    ⟨hy, hdevice, x.queue, _, rfl, fun e he r hr' => by rw [answers_regs he hr']; exact hdevice,
      Or.inl (Nat.le_refl _)⟩
    (fun s l s' _ hi hstep hcond => ?_)
  · obtain ⟨-, -, old, new, -, -, hcount⟩ := hend
    exact (hcount.resolve_left (by omega)).2
  · obtain ⟨hs, hdev, hsince⟩ := hi
    have hdev' : s'.device.regs k = val % 65536 := hcond.2.trans hdev
    exact ⟨step_followed hr hkeys hs hstep hcond.1, hdev',
      step_since (by rw [hs.regMap]; exact hkey) hs hsince hstep hdev'⟩

def writeFive : Ask := .write 1 5 700

def rewritten : Inovert := (converter.writeRegs 5 [700]).2

theorem rewritten_words (k : Fin regSize) (hle : 4 ≤ k.val) (hlt : k.val < 6) :
    SlaveFrame.IsWord (rewritten.regs k) := by
  have hfour : SlaveFrame.IsWord (rewritten.regs ⟨4, by decide⟩) := ⟨by decide +kernel, by decide +kernel⟩
  have hfive : SlaveFrame.IsWord (rewritten.regs ⟨5, by decide⟩) := ⟨by decide +kernel, by decide +kernel⟩
  obtain hk | hk : k.val = 4 ∨ k.val = 5 := by omega
  · exact (Fin.ext hk : k = ⟨4, by decide⟩) ▸ hfour
  · exact (Fin.ext hk : k = ⟨5, by decide⟩) ▸ hfive

theorem rewritten_address : rewritten.address = 1 := by decide +kernel

theorem rewritten_answers :
    (replyOf rewritten (ModbusRequest.requestFrame wordLib readPair.arg)).isSome = true := by
  decide +kernel

theorem written_five : Written wordLib hostRtu board ⟨converter, [], twoRegisters, []⟩ 1 5 700
    (asking writeFields) (replying converter writeFive) where
  asked := exchanged_replying rfl (by decide : 5 ∈ [4, 5]) ⟨by decide, by decide⟩ rfl
  address := rfl
  byte := ⟨by decide, by decide⟩
  value := by decide

theorem written_shown_five : ∃ as v,
    Along (machine wordLib hostRtu board twoRegisters) (Honest wordLib hostRtu board)
      ⟨converter, [], twoRegisters, []⟩ as v ∧ v.page.value 5 = ((700 % 65536 : Int) : ℚ) := by
  have hw := written_five
  have hkeys : ∀ k ∈ twoRegisters.regMap.keys, k < 65536 := by decide
  obtain ⟨y, hy⟩ := exists_ask twoRegisters ⟨converter, [], twoRegisters, []⟩ writeFive (asking writeFields)
    (replyOf converter (ModbusRequest.requestFrame wordLib writeFive.arg))
  obtain ⟨w, hhandle, hstate⟩ := ask_cases hy
  have hreplies := completed_replies (own_asks hw.asked.asks hw.byte) (hw.asked.sent rfl)
    (completion_completes _) rfl hhandle
  obtain ⟨value, hvalue, hheard⟩ := hw.heard hostRtu_lawful (by decide) hhandle
  obtain rfl : value = 700 := by omega
  have hone : ∃ e, answers writeFive rewritten w = [e] := ⟨_, by rw [answers, hreplies]; rfl⟩
  obtain ⟨e, he⟩ := hone
  have hstart : y = ⟨rewritten, [e], twoRegisters, []⟩ := by
    rw [hstate, ← he]
    dsimp only
    rw [hheard]
    rfl
  subst hstart
  have hdelivered : (machine wordLib hostRtu board twoRegisters).Step ⟨rewritten, [e], twoRegisters, []⟩
      .deliver ⟨rewritten, [], twoRegisters.receive e.1, e.2.toList⟩ := rfl
  have hf := fetched_pair (x := ⟨rewritten, [], twoRegisters.receive e.1, e.2.toList⟩)
    (receive_regMap _ _) rewritten_address rewritten_words rewritten_answers
  obtain ⟨u, hu⟩ := exists_ask twoRegisters ⟨rewritten, [], twoRegisters.receive e.1, e.2.toList⟩ readPair
    (asking readFields) (replyOf rewritten (ModbusRequest.requestFrame wordLib readPair.arg))
  obtain ⟨data, hqueued, -⟩ := hf.queued_reading hostRtu_lawful
    (by rw [receive_regMap]; exact hkeys) hu
  subst hqueued
  have hshown : (machine wordLib hostRtu board twoRegisters).Step
      ⟨rewritten, [(data, some ⟨⟨4, 2⟩, rewritten.regs⟩)], twoRegisters.receive e.1, e.2.toList⟩ .deliver
      ⟨rewritten, [], (twoRegisters.receive e.1).receive data,
        e.2.toList ++ [⟨⟨4, 2⟩, rewritten.regs⟩]⟩ := rfl
  have hcovers : (⟨⟨4, 2⟩, rewritten.regs⟩ : Reading).layer 5 = some ((rewritten.regs ⟨5, by decide⟩ : Int) : ℚ) :=
    layer_of_has (x := ⟨⟨4, 2⟩, rewritten.regs⟩) (by decide : 4 + 2 ≤ regSize) (by decide : 4 ≤ 5 ∧ 5 < 4 + 2)
  refine ⟨_, _, .cons hy (honest_ask hw.asked) (.cons hdelivered (honest_deliver _ _)
    (.cons hu (honest_ask hf.asked) (.cons hshown (honest_deliver _ _) .start))), ?_⟩
  refine written_shown (k := ⟨5, by decide⟩) hostRtu_lawful hkeys ⟨rfl, rfl, rfl⟩ .start hw hy
    (.cons hdelivered ⟨honest_deliver _ _, rfl⟩ (.cons hu ⟨honest_ask hf.asked, rfl⟩
      (.cons hshown ⟨honest_deliver _ _, rfl⟩ .start))) ?_
  change 0 < covering 5 (e.2.toList ++ [⟨⟨4, 2⟩, rewritten.regs⟩])
  rw [covering, List.countP_append, List.countP_singleton, hcovers]
  exact Nat.succ_pos _

end Writes

end WirelessGateway.RegisterReadings
