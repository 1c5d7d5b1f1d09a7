import WirelessGateway.ModbusTransaction

namespace WirelessGateway.ModbusReply

open CJson WirelessGateway.Types Lib.Text Modbus ModbusText ModbusTransaction

variable {lib : ModbusLib} {P : Platform} {w w' : MbTask} {msg : WebapiMsg} {env : MbEnv}

/-- The request was submitted and completed, with a reply frame of the slave
or, for none, without one. -/
def Completed (lib : ModbusLib) (P : Platform) (msg : WebapiMsg) (env : MbEnv)
    (c : Option ModbusFrame) : Prop :=
  ∃ frame awt, Asks lib P msg frame awt ∧ env.tid ≠ 0 ∧ completion P awt env = some c

/-- An answer with ERR 0 stands for a reply frame without the error flag, and
gives its address and function. -/
def Truthful (lib : ModbusLib) (P : Platform) (msg : WebapiMsg) (env : MbEnv) (w : MbTask) : Prop :=
  ∀ answer queued data a, (answer, queued) ∈ w.replies → answer.data = some data →
    readMbAnswer data = some a → a.err = 0 →
    ∃ g, Completed lib P msg env (some g) ∧ g.ucFunc &&& lib.modbusErrorFlag = 0 ∧
      ∃ cv ra rc rd, a = .response g.ucAddr.toNat g.ucFunc.toNat cv ra rc 0 rd

/-- The request completes without a frame, and the answer can be allocated. -/
def NullCompleted (lib : ModbusLib) (P : Platform) (msg : WebapiMsg) (env : MbEnv) : Prop :=
  Completed lib P msg env none ∧ env.bufAlloc = true ∧ env.msgAlloc = true

theorem mbMsg_data {id fid : UInt32} {text : List Char} {alloc : Bool} {data : Bytes}
    (h : (mbMsg id fid text alloc).data = some data) : alloc = true ∧ data = bytes text := by
  unfold mbMsg at h
  split at h
  next hc =>
    rw [Bool.and_eq_true] at hc
    exact ⟨hc.2, (Option.some.inj h).symm⟩
  next => cases h

theorem truthful_error {w : MbTask} (h : w.replies = []) (code : Nat) (hcode : code ≠ 0) :
    Truthful lib P msg env (w.sendMbError msg.id msg.fid code env) := by
  intro answer queued data a hm hdata hread herr
  rw [MbTask.sendMbError, MbTask.sendMbMsg, MbTask.queueSend, h, List.nil_append,
    List.mem_singleton, Prod.mk.injEq] at hm
  rw [hm.1] at hdata
  obtain ⟨-, rfl⟩ := mbMsg_data hdata
  rw [readMbAnswer_error, Option.some.injEq] at hread
  rw [← hread] at herr
  exact absurd herr hcode

theorem mbOnComplete_some (cb : MbCbCtx) (g : ModbusFrame) :
    (mbOnComplete cb (some g)).frame.ucAddr = g.ucAddr ∧
      (mbOnComplete cb (some g)).frame.ucFunc = g.ucFunc := by
  unfold mbOnComplete
  split
  next f hf =>
    cases hf
    split
    · split <;> exact ⟨rfl, rfl⟩
    · exact ⟨rfl, rfl⟩
  next hf => cases hf

theorem mask_of_and_zero {f m : UInt8} (h : f &&& m = 0) : f &&& ~~~m = f := by
  apply UInt8.toBitVec_inj.1
  ext i hi
  have hbit := congrArg (fun x : UInt8 => x.toBitVec[i]) h
  simp only [UInt8.toBitVec_and, UInt8.toBitVec_not, BitVec.getElem_and, BitVec.getElem_not] at hbit ⊢
  cases hf : f.toBitVec[i] <;> simp_all

theorem Completed.eq {c c' : Option ModbusFrame} (h : Completed lib P msg env c)
    (h' : Completed lib P msg env c') : c = c' := by
  obtain ⟨frame, awt, hasks, -, hc⟩ := h
  obtain ⟨frame', awt', hasks', -, hc'⟩ := h'
  obtain ⟨-, rfl⟩ := hasks.eq hasks'
  rw [hc] at hc'
  exact Option.some.inj hc'

theorem formatAndSend_replies (lib : ModbusLib) (w : MbTask) (msg : WebapiMsg) (cb : MbCbCtx)
    (hbuf : env.bufAlloc = true) :
    (w.formatAndSendMbResponse lib msg.id msg.fid cb env).replies = w.replies ++
      [(mbMsg msg.id msg.fid (responseText lib cb.frame) env.msgAlloc, env.room)] := by
  simp only [MbTask.formatAndSendMbResponse, hbuf, Bool.not_true, Bool.false_eq_true, if_false,
    MbTask.sendMbMsg, MbTask.queueSend, (formatMbResponse_holds lib cb.frame).take]

theorem mbMsg_responseText (id fid : UInt32) (f : ModbusFrame) :
    (mbMsg id fid (responseText lib f) true).data = some (bytes (responseText lib f)) := by
  have hpos : (responseText lib f).length > 0 := by
    simp only [responseText, List.length_append, List.length_cons]
    omega
  rw [mbMsg, if_pos (by simpa using hpos)]

theorem isErr_zero {f : ModbusFrame} (hflag : lib.isErrorFrame f =
    (f.ucFunc &&& lib.modbusErrorFlag != 0)) (h : (lib.isErrorFrame f).toNat = 0) :
    f.ucFunc &&& lib.modbusErrorFlag = 0 := by
  cases hf : lib.isErrorFrame f with
  | true => simp [hf] at h
  | false => simpa [hf] using hflag

theorem not_truthful_null
    (hflag : ∀ f, lib.isErrorFrame f = (f.ucFunc &&& lib.modbusErrorFlag != 0))
    (hnull : NullCompleted lib P msg env)
    (hreplies : w.replies = [(mbMsg msg.id msg.fid
      (responseText lib (mbOnComplete .zero none).frame) env.msgAlloc, env.room)]) :
    ¬ Truthful lib P msg env w := by
  obtain ⟨hcomp, -, hmsg⟩ := hnull
  intro htruth
  rw [hmsg] at hreplies
  have herr : lib.isErrorFrame (mbOnComplete .zero none).frame = false := by
    rw [hflag]
    simp [mbOnComplete, ModbusFrame.zero]
  obtain ⟨g, hg, -⟩ := htruth _ env.room _ _ (by rw [hreplies]; exact List.mem_singleton_self _)
    (mbMsg_responseText _ _ _) (readMbAnswer_response _ _) (by simp [MbAnswer.err, herr])
  cases hcomp.eq hg

theorem truthful_frame
    (hflag : ∀ f, lib.isErrorFrame f = (f.ucFunc &&& lib.modbusErrorFlag != 0)) {g : ModbusFrame}
    (hcomp : Completed lib P msg env (some g))
    (hreplies : w.replies = [(mbMsg msg.id msg.fid
      (responseText lib (mbOnComplete .zero (some g)).frame) env.msgAlloc, env.room)]) :
    Truthful lib P msg env w := by
  intro answer queued data a hm hdata hread herr
  rw [hreplies, List.mem_singleton, Prod.mk.injEq] at hm
  rw [hm.1] at hdata
  obtain ⟨-, rfl⟩ := mbMsg_data hdata
  rw [readMbAnswer_response, Option.some.injEq] at hread
  obtain ⟨haddr, hfunc⟩ := mbOnComplete_some .zero g
  rw [← hread] at herr
  have hzero := isErr_zero (hflag _) herr
  have herr' : (lib.isErrorFrame (mbOnComplete .zero (some g)).frame).toNat = 0 := herr
  rw [hfunc] at hzero
  rw [haddr, hfunc, mask_of_and_zero hzero, herr'] at hread
  exact ⟨g, hcomp, hzero, _, _, _, _, hread.symm⟩

theorem truthful_dataless (h : ∀ answer queued, (answer, queued) ∈ w.replies → answer.data = none) :
    Truthful lib P msg env w := by
  intro answer queued data a hm hdata
  rw [h answer queued hm] at hdata
  cases hdata

/-- For every message, ERR 0 stands for a reply of the slave exactly when the
request is not completed without a frame. -/
theorem modbus_success_iff
    (hflag : ∀ f, lib.isErrorFrame f = (f.ucFunc &&& lib.modbusErrorFlag != 0))
    (h : handleModbusMsg lib P ⟨false, [], []⟩ msg env = some w') :
    Truthful lib P msg env w' ↔ ¬ NullCompleted lib P msg env := by
  rcases handle_cases lib P ⟨false, [], []⟩ msg env with ⟨hnot, he⟩ | ⟨frame, awt, hasks, he⟩
  · rw [he, Option.some.injEq] at h
    rw [← h]
    refine iff_of_true (truthful_error rfl 2 (by omega)) ?_
    rintro ⟨⟨frame, awt, hasks, -⟩, -⟩
    exact hnot frame awt hasks
  rw [he] at h
  rcases transact_spec h with ⟨htid, rfl⟩ | ⟨htid, hc, n, rfl⟩ | ⟨htid, c, hc, n, rfl⟩
  · refine iff_of_true (truthful_error rfl 3 (by omega)) ?_
    rintro ⟨⟨_, _, _, htid', -⟩, -⟩
    exact htid' htid
  · refine iff_of_true (truthful_error rfl 4 (by omega)) ?_
    rintro ⟨⟨frame', awt', hasks', -, hc'⟩, -⟩
    obtain ⟨-, rfl⟩ := hasks.eq hasks'
    rw [hc] at hc'
    cases hc'
  have hcomp : Completed lib P msg env c := ⟨frame, awt, hasks, htid, hc⟩
  cases hbuf : env.bufAlloc with
  | false =>
      rw [MbTask.formatAndSendMbResponse, if_pos (by simp [hbuf])]
      refine iff_of_true (truthful_error rfl 1 (by omega)) ?_
      rintro ⟨-, hbuf', -⟩
      rw [hbuf] at hbuf'
      cases hbuf'
  | true =>
      have hreplies := formatAndSend_replies lib
        (worked (opened ⟨false, [], []⟩ frame awt) n).gwUartUnlockRx msg (mbOnComplete .zero c) hbuf
      cases c with
      | some g =>
          refine iff_of_true (truthful_frame hflag hcomp hreplies) ?_
          rintro ⟨hnull, -⟩
          cases hcomp.eq hnull
      | none =>
          cases hmsg : env.msgAlloc with
          | true =>
              have hnull : NullCompleted lib P msg env := ⟨hcomp, hbuf, hmsg⟩
              exact iff_of_false (not_truthful_null hflag hnull hreplies) (not_not_intro hnull)
          | false =>
              refine iff_of_true (truthful_dataless fun answer queued hm => ?_) ?_
              · rw [hreplies, List.mem_append, List.mem_singleton, Prod.mk.injEq] at hm
                rcases hm with hm | ⟨rfl, -⟩
                · cases hm
                · simp [mbMsg, hmsg]
              · rintro ⟨-, -, hmsg'⟩
                rw [hmsg] at hmsg'
                cases hmsg'

def answered : MbEnv := completes (some ⟨1, 3, 0, 1, 2, 2, some [2, 1]⟩)

theorem readOne_asks : Asks wordLib (reads [readOne]) (asking readOne) ⟨1, 3, 0, 1, 0, 0, none⟩ 500 :=
  ⟨argJson readOne, rfl, rfl⟩

theorem readOne_completed (c : Option ModbusFrame) :
    Completed wordLib (reads [readOne]) (asking readOne) (completes c) c := by
  have h1 : beforeDeadline 1000 1 = true := by decide
  have h2 : beforeDeadline 1000 2 = true := by decide
  have h3 : beforeDeadline 1000 3 = true := by decide
  refine ⟨_, _, readOne_asks, by simp [completes], ?_⟩
  simp [completion, deadline, completes, reads, reported, h1, h2, h3]

def readsAs (a : MbAnswer) (w : MbTask) : Bool :=
  match w.replies with
  | [(answer, true)] => answer.data.any (fun data => readMbAnswer data == some a)
  | _ => false

theorem exists_of_readsAs {a : MbAnswer} {r : Option MbTask} (h : r.any (readsAs a) = true) :
    ∃ w answer data, r = some w ∧ w.replies = [(answer, true)] ∧ answer.data = some data ∧
      readMbAnswer data = some a := by
  obtain ⟨w, hw, hreads⟩ := (Option.any_eq_true _ _).1 h
  unfold readsAs at hreads
  split at hreads
  next answer hreplies =>
    obtain ⟨data, hdata, ha⟩ := (Option.any_eq_true _ _).1 hreads
    exact ⟨w, answer, data, hw, hreplies, hdata, by simpa using ha⟩
  next => cases hreads

theorem modbus_success_reply : ∃ w answer data,
    handleModbusMsg wordLib (reads [readOne]) ⟨false, [], []⟩ (asking readOne) answered = some w ∧
      w.replies = [(answer, true)] ∧ answer.data = some data ∧
      readMbAnswer data = some (.response 1 3 0 0 1 0 [258]) ∧
      Truthful wordLib (reads [readOne]) (asking readOne) answered w := by
  have h : (handleModbusMsg wordLib (reads [readOne]) ⟨false, [], []⟩ (asking readOne) answered).any
      (readsAs (.response 1 3 0 0 1 0 [258])) = true := by decide +kernel
  obtain ⟨w, answer, data, hw, hreplies, hdata, hread⟩ := exists_of_readsAs h
  refine ⟨w, answer, data, hw, hreplies, hdata, hread,
    (modbus_success_iff (fun _ => rfl) hw).2 (fun hnull => ?_)⟩
  cases (readOne_completed _).eq hnull.1

/-- The library completes the request without a frame, and the answer reads as
an empty reply of device 0. -/
theorem modbus_success_null : ∃ w answer data,
    handleModbusMsg wordLib (reads [readOne]) ⟨false, [], []⟩ (asking readOne) (completes none) =
      some w ∧ w.replies = [(answer, true)] ∧ answer.data = some data ∧
      readMbAnswer data = some (.response 0 0 0 0 0 0 []) ∧
      ¬ Truthful wordLib (reads [readOne]) (asking readOne) (completes none) w := by
  have h : (handleModbusMsg wordLib (reads [readOne]) ⟨false, [], []⟩ (asking readOne)
      (completes none)).any (readsAs (.response 0 0 0 0 0 0 [])) = true := by decide +kernel
  obtain ⟨w, answer, data, hw, hreplies, hdata, hread⟩ := exists_of_readsAs h
  refine ⟨w, answer, data, hw, hreplies, hdata, hread, fun htruth => ?_⟩
  obtain ⟨g, hg, -⟩ := htruth answer true data _ (by simp [hreplies]) hdata hread rfl
  cases (readOne_completed none).eq hg

end WirelessGateway.ModbusReply
