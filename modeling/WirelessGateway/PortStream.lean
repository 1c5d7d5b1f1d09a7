import WirelessGateway.ForwardWrites
import WirelessGateway.OneShots
import WirelessGateway.RawTransmit

namespace WirelessGateway.PortStream

open CJson WirelessGateway.Types Memory WsServer Transport Worker Tasks Sends WellFormed SoftSteps
open Lifecycle Steps Forwarding ForwardPass Answering Outcomes Provenance Accepted OneShots Uart
open Modbus RawTransmit ModbusTransaction Gateway ForwardWrites Lib.Fallible Lib.History Lib.Runs

variable {B : Base64} {lib : ModbusLib} {P : Platform} {s t : Server} {q : QueueId}

section Queues

variable {p : CallPtr} {c : ApiCall} {env : WorkerEnv} {x y : System}

def pushKey (q : QueueId) : Event → Option Request
  | .forward p q' m => if q' = q then some ⟨m, p⟩ else none
  | _ => none

def pushes (s : Server) (q : QueueId) : List Request := s.trace.filterMap (pushKey q)

def Appends (q : QueueId) (s t : Server) : Prop :=
  ∃ new, pushes t q = pushes s q ++ new ∧ (t.periph q).queue = (s.periph q).queue ++ new

theorem Appends.refl (s : Server) : Appends q s s :=
  ⟨[], (List.append_nil _).symm, (List.append_nil _).symm⟩

theorem Appends.trans {u : Server} (h : Appends q s t) (h' : Appends q t u) : Appends q s u := by
  obtain ⟨new, hp, hq⟩ := h
  obtain ⟨new', hp', hq'⟩ := h'
  refine ⟨new ++ new', ?_, ?_⟩
  · rw [hp', hp, List.append_assoc]
  · rw [hq', hq, List.append_assoc]

theorem Appends.aside {evs : List Event} (ht : t.trace = s.trace ++ evs)
    (hevs : ∀ e ∈ evs, pushKey q e = none) (hp : t.periph = s.periph) : Appends q s t := by
  refine ⟨[], ?_, ?_⟩
  · rw [pushes, ht, List.filterMap_append, List.filterMap_eq_nil_iff.2 hevs]
    rfl
  · rw [hp, List.append_nil]

theorem passing_appends (h : Passing s t) : Appends q s t := by
  obtain ⟨evs, htrace, hevs⟩ := h.trace
  refine .aside htrace (fun e he => ?_) h.messages.periph
  cases e with
  | forward => cases hevs _ he
  | _ => rfl

theorem pushed_appends (s : Server) (q' : QueueId) (r : Request) : Appends q s (pushed s q' r) := by
  have htrace : (pushed s q' r).trace = s.trace ++ [.forward r.call q' r.msg] := rfl
  by_cases hq : q' = q
  · subst hq
    refine ⟨[r], ?_, ?_⟩
    · rw [pushes, htrace, List.filterMap_append, List.filterMap_cons, pushKey, if_pos rfl]
      rfl
    · change (Function.update s.periph q' _ q').queue = _
      rw [Function.update_self]
  · refine ⟨[], ?_, ?_⟩
    · rw [pushes, htrace, List.filterMap_append, List.filterMap_cons, pushKey, if_neg hq]
      rfl
    · exact (congrArg Periph.queue (Function.update_of_ne (Ne.symm hq) _ _)).trans (List.append_nil _).symm

theorem passed_appends (s : Server) (p : CallPtr) (c : ApiCall) (env : WorkerEnv) :
    Appends q s (passed s p c env) := by
  rcases passed_cases s p c env with h | ⟨q', r, h⟩
  · exact passing_appends h
  · exact (pushed_appends s q' r).trans (passing_appends h)

theorem answered_appends (s : Server) (p : CallPtr) (c : ApiCall) (r : Reply) (env : SendEnv) :
    Appends q s (answered s p c r env) := by
  refine .aside (answered_trace s p c r env) (fun e he => ?_) (answered_messages s p c r env).periph
  rcases List.mem_append.1 he with he | he
  · obtain ⟨d, x, -, rfl⟩ := mem_replyFrames he
    rfl
  · rcases List.mem_cons.1 he with rfl | he
    · rfl
    · split at he
      · cases he
      · rw [List.mem_singleton.1 he]
        rfl

theorem server_appends (hr : Reachable (Tasks.machine P) x) {b : Label} (hb : isServer b = true)
    (h : (Tasks.machine P).Step x b y) (q : QueueId) : Appends q x.srv y.srv := by
  rcases worker_or_other b with ⟨env, rfl⟩ | hne
  · have hout := (worker_outcome hr h).1
    generalize y.srv = t at hout ⊢
    generalize y.worker = pc at hout
    cases hout with
    | turned => exact .refl _
    | swept => exact passing_appends (removed_passing _ _)
    | kept _ _ _ hsoft => exact passing_appends (.soft hsoft)
    | passed => exact passed_appends _ _ _ _
    | received => exact .aside (List.append_nil _).symm (fun e he => nomatch he) rfl
    | @unanswered r =>
      exact .aside rfl (fun e he => by rw [List.mem_singleton.1 he]; rfl) rfl
    | @answered r p c s m _ _ _ hsoft =>
      refine ((passing_appends (.soft hsoft)).trans
        (answered_appends (s.withNet m) p c r env.reply)).trans ?_
      exact .aside rfl (fun e he => by rw [List.mem_singleton.1 he]; rfl) rfl
    | @broadcast r p next c s m _ _ hsoft =>
      exact (passing_appends (.soft hsoft)).trans (answered_appends (s.withNet m) p c r env.reply)
  · exact passing_appends (server_passing hr hb hne h)

end Queues

section Writes

variable {i j : Fin 2} {m : WebapiMsg} {app : UartApp} {env : UartEnv}

def rawTxBytes (B : Base64) (m : WebapiMsg) : Option Bytes :=
  m.data.bind (fun data =>
    let b64 := (data.drop 1).take (m.len - 2)
    let buf := B.decode b64
    if m.len > 2 ∧ B.decodeBufferRequired b64 > 0 ∧ buf.length > 0 then
      some (buf.take (buf.length % 65536))
    else none)

def portBytes (B : Base64) (i : Fin 2) (m : WebapiMsg) : Option Bytes :=
  if m.fid = rawTxFid i then rawTxBytes B m else none

theorem rawTxFid_inj (h : rawTxFid i = rawTxFid j) : i = j := by
  revert i j
  decide

theorem setPort_port (uart : GwUart) : (app.setPort j uart).port i = if i = j then uart else app.port i :=
  Function.update_apply ..

theorem setPort_written {uart : GwUart} (h : uart.written = (app.port j).written) :
    ((app.setPort j uart).port i).written = (app.port i).written := by
  rw [setPort_port]
  split
  · next hij =>
    rw [h, hij]
  · rfl

theorem uartConfig_written (uart : GwUart) (cfg : ApiCmdUart) (paramConfig : Bool) :
    (uartConfig uart cfg paramConfig).1.written = uart.written := by
  rw [uartConfig, gwUartSet]
  dsimp only
  split <;> rfl

theorem handleCnf_written : ((handleCnf P app j m env).1.port i).written = (app.port i).written := by
  rw [handleCnf]
  split
  · rfl
  · split
    · rfl
    · dsimp only
      split <;> exact setPort_written (uartConfig_written ..)

theorem handleRawRx_written : ((handleRawRx B P app j m env).1.port i).written = (app.port i).written := by
  rw [handleRawRx]
  dsimp only
  split
  · split <;> rfl
  · rfl

theorem handleEcho_written : ((handleEcho P app j m env).1.port i).written = (app.port i).written := by
  rw [handleEcho]
  dsimp only
  split <;>
  · apply setPort_written
    split <;> rfl

theorem handleRawTx_written : ((handleRawTx B P app j m env).1.port i).written =
    (app.port i).written ++ if i = j then (rawTxBytes B m).toList else [] := by
  rw [handleRawTx, rawTxBytes]
  cases m.data with
  | none => simp
  | some data =>
    rw [Option.bind_some]
    dsimp only
    generalize (data.drop 1).take (m.len - 2) = b64
    by_cases hsend : m.len > 2 ∧ B.decodeBufferRequired b64 > 0 ∧ (B.decode b64).length > 0
    · obtain ⟨hlen, hreq, hpos⟩ := id hsend
      have hsent : (B.decodeBufferRequired b64 > 0 && (B.decode b64).length > 0) = true := by
        simp [hreq, hpos]
      have hwritten : ((app.setPort j (gwUartWrite (app.port j) (B.decode b64)
          (B.decode b64).length)).port i).written = (app.port i).written ++
            if i = j then [(B.decode b64).take ((B.decode b64).length % 65536)] else [] := by
        rw [setPort_port]
        split
        · next hij =>
          rw [hij]
          rfl
        · exact (List.append_nil _).symm
      rw [if_pos hsend, if_pos hlen, if_pos hsent]
      cases env.jsonAlloc <;> exact hwritten
    · rw [if_neg hsend, Option.toList_none, ite_self, List.append_nil]
      split_ifs with hlen hbuf
      · exact absurd ⟨hlen, by simpa using hbuf⟩ hsend
      · exact absurd ⟨hlen, by simpa using hbuf⟩ hsend
      · rfl
      · rfl

theorem handleMsg_written : ((handleMsg B P app m env).1.port i).written =
    (app.port i).written ++ (portBytes B i m).toList := by
  by_cases htx : ∃ j, m.fid = rawTxFid j
  · obtain ⟨j, hj⟩ := htx
    rw [handleMsg_rawTx hj, handleRawTx_written, portBytes, hj]
    by_cases hij : i = j
    · rw [if_pos hij, if_pos (by rw [hij])]
    · rw [if_neg hij, if_neg (fun h => hij (rawTxFid_inj h).symm)]
      rfl
  · have hnot : ∀ j, m.fid ≠ rawTxFid j := fun j hj => htx ⟨j, hj⟩
    rw [portBytes, if_neg (hnot i), Option.toList_none, List.append_nil, handleMsg]
    split_ifs with h1 h2 h3 h4 h5 h6
    · exact handleCnf_written
    · exact handleCnf_written
    · exact handleRawRx_written
    · exact handleRawRx_written
    · exact absurd h5 (hnot 0)
    · exact absurd h6 (hnot 1)
    · exact handleEcho_written
    · exact handleEcho_written
    · rfl

end Writes

section Streams

variable {g h : Device} {a : GatewayLabel} {done : List Request} {w₀ : Fin 2 → List Bytes}

/-- The requests that the UART task has yet to handle. -/
def inFlight (g : Device) : List Request :=
  (if g.sending.isNone then (g.sys.srv.periph cmdQueue).busy.toList else []) ++
    (g.sys.srv.periph cmdQueue).queue

theorem setPeriph_self (s : Server) (q : QueueId) (d : Periph) : (s.setPeriph q d).periph q = d :=
  Function.update_self ..

theorem setPeriph_ne {q' : QueueId} (hq : q ≠ q') (s : Server) (d : Periph) :
    (s.setPeriph q' d).periph q = s.periph q := Function.update_of_ne hq ..

theorem inFlight_congr (hsend : h.sending = g.sending)
    (hperiph : h.sys.srv.periph cmdQueue = g.sys.srv.periph cmdQueue) : inFlight h = inFlight g := by
  rw [inFlight, inFlight, hsend, hperiph]

theorem sent_periph {x y : System} {msg : WebapiMsg} {r : Request} (hr : (x.srv.periph q).busy = some r)
    (hfits : Fits r.msg msg) (h : (Tasks.machine P).Step x (sendLabel q r (some msg)) y) :
    y.srv.trace = x.srv.trace ∧ (y.srv.periph q).queue = (x.srv.periph q).queue ∧
      (y.srv.periph q).busy = none ∧ ∀ q', q' ≠ q → y.srv.periph q' = x.srv.periph q' := by
  obtain ⟨-, hout⟩ := send_step hr hfits h
  have hpost : ∀ id published data, (posted x.srv q r id published data).periph q =
      { x.srv.periph q with busy := none } := fun _ _ _ => Function.update_self ..
  split at hout
  · rw [hout.2, hpost]
    exact ⟨rfl, rfl, rfl, fun q' hq => Function.update_of_ne hq ..⟩
  · rw [hout, dropRequest, setPeriph_self]
    exact ⟨rfl, rfl, rfl, fun q' hq => setPeriph_ne hq ..⟩

/-- Every request that the worker has put on the UART task's queue has been
handled or is still to be, in the order in which they came. -/
structure Streamed (B : Base64) (w₀ : Fin 2 → List Bytes) (g : Device) (done : List Request) : Prop where
  handed : pushes g.sys.srv cmdQueue = done ++ inFlight g
  written : ∀ i, (g.app.port i).written = w₀ i ++ done.filterMap (fun r => portBytes B i r.msg)

theorem Streamed.keep (hs : Streamed B w₀ g done) (htrace : h.sys.srv.trace = g.sys.srv.trace)
    (hflight : inFlight h = inFlight g) (hport : h.app.port = g.app.port) : Streamed B w₀ h done := by
  refine ⟨?_, fun i => ?_⟩
  · rw [pushes, htrace, hflight]
    exact hs.handed
  · rw [hport]
    exact hs.written i

theorem Streamed.handle {r : Request} {env : UartEnv} {out : Option WebapiMsg} (hs : Streamed B w₀ g done)
    (htrace : h.sys.srv.trace = g.sys.srv.trace) (hflight : inFlight g = r :: inFlight h)
    (hmsg : handleMsg B P g.app r.msg env = (h.app, out)) : Streamed B w₀ h (done ++ [r]) := by
  refine ⟨?_, fun i => ?_⟩
  · rw [pushes, htrace, List.append_assoc, List.singleton_append, ← hflight]
    exact hs.handed
  · have hwritten := @handleMsg_written B P i r.msg g.app env
    rw [hmsg] at hwritten
    rw [hwritten, hs.written i, List.filterMap_append, List.append_assoc]
    congr 2

theorem step_streamed (hg : Reachable (machine B lib P) g) (hs : Streamed B w₀ g done)
    (hstep : (machine B lib P).Step g a h) : ∃ done', Streamed B w₀ h done' := by
  have hr := reachable_sys hg
  cases step_move hstep with
  | server hb hsys he =>
    obtain ⟨new, hpush, hqueue⟩ := server_appends hr hb hsys cmdQueue
    have hbusy := server_busy hr hb hsys cmdQueue
    refine ⟨done, ?_, fun i => ?_⟩
    · have hsend : h.sending = g.sending := by rw [he]
      rw [hpush, hs.handed, inFlight, inFlight, hsend, hbusy, hqueue, List.append_assoc, List.append_assoc]
    · rw [he]
      exact hs.written i
  | uartTake hsys he =>
    obtain ⟨r, rs, hidle, hqueue, hlift⟩ := periphTake_cases (P := P) hsys
    obtain ⟨-, u, hu, hy⟩ := lift_ok hlift
    cases hu
    have hnone : g.sending = none := by
      cases hmsg : g.sending with
      | none => rfl
      | some msg =>
        obtain ⟨_, hbusy, -⟩ := reachable_prepared hg msg hmsg
        rw [hidle] at hbusy
        cases hbusy
    refine ⟨done, hs.keep (by rw [hy]; rfl) ?_ (by rw [he])⟩
    have hsend : h.sending = none := by rw [he, hnone]
    rw [inFlight, inFlight, hnone, hsend, hidle, hqueue, hy, setPeriph_self]
    rfl
  | @handled env r app msg hr' hnone hmsg he =>
    refine ⟨done ++ [r], hs.handle (P := P) (by rw [he]) ?_ (by rw [he]; exact hmsg)⟩
    rw [inFlight, inFlight, hnone, hr', he]
    rfl
  | @dropped env r app hr' hnone hmsg hsys he =>
    have hdrop : h.sys.srv = dropRequest g.sys.srv cmdQueue r := by
      have hlift : Tasks.step P g.sys (.periphDrop cmdQueue) = some (.ok h.sys) := hsys
      simp only [Tasks.step, hr'] at hlift
      obtain ⟨-, u, hu, hy⟩ := lift_ok hlift
      cases hu
      rw [hy]
    refine ⟨done ++ [r], hs.handle (P := P) (by rw [hdrop]; rfl) ?_ (by rw [he]; exact hmsg)⟩
    have hsend : h.sending = none := by rw [he, hnone]
    rw [inFlight, inFlight, hnone, hsend, hr', hdrop, dropRequest, setPeriph_self]
    rfl
  | @sent r msg hr' hmsg hsys he =>
    obtain ⟨r', hbusy, hfits⟩ := reachable_prepared hg msg hmsg
    obtain rfl : r' = r := by rwa [hr', Option.some.injEq, eq_comm] at hbusy
    obtain ⟨htrace, hqueue, hidle, -⟩ := sent_periph hr' hfits hsys
    refine ⟨done, hs.keep htrace ?_ (by rw [he])⟩
    have hsend : h.sending = none := by rw [he]
    rw [inFlight, inFlight, hmsg, hsend, hqueue, hidle]
    rfl
  | received he => exact ⟨done, hs.keep (by rw [he]) (by rw [he]; rfl) (by rw [he]; rfl)⟩
  | @mbTake i hsys he =>
    obtain ⟨r, rs, -, -, hlift⟩ := periphTake_cases (P := P) hsys
    obtain ⟨-, u, hu, hy⟩ := lift_ok hlift
    cases hu
    refine ⟨done, hs.keep (by rw [hy]; rfl) (inFlight_congr (by rw [he]) ?_) (by rw [he])⟩
    rw [hy]
    exact setPeriph_ne (mbQueue_ne i) ..
  | @mbHandled i env r w hr' hw hsys he =>
    obtain ⟨msg, hmsg, hfits⟩ := handleModbusMsg_fits hw
    rw [hmsg] at hsys
    obtain ⟨htrace, -, -, hothers⟩ := sent_periph hr' hfits hsys
    exact ⟨done, hs.keep htrace (inFlight_congr (by rw [he]) (hothers _ (mbQueue_ne i))) (by rw [he])⟩

theorem run_streamed {g₀ : Device} {as : List GatewayLabel} (hinit : (machine B lib P).init g₀)
    (hrun : Run (machine B lib P) g₀ as g) :
    ∃ done, Streamed B (fun i => (g₀.app.port i).written) g done := by
  refine hrun.invariant (I := fun g => ∃ done, Streamed B (fun i => (g₀.app.port i).written) g done)
    (.init hinit) ?_ ?_
  · refine ⟨[], ?_, fun i => (List.append_nil _).symm⟩
    rw [inFlight, hinit.1, hinit.2.1]
    rfl
  · rintro g a h hr ⟨done, hs⟩ hstep -
    exact step_streamed hr hs hstep

end Streams

section Frames

variable {fid : UInt32} {json : Json} {m : WebapiMsg} {x : System}

def frameKey (fid : UInt32) : Event → Option (CallPtr × Json)
  | .accept p _ json c => if c.ulFid = fid then some (p, json) else none
  | _ => none

def acceptedFrames (s : Server) (fid : UInt32) : List (CallPtr × Json) := s.trace.filterMap (frameKey fid)

def AllOnce (s : Server) (fid : UInt32) : Prop :=
  ∀ p n json c, .accept p n json c ∈ s.trace → c.ulFid = fid → c.longTerm = false

/-- The ARG of every frame for the FID could be printed. -/
def AllPrinted (P : Platform) (s : Server) (fid : UInt32) : Prop :=
  ∀ p n json c, .accept p n json c ∈ s.trace → c.ulFid = fid → c.pucReqData = frameArg P true json

/-- What a frame asks a port to write: the bytes that its ARG decodes to, as far
as a 16-bit length goes. -/
def frameBytes (B : Base64) (P : Platform) (json : Json) : Option Bytes :=
  let bs := B.decode (inner (argText P json))
  if bs = [] then none else some (bs.take (bs.length % 65536))

theorem printed_bytes (hB : Standard B) (hdata : m.data = frameArg P true json)
    (hlen : m.len = (m.data.map List.length).getD 0) : rawTxBytes B m = frameBytes B P json := by
  have harg : m.data = (frameArgItem json).map P.print := by
    rw [hdata, frameArg, show json.getObjectItem ['A', 'R', 'G'] = frameArgItem json from rfl]
    cases frameArgItem json <;> rfl
  rw [rawTxBytes, frameBytes, RawTransmit.argText, ← harg]
  cases htext : m.data with
  | none =>
    have hinner : B.decode (inner []) = [] := hB.decode_nil
    rw [Option.bind_none, Option.getD_none, if_pos hinner]
  | some text =>
    have hlength : m.len = text.length := by
      rw [hlen, htext]
      rfl
    rw [Option.bind_some, hlength, Option.getD_some]
    dsimp only
    rw [show (text.drop 1).take (text.length - 2) = inner text from rfl]
    by_cases hnil : B.decode (inner text) = []
    · have hnot : ¬ (text.length > 2 ∧ B.decodeBufferRequired (inner text) > 0 ∧
          (B.decode (inner text)).length > 0) := by
        rintro ⟨-, -, hpos⟩
        exact absurd (List.length_pos_iff.1 hpos) (not_not.2 hnil)
      rw [if_pos hnil, if_neg hnot]
    · have hlong : text.length > 2 := by
        by_contra hshort
        have hinner : RawTransmit.inner text = [] := by
          rw [RawTransmit.inner, show text.length - 2 = 0 by omega, List.take_zero]
        exact hnil (by rw [hinner, hB.decode_nil])
      rw [if_neg hnil, if_pos ⟨hlong, hB.required _ hnil, List.length_pos_iff.2 hnil⟩]

theorem request_bytes (hB : Standard B) {printed : Bool} (h : RequestFor P printed json m) :
    rawTxBytes B m = none ∨ rawTxBytes B m = frameBytes B P json := by
  cases printed with
  | true => exact Or.inr (printed_bytes hB h.data h.len)
  | false =>
    have hnone : m.data = none := by
      rw [h.data, frameArg]
      cases json.getObjectItem ['A', 'R', 'G'] <;> rfl
    rw [rawTxBytes, hnone]
    exact Or.inl rfl

theorem reachable_forwarded (h : Reachable (Tasks.machine P) x) : ∀ p q m,
    .forward p q m ∈ x.srv.trace → ∃ n json c, .accept p n json c ∈ x.srv.trace ∧ c.ulFid = m.fid := by
  refine (reachable_acts (I := fun s => Accepts P s ∧ ∀ p q m, .forward p q m ∈ s.trace →
    ∃ n json c, .accept p n json c ∈ s.trace ∧ c.ulFid = m.fid) (fun depth => ⟨init_accepts P depth, ?_⟩) ?_ h).2
  · intro p q m hf
    cases hf
  · rintro s t - hact ⟨ha, hi⟩
    refine ⟨act_accepted hact ha, fun p q m hf => ?_⟩
    obtain ⟨l, ht, hl⟩ := act_trace hact
    rw [ht, List.mem_append] at hf
    rcases hf with hf | hf
    · obtain ⟨n, json, c, hacc, hfid⟩ := hi p q m hf
      exact ⟨n, json, c, ht ▸ List.mem_append_left l hacc, hfid⟩
    · obtain ⟨d, -, hd, rfl, -⟩ := hl _ hf
      obtain ⟨n, json, c, hacc, hev⟩ := ha.born p d hd
      exact ⟨n, json, c, ht ▸ List.mem_append_left l hacc, hev.fid.symm⟩

def frameCalls (s : Server) (fid : UInt32) : List CallPtr := (acceptedFrames s fid).map Prod.fst

theorem mem_frameCalls {p : CallPtr} : p ∈ frameCalls s fid ↔
    ∃ n json c, .accept p n json c ∈ s.trace ∧ c.ulFid = fid := by
  constructor
  · intro hp
    obtain ⟨⟨_, json⟩, hf, rfl⟩ := List.mem_map.1 hp
    obtain ⟨e, he, hk⟩ := List.mem_filterMap.1 hf
    cases e with
    | accept p n json c =>
      simp only [frameKey, Option.ite_none_right_eq_some, Option.some.injEq, Prod.mk.injEq] at hk
      obtain ⟨hfid, rfl, rfl⟩ := hk
      exact ⟨n, json, c, he, hfid⟩
    | _ => cases hk
  · rintro ⟨n, json, c, he, hfid⟩
    exact List.mem_map.2 ⟨(p, json), List.mem_filterMap.2 ⟨_, he, if_pos hfid⟩, rfl⟩

theorem allOnce_marks (ha : Accepts P s) (honce : AllOnce s fid) :
    Marks (fun p => decide (p ∈ frameCalls s fid)) s := by
  intro p n json c hacc hp
  obtain ⟨n', json', c', hacc', hfid⟩ := mem_frameCalls.1 (of_decide_eq_true hp)
  have hsame := ha.increasing.eq hacc hacc' rfl rfl
  cases hsame
  exact honce p n json c hacc hfid

def frameRequests (s : Server) (q : QueueId) (fid : UInt32) : List Request :=
  (pushes s q).filter (fun r => r.msg.fid == fid)

theorem mem_frameRequests {r : Request} (hr : r ∈ frameRequests s q fid) :
    .forward r.call q r.msg ∈ s.trace ∧ r.msg.fid = fid := by
  obtain ⟨hpush, hfid⟩ := List.mem_filter.1 hr
  obtain ⟨e, he, hk⟩ := List.mem_filterMap.1 hpush
  cases e with
  | forward p q' m =>
    simp only [pushKey, Option.ite_none_right_eq_some, Option.some.injEq] at hk
    obtain ⟨rfl, rfl⟩ := hk
    exact ⟨he, eq_of_beq hfid⟩
  | _ => cases hk

def requestKey (q : QueueId) (fid : UInt32) (O : CallPtr → Bool) : Event → Option CallPtr
  | .forward p q' m => if q' = q ∧ m.fid = fid ∧ O p = true then some p else none
  | _ => none

theorem frameRequests_calls (h : Reachable (Tasks.machine P) x) (q : QueueId) (fid : UInt32) :
    (frameRequests x.srv q fid).map Request.call =
      x.srv.trace.filterMap (requestKey q fid (fun p => decide (p ∈ frameCalls x.srv fid))) := by
  rw [frameRequests, pushes, List.filter_filterMap, List.map_filterMap]
  refine List.filterMap_congr (fun e he => ?_)
  cases e with
  | forward p q' m =>
    rw [pushKey, requestKey]
    by_cases hq : q' = q
    · by_cases hfid : m.fid = fid
      · obtain ⟨n, json, c, hacc, hc⟩ := reachable_forwarded h p q' m he
        have hmem : p ∈ frameCalls x.srv fid := mem_frameCalls.2 ⟨n, json, c, hacc, hc.trans hfid⟩
        rw [if_pos hq, if_pos ⟨hq, hfid, decide_eq_true hmem⟩]
        simp [hfid]
      · rw [if_pos hq, if_neg (fun hand => hfid hand.2.1)]
        simp [hfid]
    · rw [if_neg hq, if_neg (fun hand => hq hand.1)]
      rfl
  | _ => rfl

theorem requests_sublist (h : Reachable (Tasks.machine P) x) (honce : AllOnce x.srv fid) (q : QueueId) :
    ((frameRequests x.srv q fid).map Request.call).Sublist (frameCalls x.srv fid) := by
  have ha := reachable_accepts h
  have hframes : frameCalls x.srv fid =
      x.srv.trace.filterMap (fun e => (frameKey fid e).map Prod.fst) := List.map_filterMap
  have hinc : Increasing (requestKey q fid (fun p => decide (p ∈ frameCalls x.srv fid))) x.srv.trace := by
    refine (reachable_inOrder h (allOnce_marks ha honce)).1.increasing.restrict (fun e k hk => ?_)
    cases e with
    | forward p q' m =>
      simp only [requestKey, Option.ite_none_right_eq_some] at hk
      obtain ⟨⟨-, -, ho⟩, hp⟩ := hk
      rw [forwardKey, if_pos ho, hp]
    | _ => cases hk
  have hinc' : Increasing (fun e => (frameKey fid e).map Prod.fst) x.srv.trace := by
    refine ha.increasing.restrict (fun e k hk => ?_)
    cases e with
    | accept p n json c =>
      simp only [frameKey] at hk
      split at hk
      · exact hk
      · cases hk
    | _ => cases hk
  rw [frameRequests_calls h]
  refine (hinc.sublist_keys hinc' (fun e he k hk => ?_)).trans (hframes ▸ List.Sublist.refl _)
  cases e with
  | forward p q' m =>
    simp only [requestKey, Option.ite_none_right_eq_some, Option.some.injEq] at hk
    obtain ⟨⟨-, -, ho⟩, rfl⟩ := hk
    obtain ⟨n, json, c, hacc, hfid⟩ := mem_frameCalls.1 (of_decide_eq_true ho)
    exact ⟨_, hacc, by rw [frameKey, if_pos hfid]; rfl⟩
  | _ => cases hk

theorem frameRequest_bytes (hB : Standard B) (h : Reachable (Tasks.machine P) x)
    (honce : AllOnce x.srv fid) {r : Request} {f : CallPtr × Json} (hr : r ∈ frameRequests x.srv q fid)
    (hf : f ∈ acceptedFrames x.srv fid) (hcall : r.call = f.1) :
    (rawTxBytes B r.msg = none ∨ rawTxBytes B r.msg = frameBytes B P f.2) ∧
      (AllPrinted P x.srv fid → rawTxBytes B r.msg = frameBytes B P f.2) := by
  have ha := reachable_accepts h
  obtain ⟨hforward, -⟩ := mem_frameRequests hr
  obtain ⟨e, he, hk⟩ := List.mem_filterMap.1 hf
  cases e with
  | accept p n json c =>
    simp only [frameKey, Option.ite_none_right_eq_some, Option.some.injEq] at hk
    obtain ⟨hfid, rfl⟩ := hk
    dsimp only at hcall
    rw [hcall] at hforward
    have hmem : p ∈ frameCalls x.srv fid := mem_frameCalls.2 ⟨n, json, c, he, hfid⟩
    have hmsg := (reachable_inOrder h (allOnce_marks ha honce)).2.message p q r.msg n json c hforward
      (decide_eq_true hmem) he
    have hshort := honce p n json c he hfid
    obtain ⟨printed, -, hreq⟩ := requestFor (ha.asks p n json c he).2 hshort
    rw [hmsg]
    refine ⟨request_bytes hB hreq, fun hprinted => printed_bytes hB ?_ hreq.len⟩
    rw [requestOf, hshort]
    exact hprinted p n json c he hfid
  | _ => cases hk

theorem exists_sent (bytes : Request → Option Bytes) (frame : Json → Option Bytes) {rs : List Request}
    {fs : List (CallPtr × Json)} (hcalls : rs.map Request.call = fs.map Prod.fst)
    (hbytes : ∀ r ∈ rs, ∀ f ∈ fs, r.call = f.1 → bytes r = none ∨ bytes r = frame f.2) :
    ∃ sent : List (CallPtr × Json), sent.Sublist fs ∧
      rs.filterMap bytes = sent.filterMap (fun f => frame f.2) ∧
      ((∀ r ∈ rs, ∀ f ∈ fs, r.call = f.1 → bytes r = frame f.2) → sent = fs) := by
  induction rs generalizing fs with
  | nil =>
    rw [List.map_eq_nil_iff.1 hcalls.symm]
    exact ⟨[], .refl _, rfl, fun _ => rfl⟩
  | cons r rs ih =>
    cases fs with
    | nil => cases hcalls
    | cons f fs =>
      obtain ⟨hcall, hrest⟩ := List.cons.inj hcalls
      obtain ⟨sent, hsub, hsent, hall⟩ := ih hrest (fun r' hr' f' hf' =>
        hbytes r' (List.mem_cons_of_mem _ hr') f' (List.mem_cons_of_mem _ hf'))
      by_cases hsame : bytes r = frame f.2
      · refine ⟨f :: sent, hsub.cons_cons f, ?_, fun h => ?_⟩
        · rw [List.filterMap_cons, List.filterMap_cons, hsame, hsent]
        · rw [hall (fun r' hr' f' hf' => h r' (List.mem_cons_of_mem _ hr') f' (List.mem_cons_of_mem _ hf'))]
      · have hnone := (hbytes r List.mem_cons_self f List.mem_cons_self hcall).resolve_right hsame
        refine ⟨sent, hsub.cons f, ?_, fun h => ?_⟩
        · rw [List.filterMap_cons, hnone]
          exact hsent
        · exact absurd (h r List.mem_cons_self f List.mem_cons_self hcall) hsame

variable {g g₀ : Device} {as : List GatewayLabel} {i : Fin 2}

/-- What RAW_TX has written to a port are the bytes of accepted frames, in their
order and each at most once. The frames whose requests the UART task has yet to
handle come behind them, and as long as no ARG is lost for want of memory, there
are no other requests for the port. -/
theorem frames_transmitted (hB : Standard B) (hinit : (machine B lib P).init g₀)
    (hrun : Run (machine B lib P) g₀ as g) (honce : AllOnce g.sys.srv (rawTxFid i)) :
    ∃ sent waiting : List (CallPtr × Json),
      (sent ++ waiting).Sublist (acceptedFrames g.sys.srv (rawTxFid i)) ∧
      (g.app.port i).written = (g₀.app.port i).written ++ sent.filterMap (fun f => frameBytes B P f.2) ∧
      waiting.map Prod.fst =
        ((inFlight g).filter (fun r => r.msg.fid == rawTxFid i)).map Request.call ∧
      (AllPrinted P g.sys.srv (rawTxFid i) → (sent ++ waiting).map Prod.fst =
        (frameRequests g.sys.srv cmdQueue (rawTxFid i)).map Request.call) := by
  have hr := reachable_sys ⟨g₀, as, hinit, hrun⟩
  obtain ⟨done, hs⟩ := run_streamed hinit hrun
  obtain ⟨frames, hsub, hcalls⟩ := List.sublist_map_iff.1 (requests_sublist hr honce cmdQueue)
  have hsplit : frameRequests g.sys.srv cmdQueue (rawTxFid i) =
      done.filter (fun r => r.msg.fid == rawTxFid i) ++
        (inFlight g).filter (fun r => r.msg.fid == rawTxFid i) := by
    rw [frameRequests, hs.handed, List.filter_append]
  have hmem : ∀ r ∈ done.filter (fun r => r.msg.fid == rawTxFid i),
      r ∈ frameRequests g.sys.srv cmdQueue (rawTxFid i) := by
    intro r hr'
    rw [hsplit]
    exact List.mem_append_left _ hr'
  have hall := hcalls
  rw [hsplit, List.map_append] at hcalls
  obtain ⟨handled, waiting, rfl, hhandled, hwaiting⟩ := List.map_eq_append_iff.1 hcalls.symm
  have hbytes : ∀ r ∈ done.filter (fun r => r.msg.fid == rawTxFid i), ∀ f ∈ handled, r.call = f.1 →
      (rawTxBytes B r.msg = none ∨ rawTxBytes B r.msg = frameBytes B P f.2) ∧
        (AllPrinted P g.sys.srv (rawTxFid i) → rawTxBytes B r.msg = frameBytes B P f.2) :=
    fun r hr' f hf => frameRequest_bytes hB hr honce (hmem r hr')
      (hsub.subset (List.mem_append_left _ hf))
  obtain ⟨sent, hsent, hwritten, hwhole⟩ := exists_sent (fun r => rawTxBytes B r.msg) (frameBytes B P)
    hhandled.symm (fun r hr' f hf hcall => (hbytes r hr' f hf hcall).1)
  have hport : (fun r : Request => portBytes B i r.msg) =
      fun r => if (r.msg.fid == rawTxFid i) = true then rawTxBytes B r.msg else none := by
    funext r
    simp [portBytes]
  refine ⟨sent, waiting, (hsent.append (.refl _)).trans hsub, ?_, hwaiting, fun hprinted => ?_⟩
  · rw [hs.written i, ← hwritten, List.filterMap_filter, hport]
  · rw [hwhole (fun r hr' f hf hcall => (hbytes r hr' f hf hcall).2 hprinted)]
    exact hall.symm

def txText (sid : Nat) (arg : List Char) : Bytes :=
  bytes (['\x7b', '"', 'F', 'I', 'D', '"', ':'] ++ digits 0x1012 ++
    [',', '"', 'F', 'L', 'A', 'G', 'S', '"', ':', '0', ',', '"', 'S', 'I', 'D', '"', ':'] ++ digits sid ++
    [',', '"', 'A', 'R', 'G', '"', ':', '"'] ++ arg ++ ['"', '\x7d'])

def txJson (sid : Nat) (arg : List Char) : Json :=
  .object [(bytes ['F', 'I', 'D'], .number 0x1012 0x1012), (bytes ['F', 'L', 'A', 'G', 'S'], .number 0 0),
    (bytes ['S', 'I', 'D'], .number (Int32.ofNat sid) sid), (bytes ['A', 'R', 'G'], .string (bytes arg))]

def helloArg : List Char := ['S', 'G', 'V', 's', 'b', 'G', '8', '=']

def hiArg : List Char := ['S', 'G', 'k', '=']

def txPlatform : Platform :=
  { printer with parse := fun text => if text = txText 5 helloArg then some (txJson 5 helloArg)
      else if text = txText 6 hiArg then some (txJson 6 hiArg) else none }

def txRequest (sid : Nat) (arg : List Char) : List Label :=
  [.frame 0 .text (some (txText sid arg)) true, .text ⟨true, true, okSend⟩]

def twoFrames : List GatewayLabel :=
  serverSteps ([.registerQueue 0x1012 (some 0) true true, .connect 1 true] ++ txRequest 5 helloArg ++
    txRequest 6 hiArg ++ work 12) ++ [.uartTake, .uartHandle calm]

def printedOnce (P : Platform) (fid : UInt32) : Event → Bool
  | .accept _ _ json c => c.ulFid != fid || (!c.longTerm && c.pucReqData == frameArg P true json)
  | _ => true

def oneLeft (i : Fin 2) (g : Device) : Bool :=
  (g.app.port i).written == [bytes ['H', 'e', 'l', 'l', 'o']] &&
    ((inFlight g).filter (fun r => r.msg.fid == rawTxFid i)).map Request.call == [1] &&
    (frameRequests g.sys.srv cmdQueue (rawTxFid i)).map Request.call == [0, 1] &&
    g.sys.srv.trace.all (printedOnce txPlatform (rawTxFid i))

theorem frames_transmitted_two : ∃ g, Run (machine standard wordLib txPlatform) gatewayStart twoFrames g ∧
    (g.app.port 0).written = [bytes ['H', 'e', 'l', 'l', 'o']] ∧
    ∃ sent waiting : List (CallPtr × Json),
      (sent ++ waiting).Sublist (acceptedFrames g.sys.srv (rawTxFid 0)) ∧
      (g.app.port 0).written = sent.filterMap (fun f => frameBytes standard txPlatform f.2) ∧
      waiting.map Prod.fst = [1] ∧ (sent ++ waiting).map Prod.fst = [0, 1] := by
  have hreaches : (machine standard wordLib txPlatform).reaches gatewayStart twoFrames (oneLeft 0) = true := by
    decide +kernel
  obtain ⟨g, hrun, hg⟩ := exists_of_reaches hreaches
  simp only [oneLeft, Bool.and_eq_true, beq_iff_eq, List.all_eq_true] at hg
  obtain ⟨⟨⟨hwritten, hflight⟩, hforwarded⟩, hall⟩ := hg
  have hframes : ∀ p n json c, .accept p n json c ∈ g.sys.srv.trace → c.ulFid = rawTxFid 0 →
      c.longTerm = false ∧ c.pucReqData = frameArg txPlatform true json := by
    intro p n json c hacc hfid
    simpa [printedOnce, hfid] using hall _ hacc
  obtain ⟨sent, waiting, hsub, hsent, hwaiting, hprinted⟩ := frames_transmitted (i := 0) standard_ok
    gatewayStart_init hrun (fun p n json c hacc hfid => (hframes p n json c hacc hfid).1)
  refine ⟨g, hrun, hwritten, sent, waiting, hsub, hsent, hwaiting.trans hflight, ?_⟩
  rw [hprinted (fun p n json c hacc hfid => (hframes p n json c hacc hfid).2), hforwarded]

end Frames

end WirelessGateway.PortStream
