import WirelessGateway.Deleting
import WirelessGateway.Lib.Ownership

namespace WirelessGateway.Custody

open CJson WirelessGateway.Types Memory WsServer Transport Worker Tasks Sends WellFormed SoftSteps
open Lifecycle Operations Requests Forwarding ForwardPass Steps WirelessGateway.Lists Outcomes Deleting Lib.Linked
open Lib.Fallible Lib.Runs Lib.Ownership

variable {P : Platform} {s t : Server} {p : CallPtr} {c d : ApiCall} {env : WorkerEnv}
  {x y : System} {a : Label}

/-- What may own a request buffer: the function that processes a frame, a call,
and the n-th message that was put on a peripheral's queue. -/
inductive Holder
  | frame
  | call (p : CallPtr)
  | message (q : QueueId) (n : Nat)
deriving DecidableEq

/-- The payloads and the copies of ARG, and how many messages each peripheral
has dealt with. -/
structure Store where
  heap : Heap Holder
  dealt : QueueId → Nat

def Store.empty : Store := ⟨.empty, fun _ => 0⟩

def messagesOf (s : Server) (q : QueueId) : List Request :=
  (s.periph q).busy.toList ++ (s.periph q).queue

section Code

variable (h : Heap Holder) (b : Store)

def onFrame (type : FrameType) (data : Option Bytes) : Heap Holder :=
  let h := if data.isSome then h.alloc .frame else h
  match type with
  | .text => h
  | _ => h.free .frame

def withArg (n : CallPtr) (arg : Option Bytes) : Heap Holder :=
  if arg.isSome then h.alloc (.call n) else h

/-- ws_server_on_text. It returns without a word when there is no session or no
message. -/
def onText (P : Platform) (s : Server) (userData : Option SessPtr) (data : Option Bytes)
    (env : TextEnv) : Heap Holder :=
  match userData, data with
  | some _, some (b :: bs) =>
    if !env.callAlloc then h.free .frame
    else match P.parse (b :: bs) with
    | none => h.free .frame
    | some json =>
      let h := h.free .frame
      if frameFid json = apiHandlerIdGeneral then h
      else
        let wscd := Holder.call s.nextCall
        let h := withArg h s.nextCall (frameArg P env.printAlloc json)
        match frameNumber json ['F', 'L', 'A', 'G', 'S'], frameNumber json ['S', 'I', 'D'] with
        | some _, some _ =>
          if (s.findHandler (frameFid json)).isNone && (s.wsGetFidQueue (frameFid json)).isNone then
            h.free wscd
          else h
        | _, _ => h.free wscd
  | _, _ => h.lose .frame

def serveCall (s : Server) (p : CallPtr) : Heap Holder :=
  if (s.calls p).any (fun c => c.session.isNone) then h.free (.call p) else h

def copies (c : ApiCall) : Bool := c.pucReqData.isSome && 0 < c.ulReqDataLen

def newMessage (s : Server) (q : QueueId) : Holder :=
  .message q (b.dealt q + (messagesOf s q).length)

def forwardCall (s : Server) (p : CallPtr) (c : ApiCall) (q : QueueId) (env : WorkerEnv) :
    Heap Holder :=
  let h := b.heap
  let msg := newMessage b s q
  let room : Bool := (s.periph q).queue.length < (s.periph q).depth
  if !env.msgAlloc then h
  else if c.longTerm then
    if copies c then
      if !env.dataAlloc then h
      else if room then h.alloc msg else (h.alloc msg).free msg
    else h
  else if room then h.move (.call p) msg else h

def victims (s : Server) (p : CallPtr) : List CallPtr :=
  (s.pxWsApiWaitingForResponse ++ s.pxWsApiCall).filter
    (fun r => r != p && (keyOf s p).isSome && keyOf s r == keyOf s p)

def forwardOne (s : Server) (p : CallPtr) (env : WorkerEnv) : Heap Holder :=
  match s.calls p with
  | none => b.heap
  | some c =>
    if c.toDelete then (b.heap.frees ((victims s p).map .call)).free (.call p)
    else if parked s c then b.heap
    else match s.wsGetFidQueue c.ulFid with
    | some q => forwardCall b s p c q env
    | none => b.heap.free (.call p)

/-- One micro-step of the worker. An answered call that is not LONG_TERM is
freed without its pucReqData. -/
def workerOne (x : System) (env : WorkerEnv) : Heap Holder :=
  match x.worker with
  | .serveCalls (some p) | .serveWaiting (some p) => serveCall b.heap x.srv p
  | .forward (some p) => forwardOne b x.srv p env
  | _ => match answering x with
    | some (_, p) =>
      if (x.srv.calls p).any ApiCall.longTerm then b.heap else b.heap.lose (.call p)
    | none => b.heap

def dealtWith (q : QueueId) : Store :=
  ⟨b.heap.free (.message q (b.dealt q)), Function.update b.dealt q (b.dealt q + 1)⟩

/-- What a step allocates, moves and frees. -/
def track (P : Platform) (x : System) : Label → Store
  | .frame _ type data _ => { b with heap := onFrame b.heap type data }
  | .text env => match x.httpd with
    | .text conn data =>
      { b with heap := onText b.heap P x.srv ((x.srv.conns conn).bind Conn.userData) data env }
    | .idle => b
  | .worker env => { b with heap := workerOne b x env }
  | .periphAnswer q _ | .periphPublish q _ | .periphDrop q => dealtWith b q
  | _ => b

end Code

abbrev tracked (P : Platform) : Machine (System × Store) Label Fault :=
  (machine P).carry .empty (fun x a b => track b P x a)

def dataOf : HttpdPc → Option Bytes
  | .idle => none
  | .text _ data => data

def argOf (s : Server) (p : CallPtr) : Option Bytes := (s.calls p).bind ApiCall.pucReqData

structure Placed (s : Server) (b : Store) : Prop where
  call : ∀ p, (b.heap.holds (.call p)).isSome = (argOf s p).isSome
  past : ∀ q n, n < b.dealt q → b.heap.holds (.message q n) = none
  message : ∀ q i, (b.heap.holds (.message q (b.dealt q + i))).isSome =
    ((messagesOf s q)[i]?.bind (fun r => r.msg.data)).isSome

structure Aligned (x : System) (b : Store) : Prop where
  frame : (b.heap.holds .frame).isSome = (dataOf x.httpd).isSome
  placed : Placed x.srv b

structure Settled (s t : Server) : Prop where
  arg : ∀ p, argOf t p = argOf s p
  message : ∀ q, messagesOf t q = messagesOf s q

theorem Settled.trans {u : Server} (h : Settled s t) (h' : Settled t u) : Settled s u :=
  ⟨fun p => (h'.arg p).trans (h.arg p), fun q => (h'.message q).trans (h.message q)⟩

theorem Settled.of_eq (hc : t.calls = s.calls) (hp : t.periph = s.periph) : Settled s t :=
  ⟨fun p => by rw [argOf, hc, argOf], fun q => by rw [messagesOf, hp, messagesOf]⟩

theorem soft_settled (h : Soft s t) : Settled s t := by
  refine ⟨fun p => ?_, fun q => by rw [messagesOf, h.periph, messagesOf]⟩
  unfold argOf
  cases ht : t.calls p with
  | none =>
      have hs : s.calls p = none := by simpa [ht] using h.isSome p
      rw [hs]
  | some d =>
      obtain ⟨c, hc, hw⟩ := h.call_back ht
      rw [hc]
      exact hw.data

theorem setCall_settled (hc : s.calls p = some c) (hd : d.pucReqData = c.pucReqData) :
    Settled s (s.setCall p d) := by
  refine ⟨fun r => ?_, fun _ => rfl⟩
  by_cases hr : r = p
  · simp [argOf, hr, hc, hd]
  · rw [argOf, setCall_calls_ne hr, argOf]

theorem Placed.of_calls {b : Store} (hb : Placed s b) {h : Heap Holder}
    (hcall : ∀ p, (h.holds (.call p)).isSome = (argOf t p).isSome)
    (hmessage : ∀ q n, h.holds (.message q n) = b.heap.holds (.message q n))
    (hout : ∀ q, messagesOf t q = messagesOf s q) : Placed t { b with heap := h } where
  call := hcall
  past q n hn := (hmessage q n).trans (hb.past q n hn)
  message q i := by rw [hmessage, hout, hb.message]

theorem Placed.settled {b : Store} (hb : Placed s b) (h : Settled s t) : Placed t b :=
  hb.of_calls (fun p => by rw [hb.call, h.arg]) (fun _ _ => rfl) h.message

section Quiet

def Quiet : Label → Prop
  | .frame .. | .text _ | .worker _ | .periphAnswer .. | .periphPublish .. | .periphDrop _ => False
  | _ => True

theorem wsServerOnDisconnect_settled (hs : Sound s) {conn : ConnPtr} {k : Conn}
    (hk : s.conns conn = some k) :
    Returns (wsServerOnDisconnect s conn k.userData) (Settled s) := by
  cases hq : k.userData with
  | none => exact .pure (.of_eq rfl rfl)
  | some q =>
      obtain ⟨x, hx, -⟩ := hs.wf.userData conn k q hk hq
      simp only [wsServerOnDisconnect, session_eq hx, ok_bind]
      apply (vBreakApiCallsByFd_quiet x.fd hs.wf).bind
      rintro t ⟨⟨ht, -⟩, -⟩
      exact .pure ((soft_settled ht).trans (.of_eq rfl rfl))

theorem quiet_step (hx : Steps.Inv x) (ha : Quiet a) {res : Fallible System}
    (h : step P x a = some res) : Returns res (fun y => y.worker = x.worker ∧
      y.httpd = x.httpd ∧ Settled x.srv y.srv) := by
  have hcalm : ∀ {op : Fallible Server}, Calm x.srv op → Returns op (Settled x.srv) :=
    fun hop => hop.mono (fun t ht => soft_settled ht.1)
  cases a with
  | connect fd alloc =>
      refine lift_returns h (fun _ => .pure ?_)
      cases alloc <;> exact .of_eq rfl rfl
  | disconnect conn =>
      simp only [step] at h
      cases hk : x.srv.conns conn with
      | none => simp [hk] at h
      | some k =>
          rw [hk] at h
          exact lift_returns h (fun _ => wsServerOnDisconnect_settled hx.sound hk)
  | transferComplete i err took =>
      simp only [step] at h
      cases hop : vWsTransferComplete x.srv i err took with
      | none => simp [hop] at h
      | some op =>
          rw [hop] at h
          exact lift_returns h (fun _ => hcalm (vWsTransferComplete_calm hx.sound hop))
  | complete p => exact lift_returns h (fun _ => hcalm (vApiCallComplete_calm hx.sound p))
  | sendGroup fid json env =>
      refine lift_returns h (fun _ => hcalm (Returns.map ?_))
      exact bApiCallSendJsonFidGroup_calm hx.sound (.inr rfl) fid json env
  | register hd fid ctx took alloc =>
      exact lift_returns h (fun _ => hcalm (bApiCallRegister_calm hx.sound hd fid ctx took alloc))
  | unregister fid took =>
      exact lift_returns h (fun _ => hcalm (bApiCallUnregister_calm hx.sound fid took))
  | registerQueue fid queue took alloc =>
      exact lift_returns h (fun _ => hcalm (wsServerRegisterFidQueue_calm hx.sound fid queue took alloc))
  | tick d => exact lift_returns h (fun _ => .pure (.of_eq rfl rfl))
  | periphTake q =>
      obtain ⟨r, rs, hb, hq, h⟩ := periphTake_cases h
      refine lift_returns h (fun _ => .pure ⟨fun _ => rfl, fun q' => ?_⟩)
      by_cases hq' : q' = q
      · simp [messagesOf, Server.setPeriph, hq', hb, hq]
      · simp [messagesOf, Server.setPeriph, hq']
  | _ => cases ha

end Quiet

section Frame

variable {h : Heap Holder} {b : Store} {conn : ConnPtr} {data : Option Bytes}

theorem onFrame_holds_ne {type : FrameType} {k : Holder} (hk : k ≠ .frame) :
    (onFrame h type data).holds k = h.holds k := by
  have halloc : (if data.isSome then h.alloc .frame else h).holds k = h.holds k := by
    split_ifs
    · exact alloc_holds_ne hk
    · rfl
  cases type with
  | text => exact halloc
  | _ => exact (free_holds_ne hk).trans halloc

theorem onFrame_owned {type : FrameType} (ho : Owned h) (hfree : h.holds .frame = none) :
    Owned (onFrame h type data) := by
  have halloc : Owned (if data.isSome then h.alloc .frame else h) := by
    split_ifs
    · exact ho.alloc hfree
    · exact ho
  cases type with
  | text => exact halloc
  | _ => exact halloc.free _

theorem frame_step (hx : Steps.Inv x) {type : FrameType} {sent : Bool} {res : Fallible System}
    (h : step P x (.frame conn type data sent) = some res) : x.httpd = .idle ∧
      Returns res (fun y => Settled x.srv y.srv ∧
        y.httpd = if type = .text then .text conn data else .idle) := by
  simp only [step] at h
  cases hk : x.srv.conns conn with
  | none => simp [hk] at h
  | some k =>
      simp only [hk] at h
      split_ifs at h with hidle
      cases h
      have hpc : x.httpd = .idle := by
        cases hp : x.httpd with
        | idle => rfl
        | text conn data => simp [hp, HttpdPc.isIdle] at hidle
      refine ⟨hpc, ?_⟩
      obtain ⟨s, he, hsoft, -⟩ := touchSession_calm hx.sound hk
      simp only [stepFrame, he, ok_bind]
      cases type with
      | text => exact .pure ⟨soft_settled hsoft, rfl⟩
      | _ => exact .pure ⟨(soft_settled hsoft).trans (.of_eq rfl rfl), hpc⟩

theorem onFrame_aligned (ha : Aligned x b) (hidle : x.httpd = .idle) {type : FrameType}
    (hs : Settled x.srv y.srv) (hpc : y.httpd = if type = .text then .text conn data else .idle) :
    Aligned y { b with heap := onFrame b.heap type data } := by
  have hfree : b.heap.holds .frame = none := by simpa [hidle, dataOf] using ha.frame
  refine ⟨?_, ha.placed.of_calls (fun p => ?_) (fun q n => onFrame_holds_ne (by simp)) hs.message⟩
  · rw [hpc]
    cases type with
    | text => cases data <;> simp [onFrame, dataOf, hfree]
    | _ => simp [onFrame, dataOf]
  · rw [onFrame_holds_ne (by simp), ha.placed.call, hs.arg]

end Frame

section Text

variable {b : Store} {conn : ConnPtr} {u : Option SessPtr} {q : SessPtr} {data : Option Bytes}
  {tenv : TextEnv} {alloc : Bool} {json : Json}

theorem Placed.frame_free (hb : Placed s b) : Placed s { b with heap := b.heap.free .frame } :=
  hb.of_calls (fun p => by rw [free_holds_ne (by simp), hb.call])
    (fun _ _ => free_holds_ne (by simp)) (fun _ => rfl)

theorem Placed.frame_lose (hb : Placed s b) : Placed s { b with heap := b.heap.lose .frame } :=
  hb.of_calls (fun p => by rw [lose_holds_ne (by simp), hb.call])
    (fun _ _ => lose_holds_ne (by simp)) (fun _ => rfl)

theorem argOf_fresh (hs : WF s) : argOf s s.nextCall = none := by
  rw [argOf, hs.fresh (Nat.le_refl _)]
  rfl

theorem withArg_holds_ne (h : Heap Holder) {n : CallPtr} {arg : Option Bytes} {k : Holder}
    (hk : k ≠ .call n) : (withArg h n arg).holds k = h.holds k := by
  unfold withArg
  split_ifs
  · exact alloc_holds_ne hk
  · rfl

theorem withArg_holds (h : Heap Holder) {n : CallPtr} (arg : Option Bytes)
    (hn : h.holds (.call n) = none) : ((withArg h n arg).holds (.call n)).isSome = arg.isSome := by
  cases arg <;> simp [withArg, hn]

theorem withArg_owned {h : Heap Holder} (ho : Owned h) {n : CallPtr} (arg : Option Bytes)
    (hn : h.holds (.call n) = none) : Owned (withArg h n arg) := by
  unfold withArg
  split_ifs
  · exact ho.alloc hn
  · exact ho

theorem Placed.fresh (hs : WF s) (hb : Placed s b) : b.heap.holds (.call s.nextCall) = none := by
  simpa [argOf_fresh hs] using hb.call s.nextCall

theorem Placed.accept (hs : WF s) (hb : Placed s b) :
    Placed (accepted s conn json c) { b with heap := withArg b.heap s.nextCall c.pucReqData } := by
  refine hb.of_calls (fun p => ?_) (fun _ _ => withArg_holds_ne _ (by simp)) (fun _ => rfl)
  have hcalls : (accepted s conn json c).calls = (s.allocCall c).calls := rfl
  by_cases hp : p = s.nextCall
  · rw [hp, withArg_holds _ _ (hb.fresh hs), argOf, hcalls, allocCall_calls_self, Option.bind_some]
  · rw [withArg_holds_ne _ (by simpa using hp), hb.call, argOf, argOf, hcalls, allocCall_calls_ne hp]

theorem Placed.reject (hs : WF s) (hb : Placed s b) (hc : t.calls = s.calls) (hp : t.periph = s.periph)
    (arg : Option Bytes) :
    Placed t { b with heap := (withArg b.heap s.nextCall arg).free (.call s.nextCall) } := by
  have hsame : Settled s t := .of_eq hc hp
  refine hb.of_calls (fun p => ?_)
    (fun _ _ => (free_holds_ne (by simp)).trans (withArg_holds_ne _ (by simp))) hsame.message
  by_cases hn : p = s.nextCall
  · rw [hn, free_holds_self, hsame.arg, argOf_fresh hs]
    rfl
  · rw [free_holds_ne (by simpa using hn), withArg_holds_ne _ (by simpa using hn), hb.call, hsame.arg]

/-- The frame is over, what it has left behind is in its place, and nothing is
lost under a condition. -/
structure Over (b : Store) (h : Heap Holder) (kept : Prop) (t : Server) : Prop where
  frame : h.holds .frame = none
  placed : Placed t { b with heap := h }
  owned : Owned b.heap → (Owned h ↔ kept)

theorem onText_over (hs : Sound s) (hconn : (s.conns conn).bind Conn.userData = some q)
    (hb : Placed s b) (m : UInt8) (ms : Bytes) :
    Returns (wsServerOnText P s conn (some q) (some (m :: ms)) tenv)
      (Over b (onText b.heap P s (some q) (some (m :: ms)) tenv) True) := by
  obtain ⟨k, hk, hq⟩ := Option.bind_eq_some_iff.1 hconn
  have hb' := hb.frame_free
  have hfresh := hb'.fresh hs.wf
  have hself : Returns (pure s : Fallible Server) (Over b (b.heap.free .frame) True) :=
    .pure ⟨free_holds_self _ _, hb', fun ho => iff_of_true (ho.free _) trivial⟩
  have hframe : ∀ arg, (withArg (b.heap.free .frame) s.nextCall arg).holds .frame = none := fun arg =>
    (withArg_holds_ne _ (by simp)).trans (free_holds_self _ _)
  have hreject : ∀ c sta env arg, c.session = some q →
      Returns (rejectCall (s.allocCall c) s.nextCall sta env)
        (Over b ((withArg (b.heap.free .frame) s.nextCall arg).free (.call s.nextCall)) True) := by
    intro c sta env arg hc
    obtain ⟨m, -, he⟩ := rejectCall_eq hs hk hq hc sta env
    refine ⟨_, he, (free_holds_ne (by simp)).trans (hframe _), ?_,
      fun ho => iff_of_true ((withArg_owned (ho.free _) _ hfresh).free _) trivial⟩
    exact hb'.reject hs.wf (t := rejected (s.withNet m) _) rfl rfl arg
  cases halloc : tenv.callAlloc with
  | false =>
      simp only [wsServerOnText, onText, halloc, Bool.not_false, if_true]
      exact hself
  | true =>
      cases hjson : P.parse (m :: ms) with
      | none =>
          simp only [wsServerOnText, onText, halloc, hjson, Bool.not_true, Bool.false_eq_true, if_false]
          exact hself
      | some json =>
          simp only [wsServerOnText, onText, halloc, hjson, Bool.not_true, Bool.false_eq_true, if_false]
          by_cases hfid : frameFid json = apiHandlerIdGeneral
          · simp only [if_pos hfid]
            exact hself
          · simp only [if_neg hfid]
            cases hfl : frameNumber json ['F', 'L', 'A', 'G', 'S'] with
            | none => exact hreject _ _ _ _ (by rfl)
            | some fl =>
                cases hsid : frameNumber json ['S', 'I', 'D'] with
                | none => exact hreject _ _ _ _ (by rfl)
                | some sid =>
                    cases hroute : (s.findHandler (frameFid json)).isNone &&
                        (s.wsGetFidQueue (frameFid json)).isNone with
                    | true =>
                        simp only [textCall, hroute, if_true]
                        exact hreject _ _ _ _ rfl
                    | false =>
                        simp only [textCall, hroute, Bool.false_eq_true, if_false]
                        exact .pure ⟨hframe _, hb'.accept hs.wf,
                          fun ho => iff_of_true (withArg_owned (ho.free _) _ hfresh) trivial⟩

theorem onText_lost (P : Platform) (s : Server) (conn : ConnPtr) (tenv : TextEnv) (h : Heap Holder)
    (hnone : u = none ∨ data = none ∨ data = some []) :
    wsServerOnText P s conn u data tenv = .ok s ∧ onText h P s u data tenv = h.lose .frame := by
  rcases hnone with rfl | rfl | rfl
  · exact ⟨rfl, rfl⟩
  · cases u <;> exact ⟨rfl, rfl⟩
  · cases u <;> exact ⟨rfl, rfl⟩

theorem onText_returns (hs : Sound s) (hb : Placed s b)
    (hframe : (b.heap.holds .frame).isSome = data.isSome) (hu : (s.conns conn).bind Conn.userData = u) :
    Returns (wsServerOnText P s conn u data tenv) (Over b (onText b.heap P s u data tenv)
      (∀ d, data = some d → u.isSome ∧ d ≠ [])) := by
  by_cases hnone : u = none ∨ data = none ∨ data = some []
  · obtain ⟨he, hlose⟩ := onText_lost P s conn tenv b.heap hnone
    rw [he, hlose]
    refine ⟨s, rfl, lose_holds_self _ _, hb.frame_lose, fun ho => ?_⟩
    rw [owned_lose_iff ho, ← Option.isNone_iff_eq_none, ← Option.not_isSome, hframe]
    rcases hnone with rfl | rfl | rfl
    · cases data <;> simp
    · simp
    · simp
  · cases u with
    | none => exact absurd (.inl rfl) hnone
    | some q =>
        cases data with
        | none => exact absurd (.inr (.inl rfl)) hnone
        | some d =>
            cases d with
            | nil => exact absurd (.inr (.inr rfl)) hnone
            | cons m ms =>
                refine (onText_over hs hu hb m ms).mono
                  (fun t ht => ⟨ht.frame, ht.placed, fun ho => (ht.owned ho).trans ?_⟩)
                simp

theorem text_step (hx : Steps.Inv x) (ha : Aligned x b) {res : Fallible System}
    (h : step P x (.text tenv) = some res) :
    Returns res (fun y => Aligned y (track b P x (.text tenv)) ∧
      (Owned b.heap → (Owned (track b P x (.text tenv)).heap ↔ ∀ conn d,
        x.httpd = .text conn (some d) → ((x.srv.conns conn).bind Conn.userData).isSome ∧ d ≠ []))) := by
  simp only [step] at h
  cases hpc : x.httpd with
  | idle => simp [hpc] at h
  | text conn data =>
      rw [hpc] at h
      have hframe : (b.heap.holds .frame).isSome = data.isSome := by
        simpa [hpc, dataOf] using ha.frame
      simp only [track, hpc]
      refine (lift_returns h (fun _ => onText_returns hx.sound ha.placed hframe rfl)).mono ?_
      rintro y ⟨-, hidle, hover⟩
      refine ⟨⟨by simp [hidle, dataOf, hover.frame], hover.placed⟩, fun ho => (hover.owned ho).trans ?_⟩
      constructor
      · rintro hd conn' d heq
        cases heq
        exact hd d rfl
      · rintro hd d rfl
        exact hd conn d rfl

end Text

section Dealt

variable {b : Store} {q : QueueId}

structure Deals (q : QueueId) (s t : Server) : Prop where
  arg : ∀ p, argOf t p = argOf s p
  first : ∃ r, messagesOf s q = r :: messagesOf t q
  others : ∀ q' ≠ q, messagesOf t q' = messagesOf s q'

theorem deals_of_periph {r : Request} (hb : (s.periph q).busy = some r) (hc : t.calls = s.calls)
    (hq : (t.periph q).busy = none ∧ (t.periph q).queue = (s.periph q).queue)
    (hother : ∀ q' ≠ q, t.periph q' = s.periph q') : Deals q s t where
  arg p := by rw [argOf, hc, argOf]
  first := ⟨r, by simp [messagesOf, hb, hq]⟩
  others q' hq' := by rw [messagesOf, hother q' hq', messagesOf]

theorem deals_postReply {r : Request} (hb : (s.periph q).busy = some r) (id : UInt32)
    (published : Bool) (data : Option Bytes) : Deals q s (postReply s q r id published data) := by
  unfold postReply
  split_ifs
  · refine deals_of_periph hb rfl ?_ fun q' hq' => ?_
    · simp [Server.setPeriph]
    · simp [Server.setPeriph, hq']
  · refine deals_of_periph hb rfl ?_ fun q' hq' => ?_
    · simp [dropRequest, Server.setPeriph]
    · simp [dropRequest, Server.setPeriph, hq']

theorem deals_dropRequest {r : Request} (hb : (s.periph q).busy = some r) :
    Deals q s (dropRequest s q r) := by
  refine deals_of_periph hb rfl ?_ fun q' hq' => ?_
  · simp [dropRequest, Server.setPeriph]
  · simp [dropRequest, Server.setPeriph, hq']

def deals : Label → Option QueueId
  | .periphAnswer q _ | .periphPublish q _ | .periphDrop q => some q
  | _ => none

theorem deals_step (ha : deals a = some q) {res : Fallible System} (h : step P x a = some res) :
    Returns res (fun y => y.httpd = x.httpd ∧ Deals q x.srv y.srv) := by
  cases a with
  | periphAnswer q' data =>
      cases ha
      simp only [step] at h
      cases hb : (x.srv.periph q).busy with
      | none => simp [hb] at h
      | some r =>
          rw [hb] at h
          exact (lift_returns h (fun _ => .pure (deals_postReply hb r.msg.id false data))).mono
            (fun _ hy => hy.2)
  | periphPublish q' data =>
      cases ha
      simp only [step] at h
      cases hb : (x.srv.periph q).busy with
      | none => simp [hb] at h
      | some r =>
          rw [hb] at h
          exact (lift_returns h (fun _ => .pure (deals_postReply hb 0 true data))).mono
            (fun _ hy => hy.2)
  | periphDrop q' =>
      cases ha
      simp only [step] at h
      cases hb : (x.srv.periph q).busy with
      | none => simp [hb] at h
      | some r =>
          rw [hb] at h
          exact (lift_returns h (fun _ => .pure (deals_dropRequest hb))).mono (fun _ hy => hy.2)
  | _ => cases ha

theorem Placed.dealtWith (hb : Placed s b) (h : Deals q s t) : Placed t (dealtWith b q) := by
  have hne : ∀ {q' n}, ¬ (q' = q ∧ n = b.dealt q) →
      (Custody.dealtWith b q).heap.holds (.message q' n) = b.heap.holds (.message q' n) :=
    fun hn => free_holds_ne (by simpa using hn)
  refine ⟨fun p => ?_, fun q' n hn => ?_, fun q' i => ?_⟩
  · rw [h.arg, ← hb.call]
    exact congrArg _ (free_holds_ne (by simp))
  · by_cases hq : q' = q
    · subst hq
      have hn : n < b.dealt q' + 1 := by simpa [Custody.dealtWith] using hn
      rcases Nat.lt_succ_iff_lt_or_eq.1 hn with hn | rfl
      · exact (hne (by simp [Nat.ne_of_lt hn])).trans (hb.past q' n hn)
      · exact free_holds_self _ _
    · have hn : n < b.dealt q' := by simpa [Custody.dealtWith, hq] using hn
      exact (hne (by simp [hq])).trans (hb.past q' n hn)
  · by_cases hq : q' = q
    · subst hq
      obtain ⟨r, hr⟩ := h.first
      have hidx : (Custody.dealtWith b q').dealt q' + i = b.dealt q' + (i + 1) := by
        simp only [Custody.dealtWith, Function.update_self]
        omega
      rw [hidx, hne (by omega), hb.message, hr, List.getElem?_cons_succ]
    · have hidx : (Custody.dealtWith b q).dealt q' = b.dealt q' := by
        simp [Custody.dealtWith, hq]
      rw [hidx, hne (by simp [hq]), hb.message, h.others q' hq]

end Dealt

section Places

variable {b : Store} {h : Heap Holder} {q : QueueId}

theorem Placed.newMessage (hb : Placed s b) (q : QueueId) :
    b.heap.holds (newMessage b s q) = none := by
  simpa [Custody.newMessage] using hb.message q (messagesOf s q).length

theorem Placed.push (hb : Placed s b) {r : Request}
    (hcall : ∀ p, (h.holds (.call p)).isSome = (argOf t p).isSome)
    (hnew : (h.holds (Custody.newMessage b s q)).isSome = r.msg.data.isSome)
    (hold : ∀ q' n, Holder.message q' n ≠ Custody.newMessage b s q →
      h.holds (.message q' n) = b.heap.holds (.message q' n))
    (hout : messagesOf t q = messagesOf s q ++ [r])
    (hothers : ∀ q' ≠ q, messagesOf t q' = messagesOf s q') : Placed t { b with heap := h } := by
  refine ⟨hcall, fun q' n hn => ?_, fun q' i => ?_⟩
  · rw [hold q' n, hb.past q' n hn]
    rintro heq
    cases heq
    exact absurd hn (by simp)
  · by_cases hq : q' = q
    · subst hq
      by_cases hi : i = (messagesOf s q').length
      · rw [hi, hout, List.getElem?_concat_length]
        exact hnew
      · rw [hold q' _ (by simpa [Custody.newMessage] using hi), hb.message, hout]
        rcases Nat.lt_or_gt_of_ne hi with hlt | hgt
        · rw [List.getElem?_append_left hlt]
        · rw [List.getElem?_eq_none (Nat.le_of_lt hgt),
            List.getElem?_eq_none (by rw [List.length_append]; exact hgt)]
    · rw [hold q' _ (by simp [Custody.newMessage, hq]), hb.message, hothers q' hq]

theorem Placed.without (hb : Placed s b) (gone : CallPtr → Prop) [DecidablePred gone]
    (hcalls : ∀ r, t.calls r = if gone r then none else s.calls r) (hp : t.periph = s.periph)
    (hgone : ∀ r, gone r → h.holds (.call r) = none)
    (hkeep : ∀ k, (∀ r, k = .call r → ¬ gone r) → h.holds k = b.heap.holds k) :
    Placed t { b with heap := h } := by
  refine hb.of_calls (fun r => ?_) (fun q n => hkeep _ (by simp))
    (fun q => by rw [messagesOf, hp, messagesOf])
  rw [argOf, hcalls]
  by_cases hr : gone r
  · simp [hr, hgone r hr]
  · rw [if_neg hr, hkeep _ (by simpa using hr), hb.call, argOf]

theorem removed_calls_if (r : CallPtr) :
    (removed s p).calls r = if r = p then none else s.calls r := by
  by_cases hr : r = p
  · simp [hr]
  · rw [removed_calls_ne hr, if_neg hr]

theorem Placed.free (hb : Placed s b) (hcalls : t.calls = (removed s p).calls)
    (hp : t.periph = s.periph) : Placed t { b with heap := b.heap.free (.call p) } := by
  refine hb.without (fun r => r = p) (fun r => by rw [hcalls, removed_calls_if]) hp
    (fun r hr => hr ▸ free_holds_self _ _) (fun k hk => free_holds_ne ?_)
  rintro rfl
  exact hk p rfl rfl

theorem Placed.lose (hb : Placed s b) (hcalls : t.calls = (removed s p).calls)
    (hp : t.periph = s.periph) : Placed t { b with heap := b.heap.lose (.call p) } := by
  refine hb.without (fun r => r = p) (fun r => by rw [hcalls, removed_calls_if]) hp
    (fun r hr => hr ▸ lose_holds_self _ _) (fun k hk => lose_holds_ne ?_)
  rintro rfl
  exact hk p rfl rfl

end Places

end WirelessGateway.Custody
