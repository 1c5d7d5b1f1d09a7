import Mathlib.Data.List.Induction
import WirelessGateway.Steps

namespace WirelessGateway.Fragments

open CJson WirelessGateway.Types Memory WsServer Transport Tasks Sends WellFormed SoftSteps
open Lifecycle Requests Steps Lib.Fallible Lib.Runs

variable {P : Platform} {x y : System} {s t : Server} {conn : ConnPtr} {u : Option SessPtr}
  {env : TextEnv}

def apiCallErrorStatusFragmented : UInt32 := 0x80000001

structure Frame where
  type : FrameType
  final : Bool
  payload : Bytes
  sent : Bool

def Frame.data (f : Frame) : Option Bytes := if f.payload.isEmpty then none else some f.payload

/-- ws_httpd_handler. It does not pass the final bit on. -/
def wsHttpdHandler (conn : ConnPtr) (f : Frame) : Label := .frame conn f.type f.data f.sent

/-- The frames after a part of a message, with the bytes that are missing: CONT
frames, the last one final, and any control frames. -/
inductive Continued : Bool → List Frame → Bytes → Prop
  | done : Continued true [] []
  | cont {f : Frame} {fs : List Frame} {rest : Bytes} (h : f.type = .cont)
      (hfs : Continued f.final fs rest) : Continued false (f :: fs) (f.payload ++ rest)
  | control {f : Frame} {fs : List Frame} {final : Bool} {rest : Bytes}
      (h : f.type = .ping ∨ f.type = .pong ∨ f.type = .close) (hfs : Continued final fs rest) :
      Continued final (f :: fs) rest

def deliver (conn : ConnPtr) (env : TextEnv) (first : Frame) (fs : List Frame) : List Label :=
  [wsHttpdHandler conn first, .text env] ++ fs.map (wsHttpdHandler conn)

def whole (first : Frame) (rest : Bytes) : Frame :=
  { first with final := true, payload := first.payload ++ rest }

def controls (fs : List Frame) : List Frame := fs.filter (fun f => f.type != .cont)

def ToldFragmented (conn : ConnPtr) (s t : Server) : Prop := ∃ evs p fid sid,
  t.trace = s.trace ++ evs ∧
    .queue .httpd p conn fid sid (.status apiCallErrorStatusFragmented) true ∈ evs

/-- What a message in fragments is to come to, where y is the state after the
fragments and y' the state after the whole message. -/
structure Honoured (P : Platform) (conn : ConnPtr) (env : TextEnv) (first : Frame)
    (fs : List Frame) (x y y' : System) : Prop where
  effect : y.srv = y'.srv ∨
    (y.srv.pxWsApiCall = x.srv.pxWsApiCall ∧ ToldFragmented conn x.srv y.srv)
  single : ∀ gs f hs z, fs = gs ++ f :: hs → f.type = .cont →
    Run (machine P) x (deliver conn env first gs) z → z.srv.pxWsApiCall = x.srv.pxWsApiCall

/-- The JSON that ws_server_on_text reads in a text, unless it drops the text
without a word. -/
def readable (P : Platform) (u : Option SessPtr) (data : Option Bytes) (env : TextEnv) :
    Option Json :=
  match u, data with
  | some _, some (b :: bs) => if env.callAlloc then
      (P.parse (b :: bs)).filter (fun json => frameFid json != apiHandlerIdGeneral) else none
  | _, _ => none

def refusal (s : Server) (json : Json) : Option (UInt32 × UInt32) :=
  match frameNumber json ['F', 'L', 'A', 'G', 'S'], frameNumber json ['S', 'I', 'D'] with
  | some _, some sid =>
    if (s.findHandler (frameFid json)).isNone && (s.wsGetFidQueue (frameFid json)).isNone then
      some (sid &&& 0xffff, apiCallErrorStatusNoHandler)
    else none
  | _, _ => some (0, apiCallErrorStatusBadReq)

/-- Two texts that are both dropped, or refused in the same words. -/
inductive RefusedAlike (P : Platform) (s : Server) (u : Option SessPtr) (env : TextEnv) :
    Option Bytes → Option Bytes → Prop
  | dropped {d d' : Option Bytes} (h : readable P u d env = none)
      (h' : readable P u d' env = none) : RefusedAlike P s u env d d'
  | refused {d d' : Option Bytes} {json json' : Json} {r r' : UInt32 × UInt32}
      (h : readable P u d env = some json) (h' : readable P u d' env = some json')
      (hr : refusal s json = some r) (hr' : refusal s json' = some r')
      (hsame : env.status.alloc = true → frameFid json = frameFid json' ∧ r = r') :
      RefusedAlike P s u env d d'

section Text

variable {data : Option Bytes} {json : Json} {q : SessPtr}

theorem onText_dropped (h : readable P u data env = none) :
    wsServerOnText P s conn u data env = .ok s := by
  unfold readable at h
  unfold wsServerOnText
  split at h
  next b bs =>
    cases ha : env.callAlloc with
    | false => simp
    | true =>
        cases hj : P.parse (b :: bs) with
        | none => simp [hj]
        | some json =>
            have hfid : frameFid json = apiHandlerIdGeneral := by simpa [ha, hj] using h
            simp [hj, hfid]
  next => simp

theorem readable_eq_some (h : readable P u data env = some json) :
    ∃ q b bs, u = some q ∧ data = some (b :: bs) ∧ env.callAlloc = true ∧
      P.parse (b :: bs) = some json ∧ frameFid json ≠ apiHandlerIdGeneral := by
  unfold readable at h
  split at h
  next q b bs =>
    split_ifs at h with ha
    obtain ⟨hj, hfid⟩ := Option.filter_eq_some_iff.1 h
    exact ⟨q, b, bs, rfl, rfl, ha, hj, by simpa using hfid⟩
  next => cases h

theorem onText_refused (h : readable P u data env = some json) {r : UInt32 × UInt32}
    (hr : refusal s json = some r) : ∃ q c, u = some q ∧ c.session = some q ∧
      c.ulFid = frameFid json ∧ c.ulId = r.1 ∧
      wsServerOnText P s conn u data env =
        rejectCall (s.allocCall c) s.nextCall r.2 env.status := by
  obtain ⟨q, b, bs, rfl, rfl, ha, hj, hfid⟩ := readable_eq_some h
  unfold refusal at hr
  simp only [wsServerOnText, ha, hj, if_neg hfid]
  split at hr
  next fl sid hfl hsid =>
    split_ifs at hr with hnone
    cases hr
    refine ⟨q, { textCall P env.printAlloc json q with ulId := sid &&& 0xffff }, rfl, rfl, rfl, rfl,
      ?_⟩
    simp only [hfl, hsid, Bool.not_true, Bool.false_eq_true, if_false]
    rw [if_pos (by exact hnone)]
  next hno =>
    cases hr
    refine ⟨q, textCall P env.printAlloc json q, rfl, rfl, rfl, rfl, ?_⟩
    simp only [Bool.not_true, Bool.false_eq_true, if_false]

theorem onText_taken (h : readable P u data env = some json) (hr : refusal s json = none) :
    ∃ c, wsServerOnText P s conn u data env =
      .ok (((s.allocCall c).toCalls s.nextCall).log (.accept s.nextCall conn json c)) := by
  obtain ⟨q, b, bs, rfl, rfl, ha, hj, hfid⟩ := readable_eq_some h
  unfold refusal at hr
  simp only [wsServerOnText, ha, hj, if_neg hfid]
  split at hr
  next fl sid hfl hsid =>
    split_ifs at hr with hnone
    simp only [hfl, hsid, Bool.not_true, Bool.false_eq_true, if_false]
    rw [if_neg (by exact hnone)]
    exact ⟨_, rfl⟩
  next => cases hr

theorem sendToSession_setCall {p : CallPtr} {c c' : ApiCall} (hc : s.calls p = some c)
    (hq : c'.session = c.session) (src : Source) (b : BufPtr) (sent : CallPtr → Bool) :
    sendToSession (s.setCall p c') src p b sent =
      (sendToSession s src p b sent).map (fun r => (r.1.setCall p c', r.2)) := by
  have hc' : (s.setCall p c').call p = .ok c' := call_eq (by simp [Server.setCall])
  have hsess : (s.setCall p c').session c.session = s.session c.session := rfl
  have hnet : (s.setCall p c').net = s.net := rfl
  simp only [sendToSession, call_eq hc, hc', ok_bind, hq, hsess, hnet]
  cases s.session c.session with
  | error => rfl
  | ok sess =>
      simp only [ok_bind]
      cases s.net.buf b with
      | error => rfl
      | ok d =>
          simp only [ok_bind]
          split_ifs
          · rfl
          · have hlog : ∀ (t : Server) e, (t.log e).net = t.net := fun _ _ => rfl
            simp only [hlog, hnet]
            cases s.net.release b with
            | error => rfl
            | ok n => rfl

theorem freeCall_setCall {p : CallPtr} {c : ApiCall} (hc : s.calls p = some c) (c' : ApiCall) :
    (s.setCall p c').freeCall p = s.freeCall p := by
  simp only [Server.freeCall, call_eq hc, call_eq (setCall_calls_self s p c'), ok_bind]
  simp only [Server.setCall, Function.update_idem]

theorem rejectCall_congr (hs : Sound s) {k : Conn} (hk : s.conns conn = some k)
    (hku : k.userData = some q) {c c' : ApiCall} (hc : c.session = some q)
    (hc' : c'.session = some q) {sta sta' : UInt32} {e : SendEnv}
    (h : e.alloc = true → c'.ulFid = c.ulFid ∧ c'.ulId = c.ulId ∧ sta' = sta) :
    rejectCall (s.allocCall c') s.nextCall sta' e = rejectCall (s.allocCall c) s.nextCall sta e := by
  have hq : c'.session = c.session := hc'.trans hc.symm
  have hcall := allocCall_calls_self s c
  have hset : s.allocCall c' = (s.allocCall c).setCall s.nextCall c' := by
    simp [Server.allocCall, Server.setCall]
  have hsend : bApiCallSendStatus (s.allocCall c') .httpd s.nextCall sta' e =
      (bApiCallSendStatus (s.allocCall c) .httpd s.nextCall sta e).map
        (fun r => (r.1.setCall s.nextCall c', r.2)) := by
    simp only [bApiCallSendStatus, apiCallSendJson, call_eq hcall,
      call_eq (allocCall_calls_self s c'), ok_bind, hq]
    split_ifs with h0 hnone ha
    · rw [hset]; rfl
    · rw [hset]; rfl
    · rw [hset]; rfl
    · obtain ⟨hfid, hid, rfl⟩ := h (by simpa using ha)
      rw [hfid, hid, hset]
      exact sendToSession_setCall (s := (s.allocCall c).allocData ..) hcall hq ..
  obtain ⟨m, -, he⟩ := apiCallSendJson_eq (attached_allocCall hs.wf hk hku hc) hs.net hcall .httpd
    (.status sta) e
  have hsent : bApiCallSendStatus (s.allocCall c) .httpd s.nextCall sta e = _ := he
  have hlive : (record (s.allocCall c) m (attempts (s.allocCall c) .httpd s.nextCall (.status sta)
      e)).calls s.nextCall = some c := hcall
  simp only [rejectCall, hsend, hsent, Except.map, ok_bind, freeCall_setCall hlive c']

inductive Ruling (P : Platform) (s : Server) (conn : ConnPtr) (u : Option SessPtr) (env : TextEnv)
    (d : Option Bytes) (t : Server) : Prop
  | dropped (h : readable P u d env = none) (ht : t = s)
  | refused {json : Json} {r : UInt32 × UInt32} {q : SessPtr} {c : ApiCall}
      (h : readable P u d env = some json) (hr : refusal s json = some r) (hu : u = some q)
      (hq : c.session = some q) (hfid : c.ulFid = frameFid json) (hid : c.ulId = r.1)
      (ht : rejectCall (s.allocCall c) s.nextCall r.2 env.status = .ok t)
  | taken {json : Json} {c : ApiCall} (h : readable P u d env = some json)
      (hr : refusal s json = none)
      (ht : t = ((s.allocCall c).toCalls s.nextCall).log (.accept s.nextCall conn json c))

theorem onText_ruling (h : wsServerOnText P s conn u data env = .ok t) :
    Ruling P s conn u env data t := by
  cases hread : readable P u data env with
  | none =>
      rw [onText_dropped hread] at h
      cases h
      exact .dropped hread rfl
  | some json =>
      cases hr : refusal s json with
      | none =>
          obtain ⟨c, he⟩ := @onText_taken P s conn u env data json hread hr
          rw [he] at h
          cases h
          exact .taken hread hr rfl
      | some r =>
          obtain ⟨q, c, hu, hq, hfid, hid, he⟩ := @onText_refused P s conn u env data json hread r hr
          exact .refused hread hr hu hq hfid hid (he ▸ h)

def statusSent (conn : ConnPtr) (p : CallPtr) (fid sid sta : UInt32) (e : SendEnv) : List Event :=
  if e.alloc then [.queue .httpd p conn fid sid (.status sta) (e.sent p)] else []

theorem rejectCall_result (hs : Sound s) {k : Conn} (hk : s.conns conn = some k)
    (hku : k.userData = some q) {c : ApiCall} (hq : c.session = some q) {sta : UInt32} {e : SendEnv}
    (ht : rejectCall (s.allocCall c) s.nextCall sta e = .ok t) :
    t.nextCall = s.nextCall + 1 ∧ t.pxWsApiCall = s.pxWsApiCall ∧ t.conns = s.conns ∧
      t.sessions = s.sessions ∧ t.tick = s.tick ∧
      t.trace = s.trace ++ statusSent conn s.nextCall c.ulFid c.ulId sta e ++ [.free s.nextCall] := by
  obtain ⟨m, -, he⟩ := rejectCall_eq hs hk hku hq sta e
  rw [he] at ht
  cases ht
  refine ⟨rfl, rfl, rfl, rfl, rfl, ?_⟩
  simp only [rejected, attempts_allocCall hs.wf hk hku hq]
  rfl

variable {d d' : Option Bytes} {t' : Server} {k : Conn}

theorem toCalls_new (hs : Sound s) (c : ApiCall) :
    ((s.allocCall c).toCalls s.nextCall).pxWsApiCall = s.pxWsApiCall ++ [s.nextCall] := by
  have hnot : s.nextCall ∉ s.pxWsApiCall := by
    intro hmem
    obtain ⟨c, hc⟩ := hs.wf.call_of_mem (.inl hmem)
    rw [hs.wf.fresh (Nat.le_refl _)] at hc
    cases hc
  show s.pxWsApiCall.erase s.nextCall ++ [s.nextCall] = _
  rw [List.erase_of_not_mem hnot]

theorem statusSent_inj {p : CallPtr} {fid fid' sid sid' sta sta' : UInt32} {e : SendEnv}
    (h : statusSent conn p fid sid sta e = statusSent conn p fid' sid' sta' e)
    (ha : e.alloc = true) : fid = fid' ∧ sid = sid' ∧ sta = sta' := by
  simpa [statusSent, ha] using h

theorem refusedAlike_of_same (hs : Sound s) (hk : s.conns conn = some k)
    (h : wsServerOnText P s conn k.userData d env = .ok t)
    (h' : wsServerOnText P s conn k.userData d' env = .ok t)
    (hlist : t.pxWsApiCall = s.pxWsApiCall) : RefusedAlike P s k.userData env d d' := by
  have hnot : ∀ json c,
      t ≠ ((s.allocCall c).toCalls s.nextCall).log (.accept s.nextCall conn json c) := by
    rintro json c rfl
    exact absurd ((toCalls_new hs c).symm.trans hlist) (by simp)
  cases onText_ruling h with
  | taken _ _ ht => exact absurd ht (hnot _ _)
  | dropped hread ht =>
      cases onText_ruling h' with
      | taken _ _ ht' => exact absurd ht' (hnot _ _)
      | dropped hread' => exact .dropped hread hread'
      | refused _ _ hu' hq' _ _ ht' =>
          obtain ⟨hnext, -⟩ := rejectCall_result hs hk hu' hq' ht'
          simp [ht] at hnext
  | refused hread hr hu hq hfid hid ht =>
      obtain ⟨hnext, -, -, -, -, htrace⟩ := rejectCall_result hs hk hu hq ht
      cases onText_ruling h' with
      | taken _ _ ht' => exact absurd ht' (hnot _ _)
      | dropped _ ht' => simp [ht'] at hnext
      | refused hread' hr' hu' hq' hfid' hid' ht' =>
          obtain ⟨-, -, -, -, -, htrace'⟩ := rejectCall_result hs hk hu' hq' ht'
          refine .refused hread hread' hr hr' (fun ha => ?_)
          rw [htrace, List.append_left_inj, List.append_right_inj] at htrace'
          obtain ⟨hf, hi, hsta⟩ := statusSent_inj htrace' ha
          rw [hfid, hfid'] at hf
          rw [hid, hid'] at hi
          exact ⟨hf, Prod.ext hi hsta⟩

theorem RefusedAlike.same (halike : RefusedAlike P s k.userData env d d') (hs : Sound s)
    (hk : s.conns conn = some k) (h : wsServerOnText P s conn k.userData d env = .ok t)
    (h' : wsServerOnText P s conn k.userData d' env = .ok t') :
    t = t' ∧ t.pxWsApiCall = s.pxWsApiCall := by
  cases halike with
  | dropped hread hread' =>
      rw [onText_dropped hread] at h
      rw [onText_dropped hread'] at h'
      cases h
      cases h'
      exact ⟨rfl, rfl⟩
  | refused hread hread' hr hr' hsame =>
      obtain ⟨q, c, hu, hq, hfid, hid, he⟩ := @onText_refused P s conn k.userData env d _ hread _ hr
      obtain ⟨q', c', hu', hq', hfid', hid', he'⟩ :=
        @onText_refused P s conn k.userData env d' _ hread' _ hr'
      rw [he] at h
      rw [he'] at h'
      have hqq : q' = q := Option.some.inj (hu'.symm.trans hu)
      rw [rejectCall_congr hs hk hu hq (hqq ▸ hq') (fun ha => ?_), h] at h'
      · cases h'
        exact ⟨rfl, (rejectCall_result hs hk hu hq h).2.1⟩
      · obtain ⟨hf, rfl⟩ := hsame ha
        exact ⟨hfid'.trans (hf.symm.trans hfid.symm), hid'.trans hid.symm, rfl⟩

theorem onText_same_iff (hs : Sound s) (hk : s.conns conn = some k)
    (h : wsServerOnText P s conn k.userData d env = .ok t)
    (h' : wsServerOnText P s conn k.userData d' env = .ok t') :
    (t = t' ∧ t.pxWsApiCall = s.pxWsApiCall) ↔ RefusedAlike P s k.userData env d d' := by
  constructor
  · rintro ⟨rfl, hlist⟩
    exact refusedAlike_of_same hs hk h h' hlist
  · exact fun halike => halike.same hs hk h h'

theorem refusal_status {r : UInt32 × UInt32} (h : refusal s json = some r) :
    r.2 = apiCallErrorStatusNoHandler ∨ r.2 = apiCallErrorStatusBadReq := by
  unfold refusal at h
  split at h
  · split_ifs at h
    cases h
    exact .inl rfl
  · cases h
    exact .inr rfl

theorem Ruling.events (h : Ruling P s conn k.userData env d t) (hs : Sound s)
    (hk : s.conns conn = some k) : t.conns = s.conns ∧ t.sessions = s.sessions ∧ t.tick = s.tick ∧
      ∃ evs, t.trace = s.trace ++ evs ∧ ∀ p fid sid,
        .queue .httpd p conn fid sid (.status apiCallErrorStatusFragmented) true ∉ evs := by
  cases h with
  | dropped _ ht =>
      rw [ht]
      exact ⟨rfl, rfl, rfl, [], by simp, by simp⟩
  | taken _ _ ht =>
      rw [ht]
      exact ⟨rfl, rfl, rfl, _, rfl, by simp⟩
  | refused _ hr hu hq _ _ ht =>
      obtain ⟨-, -, hconns, hsess, htick, htrace⟩ := rejectCall_result hs hk hu hq ht
      refine ⟨hconns, hsess, htick, _, htrace.trans (List.append_assoc ..), ?_⟩
      intro p fid sid hmem
      rw [List.mem_append, List.mem_singleton, statusSent] at hmem
      split_ifs at hmem
      · simp only [List.mem_singleton, Event.queue.injEq, Payload.status.injEq,
          or_false] at hmem
        obtain ⟨-, -, -, -, -, hsta, -⟩ := hmem
        rcases refusal_status hr with hno | hbad
        · rw [hno] at hsta
          exact absurd hsta (by decide)
        · rw [hbad] at hsta
          exact absurd hsta (by decide)
      · simp at hmem

end Text

section Delivery

variable {first : Frame} {fs : List Frame} {rest : Bytes} {k : Conn}

def Heard (s : Server) (u : Option SessPtr) : Prop :=
  ∀ q, u = some q → ∃ a, s.sessions q = some a ∧ a.ulAliveTs = s.tick

theorem Heard.touch (h : Heard s u) : touchSession s u = .ok s := by
  cases u with
  | none => rfl
  | some q =>
      obtain ⟨a, ha, htick⟩ := h q rfl
      have hself : { a with ulAliveTs := s.tick } = a := by rw [← htick]
      simp only [touchSession, session_eq ha, ok_bind, hself, Server.setSession]
      rw [← ha, Function.update_eq_self]
      rfl

theorem touchSession_heard (h : touchSession s u = .ok t) :
    Heard t u ∧ ∃ sess, t = { s with sessions := sess } := by
  cases u with
  | none =>
      cases h
      exact ⟨nofun, s.sessions, rfl⟩
  | some q =>
      obtain ⟨a, -, hb⟩ := bind_eq_ok h
      cases hb
      refine ⟨?_, _, rfl⟩
      rintro q' ⟨⟩
      exact ⟨_, Function.update_self .., rfl⟩

def answers (conn : ConnPtr) (fs : List Frame) : List Event :=
  fs.filterMap (fun f => match f.type with
    | .ping => some (.control conn .pong f.sent)
    | .close => some (.control conn .close f.sent)
    | _ => none)

theorem wsServerOnControl_eq (f : Frame) :
    wsServerOnControl s conn f.type f.sent = frames s (answers conn [f]) := by
  cases hf : f.type with
  | ping => simp [wsServerOnControl, answers, hf, frames, Server.log]
  | close => simp [wsServerOnControl, answers, hf, frames, Server.log]
  | _ => simp [wsServerOnControl, answers, hf, frames]

theorem answers_controls (conn : ConnPtr) (fs : List Frame) :
    answers conn (controls fs) = answers conn fs := by
  induction fs with
  | nil => rfl
  | cons f fs ih =>
      cases hf : f.type <;> simp_all [controls, answers]

theorem control_step {f : Frame} (h : (machine P).Step x (wsHttpdHandler conn f) y)
    (hf : f.type ≠ .text) (hk : x.srv.conns conn = some k) (hheard : Heard x.srv k.userData) :
    y.srv = frames x.srv (answers conn [f]) := by
  have h : step P x (wsHttpdHandler conn f) = some (.ok y) := h
  simp only [wsHttpdHandler, step, hk] at h
  split_ifs at h
  rw [← wsServerOnControl_eq]
  simp only [stepFrame, hheard.touch, ok_bind] at h
  cases ht : f.type with
  | text => exact absurd ht hf
  | _ =>
      rw [ht] at h
      cases h
      rfl

/-- A message ends as ws_server_on_text ends with its first frame. -/
theorem deliver_run (hr : Reachable (machine P) x) (htext : first.type = .text)
    (hfs : ∀ f ∈ fs, f.type ≠ .text) (h : Run (machine P) x (deliver conn env first fs) y) :
    ∃ k s t, x.srv.conns conn = some k ∧ touchSession x.srv k.userData = .ok s ∧ Sound s ∧
      wsServerOnText P s conn k.userData first.data env = .ok t ∧
      y.srv = frames t (answers conn fs) := by
  induction fs using List.reverseRecOn generalizing y with
  | nil =>
      obtain ⟨z, hz, htextstep, -⟩ := Along.snoc_iff.1 (show Run (machine P) x
        ([wsHttpdHandler conn first] ++ [.text env]) y from h)
      obtain ⟨x', hx', hframe, -⟩ := Along.snoc_iff.1 (show Run (machine P) x
        ([] ++ [wsHttpdHandler conn first]) z from hz)
      cases Along.nil_iff.1 hx'
      have hsound := (reachable_inv (hr.step hframe)).sound
      have hframe : step P x (wsHttpdHandler conn first) = some (.ok z) := hframe
      simp only [wsHttpdHandler, step] at hframe
      split at hframe
      next k hk =>
        split_ifs at hframe
        obtain ⟨s, hs, hpc⟩ := bind_eq_ok (Option.some.inj hframe)
        rw [htext] at hpc
        cases hpc
        obtain ⟨-, sess, hsess⟩ := touchSession_heard hs
        have hks : s.conns conn = some k := by rw [hsess]; exact hk
        have htextstep : step P ⟨s, x.worker, .text conn first.data⟩ (.text env) = some (.ok y) :=
          htextstep
        simp only [step, hks, Option.bind_some] at htextstep
        obtain ⟨-, t, ht, rfl⟩ := lift_ok htextstep
        exact ⟨k, s, t, hk, hs, hsound, ht, by simp [answers, frames]⟩
      next => cases hframe
  | append_singleton fs f ih =>
      rw [deliver, List.map_append, ← List.append_assoc] at h
      obtain ⟨z, hz, hstep, -⟩ := Along.snoc_iff.1 h
      obtain ⟨k, s, t, hk, hs, hsound, ht, hsrv⟩ := ih (fun f hf => hfs f (by simp [hf])) hz
      obtain ⟨hheard, sess, hsess⟩ := touchSession_heard hs
      have hks : s.conns conn = some k := by rw [hsess]; exact hk
      obtain ⟨hconns, hsessions, htick, -⟩ := (onText_ruling ht).events hsound hks
      refine ⟨k, s, t, hk, hs, hsound, ht, ?_⟩
      have hkz : z.srv.conns conn = some k := by rw [hsrv]; exact (congrFun hconns conn).trans hks
      have hheardz : Heard z.srv k.userData := by
        rw [hsrv]
        intro q hq
        obtain ⟨a, ha, hat⟩ := hheard q hq
        exact ⟨a, (congrFun hsessions q).trans ha, hat.trans htick.symm⟩
      rw [control_step hstep (hfs f (by simp)) hkz hheardz, hsrv]
      simp [answers, frames]

theorem Continued.not_text {final : Bool} (h : Continued final fs rest) :
    ∀ f ∈ fs, f.type ≠ .text := by
  induction h with
  | done => simp
  | cont hf _ ih => simpa [hf] using ih
  | control hf _ ih =>
      rw [List.forall_mem_cons]
      refine ⟨fun ht => ?_, ih⟩
      simp [ht] at hf

theorem Continued.complete (h : Continued true fs rest) : rest = [] ∧ ∀ f ∈ fs, f.type ≠ .cont := by
  generalize hb : true = b at h
  induction h with
  | done => simp
  | cont => cases hb
  | control hf _ ih =>
      obtain ⟨hrest, hfs⟩ := ih hb
      rw [List.forall_mem_cons]
      refine ⟨hrest, fun ht => ?_, hfs⟩
      simp [ht] at hf

theorem Continued.fragment (h : Continued false fs rest) :
    ∃ gs f hs, fs = gs ++ f :: hs ∧ f.type = .cont := by
  generalize hb : false = b at h
  induction h with
  | done => cases hb
  | @cont f fs _ hf => exact ⟨[], f, fs, rfl, hf⟩
  | @control g _ _ _ _ _ ih =>
      obtain ⟨gs, f, hs, rfl, hf⟩ := ih hb
      exact ⟨g :: gs, f, hs, rfl, hf⟩

theorem frames_inj {evs : List Event} : frames s evs = frames t evs ↔ s = t := by
  constructor
  · intro h
    cases s
    cases t
    simpa [frames] using h
  · rintro rfl
    rfl

theorem mem_answers {e : Event} (h : e ∈ answers conn fs) :
    ∃ type sent, e = .control conn type sent := by
  obtain ⟨f, -, hf⟩ := List.mem_filterMap.1 h
  split at hf
  · exact ⟨_, _, (Option.some.inj hf).symm⟩
  · exact ⟨_, _, (Option.some.inj hf).symm⟩
  · cases hf

theorem untold (hr : Reachable (machine P) x) (htext : first.type = .text)
    (hfs : ∀ f ∈ fs, f.type ≠ .text) (h : Run (machine P) x (deliver conn env first fs) y) :
    ¬ ToldFragmented conn x.srv y.srv := by
  obtain ⟨k, s, t, hk, hs, hsound, ht, hy⟩ := deliver_run hr htext hfs h
  obtain ⟨-, sess, rfl⟩ := touchSession_heard hs
  obtain ⟨-, -, -, evs, htrace, hnot⟩ := (onText_ruling ht).events hsound hk
  rintro ⟨evs', p, fid, sid, htrace', hmem⟩
  have hevs : evs' = evs ++ answers conn fs := by
    rw [← List.append_right_inj x.srv.trace, ← List.append_assoc, ← htrace, ← htrace', hy]
    rfl
  rw [hevs, List.mem_append] at hmem
  rcases hmem with hmem | hmem
  · exact hnot p fid sid hmem
  · obtain ⟨type, sent, he⟩ := mem_answers hmem
    cases he

theorem RefusedAlike.congr {sess : SessPtr → Option ApiSession} {d d' : Option Bytes} :
    RefusedAlike P { s with sessions := sess } u env d d' ↔ RefusedAlike P s u env d d' := by
  constructor
  · intro h
    cases h with
    | dropped h h' => exact .dropped h h'
    | refused h h' hr hr' hsame => exact .refused h h' hr hr' hsame
  · intro h
    cases h with
    | dropped h h' => exact .dropped h h'
    | refused h h' hr hr' hsame => exact .refused h h' hr hr' hsame

/-- A message in fragments comes to what it should exactly when it is no message
in fragments, or its first fragment and the whole of it are refused alike. -/
theorem fragments_honoured_iff (hr : Reachable (machine P) x) (htext : first.type = .text)
    (hfs : Continued first.final fs rest) {y' : System}
    (hy : Run (machine P) x (deliver conn env first fs) y)
    (hy' : Run (machine P) x (deliver conn env (whole first rest) (controls fs)) y') :
    Honoured P conn env first fs x y y' ↔ first.final = true ∨
      RefusedAlike P x.srv ((x.srv.conns conn).bind Conn.userData) env first.data
        (whole first rest).data := by
  have hcontrols : ∀ f ∈ controls fs, f.type ≠ .text :=
    fun f hf => hfs.not_text f (List.mem_of_mem_filter hf)
  obtain ⟨k, s, t, hk, hs, hsound, ht, hyt⟩ := deliver_run hr htext hfs.not_text hy
  obtain ⟨k', s', t', hk', hs', -, ht', hyt'⟩ :=
    deliver_run hr (show (whole first rest).type = .text from htext) hcontrols hy'
  cases hk.symm.trans hk'
  cases hs.symm.trans hs'
  obtain ⟨-, sess, rfl⟩ := touchSession_heard hs
  rw [answers_controls] at hyt'
  have hbefore : ∀ gs f hs z, fs = gs ++ f :: hs →
      Run (machine P) x (deliver conn env first gs) z → z.srv.pxWsApiCall = t.pxWsApiCall := by
    intro gs f hs z hsplit hz
    have hgs : ∀ g ∈ gs, g.type ≠ .text := fun g hg => hfs.not_text g (by simp [hsplit, hg])
    obtain ⟨i, r, v, hi, hir, -, hv, hzv⟩ := deliver_run hr htext hgs hz
    cases hk.symm.trans hi
    cases hs'.symm.trans hir
    cases ht.symm.trans hv
    rw [hzv]
    rfl
  have hsame := onText_same_iff hsound hk ht ht'
  rw [hk, Option.bind_some, ← RefusedAlike.congr, ← hsame]
  constructor
  · intro h
    cases hfinal : first.final with
    | true => exact .inl rfl
    | false =>
        rw [hfinal] at hfs
        obtain ⟨gs, f, hs, hsplit, hf⟩ := hfs.fragment
        have hsplitrun := hy
        rw [hsplit, deliver, List.map_append, ← List.append_assoc] at hsplitrun
        obtain ⟨z, hz, -⟩ := hsplitrun.of_append
        have hlist : t.pxWsApiCall = x.srv.pxWsApiCall :=
          (hbefore gs f hs z hsplit hz).symm.trans (h.single gs f hs z hsplit hf hz)
        refine .inr ⟨?_, hlist⟩
        have he := h.effect.resolve_right (fun hno => untold hr htext hfs.not_text hy hno.2)
        rwa [hyt, hyt', frames_inj] at he
  · intro h
    rcases h with hfinal | ⟨htt, hlist⟩
    · rw [hfinal] at hfs
      obtain ⟨rfl, hno⟩ := hfs.complete
      have hdata : (whole first []).data = first.data := by simp [whole, Frame.data]
      rw [hdata, ht] at ht'
      cases ht'
      refine ⟨.inl (hyt.trans hyt'.symm), ?_⟩
      rintro gs f hs z rfl hf
      exact absurd hf (hno f (by simp))
    · refine ⟨.inl ?_, fun gs f hs z hsplit _ hz => (hbefore gs f hs z hsplit hz).trans hlist⟩
      rw [hyt, hyt', htt]

end Delivery

section Samples

def lenient (rs : List (Nat × Nat × Nat)) : Platform where
  parse text := (rs.find? (fun r => (requestText r).isPrefixOf text)).map requestJson
  print _ := []
  msToTicks t := t

def uartRequest : Nat × Nat × Nat := (0x1011, 0, 5)

def device : Platform := lenient [uartRequest]

def firstPart (n : Nat) : Frame := ⟨.text, false, (requestText uartRequest).take n, true⟩

def lastBytes (n : Nat) : Bytes := (requestText uartRequest).drop n ++ [0x20]

def otherParts (n : Nat) : List Frame :=
  [⟨.ping, true, [], true⟩, ⟨.cont, true, lastBytes n, true⟩]

theorem parts_continued (n : Nat) :
    Continued (firstPart n).final (otherParts n) (lastBytes n) := by
  have h := Continued.cont (f := ⟨.cont, true, lastBytes n, true⟩) rfl .done
  rw [List.append_nil] at h
  exact .control (.inl rfl) h

def textOk : TextEnv := ⟨true, true, okSend⟩

def inParts (n : Nat) : List Label := deliver 0 textOk (firstPart n) (otherParts n)

def inOne (n : Nat) : List Label :=
  deliver 0 textOk (whole (firstPart n) (lastBytes n)) (controls (otherParts n))

theorem fragments_honoured_refused : ∃ x y y', Reachable (machine device) x ∧
    Run (machine device) x (inParts 30) y ∧ Run (machine device) x (inOne 30) y' ∧
    Honoured device 0 textOk (firstPart 30) (otherParts 30) x y y' := by
  have h : (machine device).reaches (initSystem (fun _ => 1)) [.connect 1 true] (fun x =>
      (readable device ((x.srv.conns 0).bind Conn.userData) (firstPart 30).data textOk).any
          (fun json => frameFid json == 0x1011 &&
            refusal x.srv json == some (5, apiCallErrorStatusNoHandler)) &&
        (readable device ((x.srv.conns 0).bind Conn.userData)
          (whole (firstPart 30) (lastBytes 30)).data textOk).any
            (fun json => frameFid json == 0x1011 &&
              refusal x.srv json == some (5, apiCallErrorStatusNoHandler)) &&
        (machine device).reaches x (inParts 30) (fun _ => true) &&
        (machine device).reaches x (inOne 30) (fun _ => true)) = true := by decide +kernel
  obtain ⟨x, hrun, hx⟩ := exists_of_reaches h
  simp only [Bool.and_eq_true] at hx
  obtain ⟨⟨⟨hfirst, hwhole⟩, hparts⟩, hone⟩ := hx
  obtain ⟨json, hread, hjson⟩ := (Option.any_eq_true ..).1 hfirst
  obtain ⟨json', hread', hjson'⟩ := (Option.any_eq_true ..).1 hwhole
  rw [Bool.and_eq_true, beq_iff_eq, beq_iff_eq] at hjson hjson'
  obtain ⟨y, hy, -⟩ := exists_of_reaches hparts
  obtain ⟨y', hy', -⟩ := exists_of_reaches hone
  have halike : RefusedAlike device x.srv ((x.srv.conns 0).bind Conn.userData) textOk
      (firstPart 30).data (whole (firstPart 30) (lastBytes 30)).data :=
    .refused hread hread' hjson.2 hjson'.2 (fun _ => ⟨hjson.1.trans hjson'.1.symm, rfl⟩)
  have hr : Reachable (machine device) x := ⟨_, _, ⟨_, rfl⟩, hrun⟩
  exact ⟨x, y, y', hr, hy, hy',
    (fragments_honoured_iff hr rfl (parts_continued 30) hy hy').2 (.inr halike)⟩

/-- A request that is cut in the middle is lost without a word, and one that is cut
behind its last brace is taken up before its last fragment is there. -/
theorem fragments_lost_or_early : ∃ x, Reachable (machine device) x ∧
    (∀ n, Continued (firstPart n).final (otherParts n) (lastBytes n)) ∧
    (∃ y y', Run (machine device) x (inParts 10) y ∧ Run (machine device) x (inOne 10) y' ∧
      y.srv.pxWsApiCall = [] ∧ y'.srv.pxWsApiCall = [0] ∧ ¬ ToldFragmented 0 x.srv y.srv ∧
      ¬ Honoured device 0 textOk (firstPart 10) (otherParts 10) x y y') ∧
    ∃ y y', Run (machine device) x (inParts 30) y ∧ Run (machine device) x (inOne 30) y' ∧
      ¬ Honoured device 0 textOk (firstPart 30) (otherParts 30) x y y' := by
  have h : (machine device).reaches (initSystem (fun _ => 1))
      [.registerQueue 0x1011 (some 0) true true, .connect 1 true] (fun x =>
        x.srv.pxWsApiCall.isEmpty &&
        (machine device).reaches x (inParts 10) (fun y => y.srv.pxWsApiCall == []) &&
        (machine device).reaches x (inOne 10) (fun y => y.srv.pxWsApiCall == [0]) &&
        (machine device).reaches x (deliver 0 textOk (firstPart 30) [⟨.ping, true, [], true⟩])
          (fun z => z.srv.pxWsApiCall == [0]) &&
        (machine device).reaches x (inParts 30) (fun _ => true) &&
        (machine device).reaches x (inOne 30) (fun _ => true)) = true := by decide +kernel
  obtain ⟨x, hrun, hx⟩ := exists_of_reaches h
  simp only [Bool.and_eq_true] at hx
  obtain ⟨⟨⟨⟨⟨hempty, hlost⟩, hone⟩, hearly⟩, hparts⟩, hone'⟩ := hx
  have hr : Reachable (machine device) x := ⟨_, _, ⟨_, rfl⟩, hrun⟩
  refine ⟨x, hr, parts_continued, ?_, ?_⟩
  · obtain ⟨y, hy, hnone⟩ := exists_of_reaches hlost
    obtain ⟨y', hy', hsome⟩ := exists_of_reaches hone
    rw [beq_iff_eq] at hnone hsome
    have huntold := untold hr rfl (parts_continued 10).not_text hy
    refine ⟨y, y', hy, hy', hnone, hsome, huntold, fun hh => ?_⟩
    have he := hh.effect.resolve_right (fun hno => huntold hno.2)
    rw [← he, hnone] at hsome
    cases hsome
  · obtain ⟨y, hy, -⟩ := exists_of_reaches hparts
    obtain ⟨y', hy', -⟩ := exists_of_reaches hone'
    obtain ⟨z, hz, hsome⟩ := exists_of_reaches hearly
    refine ⟨y, y', hy, hy', fun hh => ?_⟩
    have hlist := hh.single [⟨.ping, true, [], true⟩] _ [] z rfl rfl hz
    rw [beq_iff_eq] at hsome
    rw [hsome, List.isEmpty_iff.1 hempty] at hlist
    cases hlist

end Samples

end WirelessGateway.Fragments
