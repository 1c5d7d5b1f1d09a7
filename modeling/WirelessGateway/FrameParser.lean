import WirelessGateway.Steps

namespace WirelessGateway.FrameParser

open CJson WirelessGateway.Types Memory WsServer Transport Tasks Sends WellFormed SoftSteps
open Lifecycle Operations Requests Steps Lib.Fallible Lib.Runs

variable {P : Platform} {s : Server} {conn : ConnPtr} {k : Conn} {sess : SessPtr}
variable {payload : Option Bytes} {len : UInt32} {env : TextEnv}

def wsFidReserved : UInt32 := 0

structure WsParsedFrame where
  fid : UInt32
  sid : UInt32
  flags : UInt32

inductive WsParseResult
  | ok (out : WsParsedFrame)
  | noPayload
  | badJson
  | badFid
  | missingFlags
  | missingSid

def parsedFid (json : Json) : UInt32 :=
  match json.getObjectItem ['F', 'I', 'D'] with
  | some (.number valueint _) => valueint.toUInt32
  | some (.string valuestring) => UInt32.ofInt (strtol16 valuestring)
  | _ => wsFidReserved

def wsFrameParse (P : Platform) (payload : Option Bytes) (len : UInt32) : WsParseResult :=
  match payload with
  | none => .noPayload
  | some bs =>
    if len = 0 then .noPayload
    else match P.parse (bs.take len.toNat) with
    | none => .badJson
    | some json =>
      let fid := parsedFid json
      if fid = wsFidReserved then .badFid
      else match json.getObjectItem ['F', 'L', 'A', 'G', 'S'] with
      | some (.number flags _) => match json.getObjectItem ['S', 'I', 'D'] with
        | some (.number sid _) => .ok ⟨fid, sid.toUInt32 &&& 0xffff, flags.toUInt32⟩
        | _ => .missingSid
      | _ => .missingFlags

def WsParseResult.dropped : WsParseResult → Bool
  | .noPayload | .badJson | .badFid => true
  | _ => false

def WsParseResult.missing : WsParseResult → Bool
  | .missingFlags | .missingSid => true
  | _ => false

theorem not_missing {r : WsParseResult} (h : r.dropped = true) : ¬ r.missing = true := by
  cases r <;> simp_all [WsParseResult.dropped, WsParseResult.missing]

def frameData (payload : Option Bytes) (len : UInt32) : Option Bytes :=
  payload.map (fun bs => bs.take len.toNat)

def payloadFid (P : Platform) (payload : Option Bytes) (len : UInt32) : UInt32 :=
  (((frameData payload len).bind P.parse).map parsedFid).getD wsFidReserved

/-- What ws_server_on_text has found out about a frame when it comes to take
the mutex. -/
inductive Validated
  | dropped
  | badReq (wscd : ApiCall)
  | passed (json : Json) (wscd : ApiCall)

def validateText (P : Platform) (printAlloc : Bool) (sess : SessPtr) (data : Option Bytes) :
    Validated :=
  match data with
  | some (b :: bs) => match P.parse (b :: bs) with
    | none => .dropped
    | some json =>
      if frameFid json = apiHandlerIdGeneral then .dropped
      else
        let wscd := textCall P printAlloc json sess
        match frameNumber json ['F', 'L', 'A', 'G', 'S'], frameNumber json ['S', 'I', 'D'] with
        | some _, some sid => .passed json { wscd with ulId := sid &&& 0xffff }
        | _, _ => .badReq wscd
  | _ => .dropped

def settleText (s : Server) (conn : ConnPtr) (env : TextEnv) : Validated → Fallible Server
  | .dropped => pure s
  | .badReq wscd => rejectCall (s.allocCall wscd) s.nextCall apiCallErrorStatusBadReq env.status
  | .passed json wscd =>
    let hlr := s.findHandler wscd.ulFid
    if hlr.isNone && (s.wsGetFidQueue wscd.ulFid).isNone then
      rejectCall (s.allocCall wscd) s.nextCall apiCallErrorStatusNoHandler env.status
    else
      let wscd := { wscd with
        fHandler := hlr.map ApiHandlerItem.fHandler
        pxHandlerContext := (hlr.map ApiHandlerItem.xHandlerContext).getD 0 }
      pure (((s.allocCall wscd).toCalls s.nextCall).log (.accept s.nextCall conn json wscd))

theorem wsServerOnText_eq (conn : ConnPtr) (sess : SessPtr) (halloc : env.callAlloc = true)
    (data : Option Bytes) :
    wsServerOnText P s conn (some sess) data env =
      settleText s conn env (validateText P env.printAlloc sess data) := by
  match data with
  | none => rfl
  | some [] => rfl
  | some (b :: bs) =>
      simp only [wsServerOnText, validateText, halloc, Bool.not_true, Bool.false_eq_true, if_false]
      cases P.parse (b :: bs) with
      | none => rfl
      | some json =>
          dsimp only
          by_cases hfid : frameFid json = apiHandlerIdGeneral
          · rw [if_pos hfid, if_pos hfid]
            rfl
          · rw [if_neg hfid, if_neg hfid]
            cases frameNumber json ['F', 'L', 'A', 'G', 'S'] <;>
              cases frameNumber json ['S', 'I', 'D'] <;> rfl

theorem parsedFid_eq (json : Json) : parsedFid json = frameFid json := by
  unfold parsedFid frameFid Json.parseInt
  cases json.getObjectItem ['F', 'I', 'D'] with
  | none => rfl
  | some v => cases v <;> rfl

theorem frameNumber_isNone {json : Json} {name : List Char}
    (h : ∀ i d, json.getObjectItem name ≠ some (.number i d)) : frameNumber json name = none := by
  unfold frameNumber
  split
  next i d hi => exact absurd hi (h i d)
  next => rfl

theorem frameNumber_number {json : Json} {name : List Char} {i : Int32} {d : ℚ}
    (h : json.getObjectItem name = some (.number i d)) :
    frameNumber json name = some i.toUInt32 := by
  simp [frameNumber, h]

theorem frameData_cons {bs : Bytes} (hlen : len.toNat ≤ bs.length) (h : len ≠ 0) :
    ∃ b cs, bs.take len.toNat = b :: cs := by
  have hpos : 0 < len.toNat := by
    rw [Nat.pos_iff_ne_zero]
    intro h0
    exact h (UInt32.toNat_inj.1 h0)
  cases htake : bs.take len.toNat with
  | nil =>
      have := congrArg List.length htake
      simp only [List.length_take, List.length_nil] at this
      omega
  | cons b cs => exact ⟨b, cs, rfl⟩

theorem verdicts (sess : SessPtr) (hlen : ∀ bs, payload = some bs → len.toNat ≤ bs.length)
    (printAlloc : Bool) :
    ((wsFrameParse P payload len).dropped = true ∧
      validateText P printAlloc sess (frameData payload len) = .dropped) ∨
    (∃ wscd, (wsFrameParse P payload len).missing = true ∧
      validateText P printAlloc sess (frameData payload len) = .badReq wscd ∧
      wscd.session = some sess ∧ wscd.ulFid = payloadFid P payload len ∧ wscd.ulId = 0) ∨
    ∃ out json wscd, wsFrameParse P payload len = .ok out ∧
      validateText P printAlloc sess (frameData payload len) = .passed json wscd ∧
      wscd.session = some sess ∧ wscd.ulFid = out.fid ∧ wscd.ulId = out.sid ∧
      wscd.flags = out.flags ||| callFlagNew := by
  cases payload with
  | none => exact .inl ⟨rfl, rfl⟩
  | some bs =>
      by_cases h0 : len = 0
      · subst h0
        exact .inl ⟨rfl, rfl⟩
      obtain ⟨b, cs, htake⟩ := frameData_cons (hlen bs rfl) h0
      simp only [wsFrameParse, h0, if_false, frameData, Option.map_some, htake, validateText,
        payloadFid, Option.bind_some]
      cases P.parse (b :: cs) with
      | none => exact .inl ⟨rfl, rfl⟩
      | some json =>
          simp only [parsedFid_eq, Option.map_some, Option.getD_some]
          by_cases hfid : frameFid json = 0
          · exact .inl (by simp [hfid, wsFidReserved, apiHandlerIdGeneral, WsParseResult.dropped])
          simp only [wsFidReserved, apiHandlerIdGeneral, hfid, if_false]
          split
          next flags d hflags =>
            rw [frameNumber_number hflags]
            split
            next sid e hsid =>
              refine .inr (.inr ⟨_, json, _, rfl, by rw [frameNumber_number hsid], rfl, rfl, rfl, ?_⟩)
              simp [textCall, frameNumber_number hflags, UInt32.or_comm]
            next hsid =>
              exact .inr (.inl ⟨_, rfl, by rw [frameNumber_isNone hsid], rfl, rfl, rfl⟩)
          next hflags =>
            exact .inr (.inl ⟨_, rfl, by rw [frameNumber_isNone hflags], rfl, rfl, rfl⟩)

theorem rejectCall_trace (hs : Sound s) (hk : s.conns conn = some k)
    (hq : k.userData = some sess) {c : ApiCall} (hc : c.session = some sess) (sta : UInt32)
    {env : SendEnv} (halloc : env.alloc = true) :
    ∃ t, rejectCall (s.allocCall c) s.nextCall sta env = .ok t ∧ t.trace = s.trace ++
      [.queue .httpd s.nextCall conn c.ulFid c.ulId (.status sta) (env.sent s.nextCall),
        .free s.nextCall] := by
  obtain ⟨m, -, he⟩ := rejectCall_eq hs hk hq hc sta env
  refine ⟨_, he, ?_⟩
  rw [attempts_allocCall hs.wf hk hq hc, if_pos halloc]
  simp [rejected, Server.withNet]

structure Agrees (P : Platform) (s : Server) (conn : ConnPtr) (sess : SessPtr)
    (payload : Option Bytes) (len : UInt32) (env : TextEnv) : Prop where
  runs : wsServerOnText P s conn (some sess) (frameData payload len) env =
    settleText s conn env (validateText P env.printAlloc sess (frameData payload len))
  passes : (∃ out, wsFrameParse P payload len = .ok out) ↔
    ∃ json wscd, validateText P env.printAlloc sess (frameData payload len) = .passed json wscd
  fields : ∀ out json wscd, wsFrameParse P payload len = .ok out →
    validateText P env.printAlloc sess (frameData payload len) = .passed json wscd →
    wscd.ulFid = out.fid ∧ wscd.ulId = out.sid ∧ wscd.flags = out.flags ||| callFlagNew
  answers : ∀ fid, ((wsFrameParse P payload len).missing = true ∧
    payloadFid P payload len = fid) ↔
    ∃ t sent, wsServerOnText P s conn (some sess) (frameData payload len) env = .ok t ∧
      t.trace = s.trace ++ [.queue .httpd s.nextCall conn fid 0 (.status apiCallErrorStatusBadReq)
        sent, .free s.nextCall]
  drops : (wsFrameParse P payload len).dropped = true ↔
    wsServerOnText P s conn (some sess) (frameData payload len) env = .ok s

theorem settleText_trace (hs : Sound s) (hk : s.conns conn = some k)
    (hq : k.userData = some sess) (halloc : env.status.alloc = true) (json : Json) {wscd : ApiCall}
    (hc : wscd.session = some sess) :
    ∃ t e l, settleText s conn env (.passed json wscd) = .ok t ∧ t.trace = s.trace ++ e :: l ∧
      ∀ fid sid sent, e ≠ .queue .httpd s.nextCall conn fid sid
        (.status apiCallErrorStatusBadReq) sent := by
  simp only [settleText]
  split
  · obtain ⟨t, ht, htrace⟩ := rejectCall_trace hs hk hq hc apiCallErrorStatusNoHandler halloc
    refine ⟨t, _, _, ht, htrace, fun fid sid sent h => ?_⟩
    simp [apiCallErrorStatusNoHandler, apiCallErrorStatusBadReq] at h
  · exact ⟨_, _, [], rfl, rfl, fun fid sid sent h => by cases h⟩

theorem agrees_dropped (hcall : env.callAlloc = true)
    (hparse : (wsFrameParse P payload len).dropped = true)
    (hval : validateText P env.printAlloc sess (frameData payload len) = .dropped) :
    Agrees P s conn sess payload len env := by
  have hruns := wsServerOnText_eq (P := P) (s := s) conn sess hcall (frameData payload len)
  have hrun : wsServerOnText P s conn (some sess) (frameData payload len) env = .ok s := by
    rw [hruns, hval]
    rfl
  constructor
  · exact hruns
  · refine iff_of_false (fun ⟨out, h⟩ => ?_) (fun ⟨json, wscd, h⟩ => ?_)
    · rw [h] at hparse
      cases hparse
    · rw [hval] at h
      cases h
  · intro out json wscd h
    rw [h] at hparse
    cases hparse
  · intro fid
    refine ⟨fun h => absurd h.1 (not_missing hparse), ?_⟩
    rintro ⟨t, sent, ht, htrace⟩
    rw [hrun, Except.ok.injEq] at ht
    simp [← ht] at htrace
  · exact iff_of_true hparse hrun

theorem agrees_badReq (hs : Sound s) (hk : s.conns conn = some k) (hq : k.userData = some sess)
    (hcall : env.callAlloc = true) (hstatus : env.status.alloc = true) {wscd : ApiCall}
    (hparse : (wsFrameParse P payload len).missing = true)
    (hval : validateText P env.printAlloc sess (frameData payload len) = .badReq wscd)
    (hsess : wscd.session = some sess) (hfid : wscd.ulFid = payloadFid P payload len)
    (hid : wscd.ulId = 0) : Agrees P s conn sess payload len env := by
  have hruns := wsServerOnText_eq (P := P) (s := s) conn sess hcall (frameData payload len)
  obtain ⟨t, ht, htrace⟩ := rejectCall_trace hs hk hq hsess apiCallErrorStatusBadReq hstatus
  have hrun : wsServerOnText P s conn (some sess) (frameData payload len) env = .ok t := by
    rw [hruns, hval]
    exact ht
  rw [hfid, hid] at htrace
  constructor
  · exact hruns
  · refine iff_of_false (fun ⟨out, h⟩ => ?_) (fun ⟨json, wscd, h⟩ => ?_)
    · rw [h] at hparse
      cases hparse
    · rw [hval] at h
      cases h
  · intro out json wscd h
    rw [h] at hparse
    cases hparse
  · intro fid
    constructor
    · rintro ⟨-, rfl⟩
      exact ⟨t, _, hrun, htrace⟩
    · rintro ⟨t', sent, ht', htrace'⟩
      rw [hrun, Except.ok.injEq] at ht'
      rw [← ht', htrace, List.append_cancel_left_eq] at htrace'
      simp only [List.cons.injEq, Event.queue.injEq] at htrace'
      exact ⟨hparse, htrace'.1.2.2.2.1⟩
  · refine iff_of_false (fun h => not_missing h hparse) (fun h => ?_)
    rw [hrun, Except.ok.injEq] at h
    simp [h] at htrace

theorem agrees_passed (hs : Sound s) (hk : s.conns conn = some k) (hq : k.userData = some sess)
    (hcall : env.callAlloc = true) (hstatus : env.status.alloc = true) {out : WsParsedFrame}
    {json : Json} {wscd : ApiCall} (hparse : wsFrameParse P payload len = .ok out)
    (hval : validateText P env.printAlloc sess (frameData payload len) = .passed json wscd)
    (hsess : wscd.session = some sess) (hfields : wscd.ulFid = out.fid ∧ wscd.ulId = out.sid ∧
      wscd.flags = out.flags ||| callFlagNew) : Agrees P s conn sess payload len env := by
  have hruns := wsServerOnText_eq (P := P) (s := s) conn sess hcall (frameData payload len)
  obtain ⟨t, e, l, ht, htrace, he⟩ := settleText_trace hs hk hq hstatus json hsess
  have hrun : wsServerOnText P s conn (some sess) (frameData payload len) env = .ok t := by
    rw [hruns, hval]
    exact ht
  constructor
  · exact hruns
  · exact iff_of_true ⟨out, hparse⟩ ⟨json, wscd, hval⟩
  · intro out' json' wscd' hparse' hval'
    rw [hparse] at hparse'
    rw [hval] at hval'
    cases hparse'
    cases hval'
    exact hfields
  · intro fid
    rw [hparse]
    refine ⟨fun h => absurd h.1 Bool.false_ne_true, ?_⟩
    rintro ⟨t', sent, ht', htrace'⟩
    rw [hrun, Except.ok.injEq] at ht'
    rw [← ht', htrace, List.append_cancel_left_eq, List.cons.injEq] at htrace'
    exact absurd htrace'.1 (he _ _ _)
  · rw [hparse]
    refine iff_of_false (fun h => by cases h) (fun h => ?_)
    rw [hrun, Except.ok.injEq] at h
    simp [h] at htrace

/-- For every payload, WsFrame_Parse returns what ws_server_on_text does when
its allocations succeed. -/
theorem parser_agrees {x : System} (hx : Reachable (machine P) x) (hk : x.srv.conns conn = some k)
    (hq : k.userData = some sess) (hlen : ∀ bs, payload = some bs → len.toNat ≤ bs.length)
    (hcall : env.callAlloc = true) (hstatus : env.status.alloc = true) :
    Agrees P x.srv conn sess payload len env := by
  have hs := (reachable_inv hx).sound
  rcases verdicts (P := P) sess hlen env.printAlloc with
    ⟨hparse, hval⟩ | ⟨wscd, hparse, hval, hsess, hfid, hid⟩ |
    ⟨out, json, wscd, hparse, hval, hsess, hfields⟩
  · exact agrees_dropped hcall hparse hval
  · exact agrees_badReq hs hk hq hcall hstatus hparse hval hsess hfid hid
  · exact agrees_passed hs hk hq hcall hstatus hparse hval hsess hfields

def connected : List Label := [.connect 1 true]

theorem parser_agrees_echo : ∃ s : Server, Agrees (platform [(0x1013, 0, 5)]) s 0 0
    (some (requestText (0x1013, 0, 5))) 30 ⟨true, true, okSend⟩ := by
  have h : (machine (platform [(0x1013, 0, 5)])).reaches (initSystem (fun _ => 10)) connected
      (fun x => (x.srv.conns 0).any (fun k => k.userData == some 0)) = true := by decide +kernel
  obtain ⟨x, hrun, hx⟩ := exists_of_reaches h
  obtain ⟨k, hk, hq⟩ := (Option.any_eq_true _ _).1 hx
  refine ⟨x.srv, parser_agrees ⟨_, _, ⟨_, rfl⟩, hrun⟩ hk (by simpa using hq) ?_ rfl rfl⟩
  intro bs hbs
  rw [← Option.some.inj hbs]
  decide

end WirelessGateway.FrameParser
