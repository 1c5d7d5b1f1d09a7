import WirelessGateway.Buffers
import WirelessGateway.WsServer

namespace WirelessGateway.Sends

open WirelessGateway.Types Memory WsServer Buffers Lib.Linked Lib.Fallible

variable {s : Server} {p : CallPtr} {c : ApiCall}

/-- Every session that a call points to is allocated. -/
def Attached (s : Server) : Prop :=
  ∀ p c q, s.calls p = some c → c.session = some q → ∃ x, s.sessions q = some x

def target (s : Server) (p : CallPtr) : Option (ApiCall × ApiSession) :=
  (s.calls p).bind (fun c => c.session.bind (fun q => (s.sessions q).map (fun x => (c, x))))

def frames (s : Server) (evs : List Event) : Server := { s with trace := s.trace ++ evs }

def record (s : Server) (n : Net) (evs : List Event) : Server := frames (s.withNet n) evs

def isTarget (s : Server) (fid : UInt32) (p : CallPtr) : Bool :=
  (s.calls p).any (fun c => c.ulFid == fid && c.session.isSome)

def attempts (s : Server) (src : Source) (p : CallPtr) (arg : Payload) (env : SendEnv) :
    List Event :=
  match target s p with
  | some (c, x) =>
    if env.alloc then [.queue src p x.conn c.ulFid c.ulId arg (env.sent p)] else []
  | none => []

def delivered (s : Server) (p : CallPtr) (env : SendEnv) : Bool :=
  (target s p).isSome && env.alloc && env.sent p

def groupAttempts (s : Server) (src : Source) (fid : UInt32) (arg : Payload)
    (sent : CallPtr → Bool) (ps : List CallPtr) : List Event :=
  (ps.filter (isTarget s fid)).filterMap (fun p =>
    (target s p).map (fun t => .queue src p t.2.conn fid 0 arg (sent p)))

/-- The result of a loop of a group send: that of the send to its last target. -/
def groupResult (s : Server) (fid : UInt32) (sent : CallPtr → Bool) (ps : List CallPtr)
    (res : Bool) : Bool :=
  ((ps.filter (isTarget s fid)).getLast?.map sent).getD res

/-- The calls in the order in which a group send looks at them. -/
def groupOrder (s : Server) : List CallPtr := s.pxWsApiWaitingForResponse ++ s.pxWsApiCall

theorem call_eq (hc : s.calls p = some c) : s.call p = .ok c := by
  simp [Server.call, hc]

theorem session_eq {q : SessPtr} {x : ApiSession} (hx : s.sessions q = some x) :
    s.session (some q) = .ok x := by
  simp [Server.session, hx]

theorem target_eq {q : SessPtr} {x : ApiSession} (hc : s.calls p = some c)
    (hq : c.session = some q) (hx : s.sessions q = some x) : target s p = some (c, x) := by
  simp [target, hc, hq, hx]

theorem target_eq_none (hc : s.calls p = some c) (hq : c.session = none) : target s p = none := by
  simp [target, hc, hq]

theorem target_eq_some_iff {x : ApiSession} : target s p = some (c, x) ↔
    s.calls p = some c ∧ ∃ q, c.session = some q ∧ s.sessions q = some x := by
  unfold target
  cases hc : s.calls p with
  | none => simp
  | some d =>
      cases hq : d.session with
      | none =>
          simp only [Option.bind_some, hq, Option.bind_none, reduceCtorEq, Option.some.injEq,
            false_iff, not_and, not_exists]
          rintro rfl q hq'
          simp [hq] at hq'
      | some q =>
          cases hx : s.sessions q with
          | none =>
              simp only [Option.bind_some, hq, hx, Option.map_none, reduceCtorEq,
                Option.some.injEq, false_iff, not_and, not_exists]
              rintro rfl q' hq'
              rw [hq, Option.some.injEq] at hq'
              simp [← hq', hx]
          | some y =>
              simp only [Option.bind_some, hq, hx, Option.map_some, Option.some.injEq,
                Prod.mk.injEq]
              constructor
              · rintro ⟨rfl, rfl⟩
                exact ⟨rfl, q, hq, hx⟩
              · rintro ⟨rfl, q', hq', hx'⟩
                rw [hq, Option.some.injEq] at hq'
                subst hq'
                rw [hx] at hx'
                exact ⟨rfl, by simpa using hx'⟩

theorem Attached.target (h : Attached s) (hc : s.calls p = some c) {q : SessPtr}
    (hq : c.session = some q) : ∃ x, s.sessions q = some x ∧ target s p = some (c, x) := by
  obtain ⟨x, hx⟩ := h p c q hc hq
  exact ⟨x, hx, target_eq hc hq hx⟩

theorem mem_attempts {src : Source} {arg : Payload} {env : SendEnv} {e : Event}
    (h : e ∈ attempts s src p arg env) : ∃ c x, target s p = some (c, x) ∧
      e = .queue src p x.conn c.ulFid c.ulId arg (env.sent p) := by
  unfold attempts at h
  split at h
  next c x ht =>
    split at h
    · exact ⟨c, x, ht, List.mem_singleton.1 h⟩
    · cases h
  next => cases h

theorem isTarget_eq (hc : s.calls p = some c) (fid : UInt32) :
    isTarget s fid p = (c.ulFid == fid && c.session.isSome) := by
  simp [isTarget, hc]

theorem bCallFidMatch_eq (hc : s.calls p = some c) (fid : UInt32) :
    bCallFidMatch fid s p = .ok (isTarget s fid p) := by
  simp only [bCallFidMatch, call_eq hc, isTarget_eq hc]
  rfl

theorem record_nil (s : Server) : record s s.net [] = s := by
  simp [record, frames, Server.withNet]

theorem record_record (s : Server) (n m : Net) (evs evs' : List Event) :
    record (record s n evs) m evs' = record s m (evs ++ evs') := by
  simp [record, frames, Server.withNet]

/-- All that a buffer is ever read for. -/
def Labelled (n : Net) (b : BufPtr) (fid sid : UInt32) (arg : Payload) : Prop :=
  ∀ d, n.bufs b = some d → d.fid = fid ∧ d.sid = sid ∧ d.arg = arg

theorem Labelled.release {n m : Net} {b b' : BufPtr} {fid sid : UInt32} {arg : Payload}
    (h : Labelled n b fid sid arg) (hm : n.release b' = .ok m) : Labelled m b fid sid arg := by
  obtain ⟨d, hd, rfl⟩ := release_cases hm
  intro d' hd'
  by_cases hb : b = b'
  · subst hb
    simp only [setBuf, Function.update_self, Option.map_eq_some_iff] at hd'
    obtain ⟨k, -, rfl⟩ := hd'
    exact h d hd
  · simp only [setBuf, Function.update_of_ne hb] at hd'
    exact h d' hd'

theorem sendToSession_eq {q : SessPtr} {x : ApiSession} {b : BufPtr} {o : BufPtr → Nat}
    {fid sid : UInt32} {arg : Payload} (hc : s.calls p = some c) (hq : c.session = some q)
    (hx : s.sessions q = some x) (hn : Owes s.net (Function.update o b (o b + 1)))
    (hl : Labelled s.net b fid sid arg) (src : Source) (sent : CallPtr → Bool) :
    ∃ m, Owes m o ∧ Labelled m b fid sid arg ∧ sendToSession s src p b sent =
      .ok (record s m [.queue src p x.conn fid sid arg (sent p)], sent p) := by
  obtain ⟨d, hbuf, hd, -⟩ := hn.buf (b := b) (by simp)
  obtain ⟨rfl, rfl, rfl⟩ := hl d hd
  cases hs : sent p with
  | true =>
      refine ⟨_, hn.send (t := ⟨q, x.fd, b⟩) rfl, hl, ?_⟩
      simp [sendToSession, call_eq hc, hq, session_eq hx, hbuf, hs, record, frames,
        withSend, Server.log, Server.withNet]
  | false =>
      obtain ⟨m, hm, hok⟩ := hn.release
      refine ⟨m, hok, hl.release hm, ?_⟩
      have hm' : (s.log (.queue src p x.conn d.fid d.sid d.arg false)).net.release b = .ok m := hm
      simp only [sendToSession, call_eq hc, hq, session_eq hx, hbuf, hs, ok_bind, hm']
      rfl

/-- A reply to one call: it is attempted when the call is live and a buffer
can be allocated, and it leaves every buffer counted. -/
theorem apiCallSendJson_eq (hs : Attached s) (hn : NetOk s.net) (hc : s.calls p = some c)
    (src : Source) (arg : Payload) (env : SendEnv) :
    ∃ m, NetOk m ∧ apiCallSendJson s src (some p) 0 arg env =
      .ok (record s m (attempts s src p arg env), delivered s p env) := by
  cases hq : c.session with
  | none =>
      refine ⟨s.net, hn, ?_⟩
      simp [apiCallSendJson, call_eq hc, hq, attempts, delivered, target_eq_none hc hq, record_nil]
  | some q =>
      obtain ⟨x, hx, ht⟩ := hs.target hc hq
      cases ha : env.alloc with
      | false =>
          refine ⟨s.net, hn, ?_⟩
          simp [apiCallSendJson, call_eq hc, attempts, delivered, ht, ha, record_nil]
      | true =>
          have hal : Owes (s.allocData 1 c.ulFid c.ulId arg).net
              (Function.update (fun _ => 0) s.net.nextBuf (0 + 1)) :=
            hn.alloc Nat.one_pos c.ulFid c.ulId arg
          have hlab : Labelled (s.allocData 1 c.ulFid c.ulId arg).net s.net.nextBuf c.ulFid c.ulId
              arg := by
            intro d hd
            simp only [Server.allocData, Function.update_self, Option.some.injEq] at hd
            simp [← hd]
          obtain ⟨m, hm, -, he⟩ := sendToSession_eq (s := s.allocData 1 c.ulFid c.ulId arg)
            hc hq hx hal hlab src env.sent
          refine ⟨m, hm, ?_⟩
          have hrec : ∀ evs, record (s.allocData 1 c.ulFid c.ulId arg) m evs = record s m evs :=
            fun _ => rfl
          simp [apiCallSendJson, call_eq hc, hq, ha, attempts, delivered, ht, he, hrec]

theorem countMatch_eq {ps : List CallPtr} (h : ∀ p ∈ ps, (s.calls p).isSome) (fid : UInt32) :
    countMatch (bCallFidMatch fid s) ps = .ok (ps.filter (isTarget s fid)).length := by
  induction ps with
  | nil => rfl
  | cons p ps ih =>
      obtain ⟨c, hc⟩ := Option.isSome_iff_exists.1 (h p (by simp))
      have ih := ih (fun p' hp' => h p' (by simp [hp']))
      simp only [countMatch, bCallFidMatch_eq hc, ih, ok_bind, pure_ok]
      cases ht : isTarget s fid p <;> simp [ht, Nat.add_comm]

theorem groupResult_cons {fid : UInt32} {sent : CallPtr → Bool} (h : isTarget s fid p = true)
    (ps : List CallPtr) (res : Bool) :
    groupResult s fid sent (p :: ps) res = groupResult s fid sent ps (sent p) := by
  rw [groupResult, List.filter_cons_of_pos h, groupResult, List.getLast?_cons]
  cases (ps.filter (isTarget s fid)).getLast? <;> rfl

theorem groupResult_append (s : Server) (fid : UInt32) (sent : CallPtr → Bool)
    (ps qs : List CallPtr) (res : Bool) :
    groupResult s fid sent (ps ++ qs) res =
      groupResult s fid sent qs (groupResult s fid sent ps res) := by
  rw [groupResult, List.filter_append, List.getLast?_append, groupResult, groupResult]
  cases (qs.filter (isTarget s fid)).getLast? <;> rfl

theorem sendToGroup_returns {ps : List CallPtr} {b : BufPtr} {o : BufPtr → Nat} {f : UInt32}
    {arg : Payload} (hs : Attached s) (h : ∀ p ∈ ps, (s.calls p).isSome) (src : Source)
    (sent : CallPtr → Bool) (n : Net) (evs : List Event) (res : Bool)
    (hn : Owes n (Function.update o b (o b + (ps.filter (isTarget s f)).length)))
    (hl : Labelled n b f 0 arg) :
    ∃ m, Owes m o ∧ Labelled m b f 0 arg ∧
      sendToGroup src f b sent ps (record s n evs) res =
        .ok (record s m (evs ++ groupAttempts s src f arg sent ps),
          groupResult s f sent ps res) := by
  induction ps generalizing n evs res with
  | nil => exact ⟨n, by simpa using hn, hl, by simp [sendToGroup, groupAttempts, groupResult]⟩
  | cons p ps ih =>
      obtain ⟨c, hc⟩ := Option.isSome_iff_exists.1 (h p (by simp))
      have ih := ih (fun p' hp' => h p' (by simp [hp']))
      have hmatch : bCallFidMatch f (record s n evs) p = .ok (isTarget s f p) :=
        bCallFidMatch_eq hc f
      cases ht : isTarget s f p with
      | false =>
          obtain ⟨m, hm, hlm, he⟩ := ih n evs res (by simpa [ht] using hn) hl
          refine ⟨m, hm, hlm, ?_⟩
          simp only [sendToGroup, hmatch, ht, ok_bind]
          simpa [groupAttempts, groupResult, ht] using he
      | true =>
          have hfid := isTarget_eq hc f ▸ ht
          obtain ⟨q, hq⟩ := Option.isSome_iff_exists.1 (Bool.and_eq_true_iff.1 hfid).2
          obtain ⟨x, hx, htgt⟩ := hs.target hc hq
          have hn' : Owes (record s n evs).net (Function.update
              (Function.update o b (o b + (ps.filter (isTarget s f)).length)) b
              (o b + (ps.filter (isTarget s f)).length + 1)) := by
            simpa [record, frames, Server.withNet, ht, Nat.add_assoc] using hn
          obtain ⟨m, hm, hlm, he⟩ := sendToSession_eq (s := record s n evs) hc hq hx
            (o := Function.update o b (o b + (ps.filter (isTarget s f)).length))
            (by simpa using hn') hl src sent
          obtain ⟨m', hm', hlm', he'⟩ := ih m
            (evs ++ [.queue src p x.conn f 0 arg (sent p)]) (sent p) hm hlm
          refine ⟨m', hm', hlm', ?_⟩
          simp only [sendToGroup, hmatch, ht, ok_bind, he, if_true]
          rw [record_record, he', groupResult_cons ht]
          simp [groupAttempts, ht, htgt]

theorem apiCallSendJson_group (hs : Attached s) (hn : NetOk s.net)
    (hall : ∀ p ∈ groupOrder s, (s.calls p).isSome) (src : Source) (fid : UInt32) (arg : Payload)
    (env : SendEnv) :
    ∃ m, NetOk m ∧ apiCallSendJson s src none fid arg env = .ok (
      if fid ≠ 0 ∧ env.alloc = true ∧ (groupOrder s).filter (isTarget s fid) ≠ [] then
        (record s m (groupAttempts s src fid arg env.sent (groupOrder s)),
          groupResult s fid env.sent (groupOrder s) true)
      else (record s m [], false)) := by
  by_cases hf : fid = 0
  · exact ⟨s.net, hn, by simp [apiCallSendJson, hf, record_nil]⟩
  have hw : ∀ p ∈ s.pxWsApiWaitingForResponse, (s.calls p).isSome :=
    fun p hp => hall p (List.mem_append_left _ hp)
  have hcs : ∀ p ∈ s.pxWsApiCall, (s.calls p).isSome :=
    fun p hp => hall p (List.mem_append_right _ hp)
  have hcw := countMatch_eq hw fid
  have hcc := countMatch_eq hcs fid
  have hnil : (groupOrder s).filter (isTarget s fid) = [] ↔
      (s.pxWsApiWaitingForResponse.filter (isTarget s fid)).length +
        (s.pxWsApiCall.filter (isTarget s fid)).length = 0 := by
    rw [groupOrder, List.filter_append, ← List.length_append, List.length_eq_zero_iff]
  simp only [apiCallSendJson, hf, if_false, hcw, hcc, ok_bind, ne_eq, hnil]
  generalize hkw : (s.pxWsApiWaitingForResponse.filter (isTarget s fid)).length = kw
  generalize hkc : (s.pxWsApiCall.filter (isTarget s fid)).length = kc
  by_cases h0 : kw + kc = 0
  · exact ⟨s.net, hn, by simp [h0, record_nil]⟩
  cases ha : env.alloc with
  | false => exact ⟨s.net, hn, by simp [record_nil]⟩
  | true =>
      have hal : Owes (s.allocData (kw + kc) fid 0 arg).net
          (Function.update (fun _ => 0) s.net.nextBuf (kw + kc)) :=
        hn.alloc (Nat.pos_of_ne_zero h0) fid 0 arg
      have hlab : Labelled (s.allocData (kw + kc) fid 0 arg).net s.net.nextBuf fid 0 arg := by
        intro d hd
        simp only [Server.allocData, Function.update_self, Option.some.injEq] at hd
        simp [← hd]
      generalize hs0 : s.allocData (kw + kc) fid 0 arg = s₀ at hal hlab
      have hrec : s₀ = record s s₀.net [] := by
        simp [← hs0, Server.allocData, record, frames, Server.withNet]
      obtain ⟨m, hm, hlm, he⟩ := sendToGroup_returns hs hw src env.sent s₀.net [] true
        (o := Function.update (fun _ => 0) s.net.nextBuf kc) (f := fid)
        (by simpa [hkw, Nat.add_comm] using hal) hlab
      obtain ⟨m', hm', -, he'⟩ := sendToGroup_returns hs hcs src env.sent m
        ([] ++ groupAttempts s src fid arg env.sent s.pxWsApiWaitingForResponse)
        (groupResult s fid env.sent s.pxWsApiWaitingForResponse true)
        (o := fun _ => 0) (f := fid) (b := s.net.nextBuf) (by simpa [hkc] using hm) hlm
      refine ⟨m', hm', ?_⟩
      rw [← hrec] at he
      have hlists : (record s m ([] ++ groupAttempts s src fid arg env.sent
        s.pxWsApiWaitingForResponse)).pxWsApiCall = s.pxWsApiCall := rfl
      simp only [h0, he, if_false, Bool.not_true, ok_bind, hlists, he']
      simp [groupOrder, groupAttempts, groupResult_append]

end WirelessGateway.Sends
