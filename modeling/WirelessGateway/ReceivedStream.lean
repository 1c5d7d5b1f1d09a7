import WirelessGateway.ForwardWrites
import WirelessGateway.RawTransmit
import WirelessGateway.Routes

namespace WirelessGateway.ReceivedStream

open CJson WirelessGateway.Types Memory WsServer Transport Worker Tasks Sends WellFormed SoftSteps
open Lifecycle Steps Forwarding ForwardPass Answering Outcomes Provenance Uart Modbus
open ModbusTransaction Gateway ForwardWrites Lib.Fallible Lib.Runs

variable {B : Base64} {lib : ModbusLib} {P : Platform} {s t : Server} {p : CallPtr} {x y : System}

section Serials

variable {r : Reply}

def handledKey : Event → Option Reply
  | .handled r => some r
  | _ => none

def allPosted (s : Server) : List Reply := s.trace.filterMap handledKey ++ replies s

def frameTo (p : CallPtr) : Event → Option Reply
  | .queue .worker p' _ _ _ (.reply r) _ => if p' = p then some r else none
  | _ => none

def framesTo (s : Server) (p : CallPtr) : List Reply := s.trace.filterMap (frameTo p)

def Before (r r' : Reply) : Prop := r.serial < r'.serial

instance : Std.Antisymm Before := ⟨fun _ _ h h' => absurd (Nat.lt_trans h h') (Nat.lt_irrefl _)⟩

theorem keys_aside {κ : Type} {key : Event → Option κ} {evs : List Event} (ht : t.trace = s.trace ++ evs)
    (hevs : ∀ e ∈ evs, key e = none) : t.trace.filterMap key = s.trace.filterMap key := by
  rw [ht, List.filterMap_append, List.filterMap_eq_nil_iff.2 hevs, List.append_nil]

theorem Passing.handled (h : Passing s t) : t.trace.filterMap handledKey = s.trace.filterMap handledKey := by
  obtain ⟨evs, ht, hevs⟩ := h.trace
  refine keys_aside ht (fun e he => ?_)
  cases e with
  | handled => cases hevs _ he
  | _ => rfl

theorem Passing.allPosted (h : Passing s t) : allPosted t = allPosted s := by
  rw [ReceivedStream.allPosted, ReceivedStream.allPosted, Passing.handled h,
    replies_congr h.messages.handling h.messages.queue]

theorem Passing.framesTo (h : Passing s t) (p : CallPtr) : framesTo t p = framesTo s p := by
  obtain ⟨evs, ht, hevs⟩ := h.trace
  refine keys_aside ht (fun e he => ?_)
  have hpass := hevs e he
  cases e with
  | queue src p' conn fid sid arg sent =>
    cases arg with
    | reply => cases hpass
    | status | json => cases src <;> rfl
  | _ => rfl

/-- The messages reach the worker in the order of their numbers, and it tries to
send each of them to a call at most once. -/
structure Sequenced (s : Server) : Prop where
  posted : (allPosted s).Pairwise Before
  fresh : ∀ r ∈ allPosted s, r.serial < s.nextReply
  frames : ∀ p, (framesTo s p).Pairwise Before
  past : ∀ p, ∀ r ∈ framesTo s p, r ∈ s.trace.filterMap handledKey ∨ s.handling = some r
  turn : ∀ r, s.handling = some r → ∀ p ∈ s.pxWsApiWaitingForResponse, r ∉ framesTo s p

theorem Sequenced.before (hs : Sequenced s) (hr : s.handling = some r) {r' : Reply}
    (hm : r' ∈ s.trace.filterMap handledKey) : Before r' r := by
  have hposted := hs.posted
  rw [allPosted, List.pairwise_append] at hposted
  exact hposted.2.2 r' hm r (by rw [replies, hr]; exact List.mem_cons_self)

theorem allPosted_receive {rs : List Reply} (hq : s.xWsWorkerQueue = r :: rs) (hh : s.handling = none) :
    allPosted (s.receive r rs) = allPosted s := by
  rw [allPosted, allPosted, replies, replies, hq, hh]
  rfl

theorem allPosted_handled (hr : s.handling = some r) : allPosted (s.handled r) = allPosted s := by
  have htrace : (s.handled r).trace = s.trace ++ [.handled r] := rfl
  rw [allPosted, allPosted, replies, replies, hr, htrace, List.filterMap_append, List.append_assoc]
  rfl

theorem framesTo_handled (s : Server) (r : Reply) (p : CallPtr) : framesTo (s.handled r) p = framesTo s p := by
  have htrace : (s.handled r).trace = s.trace ++ [.handled r] := rfl
  rw [framesTo, htrace, List.filterMap_append]
  exact List.append_nil _

theorem Sequenced.receive (hs : Sequenced s) {rs : List Reply} (hq : s.xWsWorkerQueue = r :: rs)
    (hh : s.handling = none) : Sequenced (s.receive r rs) where
  posted := by rw [allPosted_receive hq hh]; exact hs.posted
  fresh := by rw [allPosted_receive hq hh]; exact hs.fresh
  frames := hs.frames
  past p r' hr' := by
    rcases hs.past p r' hr' with hm | hm
    · exact Or.inl hm
    · rw [hh] at hm
      cases hm
  turn r' hr' p _ hm := by
    obtain rfl : r = r' := Option.some.inj hr'
    rcases hs.past p r hm with hpast | hnone
    · have hposted := hs.posted
      rw [allPosted, List.pairwise_append, replies, hq, hh] at hposted
      exact Nat.lt_irrefl _ (hposted.2.2 r hpast r List.mem_cons_self)
    · rw [hh] at hnone
      cases hnone

theorem Sequenced.handled (hs : Sequenced s) (hr : s.handling = some r) : Sequenced (s.handled r) where
  posted := by rw [allPosted_handled hr]; exact hs.posted
  fresh := by rw [allPosted_handled hr]; exact hs.fresh
  frames p := by rw [framesTo_handled]; exact hs.frames p
  past p r' hr' := by
    rw [framesTo_handled] at hr'
    have htrace : (s.handled r).trace = s.trace ++ [.handled r] := rfl
    refine Or.inl ?_
    rw [htrace, List.filterMap_append]
    rcases hs.past p r' hr' with hm | hm
    · exact List.mem_append_left _ hm
    · rw [hr] at hm
      cases hm
      exact List.mem_append_right _ List.mem_cons_self
  turn r' hr' := by cases hr'

theorem replyFrames_cases (s : Server) (p : CallPtr) (r : Reply) (env : SendEnv) :
    replyFrames s p r env = [] ∨ ∃ conn fid sid sent,
      replyFrames s p r env = [.queue .worker p conn fid sid (.reply r) sent] := by
  rw [replyFrames, attempts]
  split
  · exact Or.inl rfl
  · split
    · split
      · exact Or.inr ⟨_, _, _, _, rfl⟩
      · exact Or.inl rfl
    · exact Or.inl rfl

theorem answered_handled (s : Server) (p : CallPtr) (c : ApiCall) (r : Reply) (env : SendEnv) :
    (answered s p c r env).trace.filterMap handledKey = s.trace.filterMap handledKey := by
  refine keys_aside (answered_trace s p c r env) (fun e he => ?_)
  rcases List.mem_append.1 he with he | he
  · obtain ⟨d, k, -, rfl⟩ := mem_replyFrames he
    rfl
  · rcases List.mem_cons.1 he with rfl | he
    · rfl
    · split at he
      · cases he
      · rw [List.mem_singleton.1 he]
        rfl

theorem framesTo_answered (s : Server) (p : CallPtr) (c : ApiCall) (r : Reply) (env : SendEnv)
    (p' : CallPtr) : framesTo (answered s p c r env) p' = framesTo s p' ∨
      p' = p ∧ framesTo (answered s p c r env) p' = framesTo s p' ++ [r] := by
  have hrest : List.filterMap (frameTo p') (.respond p r :: if c.longTerm then [] else [.free p]) = [] := by
    split <;> rfl
  rw [framesTo, answered_trace, List.filterMap_append, List.filterMap_append, hrest, List.append_nil]
  rcases replyFrames_cases s p r env with he | ⟨conn, fid, sid, sent, he⟩
  · rw [he]
    exact Or.inl (List.append_nil _)
  · by_cases hp : p = p'
    · refine Or.inr ⟨hp.symm, ?_⟩
      rw [he, List.filterMap_cons, frameTo, if_pos hp]
      rfl
    · refine Or.inl ?_
      rw [he, List.filterMap_cons, frameTo, if_neg hp]
      exact List.append_nil _

theorem Sequenced.answered (hs : Sequenced s) (hr : s.handling = some r)
    (hp : p ∈ s.pxWsApiWaitingForResponse) (hn : s.pxWsApiWaitingForResponse.Nodup) (c : ApiCall)
    (env : SendEnv) : Sequenced (answered s p c r env) := by
  have hmessages := answered_messages s p c r env
  have hposted : allPosted (Lifecycle.answered s p c r env) = allPosted s := by
    rw [allPosted, allPosted, answered_handled, replies_congr hmessages.handling hmessages.queue]
  have hnext : (Lifecycle.answered s p c r env).nextReply = s.nextReply := by
    rw [Lifecycle.answered]
    split <;> rfl
  have hbefore : ∀ r' ∈ framesTo s p, Before r' r := by
    intro r' hr'
    rcases hs.past p r' hr' with hm | hm
    · exact hs.before hr hm
    · rw [hr, Option.some.injEq] at hm
      exact absurd (hm ▸ hr') (hs.turn r hr p hp)
  constructor
  · rw [hposted]
    exact hs.posted
  · rw [hposted, hnext]
    exact hs.fresh
  · intro p'
    rcases framesTo_answered s p c r env p' with he | ⟨rfl, he⟩
    · rw [he]
      exact hs.frames p'
    · rw [he, List.pairwise_append]
      refine ⟨hs.frames p', List.pairwise_singleton _ _, fun r' hr' r'' hr'' => ?_⟩
      rw [List.mem_singleton.1 hr'']
      exact hbefore r' hr'
  · intro p' r' hr'
    rw [answered_handled, hmessages.handling]
    rcases framesTo_answered s p c r env p' with he | ⟨rfl, he⟩
    · rw [he] at hr'
      exact hs.past p' r' hr'
    · rw [he, List.mem_append, List.mem_singleton] at hr'
      rcases hr' with hr' | rfl
      · exact hs.past p' r' hr'
      · exact Or.inr hr
  · intro r' hr' p' hp'
    rw [answered_waiting] at hp'
    rw [hmessages.handling] at hr'
    rcases framesTo_answered s p c r env p' with he | ⟨rfl, -⟩
    · rw [he]
      exact hs.turn r' hr' p' (List.mem_of_mem_erase hp')
    · exact absurd hp' (List.Nodup.not_mem_erase hn)

theorem pushed_allPosted (s : Server) (q : QueueId) (r : Request) :
    allPosted (pushed s q r) = allPosted s := by
  have hhandled : (pushed s q r).trace.filterMap handledKey = s.trace.filterMap handledKey :=
    keys_aside rfl (fun e he => by rw [List.mem_singleton.1 he]; rfl)
  rw [allPosted, hhandled]
  rfl

theorem Sequenced.pushed (hs : Sequenced s) (q : QueueId) (r : Request) : Sequenced (pushed s q r) := by
  have hhandled : (Lifecycle.pushed s q r).trace.filterMap handledKey = s.trace.filterMap handledKey :=
    keys_aside rfl (fun e he => by rw [List.mem_singleton.1 he]; rfl)
  have hframes : ∀ p, framesTo (Lifecycle.pushed s q r) p = framesTo s p := fun p =>
    keys_aside rfl (fun e he => by rw [List.mem_singleton.1 he]; rfl)
  constructor
  · rw [pushed_allPosted]
    exact hs.posted
  · rw [pushed_allPosted]
    exact hs.fresh
  · intro p
    rw [hframes]
    exact hs.frames p
  · intro p
    rw [hframes, hhandled]
    exact hs.past p
  · intro r' hr' p hp
    rw [hframes]
    exact hs.turn r' hr' p hp

theorem Sequenced.setPeriph (hs : Sequenced s) (q : QueueId) (d : Periph) : Sequenced (s.setPeriph q d) :=
  ⟨hs.posted, hs.fresh, hs.frames, hs.past, hs.turn⟩

theorem Sequenced.sublist (hs : Sequenced s) (p : CallPtr) : (framesTo s p).Sublist (allPosted s) := by
  have hnodup : (framesTo s p).Nodup := by
    refine (hs.frames p).imp (fun hlt he => ?_)
    rw [he] at hlt
    exact Nat.lt_irrefl _ hlt
  have hsub : framesTo s p ⊆ allPosted s := by
    intro r hr
    rcases hs.past p r hr with hm | hm
    · exact List.mem_append_left _ hm
    · exact List.mem_append_right _ (by rw [replies, hm]; exact List.mem_cons_self)
  exact List.sublist_of_subperm_of_pairwise (List.subperm_of_subset hnodup hsub) (hs.frames p) hs.posted

end Serials

section Chunks

variable {i j : Fin 2} {m msg : WebapiMsg} {app : UartApp} {env : UartEnv}

def rawRxFid (i : Fin 2) : UInt32 :=
  if i.val = 0 then espWsApiUart1RawRx else espWsApiUart2RawRx

def chunkText (B : Base64) (P : Platform) (chunk : Bytes) : Bytes := P.print (.string (B.encode chunk))

end Chunks

section Intake

/-- What uart_event_on_rx has put into the buffer of a port, and the chunks that
handle_msg has drained from it. -/
structure Intake where
  accepted : List Bytes
  drained : List Bytes

def drains (i : Fin 2) (g : Device) : List Bytes :=
  match (g.sys.srv.periph cmdQueue).busy with
  | some r => if r.msg.fid = rawRxFid i ∧ (g.app.context i).buf ≠ [] then [(g.app.context i).buf] else []
  | none => []

def Intake.note (i : Fin 2) (g : Device) (a : GatewayLabel) (k : Intake) : Intake :=
  match a with
  | .uartRx j data =>
    if j = i then
      let ctx := g.app.context i
      { k with accepted := k.accepted ++ [data.take (ctx.size - ctx.buf.length)] }
    else k
  | .uartHandle _ => { k with drained := k.drained ++ drains i g }
  | _ => k

def msgText (fid : UInt32) (m : WebapiMsg) : Option Bytes := if m.fid = fid then m.data else none

def postedTexts (s : Server) (fid : UInt32) : List Bytes :=
  (allPosted s).filterMap (fun r => msgText fid r.msg)

def sendingTexts (g : Device) (fid : UInt32) : List Bytes := (g.sending.bind (msgText fid)).toList

variable {i j : Fin 2} {g h : Device} {a : GatewayLabel} {k : Intake}

/-- The chunks are what came in, and their texts are on the way in their order. -/
structure Relayed (B : Base64) (P : Platform) (i : Fin 2) (g : Device) (k : Intake) : Prop where
  sequenced : Sequenced g.sys.srv
  texts : (postedTexts g.sys.srv (rawRxFid i) ++ sendingTexts g (rawRxFid i)).Sublist
    (k.drained.map (chunkText B P))
  bytes : k.drained.flatten ++ (g.app.context i).buf = k.accepted.flatten

theorem Relayed.keep (hk : Relayed B P i g k) (hseq : Sequenced h.sys.srv)
    (hposted : allPosted h.sys.srv = allPosted g.sys.srv) (hsend : h.sending = g.sending)
    (happ : h.app = g.app) : Relayed B P i h k := by
  refine ⟨hseq, ?_, by rw [happ]; exact hk.bytes⟩
  rw [postedTexts, hposted, sendingTexts, hsend]
  exact hk.texts

theorem Relayed.handle (hk : Relayed B P i g k) (hsys : Sequenced h.sys.srv)
    (hposted : allPosted h.sys.srv = allPosted g.sys.srv) (hnone : g.sending = none)
    (hsend : (sendingTexts h (rawRxFid i)).Sublist ((drains i g).map (chunkText B P)))
    (hbytes : (drains i g).flatten ++ (h.app.context i).buf = (g.app.context i).buf) :
    Relayed B P i h { k with drained := k.drained ++ drains i g } := by
  have htexts := hk.texts
  rw [sendingTexts, hnone, Option.bind_none, Option.toList_none, List.append_nil] at htexts
  refine ⟨hsys, ?_, ?_⟩
  · rw [postedTexts, hposted, List.map_append]
    exact htexts.append hsend
  · rw [List.flatten_append, List.append_assoc, hbytes]
    exact hk.bytes

end Intake

end WirelessGateway.ReceivedStream
