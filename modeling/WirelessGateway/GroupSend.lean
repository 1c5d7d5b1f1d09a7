import WirelessGateway.Accepted
import WirelessGateway.CallHandles

namespace WirelessGateway.GroupSend

open CJson WirelessGateway.Types Memory WsServer Transport Worker Tasks Sends WellFormed Lifecycle
open Steps Provenance Accepted CallHandles Lib.Runs

variable {P : Platform} {s t : Server} {p : CallPtr} {c : ApiCall} {x : System} {src : Source}
  {fid : UInt32} {json : Bytes} {env : SendEnv}

def liveCalls (s : Server) (fid : UInt32) : List CallPtr := (groupOrder s).filter (isTarget s fid)

def connOf (s : Server) (p : CallPtr) : ConnPtr := ((target s p).map (fun t => t.2.conn)).getD 0

def groupAttempt (s : Server) (src : Source) (fid : UInt32) (json : Bytes)
    (sent : CallPtr → Bool) (p : CallPtr) : Event :=
  .queue src p (connOf s p) fid 0 (.json json) (sent p)

/-- What the documentation says of bApiCallSendJsonFidGroup: the data goes to
every client that called the FID, and success means that all of it was
accepted. -/
def GroupSent (s : Server) (src : Source) (fid : UInt32) (json : Bytes) (env : SendEnv) : Prop :=
  ∃ t res, bApiCallSendJsonFidGroup s src fid json env = .ok (t, res) ∧
    t.trace = s.trace ++ (liveCalls s fid).map (groupAttempt s src fid json env.sent) ∧
    (res = true ↔ liveCalls s fid ≠ [] ∧ ∀ p ∈ liveCalls s fid, env.sent p = true)

theorem call_fid (hr : Reachable (machine P) x) (hc : x.srv.calls p = some c) : c.ulFid ≠ 0 := by
  have ha := reachable_accepts hr
  obtain ⟨n, json, d, hm, hev⟩ := ha.born p c hc
  obtain ⟨-, alloc, q, fl, sid, h, hfid, -, -, rfl⟩ := ha.asks p n json d hm
  rw [hev.fid]
  exact hfid

theorem current_fid (h : Current P s) (hc : s.calls p = some c) : c.ulFid ≠ 0 := by
  cases h with
  | between hr => exact call_fid hr hc
  | handler hr hp hrun =>
      have hs := (reachable_inv hr).sound
      obtain ⟨d, hd⟩ := hs.wf.call_of_mem (.inr (answering_waiting hr hp))
      obtain ⟨e, he, hw⟩ := (handler_soft hs hd hrun).1.call_back hc
      rw [hw.fid]
      exact call_fid hr he

theorem liveCalls_zero (h : Current P s) : liveCalls s 0 = [] := by
  refine List.filter_eq_nil_iff.2 (fun p hp => ?_)
  obtain ⟨c, hc⟩ := Option.isSome_iff_exists.1 (h.sound.wf.groupOrder_isSome p hp)
  rw [isTarget_eq hc]
  simp [current_fid h hc]

theorem groupAttempts_live (hs : Attached s) (sent : CallPtr → Bool) :
    groupAttempts s src fid (.json json) sent (groupOrder s) =
      (liveCalls s fid).map (groupAttempt s src fid json sent) := by
  rw [groupAttempts, ← List.filterMap_eq_map]
  refine List.filterMap_congr (fun p hp => ?_)
  obtain ⟨c, hc, hm⟩ := (Option.any_eq_true _ _).1 (List.mem_filter.1 hp).2
  obtain ⟨q, hq⟩ := Option.isSome_iff_exists.1 (Bool.and_eq_true_iff.1 hm).2
  obtain ⟨y, -, ht⟩ := hs.target hc hq
  simp [groupAttempt, connOf, ht]

theorem groupResult_live (sent : CallPtr → Bool) :
    groupResult s fid sent (groupOrder s) true = ((liveCalls s fid).getLast?.map sent).getD true :=
  rfl

theorem group_eq (h : Current P s) (src : Source) (fid : UInt32) (json : Bytes) (env : SendEnv) :
    ∃ t, bApiCallSendJsonFidGroup s src fid json env = .ok (t,
        env.alloc && ((liveCalls s fid).getLast?.map env.sent).getD false) ∧
      t.trace = s.trace ++ if env.alloc = true then
        (liveCalls s fid).map (groupAttempt s src fid json env.sent) else [] := by
  have hs := h.sound
  obtain ⟨m, -, he⟩ := apiCallSendJson_group hs.wf.attached hs.net hs.wf.groupOrder_isSome src fid
    (.json json) env
  rw [groupAttempts_live hs.wf.attached, groupResult_live] at he
  by_cases hlive : liveCalls s fid = []
  · have hlive' : (groupOrder s).filter (isTarget s fid) = [] := hlive
    simp only [hlive', ne_eq, not_true_eq_false, and_false, if_false] at he
    refine ⟨record s m [], ?_, by simp [hlive, record, frames, Server.withNet]⟩
    simp [bApiCallSendJsonFidGroup, he, hlive]
  · have hfid : fid ≠ 0 := by
      rintro rfl
      exact hlive (liveCalls_zero h)
    have hlive' : (groupOrder s).filter (isTarget s fid) ≠ [] := hlive
    obtain ⟨l, hl⟩ := Option.isSome_iff_exists.1 (List.getLast?_isSome.2 hlive)
    cases ha : env.alloc with
    | false =>
        simp only [ha, Bool.false_eq_true, false_and, and_false, if_false] at he
        refine ⟨record s m [], ?_, by simp [record, frames, Server.withNet]⟩
        simp [bApiCallSendJsonFidGroup, he]
    | true =>
        simp only [ha, hfid, hlive', ne_eq, not_false_eq_true, and_self, if_true] at he
        refine ⟨_, he.trans (by simp only [hl]; rfl), ?_⟩
        simp [record, frames, Server.withNet]

/-- The documented result is the one returned unless the sends of the group
differ and the last one is accepted, or there is no memory for the frame. -/
theorem group_sent_iff (h : Current P s) (src : Source) (fid : UInt32) (json : Bytes)
    (env : SendEnv) : GroupSent s src fid json env ↔
      liveCalls s fid = [] ∨ env.alloc = true ∧
        ((∀ p ∈ liveCalls s fid, env.sent p = true) ∨
          (liveCalls s fid).getLast?.any (fun p => !env.sent p) = true) := by
  obtain ⟨t, he, ht⟩ := group_eq h src fid json env
  have hsent : GroupSent s src fid json env ↔
      t.trace = s.trace ++ (liveCalls s fid).map (groupAttempt s src fid json env.sent) ∧
        ((env.alloc && ((liveCalls s fid).getLast?.map env.sent).getD false) = true ↔
          liveCalls s fid ≠ [] ∧ ∀ p ∈ liveCalls s fid, env.sent p = true) := by
    constructor
    · rintro ⟨u, res, hu, htrace, hres⟩
      rw [he] at hu
      cases hu
      exact ⟨htrace, hres⟩
    · exact fun ⟨htrace, hres⟩ => ⟨t, _, he, htrace, hres⟩
  rw [hsent, ht]
  by_cases hlive : liveCalls s fid = []
  · simp [hlive]
  obtain ⟨l, hl⟩ := Option.isSome_iff_exists.1 (List.getLast?_isSome.2 hlive)
  have hmem : l ∈ liveCalls s fid := List.mem_of_getLast? hl
  cases ha : env.alloc with
  | false => simp [hlive]
  | true =>
      simp only [hl, hlive, if_true, true_and, Option.map_some, Option.getD_some, ne_eq,
        not_false_eq_true, Option.any_some, Bool.not_eq_true', false_or, Bool.true_and]
      cases hsl : env.sent l with
      | true => simp
      | false =>
          simp only [Bool.false_eq_true, false_iff, or_true, iff_true]
          exact fun hall => by simp [hall l hmem] at hsl

def subscribers : List Label :=
  [.registerQueue 0x1013 (some 0) true true, .connect 1 true, .connect 2 true] ++
  request 0 (0x1013, 4, 5) ++ work 7 ++ request 1 (0x1013, 4, 6)

def subscribed : Platform := platform [(0x1013, 4, 5), (0x1013, 4, 6)]

theorem subscribers_reach : ∃ x, Reachable (machine subscribed) x ∧
    x.srv.pxWsApiWaitingForResponse = [0] ∧ liveCalls x.srv 0x1013 = [0, 1] := by
  have h : (machine subscribed).reaches (initSystem (fun _ => 10)) subscribers
      (fun x => x.srv.pxWsApiWaitingForResponse == [0] && liveCalls x.srv 0x1013 == [0, 1]) =
        true := by
    decide +kernel
  obtain ⟨x, hrun, hx⟩ := exists_of_reaches h
  rw [Bool.and_eq_true, beq_iff_eq, beq_iff_eq] at hx
  exact ⟨x, ⟨_, _, ⟨_, rfl⟩, hrun⟩, hx⟩

theorem group_sent_both : ∃ x, Reachable (machine subscribed) x ∧
    GroupSent x.srv .client 0x1013 [49] ⟨true, fun _ => true⟩ := by
  obtain ⟨x, hr, -⟩ := subscribers_reach
  exact ⟨x, hr, (group_sent_iff (.between hr) .client 0x1013 [49] ⟨true, fun _ => true⟩).2
    (.inr ⟨rfl, .inl (fun _ _ => rfl)⟩)⟩

/-- The send to the first subscriber is refused, and the caller is told that
the group has the data. -/
theorem group_lost_first : ∃ x t, Reachable (machine subscribed) x ∧
    bApiCallSendJsonFidGroup x.srv .client 0x1013 [49] ⟨true, fun p => p == 1⟩ = .ok (t, true) ∧
    ¬ GroupSent x.srv .client 0x1013 [49] ⟨true, fun p => p == 1⟩ := by
  obtain ⟨x, hr, -, hlive⟩ := subscribers_reach
  obtain ⟨t, he, -⟩ := group_eq (.between hr) .client 0x1013 [49] ⟨true, fun p => p == 1⟩
  rw [hlive] at he
  refine ⟨x, t, hr, he, ?_⟩
  rintro ⟨u, res, hu, -, hres⟩
  rw [he] at hu
  cases hu
  have hall := (hres.1 rfl).2 0 (by simp [hlive])
  cases hall

end WirelessGateway.GroupSend
