import WirelessGateway.Correlation
import WirelessGateway.Sentinel

namespace WirelessGateway.Admission

open CJson WirelessGateway.Types Memory WsServer Transport Tasks Lifecycle Operations Steps
open Fragments Truthful Correlation Lib.Runs

variable {P : Platform} {s : Server} {p : CallPtr} {c : ApiCall} {n : ConnPtr} {json : Json}
  {x y : System} {a : Label}

def noRequests : Guard := { anything with accept := fun _ _ => False }

theorem step_accepts (hr : Reachable (machine P) x) (h : (machine P).Step x a y)
    (ha : ∀ env, a ≠ .text env) : .accept p n json c ∉ added x.srv y.srv := by
  have hallow : Allows P noRequests x a := by
    have hany := allows_anything P x a
    cases a with
    | text env => exact absurd rfl (ha env)
    | _ => exact hany
  obtain ⟨z, hz, hacts, -⟩ := step_does (reachable_inv hr) hallow h
  cases hz
  obtain ⟨l, hl, haddr⟩ := acts_addressed hacts
  rw [added_eq hl]
  intro hm
  obtain ⟨u, v, ⟨sid, hG⟩, -⟩ := haddr _ hm
  exact hG

theorem taken_accepts {u : Option SessPtr} {data : Option Bytes} {env : TextEnv}
    (h : readable P u data env = some json) (hno : refusal s json = none) :
    textAccepts P s u data env = some json ∧
      ∃ sid, frameNumber json ['S', 'I', 'D'] = some sid := by
  obtain ⟨q, b, bs, rfl, rfl, ha, hj, hfid⟩ := readable_eq_some h
  unfold refusal at hno
  split at hno
  next fl sid hfl hsid =>
    split_ifs at hno with hroute
    refine ⟨?_, sid, hsid⟩
    rw [textAccepts, Option.filter_eq_some_iff]
    refine ⟨hj, ?_⟩
    simp only [Bool.and_eq_true, Option.isNone_iff_eq_none, not_and_or] at hroute
    simp [ha, hfid, hfl, hsid, Option.isSome_iff_ne_none, hroute]
  next => cases hno

/-- A call is accepted in a step that takes up its frame, as the frame and the
memory of that step make it. -/
theorem step_admits (hr : Reachable (machine P) x) (h : (machine P).Step x a y)
    (hm : .accept p n json c ∈ added x.srv y.srv) : ∃ env data q sid, a = .text env ∧
      x.httpd = .text n data ∧
      textAccepts P x.srv ((x.srv.conns n).bind Conn.userData) data env = some json ∧
      c = acceptedCall P env.printAlloc json q sid (x.srv.findHandler (frameFid json)) := by
  by_cases ha : ∃ env, a = .text env
  · obtain ⟨env, rfl⟩ := ha
    obtain ⟨conn, data, hhttpd, ht⟩ := text_result h
    have hruling := onText_ruling ht
    cases hruling with
    | dropped _ hsame =>
        rw [added_eq (l := []) (by simp [hsame])] at hm
        cases hm
    | refused hread href hu hq hfid hid hrej =>
        obtain ⟨k, hk, hku⟩ := Option.bind_eq_some_iff.1 hu
        obtain ⟨-, -, -, -, -, htrace⟩ := rejectCall_result (reachable_inv hr).sound hk hku hq hrej
        rw [List.append_assoc] at htrace
        rw [added_eq htrace, statusSent] at hm
        split at hm <;> simp at hm
    | taken hread hno hsrv =>
        obtain ⟨haccept, sid, hsid⟩ := taken_accepts hread hno
        obtain ⟨q, he⟩ := Sentinel.wsServerOnText_accepted conn haccept hsid
        rw [ht, Except.ok.injEq] at he
        rw [he, added_eq (l := [_]) rfl, List.mem_singleton] at hm
        cases hm
        exact ⟨env, data, q, sid, rfl, hhttpd, haccept, rfl⟩
  · exact absurd hm (step_accepts hr h (fun env he => ha ⟨env, he⟩))

end WirelessGateway.Admission
