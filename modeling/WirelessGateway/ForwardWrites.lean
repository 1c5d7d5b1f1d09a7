import WirelessGateway.Gateway

namespace WirelessGateway.ForwardWrites

open CJson WirelessGateway.Types Memory WsServer Transport Worker Tasks Sends WellFormed SoftSteps
open Lifecycle Steps Forwarding ForwardPass Outcomes Provenance Gateway Lib.Fallible Lib.Runs

variable {P : Platform} {s t u : Server} {p : CallPtr} {c : ApiCall} {x y : System}

def isPassing : Event → Bool
  | .refuse _ | .stall _ => true
  | e => isAside e

structure Passing (s t : Server) : Prop where
  messages : SameMessages s t
  nextReply : t.nextReply = s.nextReply
  trace : ∃ evs, t.trace = s.trace ++ evs ∧ ∀ e ∈ evs, isPassing e = true

theorem isPassing_of_aside {e : Event} (he : isAside e = true) : isPassing e = true := by
  cases e with
  | refuse | stall => rfl
  | _ => exact he

theorem Passing.refl (s : Server) : Passing s s :=
  ⟨⟨rfl, rfl, rfl⟩, rfl, [], (List.append_nil _).symm, fun _ he => absurd he List.not_mem_nil⟩

theorem Passing.trans (h : Passing s t) (h' : Passing t u) : Passing s u := by
  obtain ⟨evs, ht, hevs⟩ := h.trace
  obtain ⟨evs', hu, hevs'⟩ := h'.trace
  refine ⟨⟨h'.messages.periph.trans h.messages.periph, h'.messages.handling.trans h.messages.handling,
    h'.messages.queue.trans h.messages.queue⟩, h'.nextReply.trans h.nextReply, evs ++ evs', ?_, ?_⟩
  · rw [hu, ht, List.append_assoc]
  · intro e he
    exact (List.mem_append.1 he).elim (hevs e) (hevs' e)

theorem Passing.soft (h : Soft s t) : Passing s t := by
  obtain ⟨evs, ht, hevs⟩ := h.trace
  exact ⟨⟨h.periph, h.handling, h.queue⟩, h.nextReply, evs, ht,
    fun e he => isPassing_of_aside (soft_aside (hevs e he))⟩

theorem removed_passing (s : Server) (p : CallPtr) : Passing s (removed s p) :=
  ⟨⟨rfl, rfl, rfl⟩, rfl, [.free p], rfl, fun e he => by rw [List.mem_singleton.1 he]; rfl⟩

theorem frames_passing {evs : List Event} (hevs : ∀ e ∈ evs, isPassing e = true) :
    Passing s (frames s evs) := ⟨⟨rfl, rfl, rfl⟩, rfl, evs, rfl, hevs⟩

theorem setCall_passing (s : Server) (p : CallPtr) (c : ApiCall) : Passing s (s.setCall p c) :=
  ⟨⟨rfl, rfl, rfl⟩, rfl, [], (List.append_nil _).symm, fun _ he => absurd he List.not_mem_nil⟩

theorem toWaiting_passing (s : Server) (p : CallPtr) : Passing s (s.toWaiting p) :=
  ⟨⟨rfl, rfl, rfl⟩, rfl, [], (List.append_nil _).symm, fun _ he => absurd he List.not_mem_nil⟩

theorem status_passing {src : Source} {sta : UInt32} {env : SendEnv} :
    ∀ e ∈ attempts s src p (.status sta) env, isPassing e = true := by
  intro e he
  obtain ⟨c, k, -, rfl⟩ := mem_attempts he
  rfl

theorem told_passing (s : Server) (p : CallPtr) (env : SendEnv) : Passing s (told s p env) := by
  rw [told]
  split
  · split
    · exact (frames_passing status_passing).trans (setCall_passing ..)
    · exact .refl s
  · exact .refl s

theorem removedAll_passing (s : Server) (ps : List CallPtr) : Passing s (removedAll s ps) := by
  induction ps generalizing s with
  | nil => exact .refl s
  | cons p ps ih => exact (removed_passing s p).trans (ih (removed s p))

theorem deleted_passing (s : Server) (p : CallPtr) (c : ApiCall) (env : SendEnv) :
    Passing s (deleted s p c env) := by
  rw [deleted]
  split
  · exact (frames_passing status_passing).trans (removed_passing _ p)
  · next x _ =>
    have hdetached : Passing s (detached s p c env) :=
      (frames_passing status_passing).trans (setCall_passing ..)
    refine (hdetached.trans ?_).trans (removed_passing _ p)
    exact (removedAll_passing _ _).trans (removedAll_passing _ _)

/-- One iteration of the forward loop puts a request on a queue, or changes no
message. -/
theorem passed_cases (s : Server) (p : CallPtr) (c : ApiCall) (env : WorkerEnv) :
    Passing s (passed s p c env) ∨ ∃ q r, Passing (pushed s q r) (passed s p c env) := by
  rw [passed]
  split_ifs
  · exact Or.inl (deleted_passing s p c env.status)
  · exact Or.inl (.refl s)
  · split
    · next q _ =>
      rw [attempted]
      split_ifs
      · have hstalled : Passing s (stalled s p) :=
          ⟨⟨rfl, rfl, rfl⟩, rfl, [.stall p], rfl, fun e he => by rw [List.mem_singleton.1 he]; rfl⟩
        exact Or.inl ((hstalled.trans (toWaiting_passing _ p)).trans (told_passing _ p env.status))
      · refine Or.inr ⟨q, ⟨requestOf c, p⟩, ?_⟩
        exact ((setCall_passing _ p _).trans (toWaiting_passing _ p)).trans (told_passing _ p env.status)
      · have hrefused : Passing s (refused s p c env.busy) := by
          refine (frames_passing (fun e he => ?_)).trans (setCall_passing ..)
          rcases List.mem_cons.1 he with rfl | he
          · rfl
          · exact status_passing e he
        exact Or.inl ((hrefused.trans (toWaiting_passing _ p)).trans (told_passing _ p env.status))
    · exact Or.inl ((frames_passing status_passing).trans (removed_passing _ p))

theorem server_passing (hr : Reachable (Tasks.machine P) x) {b : Label} (hb : isServer b = true)
    (hne : ∀ env, b ≠ .worker env) (h : (Tasks.machine P).Step x b y) : Passing x.srv y.srv := by
  have hperiph := server_periph (reachable_inv hr) hb hne h
  rcases step_outcome hr h with ⟨env, he, -⟩ | ⟨-, -, hapart⟩
  · exact absurd he (hne env)
  · obtain ⟨evs, htrace, hevs⟩ := apart_trace hapart
    obtain ⟨s', hsoft, houter⟩ := hapart.1.outer
    have hsame : SameMessages s' y.srv ∧ y.srv.nextReply = s'.nextReply := by
      generalize hy : y.srv = t at houter hperiph ⊢
      cases houter with
      | same | accept | reject => exact ⟨⟨rfl, rfl, rfl⟩, rfl⟩
      | @connect fd alloc => exact ⟨connect_messages .., by cases alloc <;> rfl⟩
      | @disconnect conn k => exact ⟨hangUp_messages .., by cases k.userData <;> rfl⟩
      | take | drop => exact ⟨⟨hperiph.trans hsoft.periph.symm, rfl, rfl⟩, rfl⟩
      | @post q r id published data hbusy =>
        -- the peripheral would be idle
        have hidle := congrArg (fun d => (d q).busy) (hperiph.trans hsoft.periph.symm)
        rw [show ((posted s' q r id published data).periph q) = { s'.periph q with busy := none } from
          Function.update_self .., hbusy] at hidle
        cases hidle
    refine ⟨⟨hperiph, ?_, ?_⟩, ?_, evs, htrace, fun e he => isPassing_of_aside (hevs e he)⟩
    · rw [hsame.1.handling, hsoft.handling]
    · rw [hsame.1.queue, hsoft.queue]
    · rw [hsame.2, hsoft.nextReply]

end WirelessGateway.ForwardWrites
