import WirelessGateway.Accepted

namespace WirelessGateway.Polling

open CJson WirelessGateway.Types Memory WsServer Transport Worker Tasks Sends WellFormed Lifecycle
open Steps Provenance Lib.Linked Lib.Runs

variable {P : Platform} {G : Guard} {s t : Server} {p : CallPtr} {c : ApiCall}

def pending (s : Server) (q : QueueId) (p : CallPtr) : Nat :=
  (outstanding s q).countP (fun r => r.call == p)

structure Polled (s : Server) : Prop where
  idle : ∀ p ∈ s.pxWsApiCall, ∀ q, pending s q p = 0
  one : ∀ q p, pending s q p ≤ 1

def pollGuard : Guard :=
  { anything with respond := fun s p _ => ∀ c, s.calls p = some c → c.longTerm = true →
      ∀ q, pending s q p = 0 }

theorem pending_mono (h : ∀ q, (outstanding t q).Subperm (outstanding s q)) (q : QueueId)
    (p : CallPtr) : pending t q p ≤ pending s q p := (h q).countP_le _

theorem pending_forwarded (s : Server) (p : CallPtr) (c : ApiCall) (q q' : QueueId) (z : CallPtr) :
    pending ((forwarded s p c q).toWaiting p) q' z =
      pending s q' z + if q' = q ∧ p = z then 1 else 0 := by
  rw [pending, (forwarded_outstanding s p c q q').countP_eq, List.countP_append, Nat.add_comm]
  refine congrArg _ ?_
  by_cases hq : q' = q <;> by_cases hz : p = z <;> simp [hq, hz]

theorem pending_fresh (hl : Labelled s) (q : QueueId) : pending s q s.nextCall = 0 := by
  rw [pending, List.countP_eq_zero]
  intro r hr he
  have hlt := (hl.request q r hr).lt
  rw [beq_iff_eq.1 he] at hlt
  exact Nat.lt_irrefl _ hlt

theorem pending_elsewhere (hl : Labelled s) (hc : s.calls p = some c) {q : QueueId}
    (h : pending s q p ≠ 0) : s.wsGetFidQueue c.ulFid = some q := by
  obtain ⟨r, hr, hp⟩ := List.countP_pos_iff.1 (Nat.pos_of_ne_zero h)
  have hok := hl.request q r hr
  exact (hok.labels c (beq_iff_eq.1 hp ▸ hc)).1 ▸ hok.routed

theorem act_polled (hs : WF s) (hl : Labelled s) (h : Act P pollGuard s t) (hi : Polled s) :
    Polled t := by
  rcases act_requests h with hsub | ⟨p, c, q, hp, hc, hq, rfl⟩
  · have hle := pending_mono hsub
    refine ⟨fun z hz q => ?_, fun q z => Nat.le_trans (hle q z) (hi.one q z)⟩
    -- what is added to pxWsApiCall is new, or it was answered
    have hzero : pending s q z = 0 := by
      rcases act_lists h with hlist | ⟨p, hlist, hp⟩
      · exact hi.idle z (hlist.subset hz) q
      · rw [hlist, List.mem_append, List.mem_singleton] at hz
        rcases hz with hz | rfl
        · exact hi.idle z (List.mem_of_mem_erase hz) q
        · rcases hp with rfl | ⟨c, r, hc, hlong, hG⟩
          · exact pending_fresh hl q
          · exact hG c hc hlong q
    exact Nat.le_zero.1 (hzero ▸ hle q z)
  · refine ⟨fun z hz q' => ?_, fun q' z => ?_⟩
    · have hz' : z ∈ s.pxWsApiCall.erase p := hz
      have hne : p ≠ z := by
        rintro rfl
        exact (hs.nodup.of_append_left.mem_erase_iff.1 hz').1 rfl
      rw [pending_forwarded, hi.idle z (List.mem_of_mem_erase hz') q', if_neg (fun he => hne he.2)]
    · rw [pending_forwarded]
      split
      next he => rw [← he.2, hi.idle p hp q']
      next => exact hi.one q' z

theorem load_le {q : QueueId} (h : ∀ p, pending s q p ≤ 1) (ps : List CallPtr) :
    (outstanding s q).countP (fun r => decide (r.call ∈ ps)) ≤ ps.length := by
  induction ps with
  | nil => simp
  | cons p ps ih =>
      calc (outstanding s q).countP (fun r => decide (r.call ∈ p :: ps))
          ≤ pending s q p + (outstanding s q).countP (fun r => decide (r.call ∈ ps)) := by
            rw [pending]
            generalize outstanding s q = rs
            induction rs with
            | nil => simp
            | cons r rs ih => simp only [List.countP_cons, List.mem_cons]; grind
        _ ≤ 1 + ps.length := Nat.add_le_add (h p) ih
        _ = (p :: ps).length := Nat.add_comm 1 _

/-- The worker answers a LONG_TERM call only when no request of the call is left
unanswered. -/
def AnsweredStep (x : System) (a : Label) (_ : System) : Prop :=
  ∀ env r p c, a = .worker env → answering x = some (r, p) → x.srv.calls p = some c →
    c.longTerm = true → ∀ q, pending x.srv q p = 0

theorem AnsweredStep.allows {x y : System} {a : Label} (h : AnsweredStep x a y) :
    Allows P pollGuard x a := by
  have hany := allows_anything P x a
  cases a with
  | worker env =>
      refine ⟨fun r p hp s' hsoft => ⟨fun d hd hlong q => ?_, fun _ _ => trivial⟩, hany.2⟩
      obtain ⟨c, hc, hw⟩ := hsoft.call_back hd
      rw [pending, outstanding, hsoft.periph]
      exact h env r p c rfl hp hc (hw.longTerm ▸ hlong) q
  | _ => exact hany

theorem init_polled (depth : QueueId → Nat) : Polled (initServer depth) :=
  ⟨fun _ hp => (List.not_mem_nil hp).elim, fun _ _ => Nat.zero_le 1⟩

/-- Every call has at most one request that is not answered yet, in the queue of
its FID, and k calls load a queue with at most k of them. -/
structure BoundedPolling (s : Server) : Prop where
  one : ∀ q p, pending s q p ≤ 1
  routed : ∀ q, ∀ r ∈ outstanding s q, s.wsGetFidQueue r.msg.fid = some q
  load : ∀ q (ps : List CallPtr), (outstanding s q).countP (fun r => decide (r.call ∈ ps)) ≤ ps.length

/-- In a run whose steps answer only settled LONG_TERM calls the polling stays
bounded. -/
theorem bounded_polling {x y : System} {as : List Label} (hx : (machine P).init x)
    (h : Along (machine P) AnsweredStep x as y) : BoundedPolling y.srv := by
  have hinv := along_acts (G := pollGuard) (I := fun s => Labelled s ∧ Polled s)
    (fun s t hs hact hi => ⟨act_labelled hs hact hi.1, act_polled hs hi.1 hact hi.2⟩) (.init hx) ?_
    (h.imp (fun _ _ _ ha => ha.allows))
  · exact ⟨hinv.2.one, fun q r hr => (hinv.1.request q r hr).routed,
      fun q ps => load_le (hinv.2.one q) ps⟩
  · refine ⟨reachable_labelled (.init hx), ?_⟩
    obtain ⟨depth, rfl⟩ := hx
    exact init_polled depth

def answeredOk (x : System) : Label → Bool
  | .worker _ => (answering x).all (fun (_, p) => (x.srv.calls p).all (fun c =>
      (x.srv.wsGetFidQueue c.ulFid).all (fun q => pending x.srv q p == 0)))
  | _ => true

theorem answeredStep_of_ok {x y : System} {a : Label} (hx : Reachable (machine P) x)
    (h : answeredOk x a = true) : AnsweredStep x a y := by
  rintro env r p c rfl hp hc - q
  by_contra hne
  have hq := pending_elsewhere (reachable_labelled hx) hc hne
  simp [answeredOk, hp, hc, hq, hne] at h

def subscribe (n : Nat) : List Label :=
  .registerQueue 0x1011 (some 0) true true ::
    (List.range n).flatMap (fun i => .connect i true :: request i (0x1011, 4, 5)) ++ work (5 + 2 * n)

def pollAgain (n : Nat) : List Label :=
  [.periphTake 0, .periphPublish 0 none] ++ work (4 + n) ++ work (5 + 2 * n)

theorem bounded_polling_one : ∃ y, Along (machine (platform [(0x1011, 4, 5)])) AnsweredStep
    (initSystem (fun _ => 10)) (subscribe 1 ++ pollAgain 1) y ∧ pending y.srv 0 0 = 1 ∧
    BoundedPolling y.srv := by
  have h : (machine (platform [(0x1011, 4, 5)])).check answeredOk (fun y => pending y.srv 0 0 == 1)
      (initSystem (fun _ => 10)) (subscribe 1 ++ pollAgain 1) = true := by decide +kernel
  obtain ⟨y, hrun, hy⟩ := exists_of_check h
  have hans := hrun.imp_of_reachable (.init ⟨_, rfl⟩)
    (fun _ _ z hr _ hok => answeredStep_of_ok (y := z) hr hok)
  exact ⟨y, hans, by simpa using hy, bounded_polling ⟨_, rfl⟩ hans⟩

/-- The answer to the first subscriber's poll re-arms the second subscriber,
whose own poll is still in the queue. -/
theorem poll_twice : ∃ y, Reachable (machine (platform [(0x1011, 4, 5)])) y ∧
    (∃ c, y.srv.calls 1 = some c ∧ c.longTerm = true) ∧ pending y.srv 0 1 = 2 := by
  have h : (machine (platform [(0x1011, 4, 5)])).reaches (initSystem (fun _ => 10))
      (subscribe 2 ++ pollAgain 2) (fun y => (y.srv.calls 1).any ApiCall.longTerm &&
        pending y.srv 0 1 == 2) = true := by decide +kernel
  obtain ⟨y, hrun, hy⟩ := exists_of_reaches h
  rw [Bool.and_eq_true, Option.any_eq_true] at hy
  exact ⟨y, ⟨_, _, ⟨_, rfl⟩, hrun⟩, hy.1, by simpa using hy.2⟩

end WirelessGateway.Polling
