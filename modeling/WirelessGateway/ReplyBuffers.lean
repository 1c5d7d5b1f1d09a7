import WirelessGateway.Lib.Ownership
import WirelessGateway.Lib.Runs
import WirelessGateway.Memory
import WirelessGateway.Uart

namespace WirelessGateway.ReplyBuffers

open CJson WirelessGateway.Types Memory Uart Lib.Ownership Lib.Runs

/-- Where the text of a reply is: with the UART task or a Modbus task that is
about to send it, or in the n-th message that xWsWorkerQueue has accepted. -/
inductive Place
  | uart
  | modbus (i : Fin 2)
  | message (n : Nat)
  deriving DecidableEq

/-- The tasks that allocate, send and free the texts of replies. The number of
messages that the worker has received and the heap are ghost state. -/
structure Peripherals where
  app : UartApp
  uart : Option WebapiMsg
  modbus : Fin 2 → Option WebapiMsg
  xWsWorkerQueue : List WebapiMsg
  handling : Option WebapiMsg
  received : Nat
  heap : Heap Place

inductive ReplyLabel
  | handleMsg (inMsg : WebapiMsg) (env : UartEnv)
  | uartSend
  | mbResponse (i : Fin 2) (msg : WebapiMsg)
  | mbSend (i : Fin 2)
  | receive
  | handled

def hasText (msg : Option WebapiMsg) : Bool := (msg.bind WebapiMsg.data).isSome

def allocText (h : Heap Place) (k : Place) (msg : Option WebapiMsg) : Heap Place :=
  if hasText msg then h.alloc k else h

def Peripherals.full (x : Peripherals) : Bool := workerQueueDepth ≤ x.xWsWorkerQueue.length

def Peripherals.push (x : Peripherals) (k : Place) (msg : WebapiMsg) : Peripherals :=
  { x with
    xWsWorkerQueue := x.xWsWorkerQueue ++ [msg]
    heap := x.heap.move k (.message (x.received + x.xWsWorkerQueue.length)) }

def Peripherals.setModbus (x : Peripherals) (i : Fin 2) (msg : Option WebapiMsg) : Peripherals :=
  { x with modbus := Function.update x.modbus i msg }

/-- handle_msg ends with send_uart_response, which does not wait for room and
does not look at the result. send_mb_msg gives up after 100 ms and frees its
text. The worker frees the text of a message that it has handled. -/
def step (B : Base64) (P : Platform) (x : Peripherals) :
    ReplyLabel → Option (Except Empty Peripherals)
  | .handleMsg inMsg env => match x.uart with
    | none =>
      let (app, answer) := Uart.handleMsg B P x.app inMsg env
      some (.ok { x with app := app, uart := answer, heap := allocText x.heap .uart answer })
    | some _ => none
  | .uartSend => match x.uart with
    | some msg =>
      let x := if x.full then { x with heap := x.heap.lose .uart } else x.push .uart msg
      some (.ok { x with uart := none })
    | none => none
  | .mbResponse i msg => match x.modbus i with
    | none =>
      some (.ok { x.setModbus i (some msg) with heap := allocText x.heap (.modbus i) (some msg) })
    | some _ => none
  | .mbSend i => match x.modbus i with
    | some msg =>
      let x := if x.full then { x with heap := x.heap.free (.modbus i) } else x.push (.modbus i) msg
      some (.ok (x.setModbus i none))
    | none => none
  | .receive => match x.handling, x.xWsWorkerQueue with
    | none, msg :: rest =>
      some (.ok { x with xWsWorkerQueue := rest, handling := some msg, received := x.received + 1 })
    | _, _ => none
  | .handled => match x.handling with
    | some _ =>
      some (.ok { x with handling := none, heap := x.heap.free (.message (x.received - 1)) })
    | none => none

def machine (B : Base64) (P : Platform) : Machine Peripherals ReplyLabel Empty where
  init x := ∃ app, x = ⟨app, none, fun _ => none, [], none, 0, .empty⟩
  step := step B P

def Peripherals.message (x : Peripherals) (n : Nat) : Option WebapiMsg :=
  if n < x.received then (if n + 1 = x.received then x.handling else none)
  else x.xWsWorkerQueue[n - x.received]?

structure Placed (x : Peripherals) : Prop where
  handling : x.handling.isSome → 0 < x.received
  uart : (x.heap.holds .uart).isSome = hasText x.uart
  modbus : ∀ i, (x.heap.holds (.modbus i)).isSome = hasText (x.modbus i)
  message : ∀ n, (x.heap.holds (.message n)).isSome = hasText (x.message n)

def places (x : Peripherals) : List Place :=
  .uart :: ((List.finRange 2).map .modbus ++
    (List.range (x.xWsWorkerQueue.length + 1)).map (fun j => .message (x.received - 1 + j)))

/-- Every text is freed once or owned by one message, and there are at most as
many as messages in the queue and tasks that deal with one. -/
structure Accounted (x : Peripherals) : Prop where
  owned : Owned x.heap
  owner : ∀ b ∈ x.heap.live, ∃! k, k ∈ places x ∧ x.heap.holds k = some b
  bound : x.heap.live.length ≤ x.xWsWorkerQueue.length + 4

variable {B : Base64} {P : Platform} {x y : Peripherals} {a : ReplyLabel} {k : Place}
  {msg : WebapiMsg} {i : Fin 2}

theorem hasText_none : hasText none = false := rfl

theorem isSome_eq_false {o : Option Nat} (h : o.isSome = false) : o = none :=
  Option.not_isSome_iff_eq_none.1 (by simp [h])

theorem Placed.mem_places (hp : Placed x) {b : Nat} (h : x.heap.holds k = some b) :
    k ∈ places x := by
  cases k with
  | uart => simp [places]
  | modbus i => simp [places]
  | message n =>
      have htext : hasText (x.message n) = true := by rw [← hp.message, h]; rfl
      have hrange : x.received ≤ n + 1 ∧ n < x.received + x.xWsWorkerQueue.length := by
        by_contra hout
        have hnone : x.message n = none := by
          unfold Peripherals.message
          split_ifs
          · omega
          · rfl
          · exact List.getElem?_eq_none (by omega)
        rw [hnone] at htext
        cases htext
      refine List.mem_cons_of_mem _ (List.mem_append_right _ (List.mem_map.2 ?_))
      exact ⟨n - (x.received - 1), List.mem_range.2 (by omega), by congr 1; omega⟩

theorem places_length (x : Peripherals) : (places x).length = x.xWsWorkerQueue.length + 4 := by
  simp only [places, List.length_cons, List.length_append, List.length_map, List.length_finRange,
    List.length_range]
  omega

theorem accounted_iff (hp : Placed x) : Accounted x ↔ Owned x.heap := by
  refine ⟨Accounted.owned, fun ho => ⟨ho, fun b hb => ?_, ?_⟩⟩
  · obtain ⟨hlt, hfree⟩ := mem_live.1 hb
    obtain ⟨k, hk, huniq⟩ := ho.owner hlt hfree
    exact ⟨k, ⟨hp.mem_places hk, hk⟩, fun k' hk' => huniq k' hk'.2⟩
  · rw [← places_length]
    exact ho.live_length_le (fun _ _ hk => hp.mem_places hk)

/-- The UART task's send does not lose a text: the queue has room, or there is
none to lose. -/
def Sendable (x : Peripherals) (a : ReplyLabel) : Prop :=
  a = .uartSend → hasText x.uart = true → x.xWsWorkerQueue.length < workerQueueDepth

def Peripherals.nextMessage (x : Peripherals) : Nat := x.received + x.xWsWorkerQueue.length

theorem message_next (x : Peripherals) : x.message x.nextMessage = none := by
  rw [Peripherals.message, if_neg (by simp [Peripherals.nextMessage])]
  exact List.getElem?_eq_none (by simp [Peripherals.nextMessage])

theorem Placed.next (hp : Placed x) : x.heap.holds (.message x.nextMessage) = none :=
  isSome_eq_false (by rw [hp.message, message_next, hasText_none])

theorem push_message (n : Nat) : (x.push k msg).message n =
    if n = x.nextMessage then some msg else x.message n := by
  have hreceived : (x.push k msg).received = x.received := rfl
  have hhandling : (x.push k msg).handling = x.handling := rfl
  have hqueue : (x.push k msg).xWsWorkerQueue = x.xWsWorkerQueue ++ [msg] := rfl
  simp only [Peripherals.message, Peripherals.nextMessage, hreceived, hhandling, hqueue]
  by_cases hn : n < x.received
  · simp only [hn, if_true, show n ≠ x.received + x.xWsWorkerQueue.length by omega, if_false]
  · simp only [hn, if_false, List.getElem?_append]
    by_cases hlast : n = x.received + x.xWsWorkerQueue.length
    · simp [hlast]
    · by_cases hin : n - x.received < x.xWsWorkerQueue.length
      · simp [hin, hlast]
      · have hone : n - x.received - x.xWsWorkerQueue.length ≠ 0 := by omega
        simp [hin, hlast, hone]

theorem push_holds (hk : ∀ n, k ≠ .message n) (k' : Place) : (x.push k msg).heap.holds k' =
    if k' = .message x.nextMessage then x.heap.holds k
    else if k' = k then none else x.heap.holds k' := by
  have hne := hk x.nextMessage
  show (x.heap.move k (.message x.nextMessage)).holds k' = _
  split_ifs with hnew hold
  · rw [hnew, move_holds_target]
  · rw [hold, move_holds_source hne]
  · exact move_holds_ne hold hnew

/-- A place whose buffer went to the queue or is gone has no message any more,
and the others are as they were. -/
theorem Placed.pushed (hp : Placed x) (hk : ∀ n, k ≠ .message n)
    (hmsg : (x.heap.holds k).isSome = hasText (some msg)) (n : Nat) :
    ((x.push k msg).heap.holds (.message n)).isSome = hasText ((x.push k msg).message n) := by
  rw [push_holds hk, push_message]
  by_cases hn : n = x.nextMessage
  · simp [hn, hmsg]
  · have hne : Place.message n ≠ k := (hk n).symm
    simp [hn, hne, hp.message]

section Alloc

variable {h : Heap Place} {m : Option WebapiMsg}

theorem allocText_holds (hfree : h.holds k = none) (k' : Place) :
    ((allocText h k m).holds k').isSome = if k' = k then hasText m else (h.holds k').isSome := by
  unfold allocText
  cases ht : hasText m with
  | false =>
      by_cases hk : k' = k
      · simp [hk, hfree]
      · simp [hk]
  | true =>
      by_cases hk : k' = k
      · simp [hk]
      · simp [hk, alloc_holds_ne hk]

theorem allocText_owned (ho : Owned h) (hfree : h.holds k = none) (m : Option WebapiMsg) :
    Owned (allocText h k m) := by
  unfold allocText
  split
  · exact ho.alloc hfree
  · exact ho

end Alloc

theorem handle_placed (hp : Placed x) (hu : x.uart = none) (app : UartApp)
    (m : Option WebapiMsg) :
    Placed { x with app := app, uart := m, heap := allocText x.heap .uart m } := by
  have hfree : x.heap.holds .uart = none := isSome_eq_false (by rw [hp.uart, hu, hasText_none])
  refine ⟨hp.handling, ?_, fun i => ?_, fun n => ?_⟩
  · exact (allocText_holds hfree .uart).trans (if_pos rfl)
  · exact (allocText_holds hfree (.modbus i)).trans (hp.modbus i)
  · exact (allocText_holds hfree (.message n)).trans (hp.message n)

theorem response_placed (hp : Placed x) (hm : x.modbus i = none) (m : Option WebapiMsg) :
    Placed { x.setModbus i m with heap := allocText x.heap (.modbus i) m } := by
  have hfree : x.heap.holds (.modbus i) = none :=
    isSome_eq_false (by rw [hp.modbus, hm, hasText_none])
  refine ⟨hp.handling, ?_, fun j => ?_, fun n => ?_⟩
  · exact (allocText_holds hfree .uart).trans hp.uart
  · refine (allocText_holds hfree (.modbus j)).trans ?_
    by_cases hj : j = i
    · simp [hj, Peripherals.setModbus]
    · simp [hj, Peripherals.setModbus, hp.modbus]
  · exact (allocText_holds hfree (.message n)).trans (hp.message n)

theorem free_holds (h : Heap Place) (k k' : Place) :
    (h.free k).holds k' = if k' = k then none else h.holds k' := by
  split_ifs with hk
  · rw [hk, free_holds_self]
  · exact free_holds_ne hk

theorem lose_holds (h : Heap Place) (k k' : Place) :
    (h.lose k).holds k' = if k' = k then none else h.holds k' := by
  split_ifs with hk
  · rw [hk, lose_holds_self]
  · exact lose_holds_ne hk

theorem lost_placed (hp : Placed x) : Placed { x with heap := x.heap.lose .uart, uart := none } where
  handling := hp.handling
  uart := by simp [hasText_none]
  modbus i := by simp [lose_holds, hp.modbus]
  message n := by
    rw [lose_holds, if_neg (by simp)]
    exact hp.message n

theorem dropped_placed (hp : Placed x) (i : Fin 2) :
    Placed ({ x with heap := x.heap.free (.modbus i) }.setModbus i none) where
  handling := hp.handling
  uart := by
    show ((x.heap.free (.modbus i)).holds .uart).isSome = _
    rw [free_holds, if_neg (by simp)]
    exact hp.uart
  modbus j := by
    show ((x.heap.free (.modbus i)).holds (.modbus j)).isSome = _
    rw [free_holds]
    by_cases hj : j = i
    · simp [hj, Peripherals.setModbus, hasText_none]
    · simp [hj, Peripherals.setModbus, hp.modbus]
  message n := by
    show ((x.heap.free (.modbus i)).holds (.message n)).isSome = _
    rw [free_holds, if_neg (by simp)]
    exact hp.message n

theorem uart_pushed_placed (hp : Placed x) (hu : x.uart = some msg) :
    Placed { x.push .uart msg with uart := none } where
  handling := hp.handling
  uart := by simp [push_holds, hasText_none]
  modbus i := by
    show ((x.push .uart msg).heap.holds (.modbus i)).isSome = _
    rw [push_holds (by simp), if_neg (by simp), if_neg (by simp)]
    exact hp.modbus i
  message n := hp.pushed (by simp) (by rw [hp.uart, hu]) n

theorem modbus_pushed_placed (hp : Placed x) (hm : x.modbus i = some msg) :
    Placed ((x.push (.modbus i) msg).setModbus i none) where
  handling := hp.handling
  uart := by
    show ((x.push (.modbus i) msg).heap.holds .uart).isSome = _
    rw [push_holds (by simp), if_neg (by simp), if_neg (by simp)]
    exact hp.uart
  modbus j := by
    show ((x.push (.modbus i) msg).heap.holds (.modbus j)).isSome = _
    rw [push_holds (by simp), if_neg (by simp)]
    by_cases hj : j = i
    · simp [hj, Peripherals.setModbus, hasText_none]
    · have hsame : (x.push (.modbus i) msg).modbus j = x.modbus j := rfl
      simp [hj, Peripherals.setModbus, hsame, hp.modbus]
  message n := hp.pushed (by simp) (by rw [hp.modbus, hm]) n

theorem received_placed (hp : Placed x) {rest : List WebapiMsg} (hh : x.handling = none)
    (hq : x.xWsWorkerQueue = msg :: rest) :
    Placed { x with xWsWorkerQueue := rest, handling := some msg, received := x.received + 1 } where
  handling _ := Nat.succ_pos _
  uart := hp.uart
  modbus := hp.modbus
  message n := by
    have hsame : Peripherals.message { x with
        xWsWorkerQueue := rest, handling := some msg, received := x.received + 1 } n =
        x.message n := by
      simp only [Peripherals.message, hh, hq]
      rcases Nat.lt_trichotomy n x.received with hn | hn | hn
      · simp [hn, Nat.lt_succ_of_lt hn, Nat.ne_of_lt hn]
      · simp [hn]
      · obtain ⟨j, rfl⟩ : ∃ j, n = x.received + 1 + j := ⟨n - (x.received + 1), by omega⟩
        have hj : x.received + 1 + j - x.received = j + 1 := by omega
        have hout : ¬ x.received + 1 + j < x.received + 1 := by omega
        simp only [hj, hout, show ¬ x.received + 1 + j < x.received by omega, if_false]
        simp
    rw [hsame]
    exact hp.message n

theorem handled_placed (hp : Placed x) (hh : x.handling = some msg) :
    Placed { x with handling := none, heap := x.heap.free (.message (x.received - 1)) } where
  handling h := by cases h
  uart := by
    rw [free_holds, if_neg (by simp)]
    exact hp.uart
  modbus i := by
    rw [free_holds, if_neg (by simp)]
    exact hp.modbus i
  message n := by
    have hpos := hp.handling (by simp [hh])
    rw [free_holds]
    by_cases hn : n + 1 = x.received
    · have hplace : n = x.received - 1 := by omega
      have hlt : n < x.received := by omega
      simp [← hplace, Peripherals.message, hlt, hn, hasText_none]
    · have hplace : n ≠ x.received - 1 := by omega
      have hsame : Peripherals.message { x with
          handling := none, heap := x.heap.free (.message (x.received - 1)) } n = x.message n := by
        simp only [Peripherals.message, if_neg hn]
      rw [if_neg (by simpa using hplace), hsame]
      exact hp.message n

/-- One step keeps the places right, and loses a text only where a send of the
UART task finds the queue full. -/
theorem step_placed (hp : Placed x) (h : (machine B P).Step x a y) :
    Placed y ∧ (Owned x.heap → (Owned y.heap ↔ Sendable x a)) := by
  have hother : ∀ {b : ReplyLabel}, b ≠ .uartSend → Sendable x b := fun hb he => absurd he hb
  cases a with
  | handleMsg inMsg env =>
      cases hu : x.uart with
      | some m => simp [Machine.Step, machine, step, hu] at h
      | none =>
          simp only [Machine.Step, machine, step, hu, Option.some.injEq, Except.ok.injEq] at h
          subst h
          have hfree : x.heap.holds .uart = none :=
            isSome_eq_false (by rw [hp.uart, hu, hasText_none])
          exact ⟨handle_placed hp hu _ _, fun ho =>
            iff_of_true (allocText_owned ho hfree _) (hother (by simp))⟩
  | uartSend =>
      cases hu : x.uart with
      | none => simp [Machine.Step, machine, step, hu] at h
      | some m =>
          simp only [Machine.Step, machine, step, hu, Option.some.injEq, Except.ok.injEq] at h
          subst h
          have hsend : Sendable x .uartSend ↔ x.heap.holds .uart = none ∨ x.full = false := by
            rw [← Option.not_isSome_iff_eq_none, hp.uart, Sendable, Peripherals.full,
              decide_eq_false_iff_not, Nat.not_le]
            by_cases ht : hasText x.uart = true <;> simp [ht]
          cases hfull : x.full with
          | true =>
              refine ⟨lost_placed hp, fun ho => ?_⟩
              rw [hsend, hfull]
              simpa using owned_lose_iff ho
          | false =>
              refine ⟨uart_pushed_placed hp hu, fun ho => iff_of_true ?_ (hsend.2 (.inr hfull))⟩
              exact ho.move (by simp) hp.next
  | mbResponse i m =>
      cases hm : x.modbus i with
      | some m => simp [Machine.Step, machine, step, hm] at h
      | none =>
          simp only [Machine.Step, machine, step, hm, Option.some.injEq, Except.ok.injEq] at h
          subst h
          have hfree : x.heap.holds (.modbus i) = none :=
            isSome_eq_false (by rw [hp.modbus, hm, hasText_none])
          exact ⟨response_placed hp hm _, fun ho =>
            iff_of_true (allocText_owned ho hfree _) (hother (by simp))⟩
  | mbSend i =>
      cases hm : x.modbus i with
      | none => simp [Machine.Step, machine, step, hm] at h
      | some m =>
          simp only [Machine.Step, machine, step, hm, Option.some.injEq, Except.ok.injEq] at h
          subst h
          cases hfull : x.full with
          | true =>
              exact ⟨dropped_placed hp i, fun ho => iff_of_true (ho.free _) (hother (by simp))⟩
          | false =>
              refine ⟨modbus_pushed_placed hp hm, fun ho => iff_of_true ?_ (hother (by simp))⟩
              exact ho.move (by simp) hp.next
  | receive =>
      simp only [Machine.Step, machine, step] at h
      split at h
      next m rest hh hq =>
        simp only [Option.some.injEq, Except.ok.injEq] at h
        subst h
        exact ⟨received_placed hp hh hq, fun ho => iff_of_true ho (hother (by simp))⟩
      next => cases h
  | handled =>
      cases hh : x.handling with
      | none => simp [Machine.Step, machine, step, hh] at h
      | some m =>
          simp only [Machine.Step, machine, step, hh, Option.some.injEq, Except.ok.injEq] at h
          subst h
          exact ⟨handled_placed hp hh, fun ho => iff_of_true (ho.free _) (hother (by simp))⟩

theorem init_placed (app : UartApp) :
    Placed ⟨app, none, fun _ => none, [], none, 0, .empty⟩ where
  handling h := by cases h
  uart := rfl
  modbus _ := rfl
  message _ := rfl

theorem reachable_placed (h : Reachable (machine B P) x) : Placed x := by
  refine h.invariant ?_ (fun _ _ _ _ hp hstep => (step_placed hp hstep).1)
  rintro x ⟨app, rfl⟩
  exact init_placed app

/-- The texts of the replies stay accounted for in exactly those runs in which
the UART task never finds the queue full when it sends one. -/
theorem replies_accounted_iff {as : List ReplyLabel} (hx : (machine B P).init x) :
    Along (machine B P) (fun _ _ y => Accounted y) x as y ↔
      Along (machine B P) (fun x a _ => Sendable x a) x as y := by
  have hinit : Accounted x := by
    obtain ⟨app, rfl⟩ := hx
    exact (accounted_iff (init_placed app)).2 .empty
  refine Along.invariant_iff (.init hx) hinit (fun t a u hr hi hstep => ?_)
  obtain ⟨hp, howned⟩ := step_placed (reachable_placed hr) hstep
  rw [accounted_iff hp, howned hi.owned]

def echoRequest : List ReplyLabel :=
  [.handleMsg ⟨espWsApiUart1Echo, 5, none, 0⟩ ⟨true, true, true, 0⟩, .uartSend]

def echoes (n : Nat) : List ReplyLabel := (List.replicate n echoRequest).flatten

def echoPlatform : Platform := ⟨fun _ => none, fun _ => bytes ['\x7d'], id⟩

def plainBase64 : Base64 := ⟨id, List.length, id⟩

def quiet : Peripherals where
  app := ⟨fun _ => ⟨⟨115200, .data8Bits, .disable, .bits1⟩, false, []⟩, fun _ => ⟨0, []⟩⟩
  uart := none
  modbus _ := none
  xWsWorkerQueue := []
  handling := none
  received := 0
  heap := .empty

def sendable (x : Peripherals) : ReplyLabel → Bool
  | .uartSend => !hasText x.uart || !x.full
  | _ => true

theorem sendable_iff : sendable x a = true ↔ Sendable x a := by
  cases a with
  | uartSend =>
      rw [Sendable, sendable, Peripherals.full]
      by_cases ht : hasText x.uart = true <;> simp [ht]
  | _ => simp [sendable, Sendable]

theorem replies_accounted_two : ∃ y, Along (machine plainBase64 echoPlatform)
      (fun _ _ y => Accounted y) quiet (echoes 2 ++ [.receive, .handled]) y ∧
    y.heap.freed = [0] ∧ y.heap.live = [1] := by
  have h : (machine plainBase64 echoPlatform).check sendable
      (fun y => y.heap.freed == [0] && y.heap.live == [1]) quiet
      (echoes 2 ++ [.receive, .handled]) = true := by
    decide +kernel
  obtain ⟨y, hrun, hy⟩ := exists_of_check h
  rw [Bool.and_eq_true, beq_iff_eq, beq_iff_eq] at hy
  exact ⟨y, (replies_accounted_iff ⟨_, rfl⟩).2 (hrun.imp (fun _ _ _ => sendable_iff.1)), hy⟩

/-- While the worker does not run, every answer after the tenth is lost. -/
theorem replies_leaked : ∃ y, Reachable (machine plainBase64 echoPlatform) y ∧
    y.xWsWorkerQueue.length = 10 ∧ y.heap.live.length = 15 ∧ y.heap.freed = [] ∧ ¬ Accounted y := by
  have h : (machine plainBase64 echoPlatform).reaches quiet (echoes 15)
      (fun y => y.xWsWorkerQueue.length == 10 && y.heap.live.length == 15 &&
        y.heap.freed == []) = true := by
    decide +kernel
  obtain ⟨y, hrun, hy⟩ := exists_of_reaches h
  simp only [Bool.and_eq_true, beq_iff_eq, and_assoc] at hy
  obtain ⟨hqueue, hlive, hfreed⟩ := hy
  refine ⟨y, ⟨_, _, ⟨_, rfl⟩, hrun⟩, hqueue, hlive, hfreed, fun hacc => ?_⟩
  have hbound := hacc.bound
  rw [hqueue, hlive] at hbound
  omega

end WirelessGateway.ReplyBuffers
