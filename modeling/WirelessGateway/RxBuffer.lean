import WirelessGateway.Lib.Fallible
import WirelessGateway.Lib.Region
import WirelessGateway.Lib.Runs
import WirelessGateway.Uart

namespace WirelessGateway.RxBuffer

open CJson Lib.Fallible Lib.Region Lib.Runs

structure RxContext where
  amount : UInt32
  size : UInt32
  buf : Bytes

def uartEventOnRx (ctx : RxContext) (data : Bytes) : Except Overrun RxContext := do
  let room := (ctx.size - ctx.amount).toNat
  let sz := if room > data.length then data.length else room
  let buf ← copy ctx.buf ctx.amount.toNat data sz
  pure ⟨ctx.amount + UInt32.ofNat sz, ctx.size, buf⟩

/-- The RAW_RX branch of handle_msg with the mutex taken, and the bytes that it
goes on with. The array tmp is not initialised. -/
def takeReceived (ctx : RxContext) (tmp : Bytes) : Except Overrun (RxContext × Bytes) :=
  if ctx.amount > 0 then do
    let tmp ← copy tmp 0 ctx.buf ctx.amount.toNat
    pure ({ ctx with amount := 0 }, tmp.take ctx.amount.toNat)
  else pure (ctx, [])

def RxContext.contents (ctx : RxContext) : Bytes := ctx.buf.take ctx.amount.toNat

/-- What became of a chunk: the part that was taken, and the amount of the
buffer after it. -/
structure Reception where
  chunk : Bytes
  taken : Bytes
  amount : UInt32

structure RxPort where
  ctx : RxContext
  receptions : List Reception
  drained : List Bytes

/-- The mutex makes an event and a poll atomic. -/
inductive RxLabel
  | rx (data : Bytes)
  | poll (tmp : Bytes)

def RxLabel.chunk : RxLabel → Option Bytes
  | .rx data => some data
  | .poll _ => none

def step (x : RxPort) : RxLabel → Option (Except Overrun RxPort)
  | .rx data => some (do
    let ctx ← uartEventOnRx x.ctx data
    let taken := data.take (ctx.amount.toNat - x.ctx.amount.toNat)
    pure { x with ctx := ctx, receptions := x.receptions ++ [⟨data, taken, ctx.amount⟩] })
  | .poll tmp =>
    if tmp.length = Uart.uartTmpBufSize then some (do
      let (ctx, bytes) ← takeReceived x.ctx tmp
      pure { x with ctx := ctx, drained := x.drained ++ [bytes] })
    else none

def machine : Machine RxPort RxLabel Overrun where
  init x := x.ctx.amount = 0 ∧ x.ctx.size.toNat = Uart.uartTmpBufSize ∧
    x.ctx.buf.length = Uart.uartTmpBufSize ∧ x.receptions = [] ∧ x.drained = []
  step := step

/-- The amount never passes the size of the buffer, which is the size of tmp. -/
structure Bounded (ctx : RxContext) : Prop where
  size : ctx.size.toNat = Uart.uartTmpBufSize
  buf : ctx.buf.length = Uart.uartTmpBufSize
  amount : ctx.amount ≤ ctx.size

theorem Bounded.amount_le {ctx : RxContext} (h : Bounded ctx) :
    ctx.amount.toNat ≤ Uart.uartTmpBufSize := h.size ▸ UInt32.le_iff_toNat_le.1 h.amount

theorem uartEventOnRx_spec {ctx : RxContext} (h : Bounded ctx) (data : Bytes) :
    Returns (uartEventOnRx ctx data) (fun ctx' => Bounded ctx' ∧
      ctx'.contents = ctx.contents ++ data.take (ctx'.amount.toNat - ctx.amount.toNat) ∧
      ctx'.amount.toNat = min (ctx.amount.toNat + data.length) ctx.size.toNat) := by
  have hle := h.amount_le
  have hsize := h.size
  have hroom : (ctx.size - ctx.amount).toNat = ctx.size.toNat - ctx.amount.toNat :=
    UInt32.toNat_sub_of_le _ _ h.amount
  obtain ⟨sz, hsz, hmin⟩ : ∃ sz, (if (ctx.size - ctx.amount).toNat > data.length then data.length
      else (ctx.size - ctx.amount).toNat) = sz ∧
      ctx.amount.toNat + sz = min (ctx.amount.toNat + data.length) ctx.size.toNat := by
    refine ⟨_, rfl, ?_⟩
    rw [hroom]
    split <;> omega
  have hbuf := h.buf
  obtain ⟨mem, hcopy, hlen, htake⟩ := @copy_spec _ ctx.buf data ctx.amount.toNat sz
    (by omega) (by omega)
  have hsum : (ctx.amount + UInt32.ofNat sz).toNat = ctx.amount.toNat + sz := by
    have := ctx.size.toNat_lt
    rw [UInt32.toNat_add, UInt32.toNat_ofNat']
    omega
  refine ⟨⟨ctx.amount + UInt32.ofNat sz, ctx.size, mem⟩, ?_, ⟨hsize, hlen.trans hbuf, ?_⟩, ?_, ?_⟩
  · simp only [uartEventOnRx, hsz, hcopy, ok_bind, pure_ok]
  · show ctx.amount + UInt32.ofNat sz ≤ ctx.size
    rw [UInt32.le_iff_toNat_le, hsum]
    omega
  · simp only [RxContext.contents, hsum, htake, Nat.add_sub_cancel_left]
  · rw [hsum, hmin]

theorem takeReceived_spec {ctx : RxContext} (h : Bounded ctx) {tmp : Bytes}
    (htmp : tmp.length = Uart.uartTmpBufSize) :
    Returns (takeReceived ctx tmp) (fun r => Bounded r.1 ∧ r.1.contents = [] ∧
      r.2 = ctx.contents) := by
  have hle := h.amount_le
  have hbuf := h.buf
  by_cases hpos : ctx.amount > 0
  · obtain ⟨mem, hcopy, -, htake⟩ := @copy_spec _ tmp ctx.buf 0 ctx.amount.toNat
      (by omega) (by omega)
    rw [Nat.zero_add] at htake
    refine ⟨({ ctx with amount := 0 }, mem.take ctx.amount.toNat), ?_, ⟨h.size, h.buf, ?_⟩, rfl, ?_⟩
    · simp only [takeReceived, if_pos hpos, hcopy, ok_bind, pure_ok]
    · exact UInt32.le_iff_toNat_le.2 (Nat.zero_le _)
    · rw [htake]
      rfl
  · have hzero : ctx.amount = 0 := UInt32.le_zero_iff.1 (UInt32.not_lt.1 hpos)
    refine ⟨(ctx, []), ?_, h, ?_, ?_⟩
    · simp only [takeReceived, if_neg hpos, pure_ok]
    · simp [RxContext.contents, hzero]
    · simp [RxContext.contents, hzero]

def RxContext.subscription (ctx : RxContext) : Uart.UartSubscriptionContext :=
  ⟨ctx.size.toNat, ctx.contents⟩

theorem uartEventOnRx_refines {ctx : RxContext} (h : Bounded ctx) (data : Bytes) :
    Returns (uartEventOnRx ctx data)
      (fun ctx' => ctx'.subscription = Uart.uartEventOnRx ctx.subscription data) := by
  refine (uartEventOnRx_spec h data).mono fun ctx' ⟨hbounded, hcontents, hamount⟩ => ?_
  have hle := h.amount_le
  have hsize := h.size
  have hlen : ctx.contents.length = ctx.amount.toNat := by
    rw [RxContext.contents, List.length_take, h.buf]
    omega
  have htake : data.take (ctx'.amount.toNat - ctx.amount.toNat) =
      data.take (ctx.size.toNat - ctx.amount.toNat) := by
    rw [hamount, List.take_eq_take_iff]
    omega
  simp only [RxContext.subscription, Uart.uartEventOnRx, hcontents, hlen, htake,
    hbounded.size.trans hsize.symm]

theorem takeReceived_refines {ctx : RxContext} (h : Bounded ctx) {tmp : Bytes}
    (htmp : tmp.length = Uart.uartTmpBufSize) :
    Returns (takeReceived ctx tmp) (fun r => r.2 = ctx.subscription.buf ∧
      r.1.subscription = { ctx.subscription with buf := [] }) := by
  refine (takeReceived_spec h htmp).mono fun r ⟨hbounded, hempty, htaken⟩ => ⟨htaken, ?_⟩
  simp only [RxContext.subscription, hempty, hbounded.size.trans h.size.symm]

/-- A prefix of the chunk was taken, and all of it unless that filled the
buffer. -/
def Reception.Lossless (size : UInt32) (r : Reception) : Prop :=
  r.taken <+: r.chunk ∧ (r.taken.length < r.chunk.length → r.amount = size)

/-- What has been drained and what is still there is what was taken. -/
structure Fifo (x : RxPort) : Prop where
  bounded : Bounded x.ctx
  conserved : x.drained.flatten ++ x.ctx.contents = (x.receptions.map Reception.taken).flatten
  lossless : ∀ r ∈ x.receptions, r.Lossless x.ctx.size

theorem rx_returns {x : RxPort} (h : Fifo x) (data : Bytes) :
    ∃ op, step x (.rx data) = some op ∧ Returns op (fun y => Fifo y ∧
      y.receptions.map Reception.chunk = x.receptions.map Reception.chunk ++ [data]) := by
  refine ⟨_, rfl, ?_⟩
  obtain ⟨ctx, hctx, hbounded, hcontents, hamount⟩ := uartEventOnRx_spec h.bounded data
  have hsize : ctx.size = x.ctx.size := by
    rw [← UInt32.toNat_inj, hbounded.size, h.bounded.size]
  refine ⟨_, by rw [hctx]; rfl, ⟨hbounded, ?_, ?_⟩, by simp⟩
  · show x.drained.flatten ++ ctx.contents = _
    rw [hcontents, ← List.append_assoc, h.conserved]
    simp
  · intro r hr
    show r.Lossless ctx.size
    rw [hsize]
    rcases List.mem_append.1 hr with hr | hr
    · exact h.lossless r hr
    · obtain rfl := List.mem_singleton.1 hr
      refine ⟨List.take_prefix _ _, fun hlt => ?_⟩
      rw [List.length_take] at hlt
      rw [← UInt32.toNat_inj]
      show ctx.amount.toNat = x.ctx.size.toNat
      have hle := UInt32.le_iff_toNat_le.1 h.bounded.amount
      have hlt' : min (ctx.amount.toNat - x.ctx.amount.toNat) data.length < data.length := hlt
      omega

theorem poll_returns {x : RxPort} (h : Fifo x) {tmp : Bytes} {op : Except Overrun RxPort}
    (hstep : step x (.poll tmp) = some op) :
    Returns op (fun y => Fifo y ∧ y.receptions = x.receptions) := by
  simp only [step, Option.ite_none_right_eq_some, Option.some.injEq] at hstep
  obtain ⟨htmp, rfl⟩ := hstep
  obtain ⟨r, hr, hbounded, hempty, htaken⟩ := takeReceived_spec h.bounded htmp
  have hsize : r.1.size = x.ctx.size := by
    rw [← UInt32.toNat_inj, hbounded.size, h.bounded.size]
  refine ⟨{ x with ctx := r.1, drained := x.drained ++ [r.2] }, by rw [hr]; rfl,
    ⟨hbounded, ?_, ?_⟩, rfl⟩
  · show (x.drained ++ [r.2]).flatten ++ r.1.contents = _
    rw [hempty, htaken, ← h.conserved]
    simp
  · show ∀ q ∈ x.receptions, q.Lossless r.1.size
    rw [hsize]
    exact h.lossless

theorem fifo_init {x : RxPort} (h : machine.init x) : Fifo x := by
  obtain ⟨hamount, hsize, hbuf, hrec, hdrained⟩ := h
  refine ⟨⟨hsize, hbuf, ?_⟩, ?_, ?_⟩
  · rw [hamount]
    exact UInt32.le_iff_toNat_le.2 (Nat.zero_le _)
  · simp [hrec, hdrained, RxContext.contents, hamount]
  · simp [hrec]

theorem fifo_step {x : RxPort} (h : Fifo x) {a : RxLabel} {op : Except Overrun RxPort}
    (hstep : step x a = some op) : Returns op (fun y => Fifo y ∧
      y.receptions.map Reception.chunk = x.receptions.map Reception.chunk ++ a.chunk.toList) := by
  cases a with
  | rx data =>
      obtain ⟨op', hop, hret⟩ := rx_returns h data
      rw [hop, Option.some.injEq] at hstep
      exact hstep ▸ hret
  | poll tmp =>
      refine (poll_returns h hstep).mono fun y hy => ⟨hy.1, ?_⟩
      rw [hy.2]
      exact (List.append_nil _).symm

/-- The buffer of a port is a queue that loses nothing until it is full: in
every run no copy goes outside a buffer, and what was drained and what is there
are the parts that were taken of the chunks, in order. -/
theorem rx_lossless {x y : RxPort} {as : List RxLabel} (hx : machine.init x)
    (h : Run machine x as y) :
    y.ctx.amount ≤ y.ctx.size ∧ y.ctx.buf.length = y.ctx.size.toNat ∧
    (∀ a, ¬ machine.Faults y a) ∧
    y.drained.flatten ++ y.ctx.contents = (y.receptions.map Reception.taken).flatten ∧
    y.receptions.map Reception.chunk = as.filterMap RxLabel.chunk ∧
    ∀ r ∈ y.receptions, r.Lossless y.ctx.size := by
  have hrun : Fifo y ∧ y.receptions.map Reception.chunk = as.filterMap RxLabel.chunk := by
    induction h with
    | start =>
        refine ⟨fifo_init hx, ?_⟩
        rw [hx.2.2.2.1]
        rfl
    | @step as t a u _ hstep _ ih =>
        obtain ⟨u', hu, hfifo, hchunks⟩ := fifo_step ih.1 hstep
        cases hu
        refine ⟨hfifo, ?_⟩
        rw [hchunks, ih.2, List.filterMap_append]
        cases a <;> rfl
  obtain ⟨hfifo, hchunks⟩ := hrun
  refine ⟨hfifo.bounded.amount, ?_, ?_, hfifo.conserved, hchunks, hfifo.lossless⟩
  · rw [hfifo.bounded.buf, hfifo.bounded.size]
  · rintro a ⟨f, hf⟩
    obtain ⟨z, hz, -⟩ := fifo_step hfifo hf
    cases hz

def zeros : Bytes := List.replicate Uart.uartTmpBufSize 0

def idlePort : RxPort := ⟨⟨0, 1000, zeros⟩, [], []⟩

theorem rx_lossless_clear : ∃ y : RxPort, y.drained = [[1, 2, 3]] ∧ y.ctx.contents = [4] ∧
    y.ctx.amount ≤ y.ctx.size ∧ y.drained.flatten ++ y.ctx.contents =
      (y.receptions.map Reception.taken).flatten := by
  have h : machine.reaches idlePort [.rx [1, 2, 3], .poll zeros, .rx [4]]
      (fun y => y.drained == [[1, 2, 3]] && y.ctx.contents == [4]) = true := by decide +kernel
  obtain ⟨y, hrun, hy⟩ := exists_of_reaches h
  rw [Bool.and_eq_true, beq_iff_eq, beq_iff_eq] at hy
  obtain ⟨hamount, -, -, hconserved, -⟩ :=
    rx_lossless (x := idlePort) ⟨rfl, rfl, List.length_replicate, rfl, rfl⟩ hrun
  exact ⟨y, hy.1, hy.2, hamount, hconserved⟩

end WirelessGateway.RxBuffer
