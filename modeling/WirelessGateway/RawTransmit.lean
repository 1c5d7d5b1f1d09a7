import Mathlib.Data.List.TakeWhile
import WirelessGateway.Lib.Base64
import WirelessGateway.Lib.Text
import WirelessGateway.Lifecycle
import WirelessGateway.Uart

namespace WirelessGateway.RawTransmit

open CJson WirelessGateway.Types Transport Lifecycle Uart Lib.Base64 Lib.Text

def escape (b : UInt8) : Bytes :=
  if b = 34 then [92, 34]
  else if b = 92 then [92, 92]
  else if b = 8 then [92, 98]
  else if b = 12 then [92, 102]
  else if b = 10 then [92, 110]
  else if b = 13 then [92, 114]
  else if b = 9 then [92, 116]
  else if b < 32 then 92 :: bytes ('u' :: hexDigits 4 b.toNat)
  else [b]

def printString (s : Bytes) : Bytes := 34 :: ((cString s).flatMap escape ++ [34])

/-- base64_decode is standard base64: it gives back what was encoded, reports a
character outside the alphabet as a failure, and has the room that
base64_decode_buffer_required says. -/
structure Standard (B : Base64) : Prop where
  encoded : ∀ bs, B.decode (encode bs) = bs
  alphabet : ∀ text, B.decode text ≠ [] → ∀ b ∈ text, inAlphabet b = true
  required : ∀ text, B.decode text ≠ [] → 0 < B.decodeBufferRequired text

def rawTxFid (i : Fin 2) : UInt32 :=
  if i.val = 0 then espWsApiUart1RawTx else espWsApiUart2RawTx

def frameArgItem (json : Json) : Option Json := json.getObjectItem ['A', 'R', 'G']

/-- The bytes that an ARG asks for: those of a string that is base64 of at least
one byte. -/
def rawBytes (B : Base64) (arg : Option Json) : Option Bytes :=
  match arg with
  | some (.string s) => if B.decode s = [] then none else some (B.decode s)
  | _ => none

def writtenResponse (P : Platform) (inMsg : WebapiMsg) (env : UartEnv) : WebapiMsg :=
  uartResponse P inMsg.id inMsg.fid
    (some (.object [(bytes ['w', 'r', 'i', 't', 't', 'e', 'n'], .createNumber env.written)])) env

/-- A request writes the bytes that its ARG asks for to its port, and is
answered with the result of the driver. Any other request writes nothing. -/
structure Transmits (B : Base64) (P : Platform) (app : UartApp) (i : Fin 2) (arg : Option Json)
    (inMsg : WebapiMsg) (env : UartEnv) : Prop where
  bytes : ∀ bs, rawBytes B arg = some bs → handleMsg B P app inMsg env =
    (app.setPort i { app.port i with written := (app.port i).written ++ [bs] },
      if env.jsonAlloc then some (writtenResponse P inMsg env) else none)
  nothing : rawBytes B arg = none →
    ∀ j, ((handleMsg B P app inMsg env).1.port j).written = (app.port j).written

def inner (text : Bytes) : Bytes := (text.drop 1).take (text.length - 2)

/-- The condition under which a request is handled as it should be: a string
that fits the length of gw_uart_write and has no base64 in front of a
terminator, or a text that is not base64 once its first and last characters
are off. -/
def Passes (B : Base64) (P : Platform) (arg : Option Json) : Prop :=
  match arg with
  | some (.string s) => if 0 ∈ s then B.decode (cString s) = [] else (B.decode s).length < 65536
  | some item => B.decode (inner (P.print item)) = []
  | none => True

section Text

variable {s : Bytes} {b : UInt8}

theorem escape_plain (h : inAlphabet b = true) : escape b = [b] := by
  have hall : ∀ n : Fin 256, inAlphabet (UInt8.ofNat n.val) = true →
      escape (UInt8.ofNat n.val) = [UInt8.ofNat n.val] := by decide +kernel
  have hb := hall ⟨b.toNat, b.toNat_lt⟩
  simpa using hb (by simpa using h)

theorem escape_outside (h : inAlphabet b = false) : ∃ b' ∈ escape b, inAlphabet b' = false := by
  have hall : ∀ n : Fin 256, inAlphabet (UInt8.ofNat n.val) = false →
      ∃ b' ∈ escape (UInt8.ofNat n.val), inAlphabet b' = false := by decide +kernel
  have hb := hall ⟨b.toNat, b.toNat_lt⟩
  simpa using hb (by simpa using h)

theorem inner_printString (s : Bytes) : inner (printString s) = (cString s).flatMap escape := by
  simp [inner, printString]

theorem cString_eq_self (h : 0 ∉ s) : cString s = s := by
  rw [cString, List.takeWhile_eq_self_iff]
  exact fun b hb => decide_eq_true (ne_of_mem_of_not_mem hb h)

theorem flatMap_escape_plain (h : ∀ b ∈ s, inAlphabet b = true) : s.flatMap escape = s := by
  induction s with
  | nil => rfl
  | cons b s ih =>
      rw [List.flatMap_cons, escape_plain (h b (by simp)), ih (fun b' hb' => h b' (by simp [hb']))]
      rfl

theorem flatMap_escape_outside (h : ∃ b ∈ s, inAlphabet b = false) :
    ∃ b ∈ s.flatMap escape, inAlphabet b = false := by
  obtain ⟨b, hb, hout⟩ := h
  obtain ⟨b', hb', hout'⟩ := escape_outside hout
  exact ⟨b', List.mem_flatMap.2 ⟨b, hb, hb'⟩, hout'⟩

end Text

section Handle

variable {B : Base64} {P : Platform} {app : UartApp} {i : Fin 2} {inMsg : WebapiMsg}
  {env : UartEnv} {json item : Json} {sess : SessPtr} {sid : UInt32} {h : Option ApiHandlerItem}

theorem Standard.decode_nil (hB : Standard B) : B.decode [] = [] := hB.encoded []

theorem Standard.outside (hB : Standard B) {text : Bytes}
    (h : ∃ b ∈ text, inAlphabet b = false) : B.decode text = [] := by
  obtain ⟨b, hb, hout⟩ := h
  by_contra hne
  have hin := hB.alphabet text hne b hb
  rw [hout] at hin
  cases hin

theorem decode_printed (hB : Standard B) (s : Bytes) :
    B.decode (inner (printString s)) = B.decode (cString s) := by
  rw [inner_printString]
  by_cases hin : ∀ b ∈ cString s, inAlphabet b = true
  · rw [flatMap_escape_plain hin]
  · have hout : ∃ b ∈ cString s, inAlphabet b = false := by
      simpa using hin
    rw [hB.outside hout, hB.outside (flatMap_escape_outside hout)]

theorem decode_terminated (hB : Standard B) {s : Bytes} (h : 0 ∈ s) : B.decode s = [] :=
  hB.outside ⟨0, h, by decide⟩

theorem handleMsg_rawTx (hfid : inMsg.fid = rawTxFid i) :
    handleMsg B P app inMsg env = handleRawTx B P app i inMsg env := by
  rcases Fin.exists_fin_two.1 ⟨i, rfl⟩ with rfl | rfl
  · rw [handleMsg, hfid]
    rfl
  · rw [handleMsg, hfid]
    rfl

/-- What is written of the bytes: gw_uart_write takes a 16-bit length. -/
def transmit (P : Platform) (app : UartApp) (i : Fin 2) (inMsg : WebapiMsg) (env : UartEnv)
    (bs : Bytes) : UartApp × Option WebapiMsg :=
  if bs = [] then (app, none)
  else (app.setPort i (gwUartWrite (app.port i) bs bs.length),
    if env.jsonAlloc then some (writtenResponse P inMsg env) else none)

theorem handleRawTx_none (hdata : inMsg.data = none) :
    handleRawTx B P app i inMsg env = (app, none) := by
  rw [handleRawTx, hdata]

theorem handleRawTx_some (hB : Standard B) {text : Bytes} (hdata : inMsg.data = some text)
    (hlen : inMsg.len = text.length) :
    handleRawTx B P app i inMsg env = transmit P app i inMsg env (B.decode (inner text)) := by
  simp only [handleRawTx, hdata, hlen]
  by_cases hshort : text.length > 2
  · rw [if_pos hshort]
    show (if (B.decodeBufferRequired (inner text) > 0 && (B.decode (inner text)).length > 0) = true
      then _ else _) = _
    by_cases hnil : B.decode (inner text) = []
    · simp [transmit, hnil]
    · have hreq := hB.required _ hnil
      have hpos := List.length_pos_iff.2 hnil
      simp only [hreq, hpos, decide_true, Bool.and_self, if_true, transmit, hnil,
        if_false]
      cases env.jsonAlloc <;> rfl
  · have hinner : inner text = [] := by
      rw [inner, show text.length - 2 = 0 by omega, List.take_zero]
    rw [if_neg hshort, transmit, if_pos (by rw [hinner, hB.decode_nil])]

def argText (P : Platform) (json : Json) : Bytes := ((frameArgItem json).map P.print).getD []

theorem request_data (P : Platform) (json : Json) (sess : SessPtr) (sid : UInt32)
    (h : Option ApiHandlerItem) :
    ((requestOf (acceptedCall P true json sess sid h)).data = some (argText P json) ∧
      (requestOf (acceptedCall P true json sess sid h)).len = (argText P json).length) ∨
    ((requestOf (acceptedCall P true json sess sid h)).data = none ∧ argText P json = []) := by
  have harg : (acceptedCall P true json sess sid h).pucReqData =
      (frameArgItem json).map P.print := by
    show (frameArgItem json).bind (fun arg => some (P.print arg)) = _
    cases frameArgItem json <;> rfl
  have hlen : (acceptedCall P true json sess sid h).ulReqDataLen =
      (((frameArgItem json).map P.print).map List.length).getD 0 := by
    rw [← harg]
    rfl
  generalize acceptedCall P true json sess sid h = c at harg hlen
  simp only [requestOf, harg, hlen, argText]
  cases hitem : frameArgItem json with
  | none => right; cases c.longTerm <;> simp
  | some item =>
      cases hl : c.longTerm with
      | false => left; simp
      | true =>
          by_cases hpos : 0 < (P.print item).length
          · left
            simp [List.length_pos_iff.1 hpos]
          · right
            have hnil : P.print item = [] := List.length_eq_zero_iff.1 (by omega)
            simp [hnil]

theorem handle_eq (hB : Standard B) (hfid : frameFid json = rawTxFid i) (app : UartApp)
    (sess : SessPtr) (sid : UInt32) (h : Option ApiHandlerItem) (env : UartEnv) :
    handleMsg B P app (requestOf (acceptedCall P true json sess sid h)) env =
      transmit P app i (requestOf (acceptedCall P true json sess sid h)) env
        (B.decode (inner (argText P json))) := by
  rw [handleMsg_rawTx (i := i) hfid]
  rcases request_data P json sess sid h with ⟨hdata, hlen⟩ | ⟨hdata, hnil⟩
  · exact handleRawTx_some hB hdata hlen
  · have hinner : inner [] = [] := rfl
    rw [handleRawTx_none hdata, hnil, hinner, transmit, if_pos hB.decode_nil]

theorem transmit_nil : transmit P app i inMsg env [] = (app, none) := if_pos rfl

theorem take_narrowed_iff (bs : Bytes) : bs.take (bs.length % 65536) = bs ↔ bs.length < 65536 := by
  rw [List.take_eq_self_iff]
  omega

theorem transmit_exact_iff {bs : Bytes} (hne : bs ≠ []) :
    transmit P app i inMsg env bs =
      (app.setPort i { app.port i with written := (app.port i).written ++ [bs] },
        if env.jsonAlloc then some (writtenResponse P inMsg env) else none) ↔
      bs.length < 65536 := by
  rw [transmit, if_neg hne, ← take_narrowed_iff]
  constructor
  · intro he
    have hport := congrArg (fun r : UartApp × Option WebapiMsg => (r.1.port i).written) he
    simpa [UartApp.setPort, gwUartWrite] using hport
  · intro he
    rw [gwUartWrite, he]

theorem transmit_written (bs : Bytes) :
    (∀ j, ((transmit P app i inMsg env bs).1.port j).written = (app.port j).written) ↔ bs = [] := by
  constructor
  · intro hall
    by_contra hne
    have hi := hall i
    rw [transmit, if_neg hne] at hi
    simp [UartApp.setPort, gwUartWrite] at hi
  · rintro rfl j
    rw [transmit_nil]

/-- A request is handled as it should be exactly when its decoded string is
shorter than 65536 bytes, or what C reads of a string with a terminator in it is
no base64, or its ARG is no string and does not look like base64 once its first
and last characters are off. -/
theorem transmits_iff (hB : Standard B) (hP : ∀ s, P.print (.string s) = printString s)
    (hfid : frameFid json = rawTxFid i) (app : UartApp) (sess : SessPtr) (sid : UInt32)
    (h : Option ApiHandlerItem) (env : UartEnv) :
    Transmits B P app i (frameArgItem json) (requestOf (acceptedCall P true json sess sid h)) env ↔
      Passes B P (frameArgItem json) := by
  have he := handle_eq (P := P) hB hfid app sess sid h env
  generalize hm : requestOf (acceptedCall P true json sess sid h) = m at he
  -- what is written when nothing should be
  have hnothing : rawBytes B (frameArgItem json) = none →
      (Transmits B P app i (frameArgItem json) m env ↔
        B.decode (inner (argText P json)) = []) := by
    intro hraw
    constructor
    · intro ht
      have hw := ht.nothing hraw
      rw [he] at hw
      exact (transmit_written _).1 hw
    · intro hnil
      refine ⟨fun bs hbs => ?_, fun _ => ?_⟩
      · rw [hraw] at hbs
        cases hbs
      · rw [he]
        exact (transmit_written _).2 hnil
  cases hitem : frameArgItem json with
  | none =>
      rw [hitem] at hnothing
      have htext : argText P json = [] := by rw [argText, hitem]; rfl
      rw [hnothing rfl, htext]
      exact iff_of_true hB.decode_nil trivial
  | some item =>
      have htext : argText P json = P.print item := by rw [argText, hitem]; rfl
      rw [hitem, htext] at hnothing
      rw [htext] at he
      cases item with
      | string s =>
          rw [hP, decode_printed hB] at he hnothing
          by_cases hne : B.decode s = []
          · have hraw : rawBytes B (some (.string s)) = none := if_pos hne
            rw [hnothing hraw, Passes]
            by_cases hnul : 0 ∈ s
            · rw [if_pos hnul]
            · rw [if_neg hnul, cString_eq_self hnul, hne]
              exact iff_of_true rfl (by decide)
          · have hraw : rawBytes B (some (.string s)) = some (B.decode s) := if_neg hne
            have hnul : 0 ∉ s := fun h => hne (decode_terminated hB h)
            rw [cString_eq_self hnul] at he
            rw [Passes, if_neg hnul, ← transmit_exact_iff hne, ← he]
            constructor
            · exact fun ht => ht.bytes _ hraw
            · intro hex
              refine ⟨fun bs hbs => ?_, fun hnone => ?_⟩
              · rw [hraw, Option.some.injEq] at hbs
                rw [hex, hbs]
              · rw [hraw] at hnone
                cases hnone
      | _ => exact hnothing rfl

theorem encoded_written (hB : Standard B) (hP : ∀ s, P.print (.string s) = printString s)
    (hfid : frameFid json = rawTxFid i) {bs : Bytes}
    (harg : frameArgItem json = some (.string (encode bs))) (hne : bs ≠ [])
    (hlen : bs.length < 65536) (app : UartApp) (sess : SessPtr) (sid : UInt32)
    (h : Option ApiHandlerItem) (env : UartEnv) :
    ((handleMsg B P app (requestOf (acceptedCall P true json sess sid h)) env).1.port i).written =
      (app.port i).written ++ [bs] := by
  have htext : argText P json = printString (encode bs) := by
    rw [argText, harg]
    exact hP _
  have hnul : 0 ∉ encode bs := fun h => hne (by rw [← hB.encoded bs, decode_terminated hB h])
  rw [handle_eq hB hfid, htext, decode_printed hB, cString_eq_self hnul, hB.encoded,
    (transmit_exact_iff hne).2 hlen]
  simp [UartApp.setPort]

end Handle

section Samples

def standard : Base64 where
  encode := encode
  decodeBufferRequired text := text.length
  decode text := (decode text).getD []

theorem standard_ok : Standard standard where
  encoded bs := by simp [standard, decode_encode]
  alphabet text hne := by
    cases hd : decode text with
    | none => simp [standard, hd] at hne
    | some bs => exact decode_inAlphabet hd
  required text hne := by
    refine List.length_pos_iff.2 ?_
    rintro rfl
    exact hne rfl

def printer : Platform where
  parse _ := none
  print item := match item with
    | .string s => printString s
    | .number _ d => bytes (decimal d.num.toNat)
    | _ => []
  msToTicks t := t

def txFrame (arg : Json) : Json :=
  .object [(bytes ['F', 'I', 'D'], .number 0x1012 0x1012), (bytes ['A', 'R', 'G'], arg)]

def idleApp : UartApp where
  port _ := ⟨⟨115200, .data8Bits, .disable, .bits1⟩, false, []⟩
  context _ := ⟨uartTmpBufSize, []⟩

def txEnv : UartEnv := ⟨true, true, true, 5⟩

def hello : Json := txFrame (.string (bytes ['S', 'G', 'V', 's', 'b', 'G', '8', '=']))

theorem transmits_hello : Transmits standard printer idleApp 0 (frameArgItem hello)
      (requestOf (acceptedCall printer true hello 0 5 none)) txEnv ∧
    rawBytes standard (frameArgItem hello) = some (bytes ['H', 'e', 'l', 'l', 'o']) := by
  have hlen : (standard.decode (bytes ['S', 'G', 'V', 's', 'b', 'G', '8', '='])).length < 65536 := by
    decide
  exact ⟨(transmits_iff standard_ok (fun _ => rfl) rfl idleApp 0 5 none txEnv).2 hlen, by decide⟩

def digitsFrame : Json := txFrame (.number 123456 123456)

/-- The number 123456 is written to the port as the bytes that 2345 encodes. -/
theorem transmits_number : rawBytes standard (frameArgItem digitsFrame) = none ∧
    ((handleMsg standard printer idleApp (requestOf (acceptedCall printer true digitsFrame 0 5
      none)) txEnv).1.port 0).written = [[219, 126, 57]] ∧
    ¬ Transmits standard printer idleApp 0 (frameArgItem digitsFrame)
      (requestOf (acceptedCall printer true digitsFrame 0 5 none)) txEnv := by
  have hraw : rawBytes standard (frameArgItem digitsFrame) = none := by rfl
  have hwritten : ((handleMsg standard printer idleApp (requestOf (acceptedCall printer true
      digitsFrame 0 5 none)) txEnv).1.port 0).written = [[219, 126, 57]] := by
    decide +kernel
  refine ⟨hraw, hwritten, fun h => ?_⟩
  have hsame := h.nothing hraw 0
  rw [hwritten] at hsame
  cases hsame

end Samples

end WirelessGateway.RawTransmit
