import WirelessGateway.FrameParser
import WirelessGateway.Lib.Text

namespace WirelessGateway.FidText

open CJson WirelessGateway.Types Memory WsServer Transport FrameParser Lib.Text

variable {P : Platform} {fid : UInt32} {data : Bytes} {json : Json}

def wordText (w : UInt32) : Bytes := bytes ('0' :: 'x' :: hexDigits 8 w.toNat)

/-- The text of a reply: pucTemplate with its FID and SID, the JSON text, and
the brace. -/
def replyText (fid sid : UInt32) (ucJson : Bytes) : Bytes :=
  bytes ['\x7b', '"', 'F', 'I', 'D', '"', ':', '"'] ++ wordText fid ++
    bytes ['"', ',', '"', 'S', 'I', 'D', '"', ':', '"'] ++ wordText sid ++
    bytes ['"', ',', '"', 'A', 'R', 'G', '"', ':'] ++ ucJson ++ bytes ['\x7d']

structure SendsBack (P : Platform) (fid : UInt32) (data : Bytes) (json : Json) : Prop where
  parse : P.parse data = some json
  nonempty : data ≠ []
  length : data.length < UInt32.size
  fid : json.getObjectItem ['F', 'I', 'D'] = some (.string (wordText fid))
  flags : (frameNumber json ['F', 'L', 'A', 'G', 'S']).isSome
  sid : (frameNumber json ['S', 'I', 'D']).isSome

/-- Both parsers find the FID that the reply was for, and the call goes by the
handler or the queue of that FID. -/
def RoundTrip (fid : UInt32) : Prop :=
  ∀ (P : Platform) (data : Bytes) (json : Json), SendsBack P fid data json →
    (∃ out, wsFrameParse P (some data) (UInt32.ofNat data.length) = .ok out ∧ out.fid = fid) ∧
    ∀ (s : Server) (conn : ConnPtr) (sess : SessPtr) (env : TextEnv), env.callAlloc = true →
      ((s.findHandler fid).isSome ∨ (s.wsGetFidQueue fid).isSome) →
      ∃ c, wsServerOnText P s conn (some sess) (some data) env =
          .ok (((s.allocCall c).toCalls s.nextCall).log (.accept s.nextCall conn json c)) ∧
        c.ulFid = fid ∧ c.fHandler = (s.findHandler fid).map ApiHandlerItem.fHandler

theorem hexDigit_digitChar {d : Nat} (h : d < 16) :
    hexDigit (Nat.digitChar d).toNat.toUInt8 = some d := by
  have hall : ∀ d : Fin 16, hexDigit (Nat.digitChar d).toNat.toUInt8 = some d.val := by decide
  exact hall ⟨d, h⟩

theorem hexValue_append {ds : Bytes} (h : ∀ b ∈ ds, (hexDigit b).isSome) (acc : Nat) (es : Bytes) :
    hexValue acc (ds ++ es) = hexValue (hexValue acc ds) es := by
  induction ds generalizing acc with
  | nil => rfl
  | cons b ds ih =>
      obtain ⟨d, hd⟩ := Option.isSome_iff_exists.1 (h b (by simp))
      simp only [List.cons_append, hexValue, hd]
      exact ih (fun b' hb => h b' (by simp [hb])) _

theorem bytes_append (cs ds : List Char) : bytes (cs ++ ds) = bytes cs ++ bytes ds :=
  List.map_append

theorem hexDigits_isSome (k n : Nat) : ∀ b ∈ bytes (hexDigits k n), (hexDigit b).isSome := by
  induction k generalizing n with
  | zero => simp [hexDigits, bytes]
  | succ k ih =>
      intro b hb
      rw [hexDigits, bytes_append, List.mem_append] at hb
      rcases hb with hb | hb
      · exact ih (n / 16) b hb
      · rw [List.mem_singleton.1 hb, hexDigit_digitChar (Nat.mod_lt n (by omega))]
        rfl

theorem hexValue_hexDigits (k n : Nat) : hexValue 0 (bytes (hexDigits k n)) = n % 16 ^ k := by
  induction k generalizing n with
  | zero => rw [hexDigits, Nat.pow_zero, Nat.mod_one]; rfl
  | succ k ih =>
      have hlast : hexDigit (Nat.digitChar (n % 16)).toNat.toUInt8 = some (n % 16) :=
        hexDigit_digitChar (Nat.mod_lt n (by omega))
      have hsplit : n % 16 ^ (k + 1) = n / 16 % 16 ^ k * 16 + n % 16 := by
        rw [Nat.pow_succ', Nat.mod_mul]
        omega
      rw [hexDigits, bytes_append, hexValue_append (hexDigits_isSome k (n / 16)), ih]
      simp only [bytes, List.map_cons, List.map_nil, hexValue, hlast, hsplit]

theorem strtol16_wordText (w : UInt32) : strtol16 (wordText w) = min (w.toNat : Int) 2147483647 := by
  have hdrop : (wordText w).dropWhile isSpace = wordText w := rfl
  have htext : strtolPrefix (wordText w) = bytes (hexDigits 8 w.toNat) := rfl
  have hvalue : hexValue 0 (bytes (hexDigits 8 w.toNat)) = w.toNat := by
    rw [hexValue_hexDigits]
    exact Nat.mod_eq_of_lt w.toNat_lt
  rw [strtol16, hdrop]
  show min ((hexValue 0 (strtolPrefix (wordText w)) : Nat) : Int) 2147483647 = _
  rw [htext, hvalue]

theorem hexDigits_length (k n : Nat) : (hexDigits k n).length = k := by
  induction k generalizing n with
  | zero => rfl
  | succ k ih => rw [hexDigits, List.length_append, ih, List.length_singleton]

theorem wordText_length (w : UInt32) : (wordText w).length = 10 := by
  simp [wordText, bytes, hexDigits_length]

theorem replyText_fid (fid sid : UInt32) (ucJson : Bytes) :
    ((replyText fid sid ucJson).drop 8).take 10 = wordText fid := by
  simp only [replyText, List.append_assoc]
  rw [List.drop_left' (by rfl), List.take_left' (wordText_length fid)]

theorem SendsBack.frameFid (h : SendsBack P fid data json) :
    frameFid json = UInt32.ofInt (min (fid.toNat : Int) 2147483647) := by
  simp only [Transport.frameFid, Json.parseInt, h.fid, strtol16_wordText, Option.getD_some]

theorem SendsBack.frameFid_eq (h : SendsBack P fid data json) (hfid : fid < 0x80000000) :
    Transport.frameFid json = fid := by
  have hlt : fid.toNat < 2147483648 := UInt32.lt_iff_toNat_lt.1 hfid
  have hmin : min (fid.toNat : Int) 2147483647 = fid.toNat := by omega
  have hmod : ((fid.toNat : Int) % 2 ^ 32).toNat = fid.toNat := by omega
  rw [h.frameFid, hmin, UInt32.ofInt, hmod]
  exact UInt32.ofNat_toNat

theorem SendsBack.frameFid_saturated (h : SendsBack P fid data json) (hfid : 0x80000000 ≤ fid) :
    Transport.frameFid json = 0x7fffffff := by
  have hle : 2147483648 ≤ fid.toNat := UInt32.le_iff_toNat_le.1 hfid
  have hmin : min (fid.toNat : Int) 2147483647 = 2147483647 := by omega
  rw [h.frameFid, hmin]
  rfl

theorem frameNumber_eq_some {name : List Char} {i : UInt32} (h : frameNumber json name = some i) :
    ∃ v d, json.getObjectItem name = some (.number v d) ∧ v.toUInt32 = i := by
  unfold frameNumber at h
  split at h
  next v d hv => exact ⟨v, d, hv, Option.some.inj h⟩
  next => cases h

theorem SendsBack.parsed (h : SendsBack P fid data json) (h0 : Transport.frameFid json ≠ 0) :
    ∃ out, wsFrameParse P (some data) (UInt32.ofNat data.length) = .ok out ∧
      out.fid = Transport.frameFid json := by
  obtain ⟨flags, hflags⟩ := Option.isSome_iff_exists.1 h.flags
  obtain ⟨sid, hsid⟩ := Option.isSome_iff_exists.1 h.sid
  obtain ⟨f, df, hf, -⟩ := frameNumber_eq_some hflags
  obtain ⟨i, di, hi, -⟩ := frameNumber_eq_some hsid
  have hlen : (UInt32.ofNat data.length).toNat = data.length :=
    UInt32.toNat_ofNat_of_lt' h.length
  have hne : UInt32.ofNat data.length ≠ 0 := by
    intro he
    rw [← UInt32.toNat_inj, hlen] at he
    exact h.nonempty (List.length_eq_zero_iff.1 he)
  have hfid : parsedFid json ≠ wsFidReserved := parsedFid_eq json ▸ h0
  simp only [wsFrameParse, if_neg hne, hlen, List.take_length, h.parse, if_neg hfid, hf, hi]
  exact ⟨_, rfl, parsedFid_eq json⟩

theorem SendsBack.accepted (h : SendsBack P fid data json) (h0 : Transport.frameFid json ≠ 0)
    {s : Server} {sess : SessPtr} {env : TextEnv} (halloc : env.callAlloc = true)
    (hroute : (s.findHandler (Transport.frameFid json)).isSome ∨
      (s.wsGetFidQueue (Transport.frameFid json)).isSome) (conn : ConnPtr) :
    ∃ c, wsServerOnText P s conn (some sess) (some data) env =
        .ok (((s.allocCall c).toCalls s.nextCall).log (.accept s.nextCall conn json c)) ∧
      c.ulFid = Transport.frameFid json ∧
      c.fHandler = (s.findHandler (Transport.frameFid json)).map ApiHandlerItem.fHandler := by
  obtain ⟨flags, hflags⟩ := Option.isSome_iff_exists.1 h.flags
  obtain ⟨sid, hsid⟩ := Option.isSome_iff_exists.1 h.sid
  have hnot : ((s.findHandler (Transport.frameFid json)).isNone &&
      (s.wsGetFidQueue (Transport.frameFid json)).isNone) = false := by
    rcases hroute with hr | hr
    · simp [Option.isNone_eq_false_iff.2 hr]
    · simp [Option.isNone_eq_false_iff.2 hr]
  cases data with
  | nil => exact absurd rfl h.nonempty
  | cons b bs =>
      simp only [wsServerOnText, halloc, Bool.not_true, Bool.false_eq_true, if_false, h.parse,
        apiHandlerIdGeneral, if_neg h0, hflags, hsid, textCall, hnot]
      exact ⟨_, rfl, rfl, rfl⟩

theorem roundTrip_lower (h0 : fid ≠ 0) (hfid : fid < 0x80000000) : RoundTrip fid := by
  intro P data json h
  have he := h.frameFid_eq hfid
  have h0' : Transport.frameFid json ≠ 0 := by rwa [he]
  refine ⟨?_, fun s conn sess env halloc hroute => ?_⟩
  · have hparsed := h.parsed h0'
    rwa [he] at hparsed
  · rw [← he] at hroute
    have haccepted := @SendsBack.accepted P fid data json h h0' s sess env halloc hroute conn
    rwa [he] at haccepted

section Saturated

def wordRequest (word : Bytes) : Json :=
  .object [(bytes ['F', 'I', 'D'], .string word),
    (bytes ['F', 'L', 'A', 'G', 'S'], .number 0 0), (bytes ['S', 'I', 'D'], .number 1 1)]

def wordRequestText (word : Bytes) : Bytes :=
  bytes ['\x7b', '"', 'F', 'I', 'D', '"', ':', '"'] ++ word ++
    bytes ['"', ',', '"', 'F', 'L', 'A', 'G', 'S', '"', ':', '0', ',', '"', 'S', 'I', 'D', '"', ':', '1',
      '\x7d']

def wordJson (fid : UInt32) : Json := wordRequest (wordText fid)

def wordPlatform : Platform where
  parse text :=
    let word := (text.drop 8).take 10
    if wordRequestText word = text then some (wordRequest word) else none
  print _ := []
  msToTicks t := t

theorem wordRequestText_word {word : Bytes} (h : word.length = 10) :
    ((wordRequestText word).drop 8).take 10 = word := by
  rw [wordRequestText, List.append_assoc, List.drop_left' (by rfl), List.take_left' h]

theorem sendsBack_word (fid : UInt32) :
    SendsBack wordPlatform fid (wordRequestText (wordText fid)) (wordJson fid) where
  parse := by
    dsimp only [wordPlatform]
    rw [wordRequestText_word (wordText_length fid), if_pos rfl, wordJson]
  nonempty := List.cons_ne_nil _ _
  length := by
    simp [wordRequestText, bytes, wordText_length]
    decide
  fid := rfl
  flags := rfl
  sid := rfl

theorem not_roundTrip_upper (hfid : 0x80000000 ≤ fid) : ¬ RoundTrip fid := by
  intro h
  have hback := sendsBack_word fid
  have hsat := hback.frameFid_saturated hfid
  obtain ⟨out, hout, he⟩ := (h _ _ _ hback).1
  obtain ⟨out', hout', he'⟩ := hback.parsed (by rw [hsat]; decide)
  rw [hout] at hout'
  cases hout'
  rw [← he, he', hsat] at hfid
  exact absurd hfid (by decide)

end Saturated

/-- A FID survives being printed and read back exactly when it fits a signed
long. -/
theorem fid_roundTrip_iff (h0 : fid ≠ 0) : RoundTrip fid ↔ fid < 0x80000000 :=
  ⟨fun h => UInt32.not_le.1 fun hle => not_roundTrip_upper hle h, roundTrip_lower h0⟩

theorem fid_roundTrip_largest : RoundTrip 0x7fffffff ↔ (0x7fffffff : UInt32) < 0x80000000 :=
  fid_roundTrip_iff (by decide)

/-- The text of the FID 0x80001010 is read as the FID 0x7fffffff. -/
theorem fid_upper_lost : ¬ RoundTrip 0x80001010 ∧
    wordText 0x80001010 = bytes ['0', 'x', '8', '0', '0', '0', '1', '0', '1', '0'] ∧
    Transport.frameFid (wordJson 0x80001010) = 0x7fffffff :=
  ⟨not_roundTrip_upper (by decide), by decide,
    (sendsBack_word 0x80001010).frameFid_saturated (by decide)⟩

end WirelessGateway.FidText
